import VbSharp.Proofs.CSharp.Brace
import VbSharp.Proofs.CaseInsensitive
import VbSharp.Proofs.Token.Lines

/-!
# Empty lines above a script

Empty lines above a script move everything that is said about it so many lines down, and nothing else: the same fault
is reported that much further down, or the same code comes out, with the same warnings about lines that much further
down. One report does not move, since the block that it is about has no line of its own: `Option Explicit` in a class.
-/
namespace VbSharp

open List CSharp.Stmt
open CSharp (Line Stmt)

variable {t : Token} {ends others names : List Token} {α β : Type} {fault f g : Fault}

variable (settings : Settings)

/-- So many empty lines. -/
def emptyLines (k : Nat) : String :=
  String.ofList (replicate k '\n')

theorem emptyLines_succ (k : Nat) (script : String) :
    emptyLines (k + 1) ++ script = "\n" ++ (emptyLines k ++ script) := by
  apply String.toList_inj.mp
  simp [emptyLines, replicate_succ]

/-! ### Tokens -/

theorem Fault.shift_shift (m n : Nat) (f : Fault) : (f.shift m).shift n = f.shift (m + n) := by
  cases f with
  | inconsistent defect => cases defect <;> simp [Fault.shift, Defect.shift, Nat.add_assoc]
  | _ => simp [Fault.shift, Nat.add_assoc]

theorem shiftResult_map (m n : Nat) (front : List Token) (result : Except Fault (List Token)) :
    shiftResult n ((shiftResult m result).map (front ++ ·)) =
      (shiftResult (m + n) result).map (front.map (Token.shift n) ++ ·) := by
  cases result with
  | error f => exact congrArg Except.error (f.shift_shift m n)
  | ok tokens =>
    have twice : (tokens.map (Token.shift m)).map (Token.shift n) = tokens.map (Token.shift (m + n)) := by
      rw [map_map]
      apply map_congr_left
      simp [Token.shift, Nat.add_assoc]
    simp only [shiftResult, Except.map, Except.mapError, map_append, twice]

/-- Empty lines are so many line ends, and the tokens of the script stand below them. -/
theorem scanTokens_emptyLines (k : Nat) (script : String) :
    ∃ ends : List Token, ends.length = k ∧ (∀ t ∈ ends, t.isLineEnd = true) ∧
      scanTokens (emptyLines k ++ script) = (shiftResult k (scanTokens script)).map (ends ++ ·) := by
  induction k with
  | zero =>
    refine ⟨[], rfl, forall_mem_nil _, ?_⟩
    have none : emptyLines 0 ++ script = script := String.empty_append
    rw [none, shiftResult_zero]
    cases scanTokens script <;> rfl
  | succ k ih =>
    obtain ⟨ends, count, all, scanned⟩ := ih
    refine ⟨.lineEnd 0 :: ends.map (Token.shift 1), by simp [count], ?_, ?_⟩
    · intro t member
      rcases mem_cons.mp member with rfl | listed
      · rfl
      · obtain ⟨u, isEnd, rfl⟩ := mem_map.mp listed
        exact all u isEnd
    · have first : scanTokens "\n" = .ok [.lineEnd 0] := rfl
      rw [emptyLines_succ, scanTokens_append _ rfl first, scanned]
      change (shiftResult 1 _).map _ = _
      rw [shiftResult_map]
      cases shiftResult (k + 1) (scanTokens script) <;> rfl

/-! ### Blocks -/

theorem Token.eq_lineEnd (isEnd : t.isLineEnd = true) : t = .lineEnd t.line := by
  obtain ⟨kind, text, line⟩ := t
  simp only [Token.isLineEnd, Bool.and_eq_true, beq_iff_eq] at isEnd
  obtain ⟨rfl, rfl⟩ := isEnd
  rfl

theorem blocksOfTokens_lineEnd (isEnd : t.isLineEnd = true) (tokens : List Token) :
    blocksOfTokens (t :: tokens) = (blocksOfTokens tokens).map (.blankLine :: ·) := by
  have stops : t.isTerminator = true := by
    rw [Token.eq_lineEnd isEnd]
    rfl
  have alone : joinNumerals [t] = .ok [t] ∧ combineOperators [t] = [t] ∧ parseBlocks [t] = .ok [.blankLine] := by
    rw [Token.eq_lineEnd isEnd]
    exact ⟨rfl, rfl, rfl⟩
  obtain ⟨joined, combined, parsed⟩ := alone
  have joinedMore : joinNumerals (t :: tokens) = (joinNumerals tokens).map ([t] ++ ·) :=
    joinNumerals_terminator stops [] tokens joined
  unfold blocksOfTokens
  rw [joinedMore]
  cases joinNumerals tokens with
  | error f => rfl
  | ok more =>
    have combinedMore : combineOperators (t :: more) = combineOperators [t] ++ combineOperators more :=
      (combineOperators_terminator stops [] more).2
    change parseBlocks (combineOperators (t :: more)) = _
    rw [combinedMore, combined, parseBlocks_append (by simpa using isEnd) parsed]
    rfl

theorem blocksOfTokens_lineEnds (all : ∀ t ∈ ends, t.isLineEnd = true) (tokens : List Token) :
    blocksOfTokens (ends ++ tokens) = (blocksOfTokens tokens).map (replicate ends.length .blankLine ++ ·) := by
  induction ends with
  | nil =>
    rw [nil_append]
    cases blocksOfTokens tokens <;> rfl
  | cons t rest ih =>
    obtain ⟨isEnd, later⟩ := forall_mem_cons.mp all
    rw [cons_append, blocksOfTokens_lineEnd isEnd, ih later]
    cases blocksOfTokens tokens <;> rfl

/-! ### Code -/

namespace Lower

/-- Where no comment goes behind the statements before them, blocks are lowered on their own. -/
theorem blocks_behind {ctx : Context} {scope : Scope} {pending : List Stmt} {bs : List Block}
    (apart : ∀ text rest, bs = .comment text true :: rest → addRemark? text pending = none) :
    blocks ctx scope pending bs = (fun out => { stmts := pending } ++ out) <$> blocks ctx scope [] bs := by
  have alone (b : Block) (rest : List Block) :
      (do let out ← block ctx scope b; let more ← blocks ctx scope out.stmts rest
          return { out with stmts := pending } ++ more : Lowering Emission) =
        (fun out => { stmts := pending } ++ out) <$>
          (do let out ← block ctx scope b; let more ← blocks ctx scope out.stmts rest
              return { out with stmts := [] } ++ more) := by
    simp only [map_eq_pure_bind, bind_assoc, pure_bind]
    rfl
  cases bs with
  | nil =>
    exact congrArg pure (congrArg (Emission.mk · [] [] [] []) (append_nil pending).symm)
  | cons b rest =>
    cases b with
    | comment text inline =>
      cases inline with
      | false => simpa only [blocks] using alone (.comment text false) rest
      | true =>
        have bare : addRemark? text [] = none := rfl
        simp only [blocks, apart text rest rfl, bare, map_eq_pure_bind, bind_assoc, pure_bind]
        rfl
    | _ => simpa only [blocks] using alone _ rest

theorem blocks_blankLines (ctx : Context) (scope : Scope) (k : Nat) (bs : List Block) :
    blocks ctx scope [] (replicate k .blankLine ++ bs) =
      (fun out => { stmts := replicate k .blank } ++ out) <$> blocks ctx scope [] bs := by
  induction k with
  | zero => exact (id_map _).symm
  | succ k ih =>
    have blank : block ctx scope .blankLine = pure { stmts := [.blank] } := by
      simp only [block, isMember, Bool.not_true, Bool.and_false, Bool.false_eq_true, if_false]
    rw [replicate_succ, cons_append, blocks, blank, pure_bind, blocks_behind fun _ _ _ => rfl, ih]
    · simp only [map_eq_pure_bind, bind_assoc, pure_bind]
      rfl
    · intro text same
      cases same

/-- The blank lines above a program are never superseded. -/
theorem dropSuperseded_blankLines (k : Nat) (source : List Block) :
    dropSuperseded (replicate k .blankLine ++ source) = replicate k .blankLine ++ dropSuperseded source := by
  induction k with
  | zero => rfl
  | succ k ih =>
    rw [replicate_succ, cons_append, dropSuperseded, ih]
    rfl

theorem declared_blankLines (k : Nat) (source : List Block) :
    Declared.ofBlocks (replicate k .blankLine ++ source) = Declared.ofBlocks source := by
  induction k with
  | zero => rfl
  | succ k ih =>
    rw [replicate_succ, cons_append, Declared.ofBlocks, ih]
    rfl

/-- Whether the outermost code of blocks becomes a class. -/
def becomesClass (kept : List Block) : Bool :=
  !(Declared.ofBlocks kept).classes.isEmpty

/-- What the blocks of a program become. -/
def emission (settings : Settings) (kept : List Block) : Except Fault Emission :=
  match blocks ⟨settings.culture, becomesClass kept⟩ (Scope.ofProgram kept settings.externalReferences) [] kept {} with
  | .ok out _ => .ok out
  | .error fault _ => .error fault

theorem bind_of_ok {c : Lowering α} {next : α → Lowering β} {p q : Progress} {a : α} (ran : c p = .ok a q) :
    (c >>= next) p = next a q := by
  change EStateM.bind c next p = _
  rw [EStateM.bind, ran]

theorem bind_of_error {c : Lowering α} {next : α → Lowering β} {p q : Progress} (ran : c p = .error fault q) :
    (c >>= next) p = .error fault q := by
  change EStateM.bind c next p = _
  rw [EStateM.bind, ran]

/-- A program is put together from what its blocks become, whatever is logged on the way. -/
theorem lowerBlocks_eq (source : List Block) :
    lowerBlocks settings source =
      (emission settings (dropSuperseded source)).map (assembled (becomesClass (dropSuperseded source))) := by
  obtain ⟨result, later, events, -, -, ran⟩ := logs_blocks ⟨settings.culture, becomesClass (dropSuperseded source)⟩
    (Scope.ofProgram (dropSuperseded source) settings.externalReferences) [] 0 (dropSuperseded source)
  unfold lowerBlocks emission
  rw [show ({} : Progress) = ⟨0, []⟩ from rfl, ran []]
  cases result with
  | error fault =>
    have failed : ∃ p, (program settings source).run ⟨0, []⟩ = .error fault p :=
      ⟨_, (bind_of_ok (forM_report _ _ _)).trans (bind_of_error (ran _))⟩
    obtain ⟨p, failed⟩ := failed
    rw [failed]
    rfl
  | ok out =>
    have made : ∃ p, (program settings source).run ⟨0, []⟩ =
        .ok (assembled (becomesClass (dropSuperseded source)) out) p :=
      ⟨_, (bind_of_ok (forM_report _ _ _)).trans
        ((bind_of_ok (ran _)).trans ((bind_of_ok (forM_report _ _ _)).trans rfl))⟩
    obtain ⟨p, made⟩ := made
    rw [made]
    rfl

/-- Blank lines above a program stay above what its blocks become. -/
theorem lowerBlocks_blankLines (k : Nat) (source : List Block) :
    lowerBlocks settings (replicate k .blankLine ++ source) = (emission settings (dropSuperseded source)).map fun out =>
        assembled (becomesClass (dropSuperseded source)) ({ stmts := replicate k .blank } ++ out) := by
  have sameScope : Scope.ofProgram (replicate k .blankLine ++ dropSuperseded source) settings.externalReferences =
      Scope.ofProgram (dropSuperseded source) settings.externalReferences := by
    simp only [Scope.ofProgram, declared_blankLines]
  rw [lowerBlocks_eq, dropSuperseded_blankLines, emission, emission, becomesClass, declared_blankLines,
    ← becomesClass, sameScope, blocks_blankLines]
  generalize blocks ⟨settings.culture, becomesClass (dropSuperseded source)⟩
    (Scope.ofProgram (dropSuperseded source) settings.externalReferences) [] (dropSuperseded source) = lowering
  have mapped : (((fun out => { stmts := replicate k .blank } ++ out) <$> lowering : Lowering Emission) {}) =
      match lowering {} with
      | .ok out p => .ok ({ stmts := replicate k .blank } ++ out) p
      | .error fault p => .error fault p := by
    change EStateM.map _ lowering _ = _
    rw [EStateM.map]
    cases lowering {} <;> rfl
  rw [mapped]
  cases lowering {} <;> rfl

/-! ### Lines -/

theorem linesOf_append (depth : Nat) (a b : List Stmt) :
    linesOf depth (a ++ b) = linesOf depth a ++ linesOf depth b := by
  induction a with
  | nil => rfl
  | cons s rest ih => rw [cons_append, linesOf, linesOf, ih, append_assoc]

theorem code_blanks (depth k : Nat) : Line.code (linesOf depth (replicate k .blank)) = [] := by
  induction k with
  | zero => rfl
  | succ k ih => exact ih

theorem trim_blanks (k : Nat) (stmts : List Stmt) : trim (replicate k .blank ++ stmts) = trim stmts := by
  induction k with
  | zero => rfl
  | succ k ih => exact ih

variable (k : Nat) (asClass : Bool) (out : Emission)

theorem classes_assembled_blanks :
    (assembled asClass ({ stmts := replicate k .blank } ++ out)).classes = (assembled asClass out).classes := by
  cases asClass with
  | false => rfl
  | true =>
    have outer (fields : List Stmt) : outerClassStmt fields (replicate k .blank ++ out.stmts) out.methods =
        outerClassStmt fields out.stmts out.methods := by
      simp only [outerClassStmt, trim_blanks]
    exact congrArg (fun s => s :: _) (outer _)

theorem code_assembled_blanks :
    Line.code (linesOf 0 (assembled asClass ({ stmts := replicate k .blank } ++ out)).body) =
      Line.code (linesOf 0 (assembled asClass out).body) := by
  cases asClass with
  | true => rfl
  | false =>
    have gap (c : Bool) : Line.code (linesOf 0 (if c then [] else [.blank])) = [] := by
      cases c <;> rfl
    change Line.code (linesOf 0 (_ ++ (if _ then [] else [.blank]) ++ (replicate k .blank ++ out.stmts))) =
      Line.code (linesOf 0 (_ ++ (if _ then [] else [.blank]) ++ out.stmts))
    simp only [linesOf_append, code_append, gap, code_blanks, nil_append, append_nil]
    rfl

end Lower

/-! ### Scripts -/

/-- The texts are the same, and the second script stands so many lines further down; the blocks of the first one say
whether `Option Explicit` stands in a class. -/
def Likeness.below (k : Nat) (blocks : List Block) : Likeness :=
  { Likeness.lower k with optionInClass := Block.listOptionInClass false blocks = true }

section Below

variable {k : Nat} {blocks : List Block}

theorem text_below : (Likeness.below k blocks).text = id :=
  Likeness.text_of_view rfl

instance : (Likeness.below k blocks).IsFree :=
  ⟨fun _ => trivial, trivial⟩

theorem tokens_below (tokens : List Token) :
    Forall₂ (Token.Alike (Likeness.below k blocks)) tokens (tokens.map (Token.shift k)) := by
  rw [forall₂_map_right_iff, forall₂_same]
  exact fun _ _ => ⟨⟨rfl, rfl, rfl⟩, fun _ => rfl, trivial⟩

theorem blocksOfTokens_below (k : Nat) (blocks : List Block) (tokens : List Token) :
    (Likeness.below k blocks).Results (Forall₂ (Block.Alike (.below k blocks))) (blocksOfTokens tokens)
      (blocksOfTokens (tokens.map (Token.shift k))) :=
  (joinNumerals_alike (tokens_below tokens)).bind fun joined => parseBlocks_alike (.of_alike (combineOperators_alike joined))

theorem Fault.Alike.shift_or_option (alike : f.Alike (.below k blocks) g) :
    g = f.shift k ∨ f = .malformed 1 .strayInClass ∧ g = .malformed 1 .strayInClass ∧
      Block.listOptionInClass false blocks = true := by
  cases alike with
  | optionInClass found => exact .inr ⟨rfl, rfl, found⟩
  | same looks =>
    rw [text_below, Fault.mapText_id, Fault.mapText_id] at looks
    exact .inl looks.symm

theorem linesOf_below {stmts others : List Stmt} (alike : Forall₂ (Stmt.Alike (.below k blocks)) stmts others) :
    linesOf 0 stmts = linesOf 0 others := by
  rw [← forall₂_eq_eq_eq]
  refine (linesOf_alike alike 0).imp fun l m same => ?_
  have texts := same.text
  rw [text_below] at texts
  exact congrArg₂ Line.mk same.depth texts

end Below

/-- What is said of a script that has been moved down by so many lines, next to what is said of it where it was: the
same fault that much further down, or the same code with the same warnings about names that much further down. -/
inductive MovedDown (k : Nat) : Except Fault Program → Except Fault Program → Prop where
  | fault (f : Fault) : MovedDown k (.error f) (.error (f.shift k))
  | program {p q : Program} (names : List Token) (body : Line.code q.body = Line.code p.body)
    (others : q = { p with body := q.body, warnings := q.warnings })
    (warnings : p.warnings = names.map Lower.undeclaredWarning)
    (moved : q.warnings = (names.map (Token.shift k)).map Lower.undeclaredWarning) : MovedDown k (.ok p) (.ok q)

theorem MovedDown.fault_eq {k : Nat} (moved : MovedDown k (.error f) (.error g)) : g = f.shift k := by
  cases moved
  rfl

/-- The program of blocks, and that of the same blocks further down with blank lines above them. -/
theorem lowered_below {k : Nat} {blocks others : List Block}
    (alike : Forall₂ (Block.Alike (.below k blocks)) blocks others) :
    MovedDown k ((lowerBlocks settings blocks).map (.ofLowered settings))
      ((lowerBlocks settings (replicate k .blankLine ++ others)).map (.ofLowered settings)) ∨
    lowerBlocks settings blocks = .error (.malformed 1 .strayInClass) ∧
      lowerBlocks settings (replicate k .blankLine ++ others) = .error (.malformed 1 .strayInClass) ∧
      Block.listOptionInClass false blocks = true := by
  have lowered := lowerBlocks_alike settings alike fun found => .inr found
  rw [Lower.lowerBlocks_eq settings others] at lowered
  rw [Lower.lowerBlocks_blankLines]
  generalize lowerBlocks settings blocks = one at lowered ⊢
  cases made : Lower.emission settings (Lower.dropSuperseded others) with
  | error g =>
    rw [made] at lowered
    cases lowered with
    | @error f _ alike =>
      rcases alike.shift_or_option with rfl | ⟨rfl, rfl, found⟩
      · exact .inl (.fault f)
      · exact .inr ⟨rfl, rfl, found⟩
  | ok out =>
    rw [made] at lowered
    cases lowered with
    | @ok x _ alike =>
      -- both programs are alike before blank lines come into the second one
      have body := linesOf_below alike.body
      have classes := linesOf_below alike.classes
      obtain ⟨names, moved, named, warned, wary⟩ := alike.warnings
      obtain rfl := forall₂_eq_shift rfl (named.imp fun _ _ => Token.Alike.toResembles)
      refine .inl (.program names ?_ ?_ warned wary)
      · change Line.code (linesOf 0 _) = Line.code (linesOf 0 x.body)
        rw [Lower.code_assembled_blanks, body]
      · change Program.mk _ (linesOf 0 _) _ _ _ _ = Program.mk _ (linesOf 0 x.classes) _ _ x.dates _
        rw [Lower.classes_assembled_blanks, classes, alike.dates]
        rfl

/-- The blocks of a script, and those of the same script below empty lines. -/
theorem scriptBlocks_below (k : Nat) (script : String) :
    (∃ f, scriptBlocks script = .error f ∧ scriptBlocks (emptyLines k ++ script) = .error (f.shift k)) ∨
    ∃ blocks others, scriptBlocks script = .ok blocks ∧
      scriptBlocks (emptyLines k ++ script) = .ok (replicate k .blankLine ++ others) ∧
      Forall₂ (Block.Alike (.below k blocks)) blocks others := by
  obtain ⟨ends, rfl, all, scanned⟩ := scanTokens_emptyLines k script
  unfold scriptBlocks
  rw [scanned]
  cases tokenized : scanTokens script with
  | error f => exact .inl ⟨f, rfl, rfl⟩
  | ok tokens =>
    have behind := blocksOfTokens_lineEnds all (tokens.map (Token.shift ends.length))
    have read (blocks : List Block) := blocksOfTokens_below ends.length blocks tokens
    generalize blocksOfTokens (tokens.map (Token.shift ends.length)) = other at behind read
    cases parsed : blocksOfTokens tokens with
    | error f =>
      left
      have failed := read []
      rw [parsed] at failed
      cases failed with
      | error alike =>
        -- no blocks have been read, so no class has been seen
        rcases alike.shift_or_option with rfl | ⟨-, -, found⟩
        · exact ⟨f, parsed, behind⟩
        · cases found
    | ok blocks =>
      right
      have same := read blocks
      rw [parsed] at same
      cases same with
      | @ok _ others alike => exact ⟨blocks, others, parsed, behind, alike⟩

/-- `Option Explicit` stands in a class, and the script is refused for it on the first line, also below empty lines. -/
structure StaysOnFirstLine (settings : Settings) (script : String) (k : Nat) : Prop where
  lines : 0 < k
  option : ∃ blocks, scriptBlocks script = .ok blocks ∧ Block.listOptionInClass false blocks = true
  alone : compile settings script = .error (.malformed 1 .strayInClass)
  below : compile settings (emptyLines k ++ script) = .error (.malformed 1 .strayInClass)

theorem movedDown_or_stays (script : String) (k : Nat) :
    MovedDown k (compile settings script) (compile settings (emptyLines k ++ script)) ∨
      StaysOnFirstLine settings script k := by
  have compiled {source : String} {blocks : List Block} (parsed : scriptBlocks source = .ok blocks) :
      compile settings source = (lowerBlocks settings blocks).map (.ofLowered settings) := by
    rw [compile_eq, stages, parsed]
    rfl
  rcases scriptBlocks_below k script with ⟨f, failed, below⟩ | ⟨blocks, others, parsed, below, alike⟩
  · rw [compile_eq, compile_eq, stages, stages, failed, below]
    exact .inl (.fault f)
  · rcases lowered_below settings alike with moved | ⟨refused, stays, found⟩
    · rw [compiled parsed, compiled below]
      exact .inl moved
    · have alone : compile settings script = .error (.malformed 1 .strayInClass) := by
        rw [compiled parsed, refused]
        rfl
      have lower : compile settings (emptyLines k ++ script) = .error (.malformed 1 .strayInClass) := by
        rw [compiled below, stays]
        rfl
      by_cases level : k = 0
      · -- where nothing is moved, the first line is the right one
        rw [alone, lower, level]
        exact .inl (.fault _)
      · exact .inr ⟨Nat.pos_of_ne_zero level, ⟨blocks, parsed, found⟩, alone, lower⟩

/-- Empty lines above a script move all reports down and change no code, with one exception: a script that is refused
for an `Option Explicit` in a class is refused on the first line, however many empty lines stand above it. -/
theorem compile_below_empty_lines (settings : Settings) (script : String) (k : Nat) :
    MovedDown k (compile settings script) (compile settings (emptyLines k ++ script)) ↔
      ¬ StaysOnFirstLine settings script k := by
  constructor
  · intro moved stays
    rw [stays.alone, stays.below] at moved
    obtain ⟨lines, -⟩ := Fault.malformed.inj moved.fault_eq
    have below := stays.lines
    omega
  · intro moves
    exact (movedDown_or_stays settings script k).resolve_right moves

/-- `Option Explicit` in a class, one line below the first, is said to stand on the first line. -/
theorem option_in_class_stays_on_first_line :
    let script := "Class C : Option Explicit : End Class"
    compile {} script = .error (.malformed 1 .strayInClass) ∧
      compile {} (emptyLines 1 ++ script) = .error (.malformed 1 .strayInClass) ∧
      ¬ MovedDown 1 (compile {} script) (compile {} (emptyLines 1 ++ script)) := by
  intro script
  have above : compile {} script = .error (.malformed 1 .strayInClass) := by decide +kernel
  have below : compile {} (emptyLines 1 ++ script) = .error (.malformed 1 .strayInClass) := by decide +kernel
  refine ⟨above, below, ?_⟩
  rw [above, below]
  intro moved
  exact absurd moved.fault_eq (by decide)

end VbSharp
