import VbSharp.Proofs.Block.ShortBranch

/-!
# The two forms of a branch

A branch on one line and a branch over several lines hold the same blocks if their parts are the same plain
statements. What a plain statement gives is settled by its own tokens: it makes no difference whether the tokens end
behind it, as they do in a part of a line, or whether a colon or a line end follows.
-/
namespace VbSharp

open List Token Cursor

variable {budget k found : Nat}
variable {p : Parser (Option Block)} {body : Body}

namespace Parser

variable {tokens rest after : List Token} {t : Token}

/-! ### Parts of a branch -/

/-- Plain statements with a colon between each two. -/
inductive ArePlain : List Token → Prop where
  | one {tokens : List Token} (plain : IsPlain tokens) : ArePlain tokens
  | cons {tokens rest : List Token} {colon : Token} (plain : IsPlain tokens) (ends : colon.isTerminator = true)
    (inLine : colon.isLineEnd = false) (later : ArePlain rest) : ArePlain (tokens ++ colon :: rest)

theorem ArePlain.starts (plain : ArePlain tokens) : ∃ t rest, tokens = t :: rest ∧ t.isTerminator = false := by
  have first {tokens : List Token} (plain : IsPlain tokens) :
      ∃ t rest, tokens = t :: rest ∧ t.isTerminator = false := by
    obtain ⟨t, rest, rfl, -⟩ := plain.gives
    exact ⟨t, rest, rfl, plain.inside t mem_cons_self⟩
  cases plain with
  | one plain => exact first plain
  | cons plain _ _ _ =>
    obtain ⟨t, rest, rfl, starts⟩ := first plain
    exact ⟨t, _, rfl, starts⟩

theorem ArePlain.inLine (plain : ArePlain tokens) : ∀ t ∈ tokens, t.isLineEnd = false := by
  induction plain with
  | one plain => exact fun t member => isLineEnd_of_isTerminator (plain.inside t member)
  | cons plain _ inLine _ ih =>
    refine forall_mem_append.mpr ⟨fun t member => ?_, forall_mem_cons.mpr ⟨inLine, ih⟩⟩
    exact isLineEnd_of_isTerminator (plain.inside t member)

theorem gives_turn (plain : IsPlain tokens) {ends : Ends} {found : Option Nat} {y : Option (List Block)}
    (closing : AreClosing ends) (closed : Closed after)
    (later : Gives (·, found) (blocksWithin budget ends) (after.drop 1) rest y) :
    Gives (·, found) (blocksWithin (budget + 1) ends) (tokens ++ after) rest
      ((plainOf tokens constructOrder).bind fun b => y.bind fun bs => some (b :: bs)) := by
  obtain ⟨t, others, rfl, goesOn, given⟩ := plain.gives
  refine (reads_view (a := some t) fun _ => rfl).gives ((reads_view (endAt?_none ends closing t _ goesOn)).gives ?_)
  exact (given _ _ closed).bind fun b _ => later.bind fun bs _ => reads_pure _ _

/-- What the statements of a part give, whatever ends the part. -/
def PartGives (tokens : List Token) (x : Option (List Block)) : Prop :=
  ∀ {budget : Nat} {ends : Ends} {found : Option Nat} {after : List Token}, AreClosing ends → Closed after →
    StopsAt ends (after.drop 1) found → (tokens ++ after).length ≤ budget →
    Gives (·, found) (blocksWithin budget ends) (tokens ++ after) (after.drop 1) x

theorem PartGives.alone {x : Option (List Block)} (given : PartGives tokens x) (enough : tokens.length ≤ budget) :
    ParsesAlone (blocksWithin budget) tokens x := by
  have given : Gives (·, none) (blocksWithin budget []) (tokens ++ []) [] x :=
    given (forall_mem_nil _) rfl rfl (by simpa using enough)
  rw [append_nil] at given
  exact given.alone

theorem ArePlain.exists_gives (part : ArePlain tokens) : ∃ x, PartGives tokens x := by
  induction part with
  | @one tokens plain =>
    refine ⟨(plainOf tokens constructOrder).bind fun b => some [b],
      fun {budget ends found after} closing closed stops enough => ?_⟩
    obtain ⟨t, rest, rfl, -⟩ := (ArePlain.one plain).starts
    simp only [length_append, length_cons] at enough
    obtain ⟨budget, rfl⟩ := Nat.exists_eq_add_one.mpr (by omega : 0 < budget)
    exact gives_turn (y := some []) plain closing closed (reads_stopped stops (by simp; omega))
  | @cons tokens _ _ plain ends inLine _ ih =>
    obtain ⟨y, later⟩ := ih
    refine ⟨(plainOf tokens constructOrder).bind fun b => y.bind fun bs => some (b :: bs),
      fun {budget _ found after} closing closed stops enough => ?_⟩
    simp only [length_append, length_cons] at enough
    obtain ⟨budget, rfl⟩ := Nat.exists_eq_add_one.mpr (by omega : 0 < budget)
    rw [append_assoc, cons_append]
    exact gives_turn plain closing ends (later closing closed stops (by simp; omega))

/-! ### Both forms -/

/-- The words and line ends that stand around the parts of a branch. -/
structure Frame extends Heading where
  /-- `Else` in a line, and on a line of its own. -/
  otherwise : Bool → Token
  finish : Token
  finishIf : Token
  lineEnd : Nat → Token
  isElse : ∀ alone, (otherwise alone).isKeyword "Else" = true
  isEnd : finish.isKeyword "End" = true
  isIf : finishIf.isKeywordLike "If" = true
  isLineEnd : ∀ i, (lineEnd i).isLineEnd = true

/-- `If c Then S Else T` on one line. -/
def Frame.onOneLine (f : Frame) (first : List Token) (second : Option (List Token)) : List Token :=
  f.opening :: (f.words ++ f.closing ::
    (first ++ second.elim [] (f.otherwise false :: ·) ++ [f.lineEnd 0]))

/-- The rest of a branch over several lines behind its first part. -/
def Frame.closingLines (f : Frame) : Option (List Token) → List Token
  | none => [f.finish, f.finishIf, f.lineEnd 4]
  | some second => f.otherwise true :: f.lineEnd 2 :: (second ++ f.lineEnd 3 :: [f.finish, f.finishIf, f.lineEnd 4])

/-- `If c Then`, `S`, `Else`, `T` and `End If` on lines of their own. -/
def Frame.overLines (f : Frame) (first : List Token) (second : Option (List Token)) : List Token :=
  f.opening :: (f.words ++ f.closing :: f.lineEnd 0 :: (first ++ f.lineEnd 1 :: f.closingLines second))

/-- The branch that its parts give. -/
def branchOf (condition : Expr) (x : Option (List Block)) (second : Option (Option (List Block))) : Option Block :=
  x.bind fun blocks => match second with
    | none => some (.branch condition blocks .none)
    | some y => y.bind fun others => some (.branch condition blocks (.otherwise others))

theorem branchOf_eq_some {condition : Expr} {x : Option (List Block)} {y : Option (Option (List Block))} {b : Block}
    (made : branchOf condition x y = some b) : ∃ blocks others, b = .branch condition blocks others := by
  obtain ⟨blocks, -, made⟩ := Option.bind_eq_some_iff.mp made
  cases y with
  | none => exact ⟨blocks, .none, (Option.some.inj made).symm⟩
  | some y =>
    obtain ⟨others, -, made⟩ := Option.bind_eq_some_iff.mp made
    exact ⟨blocks, .otherwise others, (Option.some.inj made).symm⟩

theorem exists_error_of_toOption {α : Type} {result : Except Fault α} (failed : result.toOption = none) :
    ∃ fault, result = .error fault := by
  cases result with
  | error fault => exact ⟨fault, rfl⟩
  | ok a => cases failed

theorem gives_bodyUntil {ends : Ends} {x : Option (List Block)}
    (given : Gives (·, some found) (body ends) tokens rest x) (openedOn : Nat) :
    Gives (·, found) (bodyUntil body ends openedOn) tokens rest x := by
  rw [← Option.bind_fun_some x]
  exact given.bind fun blocks _ => reads_pure _ _

theorem gives_bodyThrough {finish finishIf : Token} {x : Option (List Block)}
    (given : Gives (·, some 0) (body [["End", "If"]]) tokens (finish :: finishIf :: rest) x) (openedOn : Nat) :
    Gives id (bodyThrough body ["End", "If"] openedOn) tokens rest x := by
  rw [← Option.bind_fun_some x]
  exact (gives_bodyUntil given openedOn).bind fun blocks _ =>
    (reads_advance [finish, finishIf] rest 2 rfl).bind (reads_pure _ _)

namespace Frame

variable (f : Frame) {first : List Token} {second : Option (List Token)} {x : Option (List Block)}
  {y : Option (Option (List Block))}

/-- A line end, whatever stands behind it. -/
theorem closed_lineEnd (i : Nat) (rest : List Token) : Closed (f.lineEnd i :: rest) :=
  isTerminator_of_isLineEnd (f.isLineEnd i)

theorem stopsAt_finish (rest : List Token) : StopsAt [["End", "If"]] (f.finish :: f.finishIf :: rest) (some 0) := by
  refine stopsAt_single (cons_ne_nil _ _) fun _ => ?_
  simp [Cursor.startsWith, Cursor.isKeywordLikeAt, f.isEnd, f.isIf]

/-- Behind the first part of a branch over several lines its body ends, at `End If` or at `Else`. -/
theorem stopsAt_closingLines (second : Option (List Token)) :
    StopsAt clauseEnds (f.closingLines second) (some (if second.isSome then 1 else 2)) := by
  have noElse (word : String) := isKeyword_of_same (f.isElse true) word
  have noEnd (word : String) := isKeyword_of_same f.isEnd word
  cases second with
  | none =>
    refine ⟨cons_ne_nil _ _, fun _ => ?_⟩
    simp +decide [closingLines, endAt?, clauseEnds, Cursor.startsWith, Cursor.isKeywordLikeAt, findIdx?_cons, noEnd,
      f.isIf]
  | some tokens =>
    refine ⟨cons_ne_nil _ _, fun _ => ?_⟩
    simp +decide [closingLines, endAt?, clauseEnds, Cursor.startsWith, findIdx?_cons, noElse]

theorem gives_longBranch (given : PartGives first x) (givenElse : Option.Rel PartGives second y)
    (enough : (first ++ f.lineEnd 1 :: f.closingLines second).length ≤ budget) (condition : Expr) (openedOn : Nat) :
    Gives id (longBranch (blocksWithin budget) condition openedOn) (first ++ f.lineEnd 1 :: f.closingLines second) []
      (branchOf condition x y) := by
  have body := given areClosing_clauseEnds (f.closed_lineEnd 1 _) (f.stopsAt_closingLines second) enough
  refine (gives_bodyUntil body openedOn).bind fun blocks _ => (reads_view_rest length _).gives ?_
  have finished : Reads expectTerminator [f.lineEnd 4] () [] := reads_expectTerminator (f.closed_lineEnd 4 []) []
  cases givenElse with
  | none =>
    have rest : Reads (alternative (blocksWithin budget) openedOn 3 2) (f.closingLines none) .none [] :=
      .bind (reads_advance [f.finish, f.finishIf] [f.lineEnd 4] 2 rfl) (.bind finished (reads_pure _ _))
    exact rest.bind (reads_pure _ _)
  | @some tokens y given =>
    simp only [closingLines, length_append, length_cons] at enough
    have part := given (areClosing_single ["If"] (by decide)) (f.closed_lineEnd 3 _) (f.stopsAt_finish [f.lineEnd 4])
      (by simp only [length_append, length_cons]; omega : _ ≤ budget)
    have rest (limit : Nat) : Gives .otherwise (alternative (blocksWithin budget) openedOn (limit + 1) 1)
        (f.closingLines (some tokens)) [] y := by
      rw [← Option.bind_fun_some y]
      refine (reads_advance_one _ _).gives ((reads_skipTerminator (f.closed_lineEnd 2 []) _).gives ?_)
      exact (gives_bodyThrough part openedOn).bind fun others _ => finished.bind (reads_pure _ _)
    exact (rest _).bind fun others _ => reads_pure _ _

theorem gives_shortBranch (part : ArePlain first) (plain : ∀ t ∈ first, t.isKeyword "Else" = false)
    (parts : ∀ tokens ∈ second, ArePlain tokens) (given : PartGives first x) (givenElse : Option.Rel PartGives second y)
    (enough : (first ++ second.elim [] (f.otherwise false :: ·)).length ≤ budget) (condition : Expr) (openedOn : Nat) :
    Gives id (shortBranch (blocksWithin budget) condition openedOn)
      (first ++ second.elim [] (f.otherwise false :: ·) ++ [f.lineEnd 0]) [] (branchOf condition x y) := by
  have filled : first ≠ [] := by
    obtain ⟨t, rest, rfl, -⟩ := part.starts
    exact cons_ne_nil t rest
  have ended : [f.lineEnd 0].head?.all Token.isLineEnd = true := f.isLineEnd 0
  cases givenElse with
  | none =>
    simp only [Option.elim_none, append_nil] at enough ⊢
    exact Parser.gives_shortBranch filled part.inLine plain (given.alone enough) ended condition openedOn
  | @some tokens y givenElse =>
    simp only [Option.elim_some, length_append, length_cons] at enough ⊢
    have noEnd := isLineEnd_of_isTerminator (isTerminator_of_isKeyword (f.isElse false))
    have inLine : ∀ t ∈ first ++ f.otherwise false :: tokens, t.isLineEnd = false :=
      forall_mem_append.mpr ⟨part.inLine, forall_mem_cons.mpr ⟨noEnd, (parts tokens rfl).inLine⟩⟩
    exact gives_shortBranch_else filled inLine plain (f.isElse false) (given.alone (by omega))
      (givenElse.alone (by omega)) ended condition openedOn

/-- The only block of a program that is a branch. -/
theorem parseBlocks_branch {tokens : List Token} {z : Option Block}
    (given : Gives some (branch (blocksWithin tokens.length)) (f.opening :: tokens) [] z) :
    (parseBlocks (f.opening :: tokens)).toOption = z.bind fun b => some [b] := by
  refine parseBlocks_of_alone ?_
  have whole := f.toHeading.gives_blocksWithin tokens.length given
  cases z with
  | none => exact fun log => whole _ log
  | some b => exact Gives.alone (x := some [b]) whole

end Frame

/-- A branch on one line and one over several lines with the same parts are the same block, or neither is one. -/
theorem branch_forms_agree (f : Frame) {first : List Token} {second : Option (List Token)} (part : ArePlain first)
    (plain : ∀ t ∈ first, t.isKeyword "Else" = false) (parts : ∀ tokens ∈ second, ArePlain tokens) :
    (∃ fault other, parseBlocks (f.onOneLine first second) = .error fault ∧
      parseBlocks (f.overLines first second) = .error other) ∨
    ∃ condition blocks others, parseBlocks (f.onOneLine first second) = .ok [.branch condition blocks others] ∧
      parseBlocks (f.overLines first second) = .ok [.branch condition blocks others] := by
  obtain ⟨x, given⟩ := part.exists_gives
  obtain ⟨y, givenElse⟩ : ∃ y, Option.Rel PartGives second y := by
    cases second with
    | none => exact ⟨none, .none⟩
    | some tokens =>
      obtain ⟨y, given⟩ := (parts tokens rfl).exists_gives
      exact ⟨some y, .some given⟩
  obtain ⟨t, more, rfl, starts⟩ := part.starts
  have short : (parseBlocks (f.onOneLine (t :: more) second)).toOption =
      (f.condition?.bind fun e => branchOf e x y).bind fun b => some [b] := by
    refine f.parseBlocks_branch (f.gives_branch_line starts fun e openedOn => ?_)
    exact f.gives_shortBranch part plain parts given givenElse (by simp; omega) e openedOn
  have long : (parseBlocks (f.overLines (t :: more) second)).toOption =
      (f.condition?.bind fun e => branchOf e x y).bind fun b => some [b] := by
    refine f.parseBlocks_branch (f.gives_branch_lines (f.closed_lineEnd 0 []) fun e openedOn => ?_)
    exact f.gives_longBranch given givenElse (by simp; omega) e openedOn
  cases found : f.condition?.bind fun e => branchOf e x y with
  | none =>
    rw [found] at short long
    obtain ⟨fault, failed⟩ := exists_error_of_toOption short
    obtain ⟨other, failed'⟩ := exists_error_of_toOption long
    exact .inl ⟨fault, other, failed, failed'⟩
  | some b =>
    rw [found] at short long
    obtain ⟨e, -, made⟩ := Option.bind_eq_some_iff.mp found
    obtain ⟨blocks, others, rfl⟩ := branchOf_eq_some made
    exact .inr ⟨e, blocks, others, eq_ok_of_toOption short, eq_ok_of_toOption long⟩

/-- The words around `If a Then` and the parts of a branch. -/
def sampleFrame : Frame where
  opening := ⟨.keyword, "If", 0⟩
  words := [⟨.name, "a", 0⟩]
  closing := ⟨.keyword, "Then", 0⟩
  otherwise _ := ⟨.keyword, "Else", 0⟩
  finish := ⟨.keyword, "End", 0⟩
  finishIf := ⟨.keyword, "If", 0⟩
  lineEnd := Token.lineEnd
  opens := by decide
  closes := by decide
  plain := by decide
  isElse := by decide
  isEnd := by decide
  isIf := by decide
  isLineEnd _ := rfl

/-- `x = 1 : Exit Sub`. -/
def sampleStatements : List Token :=
  [⟨.name, "x", 0⟩, ⟨.comparison, "=", 0⟩, ⟨.number, "1", 0⟩, ⟨.terminator, ":", 0⟩, ⟨.keyword, "Exit", 0⟩,
    ⟨.keyword, "Sub", 0⟩]

theorem arePlain_sampleStatements : ArePlain sampleStatements :=
  .cons (show IsPlain [_, _, _] from ⟨by decide, by decide, by decide⟩) (by decide) (by decide)
    (.one ⟨by decide, by decide, by decide⟩)

/-- `If a Then x = 1 : Exit Sub Else x = 1 : Exit Sub` is the same branch in both forms. -/
theorem branch_forms_agree_exit : ∃ condition blocks others,
    parseBlocks (sampleFrame.onOneLine sampleStatements (some sampleStatements)) = .ok [.branch condition blocks others] ∧
    parseBlocks (sampleFrame.overLines sampleStatements (some sampleStatements)) = .ok [.branch condition blocks others] := by
  have plain := arePlain_sampleStatements
  have parsed : (parseBlocks (sampleFrame.onOneLine sampleStatements (some sampleStatements))).toBool = true := by
    decide +kernel
  obtain ⟨fault, -, failed, -⟩ | agree := @branch_forms_agree sampleFrame sampleStatements (some sampleStatements) plain
    (by decide) (by rintro _ ⟨⟩; exact plain)
  · simp [failed, Except.toBool] at parsed
  · exact agree

end Parser
end VbSharp
