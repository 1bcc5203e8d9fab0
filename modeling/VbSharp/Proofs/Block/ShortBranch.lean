import VbSharp.Proofs.Block.Budget
import VbSharp.Proofs.Block.Roundtrip
import VbSharp.Proofs.Block.WordOrder
import VbSharp.Proofs.Expr.Joining

/-!
# Branches on one line

Branches on one line nest by standing behind each other, each behind the `Then` of the one before. The line
is cut at its first `Else` before anything behind the first `Then` is parsed, so an `Else` belongs to the
branch that opens the line and not to the nearest one.
-/
namespace VbSharp

open List Token

variable {first word : Token}
namespace Parser

variable (cs : List Clause) (outer : Clause) (inner : List Clause)

/-! ### Lines of branches -/

/-- The words of a branch up to its `Then`, with the condition they spell. -/
structure Clause where
  opening : Token
  words : List Token
  closing : Token
  condition : Expr
  opens : opening.isKeyword "If" = true
  closes : closing.isKeyword "Then" = true
  plain : ∀ t ∈ words, t.isTerminator = false ∧ t.isKeyword "Then" = false
  spells : ∀ line, Expr.read words line = .ok condition

/-- The tokens of branches that stand behind each other, before the rest of their line. -/
def Clause.line : List Clause → List Token → List Token
  | [], rest => rest
  | c :: cs, rest => c.opening :: (c.words ++ c.closing :: line cs rest)

/-- Branches inside each other, all without a second part. -/
def Clause.nest : List Clause → List Block → List Block
  | [], blocks => blocks
  | c :: cs, blocks => [.branch c.condition (nest cs blocks) .none]

/-- Branches inside each other, of which the innermost has a second part. -/
def Clause.nearest : List Clause → List Block → List Block → List Block
  | [], blocks, _ => blocks
  | [c], blocks, others => [.branch c.condition blocks (.otherwise others)]
  | c :: d :: cs, blocks, others => [.branch c.condition (nearest (d :: cs) blocks others) .none]

/-! ### The words of a clause -/

theorem Clause.isLineEnd_line {cs : List Clause} {rest : List Token}
    (goesOn : ∀ t ∈ rest, t.isLineEnd = false) : ∀ t ∈ Clause.line cs rest, t.isLineEnd = false := by
  induction cs with
  | nil => exact goesOn
  | cons c cs ih =>
    rw [Clause.line, forall_mem_cons, forall_mem_append, forall_mem_cons]
    refine ⟨?_, ?_, ?_, ih⟩
    · exact isLineEnd_of_isTerminator (isTerminator_of_isKeyword c.opens)
    · exact fun t member => isLineEnd_of_isTerminator (c.plain t member).1
    · exact isLineEnd_of_isTerminator (isTerminator_of_isKeyword c.closes)

theorem Clause.isElse_line {cs : List Clause} {rest : List Token}
    (plain : ∀ c ∈ cs, ∀ t ∈ c.words, t.isKeyword "Else" = false) (goesOn : ∀ t ∈ rest, t.isKeyword "Else" = false) :
    ∀ t ∈ Clause.line cs rest, t.isKeyword "Else" = false := by
  induction cs with
  | nil => exact goesOn
  | cons c cs ih =>
    obtain ⟨here, later⟩ := forall_mem_cons.mp plain
    rw [Clause.line, forall_mem_cons, forall_mem_append, forall_mem_cons]
    refine ⟨?_, here, ?_, ih later⟩
    · rw [isKeyword_of_same c.opens]
      decide
    · rw [isKeyword_of_same c.closes]
      decide

theorem Clause.line_append (front rest : List Token) :
    Clause.line cs (front ++ rest) = Clause.line cs front ++ rest := by
  induction cs with
  | nil => rfl
  | cons c cs ih => simp [Clause.line, ih]

/-- A line starts with no terminator if what stands behind its branches does not. -/
theorem Clause.line_starts (rest : List Token) (starts : first.isTerminator = false) :
    ∃ t more, Clause.line cs (first :: rest) = t :: more ∧ t.isTerminator = false := by
  cases cs with
  | nil => exact ⟨first, rest, rfl, starts⟩
  | cons c cs => exact ⟨_, _, rfl, isTerminator_of_isKeyword c.opens⟩

/-! ### Headings -/

/-- The words of a branch up to its `Then`. -/
structure Heading where
  opening : Token
  words : List Token
  closing : Token
  opens : opening.isKeyword "If" = true
  closes : closing.isKeyword "Then" = true
  plain : ∀ t ∈ words, t.isTerminator = false ∧ t.isKeyword "Then" = false

/-- The condition between the words, if they spell one. -/
def Heading.condition? (h : Heading) : Option Expr :=
  (Expr.read h.words (h.words.headD h.closing).line).toOption

def Clause.heading (c : Clause) : Heading :=
  ⟨c.opening, c.words, c.closing, c.opens, c.closes, c.plain⟩

theorem Clause.condition?_heading (c : Clause) : c.heading.condition? = some c.condition := by
  rw [Heading.condition?, Clause.heading, c.spells]
  rfl

/-! ### The parts of a line -/

/-- A parser of bodies turns the tokens, standing on their own, into the blocks, or it fails on them. -/
def ParsesAlone (body : Body) (tokens : List Token) : Option (List Block) → Prop
  | some blocks => ∀ log, ∃ found r, body [] ⟨.ofTokens tokens, log⟩ = .ok (blocks, found) r
  | none => ∀ log, ∃ fault r, body [] ⟨.ofTokens tokens, log⟩ = .error fault r

variable {body : Body} {tokens after : List Token} {blocks : List Block} {x y : Option (List Block)}

theorem Gives.alone {rest : List Token} (given : Gives (·, none) (body []) tokens rest x) :
    ParsesAlone body tokens x := by
  cases x with
  | none => exact fun log => given _ log
  | some blocks =>
    intro log
    obtain ⟨_, ran⟩ := given (Cursor.ofTokens tokens).endLine log
    exact ⟨none, _, ran⟩

theorem gives_inlineBlocks (alone : ParsesAlone body tokens x) (outer : List Token) :
    Gives id (inlineBlocks body tokens) outer outer x := by
  cases x with
  | none =>
    intro endLine log
    obtain ⟨fault, r, ran⟩ := alone log
    exact ⟨fault, _, by rw [inlineBlocks_apply, ran]⟩
  | some blocks =>
    intro endLine log
    obtain ⟨found, r, ran⟩ := alone log
    exact ⟨r.recognised, by rw [inlineBlocks_apply, ran, id]⟩

theorem reads_takeLine (inside : ∀ t ∈ tokens, t.isLineEnd = false) (ended : after.head?.all Token.isLineEnd = true) :
    Reads takeLine (tokens ++ after) tokens (after.drop 1) := by
  obtain ⟨taken, left⟩ := cut_closed inside ended
  refine .bind (reads_view fun _ => taken) (.bind (reads_move fun endLine => ?_) (reads_pure _ _))
  rw [Cursor.afterLine, left, skipTerminator_closed (by cases after <;> simp_all [isTerminator_of_isLineEnd])]

/-- A line without `Else` is all of the first part. -/
theorem gives_shortBranch (filled : tokens ≠ []) (inLine : ∀ t ∈ tokens, t.isLineEnd = false)
    (plain : ∀ t ∈ tokens, t.isKeyword "Else" = false) (alone : ParsesAlone body tokens x)
    (ended : after.head?.all Token.isLineEnd = true) (condition : Expr) (openedOn : Nat) :
    Gives id (shortBranch body condition openedOn) (tokens ++ after) (after.drop 1)
      (x.bind fun blocks => some (.branch condition blocks .none)) := by
  have goOn : ∀ t ∈ tokens, (!t.isKeyword "Else") = true := by simpa using plain
  refine (reads_takeLine inLine ended).gives ?_
  simp only [takeWhile_eq_self_iff.mpr goOn, dropWhile_eq_nil_iff.mpr goOn, List.isEmpty_iff, filled, if_false]
  exact (gives_inlineBlocks alone _).bind fun _ _ => reads_pure _ _

/-- The first `Else` of a line cuts it, wherever it stands. -/
theorem gives_shortBranch_else {front rest : List Token} (filled : front ≠ [])
    (inLine : ∀ t ∈ front ++ word :: rest, t.isLineEnd = false) (plain : ∀ t ∈ front, t.isKeyword "Else" = false)
    (isElse : word.isKeyword "Else" = true) (alone : ParsesAlone body front x) (aloneElse : ParsesAlone body rest y)
    (ended : after.head?.all Token.isLineEnd = true) (condition : Expr) (openedOn : Nat) :
    Gives id (shortBranch body condition openedOn) (front ++ word :: rest ++ after) (after.drop 1)
      (x.bind fun blocks => y.bind fun others => some (.branch condition blocks (.otherwise others))) := by
  have before : (front ++ word :: rest).takeWhile (!·.isKeyword "Else") = front :=
    takeWhile_cut front rest word plain isElse
  have behind : (front ++ word :: rest).dropWhile (!·.isKeyword "Else") = word :: rest :=
    dropWhile_cut front rest word plain isElse
  refine (reads_takeLine inLine ended).gives ?_
  simp only [before, behind, List.isEmpty_iff, filled, if_false]
  exact (gives_inlineBlocks alone _).bind fun _ _ => (gives_inlineBlocks aloneElse _).bind fun _ _ => reads_pure _ _

section Behind

variable (h : Heading) {t : Token} {more rest : List Token} {z : Expr → Option Block}

theorem Heading.gives_branch (given : ∀ e openedOn, Gives some
      (if t.isTerminator then do
        move Cursor.skipTerminator
        return some (← longBranch body e openedOn)
      else return some (← shortBranch body e openedOn)) (t :: more) rest (z e)) :
    Gives some (branch body) (h.opening :: (h.words ++ h.closing :: t :: more)) rest (h.condition?.bind z) := by
  refine (reads_view (a := true) fun _ => h.opens).gives ?_
  refine (reads_view fun _ => rfl).gives ((reads_advance_one _ _).gives ?_)
  exact (gives_conditionThen h.closes h.plain _).bind fun e _ => (reads_view (a := some t) fun _ => rfl).gives (given e _)

/-- Behind `Then` the branch goes on in its line. -/
theorem Heading.gives_branch_line (starts : t.isTerminator = false)
    (given : ∀ e openedOn, Gives id (shortBranch body e openedOn) (t :: more) rest (z e)) :
    Gives some (branch body) (h.opening :: (h.words ++ h.closing :: t :: more)) rest (h.condition?.bind z) := by
  refine h.gives_branch fun e openedOn => ?_
  rw [starts, ← Option.bind_fun_some (z e)]
  exact (given e openedOn).bind fun _ _ => reads_pure _ _

/-- Behind `Then` the line ends, and the branch goes on over several lines. -/
theorem Heading.gives_branch_lines (isEnd : t.isTerminator = true)
    (given : ∀ e openedOn, Gives id (longBranch body e openedOn) more rest (z e)) :
    Gives some (branch body) (h.opening :: (h.words ++ h.closing :: t :: more)) rest (h.condition?.bind z) := by
  refine h.gives_branch fun e openedOn => ?_
  rw [isEnd, ← Option.bind_fun_some (z e)]
  exact (reads_skipTerminator isEnd more).gives ((given e openedOn).bind fun _ _ => reads_pure _ _)

end Behind

/-- The word `If` opens a branch and nothing else. -/
theorem Heading.gives_blocksWithin (h : Heading) (budget : Nat) {more : List Token} {z : Option Block}
    (given : Gives some (branch (blocksWithin budget)) (h.opening :: more) [] z) :
    Gives (fun b => ([b], none)) (blocksWithin (budget + 1) []) (h.opening :: more) [] z := by
  have first := (gives_keyword "If" 8 (by decide) h.opens rfl given).2
  have later : Reads (blocksWithin budget []) [] ([], none) [] :=
    fun endLine log => ⟨log, blocksWithin_nil budget [] rfl⟩
  rw [← Option.bind_fun_some z]
  exact first.bind fun _ _ => Reads.bind later (reads_pure _ _)

/-! ### Whole lines -/

theorem eq_ok_of_toOption {α : Type} {result : Except Fault α} {a : α} (same : result.toOption = some a) :
    result = .ok a := by
  cases result with
  | error fault => cases same
  | ok b => exact congrArg Except.ok (Option.some.inj same)

theorem parseBlocks_of_alone (alone : ParsesAlone (blocksWithin tokens.length) tokens x) :
    (parseBlocks tokens).toOption = x := by
  rw [parseBlocks_eq]
  cases x with
  | none =>
    obtain ⟨fault, r, ran⟩ := alone []
    rw [ran]
    rfl
  | some blocks =>
    obtain ⟨found, r, ran⟩ := alone []
    rw [ran]
    rfl

/-- Behind each other, branches nest. The induction takes one branch off the line and one turn off the
budget, which then still covers the rest. -/
theorem parsesAlone_nest {more : List Token} (starts : first.isTerminator = false)
    (inLine : ∀ t ∈ first :: more, t.isLineEnd = false) (plain : ∀ t ∈ first :: more, t.isKeyword "Else" = false)
    (parsed : parseBlocks (first :: more) = .ok blocks) {cs : List Clause}
    (plainInside : ∀ c ∈ cs, ∀ t ∈ c.words, t.isKeyword "Else" = false) {budget : Nat}
    (enough : (Clause.line cs (first :: more)).length ≤ budget) :
    ParsesAlone (blocksWithin budget) (Clause.line cs (first :: more)) (some (Clause.nest cs blocks)) := by
  induction cs generalizing budget with
  | nil => exact blocksWithin_of_parseBlocks parsed enough
  | cons c cs ih =>
    obtain ⟨-, plainLater⟩ := forall_mem_cons.mp plainInside
    simp only [Clause.line, length_cons, length_append] at enough
    obtain ⟨turns, rfl⟩ : ∃ turns, budget = turns + 1 := ⟨budget - 1, by omega⟩
    have alone := @ih plainLater turns (by omega)
    obtain ⟨t, rest, same, goesOn⟩ := Clause.line_starts cs more starts
    have short := gives_shortBranch (by simp [same]) (Clause.isLineEnd_line inLine)
      (Clause.isElse_line plainLater plain) alone (show ([] : List Token).head?.all Token.isLineEnd = true from rfl)
    rw [Clause.line]
    rw [append_nil, same] at short
    rw [same]
    have given := c.heading.gives_blocksWithin turns (c.heading.gives_branch_line goesOn short)
    rw [c.condition?_heading] at given
    exact Gives.alone (x := some _) given

/-- The cut at the first `Else` leaves all of the branches in its first part. -/
theorem parseBlocks_line {first second : List Token} {others : List Block}
    (plainInside : ∀ c ∈ inner, ∀ t ∈ c.words, t.isKeyword "Else" = false)
    (starts : first.head?.any (!·.isTerminator) = true) (plain : ∀ t ∈ first, t.isKeyword "Else" = false)
    (isElse : word.isKeyword "Else" = true) (inLine : ∀ t ∈ first ++ second, t.isLineEnd = false)
    (parsed : parseBlocks first = .ok blocks) (parsedElse : parseBlocks second = .ok others) :
    parseBlocks (Clause.line (outer :: inner) (first ++ word :: second)) =
      .ok [.branch outer.condition (Clause.nest inner blocks) (.otherwise others)] := by
  obtain ⟨t, head, goesOn⟩ := (Option.any_eq_true ..).mp starts
  obtain ⟨more, rfl⟩ := head?_eq_some_iff.mp head
  have goesOn : t.isTerminator = false := by simpa using goesOn
  obtain ⟨inLineFirst, inLineSecond⟩ := forall_mem_append.mp inLine
  have inLineElse : ∀ u ∈ word :: second, u.isLineEnd = false :=
    forall_mem_cons.mpr ⟨isLineEnd_of_isTerminator (isTerminator_of_isKeyword isElse), inLineSecond⟩
  have inLineBehind : ∀ u ∈ Clause.line inner (t :: more) ++ word :: second, u.isLineEnd = false :=
    forall_mem_append.mpr ⟨Clause.isLineEnd_line inLineFirst, inLineElse⟩
  refine eq_ok_of_toOption (parseBlocks_of_alone ?_)
  rw [Clause.line, Clause.line_append]
  obtain ⟨turns, budget⟩ : ∃ turns, turns + 1 = (outer.opening :: (outer.words ++ outer.closing ::
      (Clause.line inner (t :: more) ++ word :: second))).length := ⟨_, rfl⟩
  have enough := budget
  simp only [length_cons, length_append] at enough
  -- the cut is made before an inner branch is seen, so all of them are in the part that nests
  have alone : ParsesAlone (blocksWithin turns) (Clause.line inner (t :: more)) (some (Clause.nest inner blocks)) :=
    parsesAlone_nest goesOn inLineFirst plain parsed plainInside (by omega)
  have aloneElse : ParsesAlone (blocksWithin turns) second (some others) :=
    blocksWithin_of_parseBlocks parsedElse (by omega)
  obtain ⟨u, rest, same, goesOn⟩ := Clause.line_starts inner more goesOn
  have short := gives_shortBranch_else (by simp [same]) inLineBehind (Clause.isElse_line plainInside plain)
    isElse alone aloneElse (show ([] : List Token).head?.all Token.isLineEnd = true from rfl)
  rw [← budget]
  rw [append_nil, same] at short
  rw [same]
  have given := outer.heading.gives_blocksWithin turns (outer.heading.gives_branch_line goesOn short)
  rw [outer.condition?_heading] at given
  exact Gives.alone (x := some _) given

theorem Clause.nearest_eq_iff (blocks others : List Block) :
    [Block.branch outer.condition (Clause.nest inner blocks) (.otherwise others)] =
      Clause.nearest (outer :: inner) blocks others ↔ inner = [] := by
  cases inner with
  | nil => simp [Clause.nest, Clause.nearest]
  | cons c cs => simp [Clause.nearest]

/-- On one line `Else` belongs to the branch that opens the line. It belongs to the nearest branch only where
that is the same one. -/
theorem else_joins_outermost_branch (outer : Clause) (inner : List Clause) {first second : List Token}
    {word : Token} {blocks others : List Block}
    (plainInside : ∀ c ∈ inner, ∀ t ∈ c.words, t.isKeyword "Else" = false)
    (starts : first.head?.any (!·.isTerminator) = true) (plain : ∀ t ∈ first, t.isKeyword "Else" = false)
    (isElse : word.isKeyword "Else" = true) (inLine : ∀ t ∈ first ++ second, t.isLineEnd = false)
    (parsed : parseBlocks first = .ok blocks) (parsedElse : parseBlocks second = .ok others) :
    let line := Clause.line (outer :: inner) (first ++ word :: second)
    parseBlocks line = .ok [.branch outer.condition (Clause.nest inner blocks) (.otherwise others)] ∧
      (parseBlocks line = .ok (Clause.nearest (outer :: inner) blocks others) ↔ inner = []) := by
  have whole := parseBlocks_line outer inner plainInside starts plain isElse inLine parsed parsedElse
  refine ⟨whole, ?_⟩
  rw [whole, Except.ok.injEq]
  exact Clause.nearest_eq_iff outer inner blocks others

/-- A branch on a name. -/
def Clause.ofName (name : String) : Clause where
  opening := ⟨.keyword, "If", 0⟩
  words := [⟨.name, name, 0⟩]
  closing := ⟨.keyword, "Then", 0⟩
  condition := [.call [⟨.name, name, 0⟩] []]
  opens := rfl
  closes := rfl
  plain := by simp [Token.isTerminator, Token.isKeyword]
  spells := fun _ => Expr.read_name rfl

/-- In `If a Then If b Then x = 1 Else y = 2` the second part belongs to the branch on `a`. -/
theorem else_joins_outermost_branch_of_two :
    let line := Clause.line [.ofName "a", .ofName "b"]
      ([⟨.name, "x", 0⟩, ⟨.comparison, "=", 0⟩, ⟨.number, "1", 0⟩] ++
        ⟨.keyword, "Else", 0⟩ :: [⟨.name, "y", 0⟩, ⟨.comparison, "=", 0⟩, ⟨.number, "2", 0⟩])
    let blocks : List Block := [.assignment .value [.call [⟨.name, "x", 0⟩] []] [.value ⟨.number, "1", 0⟩]]
    let others : List Block := [.assignment .value [.call [⟨.name, "y", 0⟩] []] [.value ⟨.number, "2", 0⟩]]
    parseBlocks line = .ok [.branch [.call [⟨.name, "a", 0⟩] []]
      [.branch [.call [⟨.name, "b", 0⟩] []] blocks .none] (.otherwise others)] ∧
      (parseBlocks line = .ok (Clause.nearest [.ofName "a", .ofName "b"] blocks others) ↔
        [Clause.ofName "b"] = []) :=
  else_joins_outermost_branch (.ofName "a") [.ofName "b"] (by decide) (by decide) (by decide) (by decide)
    (by decide) (by cbv) (by cbv)

/-- Nor does that line give it to the branch on `b`, which is nearest. -/
theorem else_not_with_nearest_branch :
    parseBlocks (Clause.line [.ofName "a", .ofName "b"]
      ([⟨.name, "x", 0⟩, ⟨.comparison, "=", 0⟩, ⟨.number, "1", 0⟩] ++
        ⟨.keyword, "Else", 0⟩ :: [⟨.name, "y", 0⟩, ⟨.comparison, "=", 0⟩, ⟨.number, "2", 0⟩])) ≠
      .ok (Clause.nearest [.ofName "a", .ofName "b"]
        [.assignment .value [.call [⟨.name, "x", 0⟩] []] [.value ⟨.number, "1", 0⟩]]
        [.assignment .value [.call [⟨.name, "y", 0⟩] []] [.value ⟨.number, "2", 0⟩]]) := by
  have parsed : parseBlocks [⟨.name, "x", 0⟩, ⟨.comparison, "=", 0⟩, ⟨.number, "1", 0⟩] =
      .ok [.assignment .value [.call [⟨.name, "x", 0⟩] []] [.value ⟨.number, "1", 0⟩]] := by cbv
  have parsedElse : parseBlocks [⟨.name, "y", 0⟩, ⟨.comparison, "=", 0⟩, ⟨.number, "2", 0⟩] =
      .ok [.assignment .value [.call [⟨.name, "y", 0⟩] []] [.value ⟨.number, "2", 0⟩]] := by cbv
  rw [parseBlocks_line (.ofName "a") [.ofName "b"] (by decide) (by decide) (by decide) (by decide)
    (by decide) parsed parsedElse]
  simp [Clause.nearest]

end Parser
end VbSharp
