import VbSharp.Proofs.Block.Choice
import Mathlib.Data.List.TakeWhile

/-!
# Reading control flow

A body is read with any budget that covers its tokens, up to an end that the tokens behind it spell. Given
this, branches, loops, selections and their like are read from their printed lines: each construct uses up at
least the token that opens it, so the budget that is left covers its body.
-/
namespace VbSharp.Parser

open List PrintStyle VbSharp.Expr Token

variable {parser : Body → Parser (Option Block)}

variable {rest tokens more header footer : List Token} {b : Block} {construct : Construct}

variable (style : PrintStyle)

variable (word : String) (line place : Nat)

variable {ends : Ends}

/-! ### Ends of bodies -/

/-- The ends start with words that close constructs. -/
def AreClosing (ends : Ends) : Prop :=
  ∀ words ∈ ends, ∃ word ∈ closingWords, words.head? = some word

/-- A body that can end in these ways ends before the tokens. -/
def StopsAt (ends : Ends) (tokens : List Token) : Option Nat → Prop
  | none => tokens = []
  | some found => tokens ≠ [] ∧ ∀ endLine, endAt? ends ⟨tokens, endLine⟩ = some found

theorem endAt?_none (ends : Ends) (closing : AreClosing ends) (t : Token) (rest : List Token)
    (goesOn : ∀ word ∈ closingWords, t.isKeyword word = false) (endLine : Nat) :
    endAt? ends ⟨t :: rest, endLine⟩ = none := by
  rw [endAt?, findIdx?_eq_none_iff]
  intro words member
  obtain ⟨word, closes, first⟩ := closing words member
  obtain ⟨others, rfl⟩ := head?_eq_some_iff.mp first
  simp [Cursor.startsWith, goesOn word closes]

theorem stopsAt_single {words : List String} (filled : tokens ≠ [])
    (here : ∀ endLine, Cursor.startsWith ⟨tokens, endLine⟩ words = true) : StopsAt [words] tokens (some 0) := by
  refine ⟨filled, fun endLine => ?_⟩
  simp [endAt?, findIdx?_cons, here endLine]

theorem areClosing_single {word : String} (others : List String) (closes : word ∈ closingWords) :
    AreClosing [word :: others] := by
  simp [AreClosing, closes]

/-! ### What the induction shows -/

/-- The block is read from its tokens by any parser whose bodies have enough budget. -/
def BlockReads (b : Block) : Prop :=
  ∀ (budget : Nat) (rest : List Token), (style.block b ++ rest).length ≤ budget + 1 →
    ∃ t more, style.block b ++ rest = t :: more ∧ (∀ word ∈ closingWords, t.isKeyword word = false) ∧
      Reads (blockAt (blocksWithin budget) t) (t :: more) (some b) rest

/-- The blocks are read from their tokens with any budget that covers these. -/
def BlocksRead (bs : List Block) : Prop :=
  ∀ (budget : Nat) (ends : Ends) (rest : List Token) (found : Option Nat), AreClosing ends →
    StopsAt ends rest found → (style.blocks bs ++ rest).length ≤ budget →
      Reads (blocksWithin budget ends) (style.blocks bs ++ rest) (bs, found) rest

theorem reads_stopped {found : Option Nat} (stops : StopsAt ends rest found) {budget : Nat}
    (enough : rest.length ≤ budget) : Reads (blocksWithin budget ends) rest ([], found) rest := by
  cases found with
  | none =>
    obtain rfl : rest = [] := stops
    cases budget with
    | zero => exact reads_pure _ _
    | succ budget => exact .bind (reads_view (a := none) fun _ => rfl) (reads_pure _ _)
  | some found =>
    obtain ⟨filled, ended⟩ := stops
    obtain ⟨t, rest, rfl⟩ := exists_cons_of_ne_nil filled
    obtain ⟨budget, rfl⟩ := Nat.exists_eq_add_one.mpr (Nat.lt_of_lt_of_le (Nat.succ_pos _) enough)
    exact .bind (reads_view (a := some t) fun _ => rfl) (.bind (reads_view ended) (reads_pure _ _))

theorem blocksRead_nil : BlocksRead style [] :=
  fun _ _ _ _ _ stops enough => reads_stopped stops enough

theorem length_block_pos (b : Block) : 0 < (style.block b).length := by
  have line (tokens : List Token) : 0 < (style.lineOf tokens).length := by simp [PrintStyle.lineOf]
  have lines (tokens rest : List Token) : 0 < (style.lineOf tokens ++ rest).length :=
    length_append ▸ Nat.add_pos_left (line tokens) _
  cases b with
  | call e withCall => cases withCall <;> exact line _
  | blankLine | comment _ _ | optionExplicit | declaration _ _ _ | assignment _ _ _ | exit _ _
  | randomize _ _ | onError _ _ => exact line _
  | classDefinition _ _ | routine _ _ | branch _ _ _ | doLoop _ _ _ | whileLoop _ _ _
  | forLoop _ _ _ _ _ | forEach _ _ _ | select _ _ _ | withTarget _ _ _ => exact lines _ _

theorem blocksRead_cons (b : Block) (bs : List Block) (first : BlockReads style b)
    (others : BlocksRead style bs) : BlocksRead style (b :: bs) := by
  intro budget ends rest found closing stops enough
  rw [PrintStyle.blocks, append_assoc] at enough ⊢
  -- the block has a token, so one unit of the budget less still covers the others
  have positive := length_block_pos style b
  rw [length_append] at enough
  obtain ⟨budget, rfl⟩ : ∃ more, budget = more + 1 := ⟨budget - 1, by omega⟩
  obtain ⟨t, more, starts, goesOn, read⟩ := first budget (style.blocks bs ++ rest)
    (by rw [length_append]; exact enough)
  have later := others budget ends rest found closing stops (by omega)
  rw [starts]
  refine .bind (reads_view (a := some t) fun _ => rfl) ?_
  refine .bind (reads_view (endAt?_none ends closing t more goesOn)) ?_
  exact .bind read (.bind later (reads_pure _ _))

/-- A plain statement on a line of its own. -/
theorem blockReads_plain {style : PrintStyle} (plain : IsPlain tokens) (made : plainOf tokens constructOrder = some b)
    (printed : style.block b = style.lineOf tokens) : BlockReads style b := by
  intro budget rest _
  obtain ⟨t, others, rfl, goesOn, given⟩ := plain.gives
  have read := given (blocksWithin budget) (Token.lineEnd style.line :: rest) rfl
  rw [made] at read
  exact ⟨t, others ++ Token.lineEnd style.line :: rest, by rw [printed, lineOf_append, cons_append], goesOn, read⟩

/-! ### Blocks that start with a keyword -/

/-- The words that open only one construct, with its place in the order. -/
def soleOpenings : List (String × Nat) :=
  [("Option", 0), ("Class", 2), ("Dim", 4), ("ReDim", 4), ("Do", 5), ("While", 6), ("For", 7), ("If", 8), ("Select", 9),
    ("Exit", 10), ("On", 11), ("Randomize", 12), ("Call", 13), ("With", 14), ("Let", 15)]

theorem opensOnly_of_mem : ∀ opening ∈ soleOpenings, opening.2 ≤ 15 ∧
    (∀ construct ∈ constructOrder.take opening.2, ∀ other ∈ openingWords construct,
      sameWord opening.1 other = false) ∧
    (∀ other ∈ routineWords, sameWord opening.1 other = false) ∧
    ∀ other ∈ closingWords, sameWord opening.1 other = false := by
  decide

/-- The word at which a construct opens is known to no earlier construct, and no body ends there. -/
theorem gives_keyword {body : Body} {p : Parser (Option Block)} {t : Token} {x : Option Block}
    (sole : (word, place) ∈ soleOpenings) (opens : t.isKeyword word = true)
    (listed : (constructs body)[place]? = some (construct, p)) (given : Gives some p (t :: more) rest x) :
    (∀ other ∈ closingWords, t.isKeyword other = false) ∧ Gives some (blockAt body t) (t :: more) rest x := by
  obtain ⟨early, openings, routines, closings⟩ := opensOnly_of_mem _ sole
  have apart (other : String) := isKeyword_of_same opens other
  have isWord := (isWord_of_isKeyword opens).1
  refine ⟨fun other closes => (apart other).trans (closings other closes), gives_blockAt (.inl isWord) ?_⟩
  have noRoutine := opening?_none_of_keyword isWord (fun other listed => (apart other).trans (routines other listed)) more
  exact gives_firstOf place listed given (declined_between _ 0 place early t _ (fun _ => noRoutine)
    fun construct listed other opens => (apart other).trans (openings construct listed other opens))

theorem blockReads_keyword (sole : (word, place) ∈ soleOpenings) (printed : style.block b = ofKeyword word line :: more)
    (listed : ∀ body, (constructs body)[place]? = some (construct, parser body))
    (read : ∀ budget rest, (style.block b ++ rest).length ≤ budget + 1 →
      Reads (parser (blocksWithin budget)) (style.block b ++ rest) (some b) rest) : BlockReads style b := by
  intro budget rest enough
  have reads := read budget rest enough
  rw [printed, cons_append] at reads ⊢
  have opens : (ofKeyword word line).isKeyword word = true := sameWord_self word
  obtain ⟨goesOn, found⟩ := gives_keyword word place sole opens (listed _) (x := some b) reads
  exact ⟨_, _, rfl, goesOn, found⟩

/-- A construct that starts with a keyword and has one body, between its first line and its last. -/
theorem blockReads_enclosed {style : PrintStyle} {body : List Block} (bodyReads : BlocksRead style body) (word : String)
    (line place : Nat) (sole : (word, place) ∈ soleOpenings) (closer : String) (others : List String)
    (closes : closer ∈ closingWords) (printed : style.block b =
      style.lineOf (ofKeyword word line :: header) ++ (style.blocks body ++ style.lineOf footer))
    (listed : ∀ body, (constructs body)[place]? = some (construct, parser body))
    (here : ∀ more endLine, Cursor.startsWith ⟨footer ++ more, endLine⟩ (closer :: others) = true)
    (read : ∀ (parseBody : Body) rest, Reads (parseBody [closer :: others])
      (style.blocks body ++ (footer ++ Token.lineEnd style.line :: rest)) (body, some 0)
      (footer ++ Token.lineEnd style.line :: rest) →
      Reads (parser parseBody) (ofKeyword word line :: (header ++ Token.lineEnd style.line ::
        (style.blocks body ++ (footer ++ Token.lineEnd style.line :: rest)))) (some b) rest) : BlockReads style b := by
  refine blockReads_keyword style word line place sole (by rw [printed]; rfl) listed fun budget rest enough => ?_
  have stops : StopsAt [closer :: others] (footer ++ Token.lineEnd style.line :: rest) (some 0) :=
    stopsAt_single (by simp) (here _)
  rw [printed] at enough ⊢
  simp only [append_assoc, lineOf_append, cons_append] at enough ⊢
  refine read _ _ (bodyReads budget _ _ _ (areClosing_single others closes) stops ?_)
  simp only [length_cons, length_append] at enough ⊢
  omega

/-! ### Branches -/

theorem gives_conditionThen {words : List Token} {closing : Token} (closes : closing.isKeyword "Then" = true)
    (plain : ∀ t ∈ words, t.isTerminator = false ∧ t.isKeyword "Then" = false) (rest : List Token) :
    Gives id conditionThen (words ++ closing :: rest) rest
      (Expr.read words (words.headD closing).line).toOption := by
  have noEnd : ∀ t ∈ words ++ [closing], (!t.isTerminator) = true := by
    simpa [or_imp, forall_and, isTerminator_of_isKeyword closes] using fun t member => (plain t member).1
  have statement (endLine : Nat) : Cursor.statement ⟨words ++ closing :: rest, endLine⟩ =
      words ++ closing :: rest.takeWhile (!·.isTerminator) := by
    rw [Cursor.statement, append_cons, takeWhile_append_of_pos noEnd, ← append_cons]
  have before : (words ++ closing :: rest.takeWhile (!·.isTerminator)).takeWhile (!·.isKeyword "Then") = words :=
    takeWhile_cut _ _ _ (fun t member => (plain t member).2) closes
  have line : Reads (view Cursor.line) (words ++ closing :: rest) (words.headD closing).line
      (words ++ closing :: rest) := reads_view fun _ => by cases words <;> rfl
  refine line.gives ((reads_view statement).gives ?_)
  simp only [before, length_append, length_cons]
  rw [if_neg (by omega), ← Option.bind_fun_some (Except.toOption _)] -- `Then` is left of the statement
  refine (gives_lift _).bind fun e _ => (reads_move fun endLine => ?_).bind (reads_pure _ _)
  simp only [Cursor.advance, drop_cut]

theorem reads_conditionThen (condition : Expr) (printable : condition.isPrintable = true) (rest : List Token) :
    Reads conditionThen (style.expr condition ++ style.keyword "Then" :: rest) condition rest := by
  have inside := standInside_print style.line condition printable
  have closes : (style.keyword "Then").isKeyword "Then" = true := by simp
  have given := gives_conditionThen closes
    (fun t member => ⟨inside.open_end t member, inside.isKeyword "Then" (by decide) t member⟩) rest
  rw [read_print style.line _ condition printable] at given
  exact given

theorem areClosing_clauseEnds : AreClosing clauseEnds := by
  simp [AreClosing, clauseEnds, closingWords]

/-- Parts that follow each other are read, and a body before them ends where they start. -/
def PartsRead {α : Type} (ends : Ends) (p : Body → Nat → Nat → Nat → Parser α) (tokens : List Token) (a : α)
    (after : List Token → List Token) : Prop :=
  ∀ (budget : Nat) (rest : List Token), (tokens ++ rest).length ≤ budget →
    ∃ found, StopsAt ends (tokens ++ rest) (some found) ∧ ∀ openedOn limit, (tokens ++ rest).length ≤ limit →
      Reads (p (blocksWithin budget) openedOn limit found) (tokens ++ rest) a (after rest)

/-- One part more: the line that opens it and its body. -/
theorem PartsRead.cons {style : PrintStyle} {α : Type} {p : Body → Nat → Nat → Nat → Parser α}
    {header tokens : List Token} {body : List Block} {a b : α} {after : List Token → List Token}
    (others : PartsRead ends p tokens b after) (closing : AreClosing ends) (bodyReads : BlocksRead style body)
    (here : ∀ more endLine, endAt? ends ⟨header ++ more, endLine⟩ = some 0)
    (read : ∀ {parseBody openedOn limit found rest},
      Reads (parseBody ends) (style.blocks body ++ (tokens ++ rest)) (body, some found) (tokens ++ rest) →
      Reads (p parseBody openedOn limit found) (tokens ++ rest) b (after rest) →
      Reads (p parseBody openedOn (limit + 1) 0)
        (header ++ Token.lineEnd style.line :: (style.blocks body ++ (tokens ++ rest))) a (after rest)) :
    PartsRead ends p (style.lineOf header ++ (style.blocks body ++ tokens)) a after := by
  intro budget rest enough
  simp only [append_assoc, lineOf_append, cons_append] at enough ⊢
  refine ⟨0, ⟨by simp, here _⟩, fun openedOn limit longer => ?_⟩
  -- the line end alone leaves room for what stands behind it
  simp only [length_append, length_cons] at enough longer
  obtain ⟨found, stops, readOthers⟩ := others budget rest (by simp; omega)
  obtain ⟨limit, rfl⟩ : ∃ more, limit = more + 1 := ⟨limit - 1, by omega⟩
  exact read (bodyReads budget _ _ _ closing stops (by simp; omega)) (readOthers openedOn limit (by simp; omega))

/-- The further clauses are read. -/
def AlternativeReads (others : Alternative) : Prop :=
  PartsRead clauseEnds alternative (style.alternative others) others id

section Branches

variable {style} {condition : Expr} {body : List Block} {others : Alternative}

theorem alternativeReads_none : AlternativeReads style .none := by
  intro budget rest _
  simp only [PrintStyle.alternative, lineOf_append]
  refine ⟨2, ⟨by simp, fun _ => ?_⟩, fun openedOn limit enough => ?_⟩
  · simp +decide [endAt?, clauseEnds, Cursor.startsWith, Cursor.isKeywordLikeAt, findIdx?_cons]
  · obtain ⟨limit, rfl⟩ : ∃ more, limit = more + 1 := ⟨limit - 1, by simp at enough; omega⟩
    refine .bind (reads_advance [_, _] _ 2 rfl) ?_
    exact reads_ending rfl rest

theorem alternativeReads_otherwise (bodyReads : BlocksRead style body) : AlternativeReads style (.otherwise body) := by
  intro budget rest enough
  simp only [PrintStyle.alternative, lineOf_append, append_assoc, cons_append] at enough ⊢
  refine ⟨1, ⟨by simp, fun _ => ?_⟩, fun openedOn limit longer => ?_⟩
  · simp +decide [endAt?, clauseEnds, Cursor.startsWith, findIdx?_cons]
  · simp only [length_append, length_cons] at enough longer
    obtain ⟨limit, rfl⟩ : ∃ more, limit = more + 1 := ⟨limit - 1, by omega⟩
    have stops : StopsAt [["End", "If"]] ([style.keyword "End", style.keyword "If"] ++ Token.lineEnd style.line :: rest)
        (some 0) := stopsAt_single (by simp) (by simp [Cursor.startsWith, Cursor.isKeywordLikeAt])
    have read := bodyReads budget _ _ _ (areClosing_single ["If"] (by decide)) stops (by simp; omega)
    refine .bind (reads_advance_one _ _) (.bind (reads_skipTerminator rfl _) ?_)
    refine .bind (reads_bodyThrough [_, _] rfl read _) ?_
    exact reads_ending rfl rest

theorem alternativeReads_elseIf (printable : condition.isPrintable = true) (bodyReads : BlocksRead style body)
    (othersRead : AlternativeReads style others) : AlternativeReads style (.elseIf condition body others) := by
  refine othersRead.cons areClosing_clauseEnds bodyReads (fun _ _ => ?_) fun readBody readOthers => ?_
  · simp +decide [endAt?, clauseEnds, Cursor.startsWith, findIdx?_cons]
  · rw [cons_append, append_assoc, alternative]
    refine .bind (reads_advance_one _ _) ?_
    refine .bind (reads_conditionThen style condition printable _) ?_
    refine .bind (reads_expectTerminator rfl _) (.bind (reads_bodyUntil readBody _) ?_)
    exact .bind readOthers (reads_pure _ _)

theorem blockReads_branch (printable : condition.isPrintable = true) (bodyReads : BlocksRead style body)
    (othersRead : AlternativeReads style others) : BlockReads style (.branch condition body others) := by
  refine blockReads_keyword style "If" style.line 8 (by decide) rfl (fun _ => rfl) fun budget rest enough => ?_
  rw [PrintStyle.block, append_assoc, lineOf_append, append_assoc, cons_append, append_assoc] at enough ⊢
  simp only [length_append, length_cons] at enough
  obtain ⟨found, stops, readOthers⟩ := othersRead budget rest (by simp; omega)
  have readBody := bodyReads budget _ _ _ areClosing_clauseEnds stops (by simp; omega)
  refine .opened (fun _ => by simp) (.bind (reads_conditionThen style condition printable _) ?_)
  refine .bind (reads_view (a := some (Token.lineEnd style.line)) fun _ => rfl) ?_
  refine .bind (reads_skipTerminator rfl _) (.bind ?_ (reads_pure _ _))
  refine .bind (reads_bodyUntil readBody _) ?_
  exact .bind (reads_view_rest length _) (.bind (readOthers _ _ (Nat.le_refl _)) (reads_pure _ _))

end Branches

/-! ### Loops -/

/-- A condition is read behind its word, and the statement goes on to its end. -/
theorem loopCondition_print (continues : Bool) {e : Expr} (printable : e.isPrintable = true) (line : Nat) :
    let tokens := style.keyword (if continues then "While" else "Until") :: style.expr e
    loopCondition tokens line = .ok (some (continues, e)) ∧ ∀ t ∈ tokens, t.isTerminator = false := by
  have other : sameWord "Until" "While" = false := by decide
  refine ⟨?_, forall_mem_cons.mpr ⟨rfl, (standInside_print style.line e printable).open_end⟩⟩
  cases continues <;>
    simp [loopCondition, expr, read_print style.line line e printable, Except.map, other]

/-- The two places where a loop can have its condition give back its test. -/
theorem loopTest_print (test : LoopTest) (printable : ∀ e ∈ test.conditions, e.isPrintable = true)
    (line lastLine : Nat) :
    ((∀ t ∈ style.testBefore test, t.isTerminator = false) ∧ ∀ t ∈ style.testAfter test, t.isTerminator = false) ∧
      ∃ first last, loopCondition (style.testBefore test) line = .ok first ∧
        loopCondition (style.testAfter test) lastLine = .ok last ∧ loopTest first last lastLine = .ok test := by
  have reads (continues : Bool) {e : Expr} (member : e ∈ test.conditions) :=
    loopCondition_print style continues (printable e member)
  cases test with
  | none => exact ⟨⟨forall_mem_nil _, forall_mem_nil _⟩, none, none, rfl, rfl, rfl⟩
  | whileBefore e =>
    obtain ⟨read, inside⟩ := reads true (mem_singleton_self e) line
    exact ⟨⟨inside, forall_mem_nil _⟩, _, none, read, rfl, rfl⟩
  | untilBefore e =>
    obtain ⟨read, inside⟩ := reads false (mem_singleton_self e) line
    exact ⟨⟨inside, forall_mem_nil _⟩, _, none, read, rfl, rfl⟩
  | whileAfter e =>
    obtain ⟨read, inside⟩ := reads true (mem_singleton_self e) lastLine
    exact ⟨⟨forall_mem_nil _, inside⟩, none, _, rfl, read, rfl⟩
  | untilAfter e =>
    obtain ⟨read, inside⟩ := reads false (mem_singleton_self e) lastLine
    exact ⟨⟨forall_mem_nil _, inside⟩, none, _, rfl, read, rfl⟩

/-- The words `To` and `Step` stand in none of the expressions, so they divide the range. -/
theorem forRange_print (first last : Expr) (step : Option Expr) (line : Nat) (printableFirst : first.isPrintable = true)
    (printableLast : last.isPrintable = true) (printableStep : step.all isPrintable = true) :
    forRange (style.rangeTokens first last step) line = .ok (first, last, step) ∧
      ∀ t ∈ style.rangeTokens first last step, t.isTerminator = false := by
  have insideFirst : StandInside (style.expr first) :=
    standInside_print style.line first printableFirst
  have insideLast : StandInside (style.expr last) :=
    standInside_print style.line last printableLast
  have readFirst : Expr.read (style.expr first) line = .ok first :=
    read_print style.line line first printableFirst
  have readLast : Expr.read (style.expr last) line = .ok last :=
    read_print style.line line last printableLast
  have before (after : List Token) := takeWhile_cut (style.expr first) after
    (.ofKeyword "To" style.line) (insideFirst.isKeyword "To" (by decide)) (by simp)
  have dropped (after : List Token) := drop_cut (style.expr first) after (.ofKeyword "To" style.line)
  have noStep : (style.expr first).any (·.isKeywordLike "Step") = false :=
    any_eq_false.mpr fun t member => by simp [insideFirst.step t member]
  have sign : style.equals.isEquals = true := rfl
  have inside {more : List Token} (later : ∀ t ∈ more, t.isTerminator = false) :
      ∀ t ∈ style.equals :: (style.expr first ++ style.keyword "To" :: (style.expr last ++ more)),
        t.isTerminator = false :=
    forall_mem_cons.mpr ⟨rfl, forall_mem_append.mpr ⟨insideFirst.open_end,
      forall_mem_cons.mpr ⟨rfl, forall_mem_append.mpr ⟨insideLast.open_end, later⟩⟩⟩⟩
  unfold forRange rangeTokens
  cases step with
  | none =>
    have all : (style.expr last).takeWhile (!·.isKeywordLike "Step") = style.expr last :=
      takeWhile_eq_self_iff.mpr fun t member => by simp [insideLast.step t member]
    refine ⟨?_, inside (forall_mem_nil _)⟩
    simp [bind, Except.bind, pure, Except.pure, sign, before, dropped, readFirst, readLast, all]
  | some e =>
    have readStep : Expr.read (style.expr e) line = .ok e :=
      read_print style.line line e printableStep
    have beforeStep := takeWhile_cut (style.expr last) (style.expr e)
      (.ofSoftKeyword "Step" style.line) insideLast.step (by simp)
    have droppedStep := drop_cut (style.expr last) (style.expr e) (.ofSoftKeyword "Step" style.line)
    refine ⟨?_, inside (forall_mem_cons.mpr ⟨rfl, (standInside_print style.line e printableStep).open_end⟩)⟩
    simp [bind, Except.bind, pure, Except.pure, sign, before, dropped, readFirst, readLast, noStep,
      beforeStep, droppedStep, readStep]

section Loops

variable {style} {body : List Block} (bodyReads : BlocksRead style body)

include bodyReads

theorem blockReads_doLoop (test : LoopTest) (line : Nat)
    (printable : ∀ e ∈ test.conditions, e.isPrintable = true) : BlockReads style (.doLoop test body line) := by
  obtain ⟨⟨before, after⟩, first, last, readFirst, readLast, same⟩ :=
    loopTest_print style test printable line style.line
  refine blockReads_enclosed bodyReads "Do" line 5 (by decide) "Loop" [] (by decide) rfl (fun _ => rfl)
    (by simp [Cursor.startsWith]) fun parseBody rest read => ?_
  refine .opened (fun _ => by simp) ?_
  refine .bind (reads_takeStatement before rfl) (.bind (reads_lift readFirst _) ?_)
  refine .bind (reads_bodyUntil read _) ?_
  refine .bind (reads_view fun _ => rfl) (.bind (reads_advance_one _ _) ?_)
  refine .bind (reads_takeStatement after rfl) (.bind (reads_lift readLast _) ?_)
  exact .bind (reads_lift same _) (reads_pure _ _)

theorem blockReads_whileLoop (condition : Expr) (line : Nat) (printable : condition.isPrintable = true) :
    BlockReads style (.whileLoop condition body line) := by
  refine blockReads_enclosed bodyReads "While" line 6 (by decide) "Wend" [] (by decide) rfl (fun _ => rfl)
    (by simp [Cursor.startsWith]) fun parseBody rest read => ?_
  refine .opened (fun _ => by simp) (.bind (reads_takeExpr style condition printable _) ?_)
  refine .bind (reads_expression style condition printable _ _) ?_
  refine .bind (reads_bodyThrough [_] rfl read _) ?_
  exact reads_ending rfl rest

theorem blockReads_withTarget (target : Expr) (line : Nat) (printable : target.isPrintable = true) :
    BlockReads style (.withTarget target body line) := by
  refine blockReads_enclosed bodyReads "With" line 14 (by decide) "End" ["With"] (by decide) rfl (fun _ => rfl)
    (by simp [Cursor.startsWith, Cursor.isKeywordLikeAt]) fun parseBody rest read => ?_
  refine .opened (fun _ => by simp) (.bind (reads_takeExpr style target printable _) ?_)
  refine .bind (reads_expression style target printable _ _) ?_
  refine .bind (reads_bodyThrough [_, _] rfl read _) ?_
  exact reads_ending rfl rest

omit bodyReads in
theorem reads_forBody {parseBody : Body} (line : Nat)
    (read : Reads (parseBody [["Next"]]) (style.blocks body ++ ([style.keyword "Next"] ++ Token.lineEnd style.line :: rest))
      (body, some 0) ([style.keyword "Next"] ++ Token.lineEnd style.line :: rest)) :
    Reads (forBody parseBody line) (style.blocks body ++ ([style.keyword "Next"] ++ Token.lineEnd style.line :: rest)) body
      rest :=
  .bind (reads_bodyThrough [_] rfl read line) (.bind (reads_takeStatement_nil rfl rest) (reads_pure _ _))

theorem blockReads_forLoop (counter : Token) (first last : Expr) (step : Option Expr)
    (named : counter.isNameLike = true) (printableFirst : first.isPrintable = true)
    (printableLast : last.isPrintable = true) (printableStep : step.all isPrintable = true) :
    BlockReads style (.forLoop counter first last step body) := by
  obtain ⟨ranged, inside⟩ := forRange_print style first last step style.line printableFirst printableLast printableStep
  refine blockReads_enclosed bodyReads "For" style.line 7 (by decide) "Next" [] (by decide) rfl (fun _ => rfl)
    (by simp [Cursor.startsWith]) fun parseBody rest read => ?_
  refine .opened (fun _ => by simp) ?_
  refine .bind (reads_view (a := false) fun _ => isKeyword_of_isNameLike named "Each") ?_
  refine .bind (reads_expect named _) (.bind (reads_takeStatement inside rfl) ?_)
  exact .bind (reads_lift ranged _) (.bind (reads_forBody _ read) (reads_pure _ _))

theorem blockReads_forEach (item : Token) (collection : Expr) (named : item.isNameLike = true)
    (printable : collection.isPrintable = true) : BlockReads style (.forEach item collection body) := by
  have inside : ∀ t ∈ style.keyword "In" :: style.expr collection, t.isTerminator = false :=
    forall_mem_cons.mpr ⟨rfl, (standInside_print style.line collection printable).open_end⟩
  have found : forCollection (style.keyword "In" :: style.expr collection) style.line = .ok collection := by
    simp [forCollection, expr, read_print style.line style.line collection printable]
  refine blockReads_enclosed bodyReads "For" style.line 7 (by decide) "Next" [] (by decide) rfl (fun _ => rfl)
    (by simp [Cursor.startsWith]) fun parseBody rest read => ?_
  refine .opened (fun _ => by simp) ?_
  refine .bind (reads_view (a := true) fun _ => by simp) (.bind (reads_advance_one _ _) ?_)
  refine .bind (reads_expect named _) (.bind (reads_takeStatement inside rfl) ?_)
  exact .bind (reads_lift found _) (.bind (reads_forBody _ read) (reads_pure _ _))

end Loops

/-! ### Selections -/

theorem reads_caseValues (values : List Expr) (printable : ∀ e ∈ values, e.isPrintable = true) (rest : List Token) :
    Reads caseValues (style.keyword "Case" :: style.caseTokens values ++ Token.lineEnd style.line :: rest) values
      rest := by
  rw [caseTokens]
  refine .bind (reads_view fun _ => rfl) (.bind (reads_advance_one _ _) ?_)
  cases values with
  | nil =>
    refine .bind (reads_view (a := true) fun _ => by simp) (.bind (reads_advance_one _ _) ?_)
    exact .bind (reads_takeStatement_nil rfl rest) (reads_pure _ _)
  | cons e es =>
    have inside := standInside_printList style.line (e :: es) printable
    have read := readList_print style.line (e :: es) printable
    have noElse : ∀ endLine, Cursor.isKeyword ⟨printList style.line (e :: es) ++
        Token.lineEnd style.line :: rest, endLine⟩ "Else" = false := by
      intro endLine
      cases printed : printList style.line (e :: es) with
      | nil => rfl
      | cons t more => exact inside.isKeyword "Else" (by decide) t (by simp [printed])
    refine .bind (reads_view noElse) ?_
    refine .bind (reads_takeStatement inside.open_end rfl) (.bind (reads_lift read rest) ?_)
    exact reads_pure _ _

theorem areClosing_caseEnds : AreClosing caseEnds := by
  simp [AreClosing, caseEnds, closingWords]

/-- The cases are read up to the end of the selection. -/
def CasesRead (cs : Cases) : Prop :=
  PartsRead caseEnds caseList (style.cases cs) cs (style.cases .none ++ ·)

section Selections

variable {style}

theorem casesRead_none : CasesRead style .none := by
  intro budget rest _
  refine ⟨1, ⟨by simp [PrintStyle.cases], fun _ => ?_⟩, fun openedOn limit _ => ?_⟩
  · simp +decide [PrintStyle.cases, endAt?, caseEnds, Cursor.startsWith, Cursor.isKeywordLikeAt, findIdx?_cons]
  · cases limit <;> exact reads_pure _ _

theorem casesRead_case {values : List Expr} {body : List Block} {others : Cases}
    (printable : ∀ e ∈ values, e.isPrintable = true) (bodyReads : BlocksRead style body)
    (othersRead : CasesRead style others) : CasesRead style (.case values body others) := by
  refine othersRead.cons areClosing_caseEnds bodyReads (fun _ _ => ?_) fun readBody readOthers => ?_
  · simp [endAt?, caseEnds, Cursor.startsWith, findIdx?_cons]
  · refine .bind (reads_caseValues style values printable _) ?_
    exact .bind (reads_bodyUntil readBody _) (.bind readOthers (reads_pure _ _))

theorem blockReads_select {subject : Expr} {cs : Cases} (printable : subject.isPrintable = true)
    (casesRead : CasesRead style cs) : BlockReads style (.select subject cs line) := by
  refine blockReads_keyword style "Select" line 9 (by decide) rfl (fun _ => rfl) fun budget rest enough => ?_
  rw [PrintStyle.block, append_assoc, lineOf_append] at enough ⊢
  simp only [length_append, length_cons] at enough
  have within : (style.cases cs ++ rest).length ≤ budget := by simp; omega
  obtain ⟨found, stops, readCases⟩ := casesRead budget rest within
  have readFirst := blocksRead_nil style budget caseEnds _ _ areClosing_caseEnds stops within
  refine .guarded (fun _ => by simp [Cursor.isKeywordAt]) ?_
  refine .bind (reads_view fun _ => rfl) (.bind (reads_advance [_, _] _ 2 rfl) ?_)
  refine .bind (reads_takeExpr style subject printable _) ?_
  refine .bind (reads_expression style subject printable _ _) ?_
  refine .bind (reads_bodyUntil readFirst _) ?_
  refine .bind (reads_view_rest length _) (.bind (readCases line _ (Nat.le_refl _)) ?_)
  refine .bind (reads_advance [_, _] _ 2 rfl) ?_
  exact reads_ending rfl rest

end Selections

/-! ### Leaving and failing -/

theorem blockReads_exit (kind : ExitKind) (line : Nat) : BlockReads style (.exit kind line) := by
  refine blockReads_plain (isPlain_keyword (by decide) line ?_) ?_ rfl
  · cases kind <;> simp [exitWord, Token.isTerminator, ofKeyword, ofSoftKeyword]
  · cases kind <;>
      simp +decide [plainOf, constructOrder, findSome?_cons, plainOf?, instanceOf, exitOf, exitWord, exitWords] <;> rfl

theorem blockReads_onError (mode : ErrorMode) (line : Nat) : BlockReads style (.onError mode line) := by
  refine blockReads_keyword style "On" line 11 (by decide) rfl (fun _ => rfl) fun _ rest _ => ?_
  rw [PrintStyle.block, lineOf_append]
  refine .guarded (fun _ => by simp [Cursor.isKeywordLikeAt]) ?_
  refine .bind (reads_view fun _ => rfl) ?_
  have found : ∀ endLine, errorMode? ⟨ofKeyword "On" line :: style.softKeyword "Error" ::
      style.errorWords mode ++ Token.lineEnd style.line :: rest, endLine⟩ = some mode := by
    cases mode <;> simp +decide [errorMode?, errorWords, Cursor.isKeywordAt]
  refine .bind (reads_view found) ?_
  refine .bind (reads_advance _ _ 4 (by cases mode <;> rfl)) ?_
  exact reads_ending rfl rest

end VbSharp.Parser
