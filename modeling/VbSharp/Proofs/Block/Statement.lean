import VbSharp.Proofs.Block.Plain
import VbSharp.Proofs.Block.Printing

/-!
# Reading plain statements

Calls and assignments are read from their printed lines. The printed target of an assignment and the printed chain of
a call are a first name and a chain tail, over which both the search for the sign of an assignment and the search for
the arguments of a call pass in the same way.
-/
namespace VbSharp.Parser

open List VbSharp.Expr Parser.LeadingChain Token PrintStyle

variable (style : PrintStyle)

variable (e before : Expr) (names : List Token)

variable {tokens : List Token} {b : Block}

/-! ### The sign of an assignment -/

theorem isEquals_of_canNameMember {t : Token} (named : t.canNameMember = true) : t.isEquals = false := by
  rw [Token.isEquals, Bool.and_eq_false_imp]
  intro compares
  simp only [beq_iff_eq] at compares
  -- a comparison that names a member is a word, and the sign is none
  have letters : t.text.toList.all Char.isAlpha = true := by
    simpa [Token.canNameMember, Token.isNameLike, Kind.isNameLike, compares] using named
  simp only [beq_eq_false_iff_ne, ne_eq]
  intro sign
  rw [sign] at letters
  exact absurd letters (by decide)

/-- A bracket, or a token that is not the sign or stands in brackets, is passed over. -/
theorem splitAtEquals_pass (t : Token) (rest : List Token) (depth after : Nat)
    (step : depthStep depth t = some after) (other : depth ≠ 0 ∨ t.isEquals = false) :
    splitAtEquals depth (t :: rest) = (splitAtEquals after rest).map fun (left, right) => (t :: left, right) := by
  have passed : ¬(depth = 0 ∧ t.isEquals = true) := by
    rcases other with deep | other
    · exact fun sign => deep sign.1
    · simp [other]
  rw [splitAtEquals]
  simp only [if_neg passed]
  cases kind : t.kind <;> simp_all [depthStep]

theorem splitAtEquals_inside (inner rest : List Token) (depth after : Nat)
    (nested : depthAfter depth inner = some after) :
    splitAtEquals (depth + 1) (inner ++ rest) =
      (splitAtEquals (after + 1) rest).map fun (left, right) => (inner ++ left, right) := by
  induction inner generalizing depth with
  | nil =>
    obtain rfl : depth = after := by simpa using nested
    simp
  | cons t inner ih =>
    simp only [depthAfter_cons, Option.bind_eq_some_iff] at nested
    obtain ⟨next, step, later⟩ := nested
    have within := depthStep_succ depth next t step
    rw [cons_append, splitAtEquals_pass t _ _ _ within (.inl (by simp)), ih next later]
    simp [Function.comp_def]

theorem splitAtEquals_chain (tail right : List Token) (sign : Token) (isSign : sign.isEquals = true)
    (chain : ChainTail tail) : splitAtEquals 0 (tail ++ sign :: right) = some (tail, right) := by
  induction chain with
  | nil =>
    simp only [Token.isEquals, Bool.and_eq_true, beq_iff_eq] at isSign
    simp [splitAtEquals, Token.isEquals, isSign]
  | @member point name tail isPoint named _ ih =>
    have flatPoint : depthStep 0 point = some 0 := by simp [depthStep, isPoint]
    have flatName := depthStep_of_isStructural 0 (isStructural_of_canNameMember named)
    have other : point.isEquals = false := by simp [Token.isEquals, isPoint]
    rw [cons_append, splitAtEquals_pass point _ 0 0 flatPoint (.inr other), cons_append,
      splitAtEquals_pass name _ 0 0 flatName (.inr (isEquals_of_canNameMember named)), ih]
    rfl
  | @group start close inner tail opens closes balanced _ ih =>
    have opened : depthStep 0 start = some 1 := by simp [depthStep, opens]
    have closed : depthStep 1 close = some 0 := by simp [depthStep, closes]
    have bracket : start.isEquals = false := by simp [Token.isEquals, opens]
    rw [cons_append, splitAtEquals_pass start _ 0 1 opened (.inr bracket), append_assoc,
      splitAtEquals_inside inner _ 0 0 balanced, cons_append,
      splitAtEquals_pass close _ 1 0 closed (.inl (by simp)), ih]
    simp

/-! ### Assignments -/

theorem print_target (target : Expr) (printable : target.isPrintable = true) (chain : Expr.isChain target = true) :
    ∃ name tail, style.expr target = name :: tail ∧ name.isNameLike = true ∧ ChainTail tail := by
  have wellFormed := ((isPrintable_iff target).mp printable).1
  simp only [Expr.isWellFormed, Bool.and_eq_true] at wellFormed
  obtain ⟨name, tail, printed, fits, behind⟩ :=
    print_chain style.line .gap target wellFormed.2 chain
  exact ⟨name, tail, printed, by simpa [namesFit] using fits, behind⟩

theorem splitAtEquals_assignment (target : Expr) (printable : target.isPrintable = true)
    (chain : Expr.isChain target = true) (right : List Token) :
    splitAtEquals 0 (style.expr target ++ style.equals :: right) = some (style.expr target, right) := by
  obtain ⟨name, tail, printed, named, behind⟩ := print_target style target printable chain
  have member := canNameMember_of_isNameLike named
  have flat := depthStep_of_isStructural 0 (isStructural_of_canNameMember member)
  rw [printed, cons_append, splitAtEquals_pass name _ 0 0 flat (.inr (isEquals_of_canNameMember member)),
    splitAtEquals_chain tail right style.equals rfl behind]
  rfl

theorem target_print (printable : e.isPrintable = true) (chain : Expr.isChain e = true) (line : Nat) :
    target (style.expr e) line = .ok e := by
  rw [target, expr, read_print style.line line e printable]
  simp [bind, Except.bind, chain, pure, Except.pure]

section Assignment

variable {target value : Expr} (printableTarget : target.isPrintable = true)
  (chain : Expr.isChain target = true) (printable : value.isPrintable = true)

include printableTarget chain printable

variable (kind : AssignKind) (word : String)

theorem assignment_print (line : Nat) :
    assignment kind (style.expr target) (style.expr value) line = .ok (.assignment kind target value) := by
  have read := read_print style.line line value printable
  rw [assignment, target_print style target printableTarget chain line]
  simp [bind, Except.bind, expr, read, pure, Except.pure]

omit chain in
theorem assignment_open : ∀ t ∈ style.expr target ++ style.equals :: style.expr value, t.isTerminator = false := by
  have left := (standInside_print style.line target printableTarget).open_end
  have right := (standInside_print style.line value printable).open_end
  exact forall_mem_append.mpr ⟨left, forall_mem_cons.mpr ⟨rfl, right⟩⟩

theorem statementOf_print (line : Nat) (supported : unsupportedStatements.find? (sameWord word) = none)
    (opens : assignKind? (ofKeyword word line) = some kind) :
    statementOf (ofKeyword word line :: (style.expr target ++ style.equals :: style.expr value)) =
      some (.ok (.assignment kind target value)) := by
  have same : (ofKeyword word line).isWord = sameWord word := rfl
  simp only [statementOf, same, supported, opens, Option.map_some,
    splitAtEquals_assignment style target printableTarget chain]
  exact congrArg some (assignment_print style printableTarget chain printable kind line)

end Assignment

/-! ### Statements that start with a name -/

/-- The search for the arguments of a call passes over a chain tail. A tail that does not end with a
bracket leaves no group behind in which the arguments could stand. -/
theorem extend_chain (tail after : List Token) (behind : ChainTail tail) (chain : LeadingChain) :
    ∃ group, chain.extend (tail ++ after) = extend ⟨chain.length + tail.length, group⟩ after ∧
      (chain.lastGroup = none ∨ tail ≠ [] → (∀ t ∈ tail.getLast?, t.kind ≠ .closeBracket) → group = none) := by
  induction behind generalizing chain with
  | nil => exact ⟨chain.lastGroup, rfl, by simp⟩
  | @member point name tail isPoint named _ ih =>
    obtain ⟨group, passed, bare⟩ := ih ⟨chain.length + 2, none⟩
    refine ⟨group, ?_, fun _ last => bare (.inl rfl) fun t member => last t ?_⟩
    · rw [cons_append, cons_append, extend]
      simp only [isPoint, named, if_true, passed, length_cons]
      congr 2
      omega
    · cases tail with
      | nil => simp at member
      | cons => simpa using member
  | @group start close inner tail opens closes balanced _ ih =>
    obtain ⟨group, passed, bare⟩ := ih ⟨chain.length + inner.length + 2, some chain.length⟩
    have ends : (start :: (inner ++ close :: tail)).getLast? = (close :: tail).getLast? := by
      simp [getLast?_append, getLast?_cons]
    refine ⟨group, ?_, fun _ last => bare (.inr ?_) fun t member => last t ?_⟩
    · have closed := closeGroup_append inner (tail ++ after) close 0 balanced closes
      rw [cons_append, append_assoc, cons_append, extend.eq_def]
      simp only [opens]
      split
      next found => simp [closed] at found
      next found =>
        obtain ⟨rfl, rfl⟩ := Prod.mk.inj (Option.some.inj (closed.symm.trans found))
        rw [passed]
        congr 2
        simp only [length_cons, length_append]
        omega
    · -- if the tail ends with this group, its last token is the bracket
      rintro rfl
      exact last close (by rw [ends]; rfl) closes
    · rw [ends]
      cases tail with
      | nil => simp at member
      | cons => simpa using member

theorem extend_stop (chain : LeadingChain) (after : List Token)
    (stops : ∀ t ∈ after.head?, t.kind ≠ .member ∧ t.kind ≠ .openBracket) : chain.extend after = .ok chain := by
  cases after with
  | nil => rw [extend]
  | cons t rest =>
    rw [extend.eq_def]
    cases kind : t.kind <;> simp_all

/-- The chain that starts a statement, where no group in brackets is left behind. -/
theorem extend_statement (name : Token) (tail after : List Token) (behind : ChainTail tail)
    (stops : ∀ t ∈ after.head?, t.kind ≠ .member ∧ t.kind ≠ .openBracket) :
    ∃ group, extend ⟨1, none⟩ (((name :: tail) ++ after).drop 1) = .ok ⟨(name :: tail).length, group⟩ ∧
      ((∀ t ∈ tail.getLast?, t.kind ≠ .closeBracket) → group = none) := by
  obtain ⟨group, passed, bare⟩ := extend_chain tail after behind ⟨1, none⟩
  refine ⟨group, ?_, bare (.inl rfl)⟩
  rw [cons_append, drop_one, tail_cons, passed, extend_stop _ _ stops]
  simp [Nat.add_comm]

theorem namedStatement_assignment (target value : Expr) (printableTarget : target.isPrintable = true)
    (chain : Expr.isChain target = true) (printable : value.isPrintable = true) (line : Nat) :
    namedStatement (style.expr target ++ style.equals :: style.expr value) line =
      .ok (.assignment .value target value) := by
  have assigned := assignment_print style printableTarget chain printable .value line
  obtain ⟨name, tail, printed, -, behind⟩ := print_target style target printableTarget chain
  rw [printed] at assigned ⊢
  obtain ⟨group, found, -⟩ := extend_statement name tail (style.equals :: style.expr value) behind
    (by simp [equals])
  have sign : style.equals.isEquals = true := rfl
  rw [namedStatement, found]
  simpa [bind, Except.bind, sign] using assigned

/-- The first token of an argument that stands in no brackets continues no chain and assigns nothing. -/
theorem print_canLead (line : Nat) (e : Expr) (wellFormed : e.isWellFormed = true)
    (leads : e.canLead = true) : ∃ first rest, Expr.print line e = first :: rest ∧
      first.kind ≠ .member ∧ first.kind ≠ .openBracket ∧ first.isEquals = false := by
  cases e with
  | nil => simp [Expr.isWellFormed] at wellFormed
  | cons s others =>
    simp only [Expr.isWellFormed, segmentsFit, Bool.and_eq_true] at wellFormed
    obtain ⟨-, fit, -⟩ := wellFormed
    cases s with
    | operator _ | bracketed _ => simp [Expr.canLead] at leads
    | new className => exact ⟨_, _, rfl, Kind.noConfusion, Kind.noConfusion, rfl⟩
    | value t =>
      simp only [segmentFits, Bool.and_eq_true] at fit
      refine ⟨t, _, rfl, ?_⟩
      cases kind : t.kind <;> simp_all [Token.isLiteral, Token.isEquals]
    | call names =>
      cases names with
      | nil => simp [segmentFits, namesFit] at fit
      | cons name names =>
        have named : name.isNameLike = true := by
          simp only [segmentFits, namesFit, Bool.and_eq_true] at fit
          exact fit.1.1
        refine ⟨name, _, by rw [Expr.print, printSegment, intersperse_names]; rfl, ?_⟩
        cases kind : name.kind <;> simp_all [Token.isNameLike, Kind.isNameLike, Token.isEquals]

theorem getLast?_print_call (line : Nat) (before : Expr) (names : List Token) (some_name : names ≠ []) :
    (Expr.print line (before ++ [.call names []])).getLast? = names.getLast? := by
  induction before with
  | nil =>
    obtain ⟨name, names, rfl⟩ := exists_cons_of_ne_nil some_name
    have printed : Expr.print line [.call (name :: names) []] = name :: names.flatMap fun n => [pointMark line, n] := by
      simp [Expr.print, printSegment, startsWithCall, intersperse_names]
    rw [nil_append, printed]
    clear printed some_name
    induction names generalizing name with
    | nil => rfl
    | cons next names ih => simpa [getLast?_cons] using ih next
  | cons s before ih =>
    rw [cons_append, Expr.print, getLast?_append, ih]
    obtain ⟨name, last⟩ := Option.ne_none_iff_exists'.mp (mt getLast?_eq_none_iff.mp some_name)
    simp [last]

theorem last_not_bracket (printable : isPrintable (before ++ [.call names []]) = true) (name : Token)
    (tail : List Token) (printed : style.expr (before ++ [.call names []]) = name :: tail) :
    ∀ t ∈ tail.getLast?, t.kind ≠ .closeBracket := by
  intro t last
  have wellFormed := ((isPrintable_iff _).mp printable).1
  simp only [Expr.isWellFormed, Bool.and_eq_true] at wellFormed
  obtain ⟨place, fit⟩ := namesFit_last before names [] .gap wellFormed.2
  have ends := getLast?_print_call style.line before names (by rintro rfl; simp [namesFit] at fit)
  rw [show Expr.print style.line _ = _ from printed, getLast?_cons, Option.mem_def.mp last] at ends
  have member : t ∈ names := mem_of_getLast? ends.symm
  have plain := isStructural_of_canNameMember (canNameMember_of_namesFit place names fit t member)
  rintro isBracket
  simp [isBracket, isStructural] at plain

theorem giveArguments_append (arguments : List Expr) (line : Nat) :
    giveArguments (before ++ [.call names []]) arguments line = .ok (before ++ [.call names arguments]) := by
  simp [giveArguments]

theorem bareCall_append (arguments : List Expr) :
    style.bareCall (before ++ [.call names arguments]) =
      style.expr (before ++ [.call names []]) ++ printList style.line arguments := by
  simp [bareCall]

theorem printList_canLead (first : Expr) (others : List Expr) (wellFormed : first.isWellFormed = true)
    (leads : first.canLead = true) : ∃ t rest, printList style.line (first :: others) = t :: rest ∧
        t.kind ≠ .member ∧ t.kind ≠ .openBracket ∧ t.isEquals = false := by
  obtain ⟨t, rest, printed, kinds⟩ := print_canLead style.line first wellFormed leads
  cases others with
  | nil => exact ⟨t, rest, printed, kinds⟩
  | cons => exact ⟨t, _, by simp only [printList, printed, cons_append]; rfl, kinds⟩

theorem namedStatement_bareCall (printable : e.isPrintable = true) (chain : Expr.isChain e = true)
    (bare : e.isBareCall = true) (line : Nat) : namedStatement (style.bareCall e) line = .ok (.call e false) := by
  obtain ⟨before, names, arguments, rfl, printableCallee, chained, each⟩ :=
    exists_callee e printable chain
  have read := read_print style.line line _ printableCallee
  have readArguments := readList_print style.line arguments each
  obtain ⟨name, tail, printed, named, behind⟩ :=
    print_target style (before ++ [.call names []]) printableCallee chained
  have noBracket := last_not_bracket style before names printableCallee name tail printed
  rw [bareCall_append]
  rw [show Expr.print style.line _ = _ from printed] at read
  rw [printed]
  cases arguments with
  | nil =>
    obtain ⟨group, found, alone⟩ := extend_statement name tail [] behind (by simp)
    obtain rfl := alone noBracket
    rw [printList, namedStatement, found]
    simp [bind, Except.bind, argumentsStart, pure, Except.pure, read]
  | cons first others =>
    have leads : Expr.canLead first = true := by simpa [isBareCall] using bare
    have wellFormed := ((isPrintable_iff first).mp (each first (by simp))).1
    obtain ⟨t, rest, starts, noPoint, noOpen, noSign⟩ :=
      printList_canLead style first others wellFormed leads
    rw [starts] at readArguments ⊢
    obtain ⟨group, found, alone⟩ := extend_statement name tail (t :: rest) behind
      (by simp [noPoint, noOpen])
    obtain rfl := alone noBracket
    have dropped : ((name :: tail) ++ t :: rest).drop (name :: tail).length = t :: rest :=
      drop_left
    have taken : ((name :: tail) ++ t :: rest).take (name :: tail).length = name :: tail :=
      take_left
    have start : argumentsStart ((name :: tail) ++ t :: rest) ⟨(name :: tail).length, none⟩ =
        .ok (some (name :: tail).length) := by
      rw [argumentsStart, dropped]
      rfl
    rw [namedStatement, found]
    simp only [bind, Except.bind, dropped, head?_cons, Option.any_some, noSign,
      Bool.false_eq_true, if_false, start, taken, read, readArguments, giveArguments_append]
    rfl

/-- A line that starts with a name and is read as a block. -/
structure IsNamedLine (tokens : List Token) (b : Block) : Prop where
  read : ∀ line, namedStatement tokens line = .ok b
  inside : StandInside tokens
  /-- Two names never follow the first one directly, as they would in the header of a property. -/
  starts : ∃ first rest, tokens = first :: rest ∧ first.isNameLike = true ∧
    ∀ second third more, rest = second :: third :: more → second.isNameLike = true → third.isNameLike = false

theorem ChainTail.head_not_name {tail : List Token} (behind : ChainTail tail) :
    ∀ t ∈ tail.head?, t.isNameLike = false := by
  cases behind with
  | nil => simp
  | member isPoint => simp [Token.isNameLike, isPoint, Kind.isNameLike]
  | group opens => simp [Token.isNameLike, opens, Kind.isNameLike]

theorem standInside_equals : StandInside [style.equals] := by
  refine ⟨?_, ?_, ?_⟩ <;> simp [equals, Token.isTerminator, Token.isKeywordLike]

theorem isNamedLine_assignment (target value : Expr) (printableTarget : target.isPrintable = true)
    (chain : Expr.isChain target = true) (printable : value.isPrintable = true) :
    IsNamedLine (style.expr target ++ style.equals :: style.expr value) (.assignment .value target value) where
  read := namedStatement_assignment style target value printableTarget chain printable
  inside := (standInside_print style.line target printableTarget).append
    ((standInside_equals style).append (standInside_print style.line value printable))
  starts := by
    obtain ⟨name, tail, printed, named, behind⟩ := print_target style target printableTarget chain
    refine ⟨name, tail ++ style.equals :: style.expr value, by rw [printed]; rfl, named, ?_⟩
    intro second third more starts namedSecond
    have first : second.isNameLike = false := by
      cases tail with
      | nil =>
        obtain ⟨rfl, -⟩ := cons.inj starts
        rfl
      | cons t tail =>
        obtain ⟨rfl, -⟩ := cons.inj starts
        exact ChainTail.head_not_name behind t rfl
    simp [first] at namedSecond

theorem isNamedLine_bareCall (printable : e.isPrintable = true) (chain : Expr.isChain e = true)
    (bare : e.isBareCall = true) :
    IsNamedLine (style.bareCall e) (.call e false) where
  read := namedStatement_bareCall style e printable chain bare
  inside := by
    obtain ⟨before, names, arguments, rfl, printableCallee, _, each⟩ :=
      exists_callee e printable chain
    rw [bareCall_append]
    exact (standInside_print style.line _ printableCallee).append
      (standInside_printList style.line arguments each)
  starts := by
    obtain ⟨before, names, arguments, rfl, printableCallee, chained, each⟩ :=
      exists_callee e printable chain
    obtain ⟨name, tail, printed, named, behind⟩ :=
      print_target style (before ++ [.call names []]) printableCallee chained
    refine ⟨name, tail ++ printList style.line arguments,
      by rw [bareCall_append, printed]; rfl, named, ?_⟩
    intro second third more starts namedSecond
    cases tail with
    | nil =>
      refine printList_names_apart style.line arguments
        (allWellFormed_of_printable arguments each) [] (by simp) second third more
        (by simpa using starts) ?_ namedSecond
      rintro rfl
      simp [printList] at starts
    | cons t tail =>
      obtain ⟨rfl, -⟩ := cons.inj starts
      simp [ChainTail.head_not_name behind t rfl] at namedSecond

theorem IsNamedLine.made (line : IsNamedLine tokens b) : statementOf tokens = some (.ok b) := by
  obtain ⟨first, others, rfl, named, -⟩ := line.starts
  have isName : first.kind ≠ .keyword := by
    intro isKeyword
    simp [Token.isNameLike, isKeyword, Kind.isNameLike] at named
  simp only [statementOf, isName, if_false, named, if_true, line.read]

end VbSharp.Parser
