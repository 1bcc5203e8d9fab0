import VbSharp.Proofs.Expr.Spelling

/-!
# The words of an expression

The words of an expression are its names, literals and operators. In the printed tokens a word that is a name is
never followed by another one. A chain of member accesses is printed as a name with points, names and groups in
brackets behind it.
-/
namespace VbSharp.Expr

open List

mutual

/-- The names, literals and operators of a segment. -/
def segmentWords : Segment → List Token
  | .call names arguments => names ++ listWords arguments
  | .value t => [t]
  | .operator t => [t]
  | .bracketed inner => words inner
  | .new className => [className]

/-- The names, literals and operators of an expression, from left to right. -/
def words : List Segment → List Token
  | [] => []
  | s :: rest => segmentWords s ++ words rest

/-- The names, literals and operators of some expressions. -/
def listWords : List (List Segment) → List Token
  | [] => []
  | e :: rest => words e ++ listWords rest

end

theorem intersperse_names (point name : Token) (names : List Token) :
    (name :: names).intersperse point = name :: names.flatMap fun n => [point, n] := by
  induction names generalizing name with
  | nil => rfl
  | cons next names ih => simp [ih next]

theorem print_ne_nil (line : Nat) (e : Expr) (wellFormed : isWellFormed e = true) : print line e ≠ [] := by
  have spelled := spelled_print line e wellFormed
  simp only [isWellFormed, Bool.and_eq_true] at wellFormed
  rintro nothing
  cases e with
  | nil => simp at wellFormed
  | cons s rest =>
    obtain ⟨head, tail, same, spelled, -⟩ := spelled
    simp only [segmentsFit, Bool.and_eq_true] at wellFormed
    have filled := (isOneArgument_segment .gap _ s head wellFormed.2.1 spelled).1
    simp_all

/-! ### Names stand apart -/

theorem isNameLike_of_isLiteral {t : Token} (literal : t.isLiteral = true) : t.isNameLike = false := by
  cases kind : t.kind <;> simp_all [Token.isLiteral, Token.isNameLike, Kind.isNameLike]

theorem isNameLike_of_isOperator {t : Token} (operator : t.isOperator = true) : t.isNameLike = false := by
  cases kind : t.kind <;>
    simp_all [Token.isOperator, Kind.isOperator, Token.isNameLike, Kind.isNameLike]

/-- Behind a call without brackets only an operator can follow. -/
theorem print_after_call (line : Nat) (rest : Expr) (fit : segmentsFit .call rest = true)
    (bare : startsWithCall rest = false) (after : List Token) (apart : ∀ t ∈ after.head?, t.isNameLike = false) :
    ∀ t ∈ (print line rest ++ after).head?, t.isNameLike = false := by
  cases rest with
  | nil => exact apart
  | cons s rest =>
    simp only [segmentsFit, Bool.and_eq_true] at fit
    cases s with
    | call names arguments => simp [startsWithCall, Segment.isCall] at bare
    | operator t => simpa [print, printSegment] using isNameLike_of_isOperator fit.1
    | value t => simp [segmentFits] at fit
    | bracketed inner => simp [segmentFits] at fit
    | new className => simp [segmentFits] at fit

/-- Behind a name that starts an expression no other name follows directly. -/
theorem print_names_apart (line : Nat) (e : Expr) (wellFormed : isWellFormed e = true)
    (after : List Token) (apart : ∀ t ∈ after.head?, t.isNameLike = false) (first second : Token)
    (rest : List Token) (starts : print line e ++ after = first :: second :: rest)
    (named : first.isNameLike = true) : second.isNameLike = false := by
  cases e with
  | nil => simp [isWellFormed] at wellFormed
  | cons s others =>
    simp only [isWellFormed, segmentsFit, Bool.and_eq_true] at wellFormed
    obtain ⟨-, fit, fitOthers⟩ := wellFormed
    cases s with
    | value t =>
      obtain ⟨rfl, -⟩ := cons.inj starts
      simp only [segmentFits, Bool.and_eq_true] at fit
      exact absurd named (by simp [isNameLike_of_isLiteral fit.2])
    | operator t =>
      obtain ⟨rfl, -⟩ := cons.inj starts
      exact absurd named (by simp [isNameLike_of_isOperator fit])
    | bracketed inner =>
      obtain ⟨rfl, -⟩ := cons.inj starts
      cases named
    | new className =>
      obtain ⟨rfl, -⟩ := cons.inj starts
      cases named
    | call names arguments =>
      simp only [segmentFits, Bool.and_eq_true] at fit
      rcases names with _ | ⟨name, _ | ⟨_, _⟩⟩
      case nil => simp [namesFit] at fit
      case cons.cons =>
        obtain ⟨-, same⟩ := cons.inj starts
        obtain ⟨rfl, -⟩ := cons.inj same
        rfl
      case cons.nil =>
        -- behind a single name stands a bracket or, if it has none, what may follow the whole call
        by_cases bare : (arguments.isEmpty && !startsWithCall others) = true
        · obtain ⟨rfl, followed⟩ : arguments = [] ∧ startsWithCall others = false := by simpa using bare
          have next := print_after_call line others fitOthers followed after apart
          obtain ⟨-, same⟩ : name = first ∧ print line others ++ after = second :: rest := by
            simpa [print, printSegment, followed] using starts
          exact next second (by simp [same])
        · rw [print, printSegment, if_neg bare] at starts
          obtain ⟨-, same⟩ := cons.inj starts
          obtain ⟨rfl, -⟩ := cons.inj same
          rfl

theorem printList_names_apart (line : Nat) (es : List Expr) (wellFormed : allWellFormed es = true)
    (after : List Token) (apart : ∀ t ∈ after.head?, t.isNameLike = false) (first second : Token)
    (rest : List Token) (starts : printList line es ++ after = first :: second :: rest)
    (some_argument : es ≠ []) (named : first.isNameLike = true) : second.isNameLike = false := by
  rw [allWellFormed_iff] at wellFormed
  match es with
  | [] => contradiction
  | [e] => exact print_names_apart line e (wellFormed e (by simp)) after apart first second rest starts named
  | e :: next :: others =>
    refine print_names_apart line e (wellFormed e (by simp)) _ ?_ first second rest
      (by simpa [printList] using starts) named
    simp [Token.isNameLike, commaMark, Kind.isNameLike]

/-! ### Chains -/

/-- What can stand behind the first name of a chain: points with names, and groups in brackets. -/
inductive ChainTail : List Token → Prop where
  | nil : ChainTail []
  | member {point name : Token} {tail : List Token} (isPoint : point.kind = .member)
    (named : name.canNameMember = true) (rest : ChainTail tail) : ChainTail (point :: name :: tail)
  | group {start close : Token} {inner tail : List Token} (opens : start.kind = .openBracket)
    (closes : close.kind = .closeBracket) (balanced : IsBalanced inner) (rest : ChainTail tail) :
    ChainTail (start :: (inner ++ close :: tail))

theorem ChainTail.append {a b : List Token} (first : ChainTail a) (second : ChainTail b) : ChainTail (a ++ b) := by
  induction first with
  | nil => exact second
  | member isPoint named _ ih => exact .member isPoint named ih
  | group opens closes balanced _ ih => simpa using ChainTail.group opens closes balanced ih

theorem chainTail_names (line : Nat) (names : List Token) (named : ∀ name ∈ names, name.canNameMember = true) :
    ChainTail (names.flatMap fun n => [pointMark line, n]) := by
  induction names with
  | nil => exact .nil
  | cons name names ih =>
    obtain ⟨first, rest⟩ := forall_mem_cons.mp named
    exact .member rfl first (ih rest)

theorem isBalanced_printList (line : Nat) (es : List Expr) (wellFormed : allWellFormed es = true) :
    IsBalanced (printList line es) :=
  isBalanced_joined _ _ (joinedByCommas_printList line es) fun part member =>
    (isOneArgument_all es _ wellFormed (allSpelled_print line es wellFormed) part member).2

theorem chainTail_group (line : Nat) (arguments : List Expr) (wellFormed : allWellFormed arguments = true) :
    ChainTail (openMark line :: (printList line arguments ++ [closeMark line])) :=
  .group rfl rfl (isBalanced_printList line arguments wellFormed) .nil

theorem print_chain (line : Nat) (before : Before) (e : Expr) (fit : segmentsFit before e = true)
    (chain : isChain e = true) :
    ∃ name tail, print line e = name :: tail ∧ namesFit before [name] = true ∧ ChainTail tail := by
  induction e generalizing before with
  | nil => simp [isChain] at chain
  | cons s rest ih =>
    simp only [segmentsFit, Bool.and_eq_true] at fit
    match s with
    | .value _ | .operator _ | .bracketed _ | .new _ => simp [isChain, Segment.isCall] at chain
    | .call [] arguments => simp [segmentFits, namesFit] at fit
    | .call (name :: members) arguments =>
      simp only [segmentFits, Bool.and_eq_true] at fit
      obtain ⟨⟨names, filled⟩, others⟩ := fit
      have named := canNameMember_of_namesFit before _ names
      have tail := chainTail_names line members fun n member => named n (by simp [member])
      have single : namesFit before [name] = true := by
        simp only [namesFit, Bool.and_eq_true] at names ⊢
        exact ⟨names.1, rfl⟩
      have group := chainTail_group line arguments filled
      cases rest with
      | nil =>
        refine ⟨name, (members.flatMap fun n => [pointMark line, n]) ++ if arguments = [] then [] else
          openMark line :: (printList line arguments ++ [closeMark line]),
          by simp [print, printSegment, intersperse_names, startsWithCall], single, tail.append ?_⟩
        split
        · exact .nil
        · exact group
      | cons next more =>
        -- before another call the brackets are written even if nothing stands in them
        have chained : isChain (next :: more) = true := by simpa [isChain, Segment.isCall] using chain
        have called : startsWithCall (next :: more) = true := by
          simp only [isChain, all_cons, Bool.and_eq_true] at chained
          simpa [startsWithCall] using chained.2.1
        obtain ⟨nextName, nextTail, printed, fits, behind⟩ := ih .call others chained
        have memberName : nextName.canNameMember = true := by simpa [namesFit] using fits
        have isPoint : (pointMark line).kind = .member := rfl
        refine ⟨name, _, ?_, single, tail.append (group.append (.member isPoint memberName behind))⟩
        rw [print, printed]
        simp [printSegment, intersperse_names, called, Segment.isCall]

end VbSharp.Expr
