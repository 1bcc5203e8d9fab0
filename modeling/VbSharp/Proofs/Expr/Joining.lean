import VbSharp.Proofs.Expr.Precedence
import VbSharp.Proofs.Expr.Reading

/-!
# Putting expressions together

How an expression is read from its parts: two expressions with an operator between them, an operator before
an expression, brackets around one and a call with one argument. The items of the whole are those of the
parts, so a tree of the whole is found from trees of the parts.
-/
namespace VbSharp

variable {inner : List Token} {start close : Token}

namespace Expr

theorem segmentsFit_join (before : Before) (a b : List Segment) (t : Token)
    (operator : t.isOperator = true) (first : segmentsFit before a = true)
    (second : segmentsFit .gap b = true) : segmentsFit before (a ++ .operator t :: b) = true := by
  induction a generalizing before with
  | nil => simp [segmentsFit, segmentFits, asBefore, operator, second]
  | cons s a ih =>
    simp only [segmentsFit, Bool.and_eq_true] at first
    simp [segmentsFit, first.1, ih _ first.2]

/-- An operator behind a call is no call, so the call may stand without brackets. -/
theorem segmentsSpelled_join (before : Before) (a b : List Segment) (t : Token) (left right : List Token)
    (first : SegmentsSpelled before a left) (second : SegmentsSpelled .gap b right) :
    SegmentsSpelled before (a ++ .operator t :: b) (left ++ t :: right) := by
  induction a generalizing before left with
  | nil =>
    obtain rfl : left = [] := first
    exact ⟨[t], right, rfl, rfl, second⟩
  | cons s a ih =>
    obtain ⟨head, tail, rfl, start, later⟩ := first
    have sameStart : startsWithCall (a ++ .operator t :: b) = startsWithCall a := by
      cases a <;> rfl
    exact ⟨head, tail ++ t :: right, by simp, sameStart ▸ start, ih _ tail later⟩

variable {left right : List Token} {a b : Expr} {t : Token} {line : Nat}

theorem read_join (operator : t.isOperator = true) (first : read left line = .ok a)
    (second : read right line = .ok b) : read (left ++ t :: right) line = .ok (a ++ .operator t :: b) := by
  rw [read_ok_iff_spelled] at first second ⊢
  simp only [isWellFormed, Bool.and_eq_true] at first second ⊢
  exact ⟨⟨by simp, segmentsFit_join .gap a b t operator first.1.2 second.1.2⟩,
    segmentsSpelled_join .gap a b t left right first.2 second.2⟩

theorem read_operator (operator : t.isOperator = true) (second : read right line = .ok b) :
    read (t :: right) line = .ok (.operator t :: b) := by
  rw [read_ok_iff_spelled] at second ⊢
  simp only [isWellFormed, Bool.and_eq_true] at second ⊢
  exact ⟨⟨rfl, segmentsFit_join .gap [] b t operator rfl second.1.2⟩,
    segmentsSpelled_join .gap [] b t [] right rfl second.2⟩

theorem read_literal (literal : t.isLiteral = true) : read [t] line = .ok [.value t] := by
  rw [read_ok_iff_spelled]
  exact ⟨by simp [isWellFormed, segmentsFit, segmentFits, literal], [t], [], rfl, rfl, rfl⟩

theorem namesSpelled_single (name : Token) : NamesSpelled .gap [name] [name] :=
  ⟨pointMark 0, rfl, pointMark 0, [], rfl, rfl, rfl⟩

theorem read_name (named : t.isNameLike = true) : read [t] line = .ok [.call [t] []] := by
  rw [read_ok_iff_spelled]
  refine ⟨by simp [isWellFormed, segmentsFit, segmentFits, namesFit, allWellFormed, named], [t], [], rfl, ?_, rfl⟩
  exact ⟨[t], [], rfl, namesSpelled_single t, .inl ⟨rfl, rfl, rfl⟩⟩

theorem read_brackets (opens : start.kind = .openBracket) (closes : close.kind = .closeBracket)
    (body : read inner line = .ok a) : read (start :: (inner ++ [close])) line = .ok [.bracketed a] := by
  rw [read_ok_iff_spelled] at body ⊢
  refine ⟨?_, start :: (inner ++ [close]), [], by simp, ?_, rfl⟩
  · simpa [isWellFormed, segmentsFit, segmentFits] using body.1
  · exact ⟨inner, ⟨start, close, opens, closes, rfl⟩, body.2⟩

theorem read_call (named : t.isNameLike = true) (opens : start.kind = .openBracket)
    (closes : close.kind = .closeBracket) (body : read inner line = .ok a) :
    read (t :: start :: (inner ++ [close])) line = .ok [.call [t] [a]] := by
  rw [read_ok_iff_spelled] at body ⊢
  have wellFormed : allWellFormed [a] = true := by
    simpa [allWellFormed, isWellFormed] using body.1
  refine ⟨by simp [isWellFormed, segmentsFit, segmentFits, namesFit, named, wellFormed],
    t :: start :: (inner ++ [close]), [], by simp, ?_, rfl⟩
  exact ⟨[t], start :: (inner ++ [close]), rfl, namesSpelled_single t,
    .inr ⟨inner, [inner], ⟨start, close, opens, closes, rfl⟩, rfl, inner, [], rfl, body.2, rfl⟩⟩

/-- Nothing that stands before an operator is in one chain with what stands behind it. -/
theorem items_join (a b : Expr) (t : Token) : items (a ++ .operator t :: b) = items a ++ .operator t :: items b := by
  induction a with
  | nil => rfl
  | cons s a ih =>
    simp only [items, List.map_append, List.map_cons, List.cons_append] at ih ⊢
    cases s with
    | value | operator | bracketed | new => simpa [Segment.piece, Piece.items] using ih
    | call names arguments =>
      simp only [Segment.piece, Piece.items] at ih ⊢
      rw [ih]
      cases Piece.items (a.map Segment.piece) with
      | nil => rfl
      | cons first others =>
        cases first with
        | operator token => rfl
        | operand operand => cases operand <;> rfl

end Expr

/-- The tree of an expression is the one that has its items and is grouped. -/
theorem Expr.tree_ok_iff {e : Expr} {t : Tree (Operand Expr)} :
    Expr.tree e = .ok t ↔ t.items = Expr.items e ∧ t.IsGrouped :=
  Tree.build_ok_iff _ _ t

end VbSharp
