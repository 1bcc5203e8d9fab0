import VbSharp.Expr.Tree
import VbSharp.Proofs.Expr.Spelling
import VbSharp.Proofs.Likeness

/-!
# Trees of alike items

An operator is told by its word or mark, and neither depends on how letters are spelled. So alike items are grouped
into trees of one shape with the same operators in them, or neither list of items makes a tree, for the same reason.
-/
namespace VbSharp

open List

variable {L : Likeness}

variable (next : BinaryOp)

theorem BinaryOp.ofToken?_alike {t u : Token} (alike : t.Alike L u) : BinaryOp.ofToken? t = BinaryOp.ofToken? u := by
  simp only [BinaryOp.ofToken?, Likeness.foldCase_eq alike.text]

theorem UnaryOp.ofToken?_alike {t u : Token} (alike : t.Alike L u) : UnaryOp.ofToken? t = UnaryOp.ofToken? u := by
  simp only [UnaryOp.ofToken?, alike.isWord, alike.text_beq (show "-".toList.all (!·.isAlpha) = true by decide)]

section

variable {α : Type} {D : α → α → Prop}

/-- Items of which the operands are related. -/
inductive Item.Alike (L : Likeness) (D : α → α → Prop) : Item α → Item α → Prop where
  | operand {a b : α} (related : D a b) : Alike L D (.operand a) (.operand b)
  | operator {t u : Token} (alike : t.Alike L u) : Alike L D (.operator t) (.operator u)

/-- Trees with the same operators and related operands. -/
inductive Tree.Alike (L : Likeness) (D : α → α → Prop) : Tree α → Tree α → Prop where
  | operand {a b : α} (related : D a b) : Alike L D (.operand a) (.operand b)
  | unary {op : UnaryOp} {t u : Token} {x y : Tree α} (inner : Alike L D x y) : Alike L D (.unary op t x) (.unary op u y)
  | binary {op : BinaryOp} {t u : Token} {x y v w : Tree α} (left : Alike L D x y) (right : Alike L D v w) :
    Alike L D (.binary op t x v) (.binary op u y w)

inductive Waiting.Alike (L : Likeness) (D : α → α → Prop) : Waiting α → Waiting α → Prop where
  | unary {op : UnaryOp} {t u : Token} : Alike L D (.unary op t) (.unary op u)
  | binary {op : BinaryOp} {t u : Token} {x y : Tree α} (left : Tree.Alike L D x y) :
    Alike L D (.binary op t x) (.binary op u y)

namespace Tree

variable {x y : Tree α} {stack others : List (Waiting α)} {m n : Nat}

theorem apply_alike {v w : Waiting α} (right : x.Alike L D y) (waiting : v.Alike L D w) :
    (apply x v).Alike L D (apply y w) := by
  cases waiting with
  | unary => exact .unary right
  | binary left => exact .binary left right

theorem yields_alike {v w : Waiting α} (waiting : v.Alike L D w) : yields next v = yields next w := by
  cases waiting <;> rfl

theorem reduce_alike (right : x.Alike L D y) (waiters : Forall₂ (Waiting.Alike L D) stack others) :
    (reduce next x stack).1.Alike L D (reduce next y others).1 ∧
      Forall₂ (Waiting.Alike L D) (reduce next x stack).2 (reduce next y others).2 := by
  induction waiters generalizing x y with
  | nil => exact ⟨right, .nil⟩
  | cons top rest ih =>
    simp only [reduce, yields_alike next top]
    split
    · exact ih (apply_alike right top)
    · exact ⟨right, .cons top rest⟩

theorem foldl_apply_alike (left : x.Alike L D y) (waiters : Forall₂ (Waiting.Alike L D) stack others) :
    (stack.foldl apply x).Alike L D (others.foldl apply y) := by
  induction waiters generalizing x y with
  | nil => exact left
  | cons top _ ih => exact ih (apply_alike left top)

theorem builds_alike {items more : List (Item α)} (lines : n = m + L.shift)
    (alike : Forall₂ (Item.Alike L D) items more) :
    (∀ {stack others : List (Waiting α)}, Forall₂ (Waiting.Alike L D) stack others →
      L.Results (Tree.Alike L D) (buildOperand m stack items) (buildOperand n others more)) ∧
    ∀ {stack others : List (Waiting α)} {x y : Tree α}, Forall₂ (Waiting.Alike L D) stack others →
      x.Alike L D y → L.Results (Tree.Alike L D) (buildOperator m stack x items) (buildOperator n others y more) := by
  -- the two builders call each other, so what holds of both is shown along the items
  induction alike with
  | nil =>
    constructor
    · intro stack others waiters
      exact .error (.malformed (by omega) rfl)
    · intro stack others x y waiters left
      exact .ok (foldl_apply_alike left waiters)
  | cons same _ ih =>
    obtain ⟨operandDue, operatorDue⟩ := ih
    cases same with
    | operand related =>
      constructor
      · intro stack others waiters
        exact operatorDue waiters (.operand related)
      · intro stack others x y waiters left
        exact .error (.malformed (by omega) rfl)
    | operator token =>
      constructor
      · intro stack others waiters
        simp only [buildOperand, UnaryOp.ofToken?_alike token]
        split
        · exact operandDue (.cons .unary waiters)
        · exact .error (.malformed token.lineNumber (by simp only [Problem.mapText, token.text]))
      · intro stack others x y waiters left
        simp only [buildOperator, BinaryOp.ofToken?_alike token]
        split
        next op _ =>
          obtain ⟨reduced, rest⟩ := reduce_alike op left waiters
          exact operandDue (.cons (.binary reduced) rest)
        · exact .error (.malformed token.lineNumber (by simp only [Problem.mapText, token.text]))

end Tree
end

/-! ### Operands -/

section

variable {δ : Type} {D : δ → δ → Prop}

/-- Calls of alike names with related arguments. There is at least one name. -/
structure AlikeCalls (L : Likeness) (D : δ → δ → Prop) (x y : List Token × List δ) : Prop where
  filled : x.1 ≠ []
  named : Forall₂ (Token.Alike L) x.1 y.1
  given : Forall₂ D x.2 y.2

inductive Piece.Alike (L : Likeness) (D : δ → δ → Prop) : Piece δ → Piece δ → Prop where
  | call {names others : List Token} {as bs : List δ} (calls : AlikeCalls L D (names, as) (others, bs)) :
    Alike L D (.call names as) (.call others bs)
  | value {t u : Token} (literal : t.isLiteral = true) (alike : t.Alike L u) : Alike L D (.value t) (.value u)
  | operator {t u : Token} (alike : t.Alike L u) : Alike L D (.operator t) (.operator u)
  | bracketed {a b : δ} (inner : D a b) : Alike L D (.bracketed a) (.bracketed b)
  | new {t u : Token} (alike : t.Alike L u) : Alike L D (.new t) (.new u)

/-- Operands that are alike. A chain has at least one call. -/
inductive Operand.Alike (L : Likeness) (D : δ → δ → Prop) : Operand δ → Operand δ → Prop where
  | chain {call other : List Token × List δ} {calls others : List (List Token × List δ)}
    (first : AlikeCalls L D call other) (later : Forall₂ (AlikeCalls L D) calls others) :
    Alike L D (.chain (call :: calls)) (.chain (other :: others))
  | value {t u : Token} (literal : t.isLiteral = true) (alike : t.Alike L u) : Alike L D (.value t) (.value u)
  | bracketed {a b : δ} (inner : D a b) : Alike L D (.bracketed a) (.bracketed b)
  | new {t u : Token} (alike : t.Alike L u) : Alike L D (.new t) (.new u)

theorem Piece.items_alike {pieces others : List (Piece δ)} (alike : Forall₂ (Piece.Alike L D) pieces others) :
    Forall₂ (Item.Alike L (Operand.Alike L D)) (items pieces) (items others) := by
  induction alike with
  | nil => exact .nil
  | cons same _ ih =>
    cases same with
    | value literal token => exact .cons (.operand (.value literal token)) ih
    | operator token => exact .cons (.operator token) ih
    | bracketed inner => exact .cons (.operand (.bracketed inner)) ih
    | new className => exact .cons (.operand (.new className)) ih
    | call call =>
      -- a call joins the chain that follows it, if one does
      simp only [items]
      generalize items _ = one at ih ⊢
      generalize items _ = other at ih ⊢
      cases ih with
      | nil => exact .cons (.operand (.chain call .nil)) .nil
      | cons first later =>
        cases first with
        | operator token => exact .cons (.operand (.chain call .nil)) (.cons (.operator token) later)
        | operand related =>
          cases related with
          | chain next calls => exact .cons (.operand (.chain call (.cons next calls))) later
          | value literal token =>
            exact .cons (.operand (.chain call .nil)) (.cons (.operand (.value literal token)) later)
          | bracketed inner => exact .cons (.operand (.chain call .nil)) (.cons (.operand (.bracketed inner)) later)
          | new className => exact .cons (.operand (.chain call .nil)) (.cons (.operand (.new className)) later)

end

end VbSharp
