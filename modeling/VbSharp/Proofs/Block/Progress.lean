import VbSharp.Proofs.Block.Budget
import VbSharp.Proofs.Block.WordOrder

/-!
# Progress

A parser of a construct that declines leaves the cursor where it was, and one that makes a block has passed over a
token. So each turn of a run over blocks leaves fewer tokens, and the parser of blocks solves the equation of a run that
has no budget at all. The runs that are compared here stand before the same tokens, and keep to the end of one list.
-/
namespace VbSharp

open List
open VbSharp.Parser

variable {p : Construct × Parser (Option Block)} {first t : Token}

variable {whole : List Token} {line n : Nat} {c d : Cursor} {body body' : Body}

/-! ### Moving towards the end -/

/-- The cursor stands within the tokens, before some of the last ones. -/
structure Cursor.Within (whole : List Token) (line : Nat) (c : Cursor) : Prop where
  rest : c.rest <:+ whole
  endLine : c.endLine = line

namespace Cursor.Within

theorem advance (here : c.Within whole line) (count : Nat) : (c.advance count).Within whole line :=
  ⟨(drop_suffix ..).trans here.rest, here.endLine⟩

theorem dropWhile (here : c.Within whole line) (test : Token → Bool) :
    Cursor.Within whole line { c with rest := c.rest.dropWhile test } :=
  ⟨(dropWhile_suffix _).trans here.rest, here.endLine⟩

theorem skipTerminator (here : c.Within whole line) : c.skipTerminator.Within whole line := by
  cases next : c.peek? with
  | none => rwa [Cursor.skipTerminator, Cursor.rest_of_peek?_none next]
  | some t =>
    rw [Cursor.skipTerminator_of_peek? next]
    split
    · exact here.advance 1
    · exact here

theorem expects (here : c.Within whole line) : Expects .same (fun c d => d = c ∧ c.Within whole line) c c := by
  refine ⟨?_, ⟨rfl, here⟩, ⟨rfl, here.advance 1⟩⟩
  cases c.peek? with
  | none => exact .none
  | some t => exact .some t.alike_same.toResembles

end Cursor.Within

namespace Pace

/-- What two runs have come to does not depend on the pace, if their cursors have come back. -/
theorem Follows.change {L : Likeness} {P P' : Pace L} {α β : Type} {p : Parser α} {q : Parser β}
    {Q : α → β → Cursor → Cursor → Prop} (follows : P.Follows p q c d Q) (strict : P.strict) :
    P'.Follows p q c d Q := by
  intro log log'
  have ended := follows log log'
  generalize p ⟨c, log⟩ = one at ended ⊢
  generalize q ⟨d, log'⟩ = other at ended ⊢
  cases ended with
  | ok related => exact .ok related
  | error alike => exact .error alike
  | dropped lenient => exact absurd strict lenient

end Pace

namespace Parser

/-- What a run comes to, whatever it has recognised on its way. -/
def outcome {α : Type} : EStateM.Result Fault Reader α → Except Fault (α × Cursor)
  | .ok answer r => .ok (answer, r.cursor)
  | .error fault _ => .error fault

end Parser

/-! ### Constructs -/

/-- The second cursor stands behind some tokens of the first, and not past their end. -/
structure Cursor.Passed (c d : Cursor) : Prop where
  rest : ∃ passed, passed ≠ [] ∧ c.rest = passed ++ d.rest
  endLine : d.endLine = c.endLine

theorem Cursor.Within.passed (stands : d.Within c.rest c.endLine) (fewer : d.rest.length < c.rest.length) :
    c.Passed d := by
  obtain ⟨passed, same⟩ := stands.rest
  refine ⟨⟨passed, ?_, same.symm⟩, stands.endLine⟩
  rintro rfl
  rw [nil_append] at same
  exact absurd (congrArg length same) (Nat.ne_of_lt fewer)

variable {log : List Construct} {r : Reader}

end VbSharp
