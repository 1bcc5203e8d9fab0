import VbSharp.Token.Sign

/-!
# Where an operand is due

An operand is due at the start and behind a token that may precede a sign. `Each` says something of every token, given
whether an operand is due there and which token comes next.
-/
namespace VbSharp.Sign

/-- The last token decides, and the flag before them only if there is none. -/
theorem leadsOperand_cons (leading : Bool) (t : Token) (front : List Token) :
    leadsOperand leading (t :: front) = leadsOperand t.mayPrecedeSign front := by
  cases front with
  | nil => rfl
  | cons u front =>
    obtain ⟨last, ends⟩ := Option.isSome_iff_exists.mp (List.getLast?_isSome.mpr (List.cons_ne_nil u front))
    simp [leadsOperand, List.getLast?_cons_cons, ends]

/-- The property holds of every token. -/
def Each (P : Bool → Token → Option Token → Prop) (leading : Bool) : List Token → Prop
  | [] => True
  | t :: rest => P leading t rest.head? ∧ Each P t.mayPrecedeSign rest

theorem each_iff {P : Bool → Token → Option Token → Prop} {leading : Bool} {tokens : List Token} :
    Each P leading tokens ↔
      ∀ front t rest, tokens = front ++ t :: rest → P (leadsOperand leading front) t rest.head? := by
  induction tokens generalizing leading with
  | nil => simp [Each]
  | cons first tokens ih =>
    rw [Each, ih]
    constructor
    · rintro ⟨start, later⟩ front t rest same
      cases front with
      | nil =>
        obtain ⟨rfl, rfl⟩ := List.cons.inj same
        exact start
      | cons u front =>
        obtain ⟨rfl, behind⟩ := List.cons.inj same
        rw [leadsOperand_cons]
        exact later front t rest behind
    · intro all
      refine ⟨all [] first tokens rfl, fun front t rest same => ?_⟩
      rw [← leadsOperand_cons leading first]
      exact all (first :: front) t rest (congrArg (first :: ·) same)

end VbSharp.Sign
