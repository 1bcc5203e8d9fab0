import VbSharp.Proofs.Number.Spelling
import VbSharp.Proofs.Token.NumeralSign

/-!
# Joining numerals twice

A number that was joined can be read, so it does not end in an exponent mark and stands alone. No point is left that
could go with it, and a minus sign that went with no number does so no more the second time.
-/
namespace VbSharp

open List

variable {later : List Token}

/-! ### How numerals end -/

theorem Decimal.Mantissa.mem_text (m : Mantissa) : ∀ c ∈ m.text, c.isDigit = true ∨ c = '.' := by
  have digits : ∀ c ∈ m.before ++ m.behind, c.isDigit = true := by
    rw [← all_eq_true, all_append, m.only.1, m.only.2]
    rfl
  simp only [mem_append, or_imp, forall_and] at digits
  rcases m.text_cases with ⟨text, -⟩ | text
  · rw [text]
    exact fun c member => .inl (digits.1 c member)
  · rw [text, forall_mem_append, forall_mem_cons]
    exact ⟨fun c member => .inl (digits.1 c member), .inr rfl, fun c member => .inl (digits.2 c member)⟩

/-- What is read as a finite number ends in a digit or a point, so it does not end in an exponent mark. -/
theorem endsInMark_of_finite {t : Token} (finite : (Quantity.read? t.text).any Quantity.isFinite = true) :
    Numeral.endsInMark t = false := by
  obtain ⟨sign, m, e, -, same⟩ := Decimal.exists_of_finite finite
  have ends : ∀ c ∈ t.text.toList.getLast?, c.isDigit = true ∨ c = '.' := by
    rw [same]
    cases e with
    | none =>
      have filled : m.text ≠ [] := by
        cases m <;> simp [Decimal.Mantissa.text, Decimal.Mantissa.before, Decimal.Digits.filled]
      rw [Option.map_none, Option.getD_none, append_nil, getLast?_append_of_ne_nil _ filled]
      exact fun c last => m.mem_text c (mem_of_getLast? last)
    | some e =>
      rw [Option.map_some, Option.getD_some, Decimal.Exponent.text, append_cons, ← append_assoc,
        ← append_assoc, getLast?_append_of_ne_nil _ e.digits.filled]
      exact fun c last => .inl (all_eq_true.mp e.digits.only c (mem_of_getLast? last))
  unfold Numeral.endsInMark
  split
  next c last =>
    rcases ends c last with digit | rfl
    · -- neither mark is a digit
      by_contra mark
      simp only [Bool.not_eq_false, Bool.or_eq_true, beq_iff_eq] at mark
      rcases mark with rfl | rfl <;> cases digit
    · rfl
  · rfl

/-! ### What was joined -/

namespace Numeral

variable {signed : Bool} {tokens out parts : List Token} {t number : Token}

theorem kind_settlePoint (t : Token) : (settlePoint t).kind ≠ .point := by
  unfold settlePoint
  split
  · nofun
  next other => exact other

theorem kind_settlePoint_number (noNumber : t.kind ≠ .number) : (settlePoint t).kind ≠ .number := by
  unfold settlePoint
  split
  · nofun
  · exact noNumber

theorem mayPrecedeSign_settlePoint (t : Token) : (settlePoint t).mayPrecedeSign = t.mayPrecedeSign := by
  unfold settlePoint
  split
  next point => simp [Token.mayPrecedeSign, Kind.mayPrecedeSign, Kind.isOperator, point]
  · rfl

theorem isMinus_settlePoint (t : Token) : isMinus (settlePoint t) = isMinus t := by
  unfold settlePoint
  split
  next point =>
    rw [isMinus, isMinus, point]
    rfl
  · rfl

theorem head?_settlePoint (out : List Token) : ∀ n ∈ (out.map settlePoint).head?, n.kind ≠ .point := by
  cases out with
  | nil => nofun
  | cons t out =>
    rintro n ⟨⟩
    exact kind_settlePoint t

theorem Joined.member (point : t.kind = .point) (joined : Joined false tokens later) :
    Joined signed (settlePoint t :: tokens) (settlePoint t :: later) := by
  have noNumber : (settlePoint t).kind ≠ .number := kind_settlePoint_number (by simp [point])
  have other : isMinus (settlePoint t) = false := by
    rw [isMinus_settlePoint, isMinus, point]
    rfl
  refine .pass noNumber (fun _ => ⟨other, kind_settlePoint t⟩) ?_
  rwa [mayPrecedeSign_settlePoint, mayPrecedeSign_of_point point]

theorem settlePoint_number (joined : join parts = .ok number) : settlePoint number = number := by
  rw [(join_ok joined).1]
  rfl

theorem join_single (number : t.kind = .number) (finite : (Quantity.read? t.text).any Quantity.isFinite = true) :
    join [t] = .ok t := by
  obtain ⟨kind, text, line⟩ := t
  subst number
  have same : textOf [⟨.number, text, line⟩] = text := by simp [textOf]
  simp only [join, same, finite, if_true]
  rfl

theorem Joined.again (made : join parts = .ok number) (behind : ∀ n ∈ tokens.head?, n.kind ≠ .point)
    (joined : Joined false tokens later) : Joined signed (number :: tokens) (number :: later) := by
  obtain ⟨same, finite⟩ := join_ok made
  have isNumber : number.kind = .number := congrArg Token.kind same
  have core : Core [number] tokens.head? := .whole isNumber (endsInMark_of_finite finite) behind
  have begins : Begins signed [] ([number].head?) := .number isNumber
  exact .number begins core (join_single isNumber finite) joined

/-- Behind a lone minus sign comes no number without a sign. -/
theorem Joined.first_signed (joined : Joined signed tokens out)
    (stops : ∀ n ∈ tokens.head?, n.kind ≠ .point ∧ (n.kind = .number → n.text.toList.head? = some '-')) :
    ∀ n ∈ (out.map settlePoint).head?, n.kind = .number → n.text.toList.head? = some '-' := by
  rw [head?_map]
  rintro n first isNumber
  obtain ⟨t, found, rfl⟩ := Option.map_eq_some_iff.mp first
  have number : t.kind = .number := not_imp_not.mp kind_settlePoint_number isNumber
  obtain ⟨front, u, parts, rest, later, rfl, rfl, begins, -, joined, -⟩ := joined.number_first found number
  rw [settlePoint_number joined, (join_ok joined).1]
  -- the text of the first part comes first
  cases begins with
  | number number => simp [textOf, (stops u rfl).2 number]
  | point _ point => exact absurd point (stops u rfl).1
  | minus _ isMinus => simp [textOf, (isMinus_iff.mp isMinus).2]

theorem Joined.settled (joined : Joined signed tokens out) :
    Joined signed (out.map settlePoint) (out.map settlePoint) := by
  induction joined with
  | nil => exact .nil
  | @pass _ t _ _ noNumber noStart _ ih =>
    refine .pass (kind_settlePoint_number noNumber) (fun due => ⟨?_, kind_settlePoint t⟩) ?_
    · rw [isMinus_settlePoint, (noStart due).1]
    · rwa [mayPrecedeSign_settlePoint]
  | @sign _ _ out isMinus stops later ih =>
    rw [map_cons, settlePoint_sign isMinus]
    exact .sign isMinus (fun n first => ⟨head?_settlePoint out n first, later.first_signed stops n first⟩) ih
  | point begins point _ _ ih =>
    cases begins with
    | number | point => exact .member point ih
    | minus due isMinus =>
      subst due
      simp only [map_append, map_cons, map_nil, settlePoint_sign isMinus]
      refine .sign isMinus ?_ (.member point ih)
      rintro n ⟨⟩
      exact ⟨kind_settlePoint _, fun number => absurd number (kind_settlePoint_number (by simp [point]))⟩
  | @number _ _ _ _ out _ _ _ joined _ ih =>
    rw [map_cons, settlePoint_number joined]
    exact .again joined (head?_settlePoint out) ih

end Numeral

open Numeral

/-- Joining numerals a second time changes nothing. -/
theorem joinNumerals_twice (tokens out : List Token) (joined : joinNumerals tokens = .ok out) :
    joinNumerals out = .ok out := by
  obtain ⟨written, made, rfl⟩ := joinNumerals_iff.mp joined
  refine joinNumerals_iff.mpr ⟨_, made.settled, ?_⟩
  rw [map_map]
  exact map_congr_left fun t _ => (if_neg (kind_settlePoint t)).symm

/-- The second minus sign goes with the first number, the other two do not go with any. -/
theorem joinNumerals_twice_signs :
    joinNumerals [.ofWord "=" 0, .ofWord "-" 0, .ofWord "-" 0, .ofWord "1" 0, .ofWord "." 0, .ofWord "5E" 0,
        .ofWord "+" 0, .ofWord "2" 0, .ofWord "-" 1, .ofWord "3" 1, .ofWord "." 1, .ofWord ")" 1, .ofWord "." 1] =
      .ok [.ofWord "=" 0, .ofWord "-" 0, ⟨.number, "-1.5E+2", 0⟩, .ofWord "-" 1, ⟨.number, "3.", 1⟩, .ofWord ")" 1,
        ⟨.member, ".", 1⟩] ∧
    joinNumerals [.ofWord "=" 0, .ofWord "-" 0, ⟨.number, "-1.5E+2", 0⟩, .ofWord "-" 1, ⟨.number, "3.", 1⟩,
        .ofWord ")" 1, ⟨.member, ".", 1⟩] =
      .ok [.ofWord "=" 0, .ofWord "-" 0, ⟨.number, "-1.5E+2", 0⟩, .ofWord "-" 1, ⟨.number, "3.", 1⟩, .ofWord ")" 1,
        ⟨.member, ".", 1⟩] := by
  refine ⟨?joined, joinNumerals_twice _ _ ?joined⟩
  decide +kernel

end VbSharp
