import VbSharp.Proofs.Token.Due
import VbSharp.Proofs.Token.Joining

/-!
# A minus sign before a numeral

What the machine that joins numerals does with a minus sign. Behind tokens that leave an operand due, the
sign is carried along by the numeral behind it: the same number comes out, with the sign as part of its text.
Before a name it stands for itself. Behind an operand it is passed on, and the machine starts anew.
-/
namespace VbSharp.Numeral

open List

variable {signed : Bool} {tokens out front parts rest : List Token} {t sign number name : Token} {next : Option Token}

/-! ### Where the sign stands -/

theorem Core.exists_last (core : Core parts next) :
    ∃ before last, parts = before ++ [last] ∧ (last.kind = .number ∨ last.kind = .point) := by
  cases core with
  | whole number => exact ⟨[], _, rfl, .inl number⟩
  | pointed pointed =>
    cases pointed with
    | digits _ _ _ point => exact ⟨[_], _, rfl, .inr point⟩
  | fraction _ plain => exact ⟨_, _, rfl, .inl plain.1⟩
  | @exponent lead d sign _ _ _ _ _ digits => exact ⟨lead ++ [d, sign], _, by simp, .inl digits.1⟩

/-- Behind a token that ends an operand a sign starts no numeral. -/
theorem leadsOperand_behind (signed : Bool) (front : List Token) (part : t.kind = .number ∨ t.kind = .point)
    (rest : List Token) : Sign.leadsOperand signed (front ++ t :: rest) = Sign.leadsOperand false rest := by
  have operand : t.mayPrecedeSign = false := by
    rcases part with kind | kind <;> simp [Token.mayPrecedeSign, Kind.mayPrecedeSign, Kind.isOperator, kind]
  induction front generalizing signed with
  | nil => rw [nil_append, Sign.leadsOperand_cons, operand]
  | cons u front ih => rw [cons_append, Sign.leadsOperand_cons, ih]

theorem head?_behind {P : Token → Prop} (stops : ∀ n ∈ rest.head?, P n) (first : P sign) (tokens : List Token) :
    ∀ n ∈ (rest ++ sign :: tokens).head?, P n := by
  cases rest with
  | nil =>
    rintro n ⟨⟩
    exact first
  | cons => exact stops

theorem Core.before_sign (core : Core parts rest.head?) (isMinus : isMinus sign = true) (tokens : List Token) :
    Core parts (rest ++ sign :: tokens).head? := by
  have kind := (isMinus_iff.mp isMinus).1
  cases core with
  | whole number unmarked stops => exact .whole number unmarked (head?_behind stops (by simp [kind]) tokens)
  | pointed pointed stops => exact .pointed pointed (head?_behind stops (by simp [kind, IsPlain]) tokens)
  | fraction pointed plain unmarked => exact .fraction pointed plain unmarked
  | exponent leads mark isSign digits => exact .exponent leads mark isSign digits

theorem Joined.before_sign {later : List Token} (joined : Joined signed tokens out) (isMinus : isMinus sign = true)
    (behind : Joined (Sign.leadsOperand signed tokens) (sign :: rest) later) :
    Joined signed (tokens ++ sign :: rest) (out ++ later) := by
  have kind := (isMinus_iff.mp isMinus).1
  induction joined with
  | nil => exact behind
  | pass noNumber noStart _ ih =>
    rw [Sign.leadsOperand_cons] at behind
    exact .pass noNumber noStart (ih behind)
  | sign other stops _ ih =>
    rw [Sign.leadsOperand_cons, mayPrecedeSign_of_isMinus other] at behind
    exact .sign other (head?_behind stops (by simp [kind]) rest) (ih behind)
  | point begins point stops _ ih =>
    rw [leadsOperand_behind _ _ (.inr point)] at behind
    rw [append_assoc, append_assoc]
    exact .point begins point (head?_behind stops (by simp [kind, IsPlain]) rest) (ih behind)
  | @number _ front parts _ _ _ begins core joined _ ih =>
    obtain ⟨before, last, ends, part⟩ := core.exists_last
    rw [ends, ← append_assoc, append_assoc, singleton_append, leadsOperand_behind _ _ part] at behind
    rw [append_assoc]
    exact .number begins (core.before_sign isMinus rest) joined (ih behind)

/-! ### The last token -/

/-- A token that is part of no numeral comes out last if it comes last. -/
theorem Joined.getLast? (joined : Joined signed tokens out) (isWord : t.kind ≠ .number ∧ t.kind ≠ .point)
    (last : tokens.getLast? = some t) : out.getLast? = some t := by
  -- behind what came out, the rest ends in the token or there is no rest
  have behind (before others : List Token) {rest out : List Token} (ih : rest.getLast? = some t → out.getLast? = some t)
      (ends : rest = [] → before.getLast? = some t → (others ++ out).getLast? = some t)
      (last : (before ++ rest).getLast? = some t) : (others ++ out).getLast? = some t := by
    cases found : rest.getLast? with
    | none => exact ends (getLast?_eq_none_iff.mp found) (by simpa [found] using last)
    | some u =>
      obtain rfl : u = t := by simpa [found] using last
      simp [getLast?_append, ih found]
  have none_behind {signed : Bool} {rest out : List Token} (joined : Joined signed rest out) (none : rest = []) :
      out = [] := by
    subst none
    exact Except.ok.inj ((run_of_joined joined).symm.trans (run_nil _))
  induction joined with
  | nil => cases last
  | @pass _ u _ _ _ _ later ih =>
    exact behind [u] [u] ih (fun none same => by simpa [none_behind later none] using same) last
  | @sign u _ _ _ _ later ih =>
    exact behind [u] [u] ih (fun none same => by simpa [none_behind later none] using same) last
  | @point _ front rest out p _ point _ _ ih =>
    rw [append_cons] at last ⊢
    refine behind _ _ ih (fun _ same => absurd point ?_) last
    rw [getLast?_concat, Option.some.injEq] at same
    exact same ▸ isWord.2
  | number _ core _ _ ih =>
    obtain ⟨before, u, rfl, part⟩ := core.exists_last
    refine behind _ [_] ih (fun _ same => ?_) last
    rw [← append_assoc, getLast?_concat, Option.some.injEq] at same
    exact absurd (same ▸ part) (by simp [isWord])

/-! ### The sign is carried along -/

/-- A number with a minus sign before it. -/
def negated (sign number : Token) : Token :=
  ⟨.number, "-" ++ number.text, sign.line⟩

/-- Whether a number starts with a digit or a point. -/
def isUnsigned (t : Token) : Bool :=
  t.text.toList.head?.any fun c => c.isDigit || c == '.'

theorem splitSign_unsigned {text : List Char} (unsigned : (text.head?.any fun c => c.isDigit || c == '.') = true) :
    Decimal.splitSign text = (false, text) := by
  unfold Decimal.splitSign
  split
  · exact absurd unsigned (by simp)
  · exact absurd unsigned (by simp)
  · rfl

theorem isFinite_negated {text : String} (unsigned : (text.toList.head?.any fun c => c.isDigit || c == '.') = true) :
    (Quantity.read? ("-" ++ text)).any Quantity.isFinite = (Quantity.read? text).any Quantity.isFinite := by
  have signed : Decimal.splitSign ("-" ++ text).toList = (true, text.toList) := by
    simp [Decimal.splitSign]
  simp only [Quantity.read?, signed, splitSign_unsigned unsigned]
  split
  · rfl
  · split
    · rfl
    · cases Decimal.unsigned? text.toList <;> rfl

theorem join_ok (joined : join parts = .ok number) :
    number = ⟨.number, textOf parts, lineOf parts⟩ ∧ (Quantity.read? number.text).any Quantity.isFinite = true := by
  unfold join at joined
  simp only at joined
  split at joined
  next finite =>
    obtain rfl := Except.ok.inj joined
    exact ⟨rfl, finite⟩
  · cases joined

theorem join_negated (isMinus : isMinus sign = true) (joined : join parts = .ok number)
    (unsigned : isUnsigned number = true) : join (sign :: parts) = .ok (negated sign number) := by
  obtain ⟨rfl, finite⟩ := join_ok joined
  have text : textOf (sign :: parts) = "-" ++ textOf parts := by
    simp [textOf, (isMinus_iff.mp isMinus).2]
  have range : (Quantity.read? ("-" ++ textOf parts)).any Quantity.isFinite = true := by
    rw [isFinite_negated unsigned, finite]
  simp [join, text, range, negated, lineOf]

theorem unsigned_first (ok : join (t :: parts) = .ok number) (unsigned : isUnsigned number = true) :
    t.text.toList.head? ≠ some '-' := by
  intro minus
  obtain ⟨letters, text⟩ := head?_eq_some_iff.mp minus
  simp [isUnsigned, (join_ok ok).1, textOf, text] at unsigned

/-- A number comes out first where the parts of a numeral stand. -/
theorem Joined.number_first (joined : Joined signed tokens out) (first : number ∈ out.head?)
    (isNumber : number.kind = .number) : ∃ front u parts rest later, tokens = front ++ u :: parts ++ rest ∧
      out = number :: later ∧ Begins signed front (some u) ∧ Core (u :: parts) rest.head? ∧
      join (front ++ u :: parts) = .ok number ∧ Joined false rest later := by
  cases joined with
  | nil => cases first
  | pass noNumber =>
    cases first
    exact absurd isNumber noNumber
  | sign isMinus =>
    cases first
    simp [(isMinus_iff.mp isMinus).1] at isNumber
  | point begins point =>
    cases begins with
    | number | point =>
      cases first
      simp [point] at isNumber
    | minus _ isMinus =>
      cases first
      simp [(isMinus_iff.mp isMinus).1] at isNumber
  | @number _ front parts rest later _ begins core joined behind =>
    cases first
    cases parts with
    | nil => cases begins
    | cons u parts => exact ⟨front, u, parts, rest, later, rfl, rfl, begins, core, joined, behind⟩

theorem Joined.sign_number (joined : Joined true tokens (number :: out)) (isMinus : isMinus sign = true)
    (isNumber : number.kind = .number) (unsigned : isUnsigned number = true) :
    Joined true (sign :: tokens) (negated sign number :: out) := by
  obtain ⟨front, first, parts, rest, later, rfl, ⟨⟩, begins, core, joined, behind⟩ := joined.number_first rfl isNumber
  cases begins with
  | number | point =>
    have begins : Begins true [sign] (some first) := .minus rfl isMinus fun _ => unsigned_first joined unsigned
    have negates := join_negated isMinus joined unsigned
    rw [← singleton_append] at negates
    exact .number begins core negates behind
  | minus _ other => exact absurd (by simp [(isMinus_iff.mp other).2]) (unsigned_first joined unsigned)

theorem Joined.sign_name (joined : Joined true tokens (name :: out)) (isMinus : isMinus sign = true)
    (named : name.isNameLike = true) : Joined true (sign :: tokens) (sign :: name :: out) := by
  have kinds : name.kind ≠ .number ∧ name.kind ≠ .point ∧ name.kind ≠ .arithmetic := by
    refine ⟨?_, ?_, ?_⟩ <;> exact fun kind => by simp [Token.isNameLike, kind, Kind.isNameLike] at named
  generalize same : name :: out = written at joined
  cases joined with
  | nil => cases same
  | @pass _ t rest _ noNumber noStart later =>
    obtain ⟨rfl, rfl⟩ := cons.inj same
    refine .sign isMinus ?_ (.pass noNumber noStart later)
    rintro n ⟨⟩
    exact ⟨kinds.2.1, fun number => absurd number noNumber⟩
  | sign other =>
    obtain ⟨rfl, -⟩ := cons.inj same
    exact absurd (isMinus_iff.mp other).1 kinds.2.2
  | point begins point =>
    cases begins with
    | number | point =>
      obtain ⟨rfl, -⟩ := cons.inj same
      exact absurd point kinds.2.1
    | minus _ other =>
      obtain ⟨rfl, -⟩ := cons.inj same
      exact absurd (isMinus_iff.mp other).1 kinds.2.2
  | number _ _ joined =>
    obtain ⟨rfl, -⟩ := cons.inj same
    exact absurd (congrArg Token.kind (join_ok joined).1) kinds.1

end VbSharp.Numeral

/-! ### The joined tokens -/

namespace VbSharp

open List
open Numeral

variable {t number name u : Token} {later more tokens front out : List Token}

theorem eq_of_settlePoint (same : settlePoint t = u) (other : u.kind ≠ .member) : t = u := by
  unfold settlePoint at same
  split at same
  · exact absurd (same ▸ rfl) other
  · exact same

theorem joinNumerals_ok_iff (tokens out : List Token) : joinNumerals tokens = .ok out ↔
    ∃ written, machine.run (.idle true) tokens = .ok written ∧ out = written.map settlePoint := by
  unfold joinNumerals
  cases machine.run (.idle true) tokens <;> simp [Except.map, eq_comm]

theorem joinNumerals_iff : joinNumerals tokens = .ok out ↔
    ∃ written, Joined true tokens written ∧ out = written.map settlePoint := by
  simp only [joinNumerals_ok_iff, iff_of_eq (propext ⟨joined_of_run, run_of_joined⟩)]

theorem settlePoint_sign {sign : Token} (isMinus : isMinus sign = true) : settlePoint sign = sign := by
  simp [settlePoint, (isMinus_iff.mp isMinus).1]

theorem joinNumerals_last {b : List Token} (isWord : t.kind ≠ .number ∧ t.kind ≠ .point)
    (joined : joinNumerals (front ++ [t]) = .ok b) : ∃ others, b = others ++ [t] := by
  obtain ⟨written, made, rfl⟩ := joinNumerals_iff.mp joined
  obtain ⟨others, rfl⟩ := getLast?_eq_some_iff.mp (made.getLast? isWord getLast?_concat)
  exact ⟨others.map settlePoint, by simp [settlePoint, isWord]⟩

section Sign

variable {before b ts : List Token} {sign : Token} (joinedBefore : joinNumerals before = .ok b)
  (isMinus : isMinus sign = true)

include joinedBefore isMinus

theorem joinNumerals_sign (behind : Joined (Sign.leadsOperand true before) (sign :: ts) later) :
    joinNumerals (before ++ sign :: ts) = .ok (b ++ later.map settlePoint) := by
  obtain ⟨written, made, rfl⟩ := joinNumerals_iff.mp joinedBefore
  exact joinNumerals_iff.mpr ⟨_, made.before_sign isMinus behind, by simp⟩

theorem joinNumerals_sign_number (joined : joinNumerals ts = .ok (number :: more)) (isNumber : number.kind = .number)
    (unsigned : isUnsigned number = true) (due : Sign.leadsOperand true before = true) :
    joinNumerals (before ++ sign :: ts) = .ok (b ++ negated sign number :: more) := by
  obtain ⟨written, made, same⟩ := joinNumerals_iff.mp joined
  obtain ⟨first, others, rfl, settled, rfl⟩ := map_eq_cons_iff.mp same.symm
  obtain rfl := eq_of_settlePoint settled (by simp [isNumber])
  have behind := made.sign_number isMinus isNumber unsigned
  rw [joinNumerals_sign joinedBefore isMinus (due ▸ behind), map_cons]
  rfl

theorem joinNumerals_sign_name (joined : joinNumerals ts = .ok (name :: more)) (named : name.isNameLike = true)
    (due : Sign.leadsOperand true before = true) :
    joinNumerals (before ++ sign :: ts) = .ok (b ++ sign :: name :: more) := by
  obtain ⟨written, made, same⟩ := joinNumerals_iff.mp joined
  obtain ⟨first, others, rfl, settled, rfl⟩ := map_eq_cons_iff.mp same.symm
  have other : name.kind ≠ .member := fun kind => by simp [Token.isNameLike, Kind.isNameLike, kind] at named
  obtain rfl := eq_of_settlePoint settled other
  have behind := made.sign_name isMinus named
  rw [joinNumerals_sign joinedBefore isMinus (due ▸ behind), map_cons, map_cons, settled, settlePoint_sign isMinus]

theorem joinNumerals_sign_behind (joined : joinNumerals ts = .ok later)
    (operand : Sign.leadsOperand true before = false) :
    joinNumerals (before ++ sign :: ts) = .ok (b ++ sign :: later) := by
  obtain ⟨others, made, rfl⟩ := joinNumerals_iff.mp joined
  have behind : Joined false (sign :: ts) (sign :: others) :=
    .pass (by simp [(isMinus_iff.mp isMinus).1]) nofun (mayPrecedeSign_of_isMinus isMinus ▸ made)
  rw [joinNumerals_sign joinedBefore isMinus (operand ▸ behind), map_cons, settlePoint_sign isMinus]

end Sign

end VbSharp
