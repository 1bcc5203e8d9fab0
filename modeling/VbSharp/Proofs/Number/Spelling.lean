import Mathlib.Algebra.Order.Field.Rat
import Mathlib.Tactic.FieldSimp
import Mathlib.Tactic.NormNum
import Mathlib.Tactic.Positivity
import Mathlib.Tactic.Ring
import VbSharp.Proofs.Text.LetterCase

/-!
# How numerals are spelled

A numeral is spelled with a minus sign or none, digits with a point before, between or behind them or none, and an
exponent or none. Reading the text of a spelling gives its value, and the value is a finite double exactly if its
magnitude is below the bound from which rounding leads to infinity.
-/
namespace VbSharp.Decimal

open List

variable {cs digits rest fraction whole : List Char}

variable (d : Digits) (n : Spelling) (m : Mantissa)

/-- Digits, at least one of them. -/
structure Digits where
  chars : List Char
  filled : chars ≠ []
  only : chars.all Char.isDigit = true

/-- The digits of a numeral and its point, as in `12`, `12.`, `12.5` and `.5`. -/
inductive Mantissa where
  | whole (digits : Digits)
  | pointed (digits : Digits)
  | full (digits fraction : Digits)
  | fraction (digits : Digits)

/-- The exponent of a numeral, as in `e5`, `E+5` and `e-5`. -/
structure Exponent where
  mark : Char
  sign : Option Char
  digits : Digits
  isMark : mark = 'e' ∨ mark = 'E'
  isSign : ∀ c ∈ sign, c = '+' ∨ c = '-'

/-- A numeral by its pieces. A point that no digits follow ends it. -/
structure Spelling where
  negative : Bool
  mantissa : Mantissa
  exponent : Option Exponent
  ends : ∀ digits, mantissa = .pointed digits → exponent = none

/-! ### Texts and values -/

/-- The digits before the point. -/
def Mantissa.before : Mantissa → List Char
  | .whole digits | .pointed digits | .full digits _ => digits.chars
  | .fraction _ => []

/-- The digits behind the point. -/
def Mantissa.behind : Mantissa → List Char
  | .whole _ | .pointed _ => []
  | .full _ digits | .fraction digits => digits.chars

def Mantissa.text (m : Mantissa) : List Char :=
  match m with
  | .whole _ => m.before
  | _ => m.before ++ '.' :: m.behind

def Exponent.text (e : Exponent) : List Char :=
  e.mark :: (e.sign.toList ++ e.digits.chars)

def Spelling.exponentText (n : Spelling) : List Char :=
  (n.exponent.map Exponent.text).getD []

def Spelling.text (n : Spelling) : List Char :=
  (if n.negative then ['-'] else []) ++ n.mantissa.text ++ n.exponentText

def Mantissa.value (m : Mantissa) : ℚ :=
  ofDigits m.before + ofDigits m.behind / 10 ^ m.behind.length

def Exponent.value (e : Exponent) : ℤ :=
  if e.sign = some '-' then -(ofDigits e.digits.chars : ℤ) else ofDigits e.digits.chars

def Spelling.exponentValue (n : Spelling) : ℤ :=
  (n.exponent.map Exponent.value).getD 0

def Spelling.value (n : Spelling) : ℚ :=
  (if n.negative then -1 else 1) * n.mantissa.value * 10 ^ n.exponentValue

/-! ### Reading -/

theorem takeWhile_digits (only : digits.all Char.isDigit = true) (stops : ∀ c ∈ rest.head?, c.isDigit = false) :
    (digits ++ rest).takeWhile Char.isDigit = digits ∧ (digits ++ rest).dropWhile Char.isDigit = rest := by
  have all := all_eq_true.mp only
  rw [takeWhile_append_of_pos all, dropWhile_append_of_pos all]
  cases rest with
  | nil => simp
  | cons c rest => simp [stops c rfl]

theorem Digits.natural? : natural? d.chars = some (ofDigits d.chars) := by
  have filled : d.chars.isEmpty = false := by simpa using d.filled
  rw [VbSharp.natural?, filled, d.only]
  rfl

theorem Digits.exists_cons : ∃ c rest, d.chars = c :: rest ∧ c.isDigit = true := by
  obtain ⟨c, rest, same⟩ := exists_cons_of_ne_nil d.filled
  exact ⟨c, rest, same, all_eq_true.mp d.only c (by simp [same])⟩

theorem splitSign_digits : splitSign d.chars = (false, d.chars) := by
  obtain ⟨c, rest, same, digit⟩ := d.exists_cons
  have noMinus : c ≠ '-' := by
    rintro rfl
    cases digit
  have noPlus : c ≠ '+' := by
    rintro rfl
    cases digit
  rw [same, splitSign_cons, if_neg noMinus, if_neg noPlus]

theorem exponent?_text (e : Exponent) : exponent? e.text = some e.value := by
  have split : splitSign (e.sign.toList ++ e.digits.chars) = (e.sign == some '-', e.digits.chars) := by
    cases sign : e.sign with
    | none => simpa using splitSign_digits e.digits
    | some c =>
      rcases e.isSign c (by rw [sign]; rfl) with rfl | rfl
      · rfl
      · rfl
  rw [Exponent.text, exponent?, if_pos e.isMark, split]
  simp only [e.digits.natural?, Exponent.value, beq_iff_eq]
  rfl

theorem exponent?_exponentText : exponent? n.exponentText = some n.exponentValue := by
  unfold Spelling.exponentText Spelling.exponentValue
  cases n.exponent with
  | none => rfl
  | some e => exact exponent?_text e

/-- No digit and no point comes first in what stands behind the digits. -/
theorem head_exponentText : ∀ c ∈ n.exponentText.head?, c.isDigit = false ∧ c ≠ '.' := by
  unfold Spelling.exponentText
  cases n.exponent with
  | none => nofun
  | some e =>
    rintro c ⟨⟩
    rcases e.isMark with mark | mark <;> rw [mark] <;> decide

theorem Mantissa.only : m.before.all Char.isDigit = true ∧ m.behind.all Char.isDigit = true := by
  cases m with
  | whole digits | pointed digits => exact ⟨digits.only, rfl⟩
  | full digits fraction => exact ⟨digits.only, fraction.only⟩
  | fraction digits => exact ⟨rfl, digits.only⟩

theorem Mantissa.filled : (m.before.isEmpty && m.behind.isEmpty) = false := by
  cases m with
  | whole digits | pointed digits | full digits _ => simp [before, digits.filled]
  | fraction digits => simp [before, behind, digits.filled]

theorem Mantissa.text_cases : m.text = m.before ∧ m.behind = [] ∨ m.text = m.before ++ '.' :: m.behind := by
  cases m with
  | whole => exact .inl ⟨rfl, rfl⟩
  | pointed | full | fraction => exact .inr rfl

theorem fractionOf_text :
    (n.mantissa.text ++ n.exponentText).takeWhile Char.isDigit = n.mantissa.before ∧
      fractionOf ((n.mantissa.text ++ n.exponentText).dropWhile Char.isDigit) =
        (n.mantissa.behind, n.exponentText) := by
  obtain ⟨before, behind⟩ := n.mantissa.only
  have stops := fun c first => (head_exponentText n c first).1
  rcases n.mantissa.text_cases with ⟨text, none⟩ | text
  · obtain ⟨taken, dropped⟩ := takeWhile_digits before stops
    rw [text, taken, dropped, none]
    refine ⟨rfl, ?_⟩
    -- what stands behind the digits does not start with a point
    cases rest : n.exponentText with
    | nil => rfl
    | cons c rest => rw [fractionOf_cons, if_neg (head_exponentText n c (by rw [rest]; rfl)).2]
  · have point : ∀ c ∈ ('.' :: (n.mantissa.behind ++ n.exponentText)).head?, c.isDigit = false := by
      rintro c ⟨⟩
      rfl
    obtain ⟨taken, dropped⟩ := takeWhile_digits before point
    obtain ⟨takenBehind, droppedBehind⟩ := takeWhile_digits behind stops
    rw [text, append_assoc, cons_append, taken, dropped, fractionOf_cons, if_pos rfl, takenBehind, droppedBehind]
    exact ⟨rfl, rfl⟩

theorem unsigned?_text : unsigned? (n.mantissa.text ++ n.exponentText) =
    some (ofDigits (n.mantissa.before ++ n.mantissa.behind), n.exponentValue - n.mantissa.behind.length) := by
  obtain ⟨whole, fraction⟩ := fractionOf_text n
  rw [unsigned?_eq]
  simp only [whole, fraction, n.mantissa.filled, exponent?_exponentText]
  rfl

theorem head_text : ∃ c rest, n.mantissa.text ++ n.exponentText = c :: rest ∧ (c.isDigit = true ∨ c = '.') := by
  cases shape : n.mantissa with
  | whole digits | pointed digits | full digits =>
    obtain ⟨c, rest, same, digit⟩ := digits.exists_cons
    simp only [Mantissa.text, Mantissa.before, same, cons_append]
    exact ⟨c, _, rfl, .inl digit⟩
  | fraction digits => exact ⟨'.', _, rfl, .inr rfl⟩

/-- The exact value of a spelling, as an integer times a power of ten. -/
def Spelling.decimal (n : Spelling) : Decimal :=
  ⟨n.negative, ofDigits (n.mantissa.before ++ n.mantissa.behind), n.exponentValue - n.mantissa.behind.length⟩

theorem read?_text : Quantity.read? (String.ofList n.text) = some (.exact n.decimal) := by
  obtain ⟨c, rest, same, first⟩ := head_text n
  have plain : c.isAlpha = false := by
    rcases first with digit | rfl
    · exact isAlpha_eq_false_of_isDigit digit
    · decide
  have noSign : c ≠ '-' ∧ c ≠ '+' := by
    constructor
    all_goals
      rintro rfl
      rcases first with digit | other
      · cases digit
      · cases other
  have split : splitSign n.text = (n.negative, n.mantissa.text ++ n.exponentText) := by
    unfold Spelling.text
    cases n.negative with
    | true => rfl
    | false =>
      rw [if_neg (by simp), nil_append, same, splitSign_cons, if_neg noSign.1, if_neg noSign.2]
  -- a word starts with a letter, which is none of these characters
  have noWord {word : String} (letter : word.toList.head?.any Char.isAlpha = true) :
      (foldCase (String.ofList (n.mantissa.text ++ n.exponentText)) == word) = false := by
    rw [beq_eq_false_iff_ne]
    rintro rfl
    rw [same, toList_foldCase, String.toList_ofList, map_cons, toLower_eq_self plain] at letter
    simp [plain] at letter
  simp only [Quantity.read?, String.toList_ofList, split,
    noWord (show "inf".toList.head?.any Char.isAlpha = true by decide),
    noWord (show "infinity".toList.head?.any Char.isAlpha = true by decide),
    noWord (show "nan".toList.head?.any Char.isAlpha = true by decide), unsigned?_text]
  rfl

/-! ### The pieces of what is read -/

theorem exists_splitSign (cs : List Char) :
    ∃ sign : Option Char, (∀ c ∈ sign, c = '+' ∨ c = '-') ∧ cs = sign.toList ++ (splitSign cs).2 := by
  unfold splitSign
  split
  · exact ⟨some '-', by simp, rfl⟩
  · exact ⟨some '+', by simp, rfl⟩
  · exact ⟨none, nofun, rfl⟩

theorem exists_of_natural? (read : (VbSharp.natural? cs).isSome = true) : ∃ d : Digits, cs = d.chars := by
  unfold VbSharp.natural? at read
  split at read
  · cases read
  next plain =>
    rw [Bool.or_eq_true, not_or] at plain
    exact ⟨⟨cs, by simpa using plain.1, by simpa using plain.2⟩, rfl⟩

theorem exists_of_exponent? (read : (exponent? cs).isSome = true) :
    ∃ e : Option Exponent, cs = (e.map Exponent.text).getD [] := by
  cases cs with
  | nil => exact ⟨none, rfl⟩
  | cons mark rest =>
    rw [exponent?] at read
    split at read
    next isMark =>
      obtain ⟨sign, isSign, same⟩ := exists_splitSign rest
      have number : (VbSharp.natural? (splitSign rest).2).isSome = true := by
        cases number : VbSharp.natural? (splitSign rest).2 with
        | none => simp [number] at read
        | some n => rfl
      obtain ⟨digits, chars⟩ := exists_of_natural? number
      refine ⟨some ⟨mark, sign, digits, isMark, isSign⟩, ?_⟩
      rw [same, chars]
      rfl
    · cases read

theorem exists_mantissa (wholeOnly : whole.all Char.isDigit = true) (fractionOnly : fraction.all Char.isDigit = true)
    (filled : ¬ (whole.isEmpty && fraction.isEmpty) = true) : ∃ m : Mantissa, m.text = whole ++ '.' :: fraction := by
  by_cases noWhole : whole = []
  · have some : fraction ≠ [] := by simpa [noWhole] using filled
    exact ⟨.fraction ⟨fraction, some, fractionOnly⟩, by rw [noWhole]; rfl⟩
  · by_cases noFraction : fraction = []
    · exact ⟨.pointed ⟨whole, noWhole, wholeOnly⟩, by rw [noFraction]; rfl⟩
    · exact ⟨.full ⟨whole, noWhole, wholeOnly⟩ ⟨fraction, noFraction, fractionOnly⟩, rfl⟩

theorem exists_of_unsigned? (read : (unsigned? cs).isSome = true) :
    ∃ (m : Mantissa) (e : Option Exponent), cs = m.text ++ (e.map Exponent.text).getD [] := by
  rw [unsigned?_eq] at read
  simp only at read
  split at read
  · cases read
  next filled =>
    obtain ⟨e, exponent⟩ := exists_of_exponent? (Option.isSome_map ▸ read)
    have split : cs = cs.takeWhile Char.isDigit ++ cs.dropWhile Char.isDigit := by simp
    have whole : (cs.takeWhile Char.isDigit).all Char.isDigit = true := all_takeWhile
    generalize cs.takeWhile Char.isDigit = digits at *
    generalize cs.dropWhile Char.isDigit = behind at *
    unfold fractionOf at exponent filled
    -- behind the first digits stands a point with more of them, or the exponent
    split at exponent
    next rest =>
      obtain ⟨m, text⟩ := exists_mantissa whole all_takeWhile filled
      refine ⟨m, e, ?_⟩
      rw [← exponent, text, split]
      simp
    · have some : digits ≠ [] := by simpa using filled
      exact ⟨.whole ⟨digits, some, whole⟩, e, by rw [← exponent, split]; rfl⟩

/-- What is read as a finite number is spelled like one, save that a plus sign may stand before it. -/
theorem exists_of_finite {text : String} (finite : (Quantity.read? text).any Quantity.isFinite = true) :
    ∃ (sign : Option Char) (m : Mantissa) (e : Option Exponent), (∀ c ∈ sign, c = '+' ∨ c = '-') ∧
      text.toList = sign.toList ++ (m.text ++ (e.map Exponent.text).getD []) := by
  obtain ⟨sign, isSign, same⟩ := exists_splitSign text.toList
  have read : (unsigned? (splitSign text.toList).2).isSome = true := by
    unfold Quantity.read? at finite
    simp only at finite
    split_ifs at finite
    · cases finite
    · cases finite
    · cases read : unsigned? (splitSign text.toList).2 with
      | none => simp [read] at finite
      | some value => rfl
  obtain ⟨m, e, body⟩ := exists_of_unsigned? read
  exact ⟨sign, m, e, isSign, body ▸ same⟩

/-! ### Finite values -/

theorem ofDigits_append (a b : List Char) : ofDigits (a ++ b) = ofDigits a * 10 ^ b.length + ofDigits b := by
  have behind (start : Nat) : b.foldl (fun n c => 10 * n + digitValue c) start =
      start * 10 ^ b.length + b.foldl (fun n c => 10 * n + digitValue c) 0 := by
    induction b generalizing start with
    | nil => simp
    | cons c b ih =>
      rw [foldl_cons, foldl_cons, ih, ih (10 * 0 + digitValue c), length_cons, Nat.pow_succ]
      ring
  rw [ofDigits, foldl_append, behind]
  rfl

/-- The magnitude of an exact value. -/
def magnitude (d : Decimal) : ℚ :=
  d.digits * 10 ^ d.exponent

theorem abs_value : |n.value| = n.decimal.magnitude := by
  have sign : |(if n.negative then -1 else 1 : ℚ)| = 1 := by
    cases n.negative <;> simp
  have positive : 0 ≤ n.mantissa.value := by
    unfold Mantissa.value
    positivity
  have scale : (0 : ℚ) < 10 ^ n.exponentValue := by positivity
  rw [Spelling.value, abs_mul, abs_mul, sign, one_mul, abs_of_nonneg positive, abs_of_pos scale]
  simp only [magnitude, Spelling.decimal, Mantissa.value, ofDigits_append]
  rw [zpow_sub₀ (by norm_num), zpow_natCast]
  push_cast
  field_simp

theorem overflowBound_le {k : ℕ} (great : 310 ≤ k) : overflowBound ≤ 10 ^ k := by
  obtain ⟨j, rfl⟩ : ∃ j, k = 155 + (155 + j) := ⟨k - 310, by omega⟩
  rw [Nat.pow_add, Nat.pow_add, ← Nat.mul_assoc]
  calc overflowBound ≤ 10 ^ 155 * 10 ^ 155 := by decide +kernel
    _ ≤ 10 ^ 155 * 10 ^ 155 * 10 ^ j := Nat.le_mul_of_pos_right _ (Nat.pow_pos (by decide))

/-- The tests for small and great exponents answer as the exact comparison does. -/
theorem overflows_iff (d : Decimal) : d.overflows = true ↔ (overflowBound : ℚ) ≤ d.magnitude := by
  have positive : 0 < overflowBound := by decide +kernel
  have limit := @overflowBound_le
  unfold overflows magnitude
  generalize overflowBound = bound at positive limit ⊢
  by_cases zero : d.digits = 0
  · rw [if_pos zero, zero]
    simpa using positive.ne'
  · rw [if_neg zero]
    have someDigit : 0 < d.digits := Nat.pos_of_ne_zero zero
    by_cases negative : d.exponent < 0
    · obtain ⟨k, same⟩ : ∃ k : ℕ, d.exponent = -(k : ℤ) := ⟨d.exponent.natAbs, by omega⟩
      have power : (0 : ℚ) < 10 ^ k := by positivity
      rw [if_pos negative, same, Int.natAbs_neg, Int.natAbs_natCast, zpow_neg, zpow_natCast, ← div_eq_mul_inv,
        le_div_iff₀ power]
      by_cases small : d.digits.log2 < k
      · -- the value is below one
        have below : d.digits < 1 * 10 ^ k := by
          calc d.digits < 2 ^ (d.digits.log2 + 1) := Nat.lt_log2_self
            _ ≤ 2 ^ k := Nat.pow_le_pow_right (by norm_num) small
            _ ≤ 10 ^ k := Nat.pow_le_pow_left (by norm_num) k
            _ = 1 * 10 ^ k := (Nat.one_mul _).symm
        have least : 1 * 10 ^ k ≤ bound * 10 ^ k := Nat.mul_le_mul_right _ positive
        rw [if_pos small]
        constructor
        · nofun
        · intro reaches
          have reaches : bound * 10 ^ k ≤ d.digits := by exact_mod_cast reaches
          omega
      · rw [if_neg small, decide_eq_true_iff]
        exact_mod_cast Iff.rfl
    · obtain ⟨k, same⟩ : ∃ k : ℕ, d.exponent = k := ⟨d.exponent.natAbs, by omega⟩
      rw [if_neg negative, same, Int.natAbs_natCast, zpow_natCast]
      by_cases great : (310 : ℤ) ≤ k
      · -- one digit is enough
        have reaches : bound ≤ d.digits * 10 ^ k := by
          calc bound ≤ 10 ^ k := limit (Int.ofNat_le.mp great)
            _ ≤ d.digits * 10 ^ k := Nat.le_mul_of_pos_left _ someDigit
        rw [if_pos great]
        simpa using (show (bound : ℚ) ≤ d.digits * 10 ^ k by exact_mod_cast reaches)
      · rw [if_neg great, decide_eq_true_iff]
        exact_mod_cast Iff.rfl

/-- The text of a spelling reads as a finite number exactly if its value is one. -/
theorem finite_iff :
    (Quantity.read? (String.ofList n.text)).any Quantity.isFinite = true ↔ |n.value| < overflowBound := by
  rw [read?_text, abs_value, ← not_le, ← overflows_iff]
  simp [Quantity.isFinite]

end VbSharp.Decimal
