import VbSharp.Date
import VbSharp.Proofs.Text.LetterCase

/-!
# Which dates depend on the culture

A date of numbers is read in three orders, and each order may find a day of the calendar. What is said about a
literal is compared here with the days that all three orders find. The two agree for a culture that starts with the
year. For any other culture the order that starts with the year is left out where three numbers do not start with
four digits, so a day that only this order finds is overlooked.
-/
namespace VbSharp.Date

open List

variable {culture order : DateOrder} {yearFirst : Bool} {numbers : List Nat} {parts : List (List Char)}

variable {day : Day}

/-! ### The parts of a literal -/

/-- The words of a literal before its first word with a colon. -/
def dateWords (literal : String) : List (List Char) :=
  (fieldsAt isBlank literal.toList).takeWhile (!·.contains ':')

/-- The words of a literal from its first word with a colon on. -/
def timeWords (literal : String) : List (List Char) :=
  (fieldsAt isBlank literal.toList).dropWhile (!·.contains ':')

/-- The parts of the date of a literal. -/
def dateParts (literal : String) : List (List Char) :=
  fieldsAt isSeparator (spaced (dateWords literal))

/-- Whether a literal has no time, or a time of the clock. -/
def timeHolds (literal : String) : Bool :=
  (timeWords literal).isEmpty || isTime (spaced (timeWords literal))

/-- The number that a part spells, of any size; a plus sign may stand before its digits. -/
def number? (part : List Char) : Option Nat :=
  natural? (match part with
    | '+' :: digits => digits
    | _ => part)

theorem word32?_eq (part : List Char) : word32? part = (number? part).filter (· < word32Bound) :=
  rfl

/-- Whether the first part is written with four characters. -/
def startsWithYear (parts : List (List Char)) : Bool :=
  parts.head?.any (·.length == 4)

/-! ### Readings -/

/-- The day that the numbers of a date mean in an order. A year at the start is followed by the month and the day
in every order. Two numbers are a month and a day; the year is then a leap year. -/
def reading (yearFirst : Bool) (order : DateOrder) : List Nat → Option Day
  | [a, b] =>
    match order with
    | .dayMonthYear => some ⟨2000, b, a⟩
    | _ => some ⟨2000, a, b⟩
  | [a, b, c] =>
    if yearFirst then some ⟨expandYear a, b, c⟩
    else
      match order with
      | .monthDayYear => some ⟨expandYear c, a, b⟩
      | .dayMonthYear => some ⟨expandYear c, b, a⟩
      | .yearMonthDay => some ⟨expandYear a, b, c⟩
  | _ => none

/-- The order finds that day of the calendar. -/
def Finds (yearFirst : Bool) (numbers : List Nat) (order : DateOrder) (day : Day) : Prop :=
  reading yearFirst order numbers = some day ∧ day.onCalendar = true

instance (yearFirst : Bool) (numbers : List Nat) (order : DateOrder) (day : Day) :
    Decidable (Finds yearFirst numbers order day) :=
  inferInstanceAs (Decidable (_ ∧ _))

/-- The verdict is right about the days that are found: one makes a literal valid, none makes it invalid, and two
make it depend on the culture. -/
structure Verdict.IsRight (v : Verdict) (found : Day → Prop) : Prop where
  valid : v = .valid ↔ ∃ day, found day ∧ ∀ other, found other → other = day
  invalid : v = .invalid ↔ ∀ day, ¬ found day
  cultureDependent : v = .cultureDependent ↔ ∃ a b, found a ∧ found b ∧ a ≠ b

namespace Verdict.IsRight

variable {found : Day → Prop} {v : Verdict}

theorem of_none (none : ∀ day, ¬ found day) : Verdict.invalid.IsRight found := by
  constructor
  · constructor
    · exact nofun
    · rintro ⟨day, is, -⟩
      exact absurd is (none day)
  · exact iff_of_true rfl none
  · constructor
    · exact nofun
    · rintro ⟨a, -, is, -⟩
      exact absurd is (none a)

theorem of_one (is : found day) (alone : ∀ other, found other → other = day) : Verdict.valid.IsRight found := by
  constructor
  · exact iff_of_true rfl ⟨day, is, alone⟩
  · constructor
    · exact nofun
    · intro none
      exact absurd is (none day)
  · constructor
    · exact nofun
    · rintro ⟨a, b, isA, isB, apart⟩
      exact absurd ((alone a isA).trans (alone b isB).symm) apart

theorem of_two {a b : Day} (isA : found a) (isB : found b) (apart : a ≠ b) :
    Verdict.cultureDependent.IsRight found := by
  constructor
  · constructor
    · exact nofun
    · rintro ⟨day, -, alone⟩
      exact absurd ((alone a isA).trans (alone b isB).symm) apart
  · constructor
    · exact nofun
    · intro none
      exact absurd isA (none a)
  · exact iff_of_true rfl ⟨a, b, isA, isB, apart⟩

/-- Only which days are found matters. -/
theorem congr {other : Day → Prop} (right : v.IsRight found) (same : ∀ day, found day ↔ other day) :
    v.IsRight other := by
  have equal : found = other := funext fun day => propext (same day)
  rw [← equal]
  exact right

end Verdict.IsRight

/-- The verdict on some days is right about those of the calendar. -/
theorem verdict_isRight (days : List Day) : (verdict days).IsRight fun day => day ∈ days ∧ day.onCalendar = true := by
  have listed : ∀ day, day ∈ days.filter Day.onCalendar ↔ day ∈ days ∧ day.onCalendar = true :=
    fun day => mem_filter
  unfold verdict
  refine Verdict.IsRight.congr ?_ listed
  cases days.filter Day.onCalendar with
  | nil => exact .of_none fun day => not_mem_nil
  | cons first rest =>
    -- what is left behind the first day are the days that differ from it
    have others : ∀ day, day ∈ (rest.filter fun b => !b == first).eraseDups ↔ day ∈ rest ∧ day ≠ first := by
      intro day
      simp
    rw [eraseDups_cons]
    cases left : (rest.filter fun b => !b == first).eraseDups with
    | nil =>
      apply Verdict.IsRight.of_one mem_cons_self
      intro day member
      by_cases same : day = first
      · exact same
      · have later := (others day).mpr ⟨(mem_cons.mp member).resolve_left same, same⟩
        rw [left] at later
        cases later
    | cons second more =>
      have apart := (others second).mp (by rw [left]; exact mem_cons_self)
      exact .of_two mem_cons_self (mem_cons_of_mem first apart.1) (Ne.symm apart.2)

/-! ### The orders that are tried -/

/-- Whether the days of that order are among those that a culture's dates can mean. The order that starts with the
year is tried for three numbers only if the culture has it, or if the numbers show it. -/
def Tries (culture : DateOrder) (yearFirst : Bool) (numbers : List Nat) (order : DateOrder) : Prop :=
  order = .yearMonthDay → culture = .yearMonthDay ∨ yearFirst = true ∨ numbers.length = 2

theorem mem_candidates_iff :
    day ∈ candidates culture yearFirst numbers ↔
      ∃ order, Tries culture yearFirst numbers order ∧ reading yearFirst order numbers = some day := by
  rcases numbers with _ | ⟨a, _ | ⟨b, _ | ⟨c, _ | ⟨_, _⟩⟩⟩⟩
  case nil | cons.nil | cons.cons.cons.cons => simp [candidates, reading]
  case cons.cons.nil =>
    constructor
    · intro member
      simp only [candidates, mem_cons, not_mem_nil, or_false] at member
      rcases member with rfl | rfl
      · exact ⟨.monthDayYear, by rintro ⟨⟩, rfl⟩
      · exact ⟨.dayMonthYear, by rintro ⟨⟩, rfl⟩
    · rintro ⟨order, -, read⟩
      cases order <;> simp_all [candidates, reading]
  case cons.cons.cons.nil =>
    cases yearFirst with
    | true =>
      constructor
      · intro member
        simp only [candidates, if_true, mem_singleton] at member
        exact ⟨.yearMonthDay, fun _ => .inr (.inl rfl), by rw [member]; rfl⟩
      · simp_all [candidates, reading]
    | false =>
      constructor
      · intro member
        simp only [candidates, Bool.false_eq_true, if_false, mem_append, mem_cons, not_mem_nil, or_false] at member
        rcases member with (rfl | rfl) | third
        · exact ⟨.monthDayYear, by rintro ⟨⟩, rfl⟩
        · exact ⟨.dayMonthYear, by rintro ⟨⟩, rfl⟩
        · by_cases own : culture = .yearMonthDay
          · rw [if_pos own, mem_singleton] at third
            exact ⟨.yearMonthDay, fun _ => .inl own, by rw [third]; rfl⟩
          · rw [if_neg own] at third
            cases third
      · rintro ⟨order, tried, read⟩
        cases order with
        | monthDayYear | dayMonthYear => simp_all [candidates, reading]
        | yearMonthDay =>
          have own : culture = .yearMonthDay := by simpa using tried rfl
          simp_all [candidates, reading]

/-! ### Numbers of any size -/

theorem le_expandYear (year : Nat) : year ≤ expandYear year := by
  unfold expandYear
  split
  · omega
  · split <;> omega

/-- No month has more than thirty-one days, and no month behind the twelfth has any. -/
theorem month_day_le {year month day : Nat} (first : 1 ≤ day) (last : day ≤ daysIn year month) :
    month ≤ 12 ∧ day ≤ 31 := by
  unfold daysIn at last
  split at last
  · split at last
    · omega
    · omega
  · split at last
    · next short =>
      simp only [contains_iff_mem, mem_cons, not_mem_nil, or_false] at short
      omega
    · split at last
      · next long =>
        simp only [contains_iff_mem, mem_cons, not_mem_nil, or_false] at long
        omega
      · omega

theorem le_of_finds (found : Finds yearFirst numbers order day) : ∀ n ∈ numbers, n ≤ 9999 := by
  obtain ⟨read, onCalendar⟩ := found
  simp only [Day.onCalendar, Bool.and_eq_true, decide_eq_true_eq] at onCalendar
  obtain ⟨⟨⟨-, lastYear⟩, firstDay⟩, lastDay⟩ := onCalendar
  obtain ⟨month, dayLe⟩ := month_day_le firstDay lastDay
  -- each number is the year, the month or the day of what is read
  match numbers with
  | [] | [_] | _ :: _ :: _ :: _ :: _ => simp [reading] at read
  | [a, b] =>
    cases order <;>
    · simp only [reading, Option.some.injEq] at read
      subst read
      simp only [mem_cons, not_mem_nil, or_false, forall_eq_or_imp, forall_eq]
      simp only at month dayLe
      omega
  | [a, b, c] =>
    have years : ∀ y m d, (⟨expandYear y, m, d⟩ : Day) = day → y ≤ 9999 ∧ m ≤ 9999 ∧ d ≤ 9999 := by
      rintro y m d rfl
      have year := Nat.le_trans (le_expandYear y) lastYear
      simp only at month dayLe
      omega
    simp only [mem_cons, not_mem_nil, or_false, forall_eq_or_imp, forall_eq]
    simp only [reading] at read
    split at read
    · have := years _ _ _ (Option.some.inj read)
      omega
    · cases order <;>
      · have := years _ _ _ (Option.some.inj read)
        omega

theorem mapM_word32? (spelled : parts.mapM number? = some numbers) :
    parts.mapM word32? = if ∀ n ∈ numbers, n < word32Bound then some numbers else none := by
  induction parts generalizing numbers with
  | nil =>
    cases spelled
    rfl
  | cons part rest ih =>
    rw [mapM_cons] at spelled ⊢
    obtain ⟨n, first, others⟩ := Option.bind_eq_some_iff.mp spelled
    obtain ⟨more, later, same⟩ := Option.bind_eq_some_iff.mp others
    cases same
    have word : word32? part = if n < word32Bound then some n else none := by
      rw [word32?_eq, first, Option.filter_some]
      simp
    rw [word, ih later]
    simp only [forall_mem_cons]
    by_cases fits : n < word32Bound
    · by_cases all : ∀ m ∈ more, m < word32Bound
      · simp only [if_pos fits, if_pos all, if_pos (And.intro fits all)]
        rfl
      · simp only [if_pos fits, if_neg all, if_neg fun both : _ ∧ _ => all both.2]
        rfl
    · simp only [if_neg fits, if_neg fun both : _ ∧ _ => fits both.1]
      rfl

/-! ### Literals -/

theorem no_letter_of_number? {part : List Char} {n : Nat} (spelled : number? part = some n) :
    part.any Char.isAlpha = false := by
  have digits : ∀ text : List Char, natural? text = some n → text.any Char.isAlpha = false := by
    intro text number
    unfold natural? at number
    split at number
    · cases number
    · next plain =>
      simp only [Bool.or_eq_true, Bool.not_eq_true', not_or, Bool.not_eq_false] at plain
      rw [any_eq_false]
      intro c member
      rw [isAlpha_eq_false_of_isDigit (all_eq_true.mp plain.2 c member)]
      exact Bool.false_ne_true
  unfold number? at spelled
  split at spelled
  · rw [any_cons, digits _ spelled]
    rfl
  · exact digits _ spelled

theorem no_letters_of_number? (spelled : parts.mapM number? = some numbers) :
    parts.any (·.any Char.isAlpha) = false := by
  induction parts generalizing numbers with
  | nil => rfl
  | cons part rest ih =>
    rw [mapM_cons] at spelled
    obtain ⟨n, first, others⟩ := Option.bind_eq_some_iff.mp spelled
    obtain ⟨more, later, -⟩ := Option.bind_eq_some_iff.mp others
    rw [any_cons, ih later, Bool.or_false, no_letter_of_number? first]

/-- The verdict on a literal whose date has parts, none of which holds a letter. -/
theorem classify_of_numbers {culture : Culture} {literal : String}
    (spelled : (dateParts literal).mapM number? = some numbers) (filled : numbers ≠ []) :
    classify culture literal =
      if timeHolds literal then numericVerdict culture.dateOrder (dateParts literal) else .invalid := by
  have some : dateWords literal ≠ [] := by
    intro none
    have noParts : dateParts literal = [] := by
      rw [dateParts, none]
      rfl
    rw [noParts] at spelled
    cases spelled
    exact filled rfl
  have words : (fieldsAt isBlank literal.toList).isEmpty = false := by
    rw [isEmpty_eq_false_iff]
    intro none
    apply some
    rw [dateWords, none]
    rfl
  have shown : classify culture literal =
      if (fieldsAt isBlank literal.toList).isEmpty then .invalid
      else if !(timeWords literal).isEmpty && !isTime (spaced (timeWords literal)) then .invalid
      else if (dateWords literal).isEmpty then .valid
      else dateVerdict culture (spaced (dateWords literal)) := rfl
  have numeric : dateVerdict culture (spaced (dateWords literal)) =
      numericVerdict culture.dateOrder (dateParts literal) := by
    have noLetters := no_letters_of_number? spelled
    unfold dateVerdict
    rw [← dateParts]
    simp only [noLetters, Bool.false_eq_true, if_false]
  rw [shown, words, isEmpty_eq_false_iff.mpr some, numeric, timeHolds]
  cases (timeWords literal).isEmpty <;> cases isTime (spaced (timeWords literal)) <;> rfl

/-- The verdict on numbers of any size is right about the days that the tried orders find. -/
theorem numericVerdict_isRight (spelled : parts.mapM number? = some numbers) :
    (numericVerdict culture parts).IsRight fun day =>
      ∃ order, Tries culture (startsWithYear parts) numbers order ∧ Finds (startsWithYear parts) numbers order day := by
  unfold numericVerdict
  rw [mapM_word32? spelled]
  by_cases fit : ∀ n ∈ numbers, n < word32Bound
  · rw [if_pos fit]
    apply (verdict_isRight _).congr
    intro day
    rw [← startsWithYear, mem_candidates_iff]
    constructor
    · rintro ⟨⟨order, tried, read⟩, onCalendar⟩
      exact ⟨order, tried, read, onCalendar⟩
    · rintro ⟨order, tried, read, onCalendar⟩
      exact ⟨⟨order, tried, read⟩, onCalendar⟩
  · rw [if_neg fit]
    apply Verdict.IsRight.of_none
    rintro day ⟨order, -, found⟩
    apply fit
    intro n member
    have small := le_of_finds found n member
    rw [show word32Bound = 4294967296 from rfl]
    omega

/-- The order that starts with the year is not tried, and a day that only this order finds would change the
verdict: at most one day is found by the orders that are tried, and it is another day. -/
structure Overlooks (culture : DateOrder) (yearFirst : Bool) (numbers : List Nat) : Prop where
  untried : ¬ Tries culture yearFirst numbers .yearMonthDay
  found : ∃ day, Finds yearFirst numbers .yearMonthDay day ∧
    ∀ order other, Tries culture yearFirst numbers order → Finds yearFirst numbers order other → other ≠ day
  alone : ∀ order order' a b, Tries culture yearFirst numbers order → Finds yearFirst numbers order a →
    Tries culture yearFirst numbers order' → Finds yearFirst numbers order' b → a = b

/-- A verdict that is right about the tried orders is right about all three, unless a day is overlooked. -/
theorem isRight_all_iff {v : Verdict} (right : v.IsRight fun day =>
      ∃ order, Tries culture yearFirst numbers order ∧ Finds yearFirst numbers order day) :
    v.IsRight (fun day => ∃ order, Finds yearFirst numbers order day) ↔ ¬ Overlooks culture yearFirst numbers := by
  constructor
  · rintro all ⟨untried, ⟨day, found, apart⟩, alone⟩
    cases v with
    | invalid => exact all.invalid.mp rfl day ⟨.yearMonthDay, found⟩
    | valid =>
      -- the one day that the tried orders find would be the one that they overlook
      obtain ⟨only, -, same⟩ := all.valid.mp rfl
      obtain ⟨known, ⟨order, tried, finds⟩, -⟩ := right.valid.mp rfl
      apply apart order known tried finds
      exact (same known ⟨order, finds⟩).trans (same day ⟨.yearMonthDay, found⟩).symm
    | cultureDependent =>
      obtain ⟨a, b, ⟨order, tried, findsA⟩, ⟨order', tried', findsB⟩, differ⟩ := right.cultureDependent.mp rfl
      exact differ (alone order order' a b tried findsA tried' findsB)
  · intro complete
    by_cases known : ∀ day, Finds yearFirst numbers .yearMonthDay day →
        ∃ order, Tries culture yearFirst numbers order ∧ Finds yearFirst numbers order day
    · -- then all three orders find the days that the tried ones find
      apply right.congr
      intro day
      constructor
      · rintro ⟨order, -, finds⟩
        exact ⟨order, finds⟩
      · rintro ⟨order, finds⟩
        cases order with
        | yearMonthDay => exact known day finds
        | monthDayYear => exact ⟨.monthDayYear, nofun, finds⟩
        | dayMonthYear => exact ⟨.dayMonthYear, nofun, finds⟩
    · -- a day that only the untried order finds changes nothing beside two others
      simp only [Classical.not_forall, not_exists, not_and] at known
      obtain ⟨day, finds, unknown⟩ := known
      by_cases two : ∃ a b, (∃ order, Tries culture yearFirst numbers order ∧ Finds yearFirst numbers order a) ∧
          (∃ order, Tries culture yearFirst numbers order ∧ Finds yearFirst numbers order b) ∧ a ≠ b
      · have dependent := right.cultureDependent.mpr two
        obtain ⟨a, b, ⟨order, -, findsA⟩, ⟨order', -, findsB⟩, differ⟩ := two
        rw [dependent]
        exact .of_two ⟨order, findsA⟩ ⟨order', findsB⟩ differ
      · exfalso
        apply complete
        constructor
        · intro tried
          exact unknown .yearMonthDay tried finds
        · refine ⟨day, finds, ?_⟩
          rintro order other tried found rfl
          exact unknown order tried found
        · intro order order' a b tried findsA tried' findsB
          by_contra differ
          exact two ⟨a, b, ⟨order, tried, findsA⟩, ⟨order', tried', findsB⟩, differ⟩

/-! ### The verdict on a date of numbers -/

/-- A literal whose date is two or three numbers is invalid if its time is. Otherwise the verdict is right about the
days that the tried orders find, and it is right about all three orders exactly if no day is overlooked. -/
theorem classify_by_readings {culture : Culture} {literal : String} {numbers : List Nat}
    (spelled : (dateParts literal).mapM number? = some numbers) (count : numbers.length = 2 ∨ numbers.length = 3) :
    (timeHolds literal = false → classify culture literal = .invalid) ∧
    (timeHolds literal = true →
      (classify culture literal).IsRight (fun day =>
        ∃ order, Tries culture.dateOrder (startsWithYear (dateParts literal)) numbers order ∧
          Finds (startsWithYear (dateParts literal)) numbers order day) ∧
      ((classify culture literal).IsRight (fun day =>
        ∃ order, Finds (startsWithYear (dateParts literal)) numbers order day) ↔
        ¬ Overlooks culture.dateOrder (startsWithYear (dateParts literal)) numbers)) := by
  have filled : numbers ≠ [] := by
    rintro rfl
    simp at count
  have shown : classify culture literal = _ := classify_of_numbers spelled filled
  constructor
  · intro time
    rw [shown, time]
    rfl
  · intro time
    rw [time, if_pos rfl] at shown
    have right := shown ▸ numericVerdict_isRight spelled
    exact ⟨right, isRight_all_iff right⟩

/-- The second of January or the first of February, in the evening. -/
theorem classify_by_readings_evening :
    (dateParts "1/2/03 9:30 PM").mapM number? = some [1, 2, 3] ∧ timeHolds "1/2/03 9:30 PM" = true ∧
    classify {} "1/2/03 9:30 PM" = .cultureDependent ∧
    (classify {} "1/2/03 9:30 PM").IsRight fun day => ∃ order, Finds false [1, 2, 3] order day := by
  have spelled : (dateParts "1/2/03 9:30 PM").mapM number? = some [1, 2, 3] := by decide +kernel
  have time : timeHolds "1/2/03 9:30 PM" = true := by decide +kernel
  obtain ⟨right, all⟩ := (@classify_by_readings {} _ _ spelled (.inr rfl)).2 time
  refine ⟨spelled, time, ?_, ?_⟩
  · apply right.cultureDependent.mpr
    exact ⟨⟨2003, 1, 2⟩, ⟨2003, 2, 1⟩, ⟨.monthDayYear, nofun, by decide +kernel⟩,
      ⟨.dayMonthYear, nofun, by decide +kernel⟩, by decide⟩
  · apply all.mpr
    rintro ⟨-, -, alone⟩
    have same := alone .monthDayYear .dayMonthYear ⟨2003, 1, 2⟩ ⟨2003, 2, 1⟩ nofun (by decide +kernel) nofun
      (by decide +kernel)
    exact absurd same (by decide)

/-- The twentieth of January 2001 is overlooked beside the first of January 2020, and the last day of 1999 is taken
for no day at all. -/
theorem classify_overlooks_leading_year :
    classify {} "1/1/20" = .valid ∧ Finds false [1, 1, 20] .monthDayYear ⟨2020, 1, 1⟩ ∧
      Finds false [1, 1, 20] .yearMonthDay ⟨2001, 1, 20⟩ ∧
    classify {} "99/12/31" = .invalid ∧ Finds false [99, 12, 31] .yearMonthDay ⟨1999, 12, 31⟩ := by
  decide +kernel

end VbSharp.Date
