import VbSharp.Proofs.Owner
import VbSharp.Token.Atom
import VbSharp.Token.Numeral

/-!
# Letter case

What the program looks at in a text is the same for all spellings that differ in the case of ASCII letters: the
kind of a word, the value of a numeral, the key of a name. Each is shown by asking for the folded text instead.
-/
namespace VbSharp

open List Decimal

variable {c mark a b : Char} {name cs : List Char}

variable {α : Type}

variable (text : String)

variable {f : Char → α}

/-! ### Characters -/

/-- A function of characters that takes no notice of letter case. -/
def Caseless (f : Char → α) : Prop :=
  ∀ c, f c.toLower = f c

theorem Caseless.eq (caseless : Caseless f) (same : a.toLower = b.toLower) : f a = f b := by
  rw [← caseless a, same, caseless b]

theorem Caseless.comp (caseless : Caseless f) : f ∘ Char.toLower = f :=
  funext caseless

theorem Caseless.not {f : Char → Bool} (caseless : Caseless f) : Caseless fun c => !f c :=
  fun c => congrArg _ (caseless c)

theorem caseless_of_letters (a : α) (letters : ∀ c, c.isAlpha = true → f c = a) : Caseless f := by
  intro c
  by_cases upper : c.isUpper
  · have alpha : c.isAlpha = true := by simp [Char.isAlpha, upper]
    rw [letters c alpha, letters c.toLower (by simpa using alpha)]
  · rw [Char.toLower_eq_of_not_isUpper upper]

theorem isAlpha_iff : c.isAlpha = true ↔ 65 ≤ c.toNat ∧ c.toNat ≤ 90 ∨ 97 ≤ c.toNat ∧ c.toNat ≤ 122 := by
  simp [Char.isAlpha, Char.isUpper, Char.isLower, UInt32.le_iff_toNat_le]

theorem isUpper_iff : c.isUpper = true ↔ 65 ≤ c.toNat ∧ c.toNat ≤ 90 := by
  simp [Char.isUpper, UInt32.le_iff_toNat_le]

theorem toNat_toLower (upper : c.isUpper = true) : c.toLower.toNat = c.toNat + 32 := by
  have range := isUpper_iff.mp upper
  rw [Char.toLower_eq_of_isUpper upper, Char.toNat_ofNat, if_pos]
  exact .inl (by omega)

theorem toLower_eq_self (plain : c.isAlpha = false) : c.toLower = c := by
  refine Char.toLower_eq_of_not_isUpper fun upper => ?_
  simp [Char.isAlpha, upper] at plain

theorem caseless_beq (plain : mark.isAlpha = false) : Caseless (· == mark) := by
  refine caseless_of_letters false fun c alpha => ?_
  rw [beq_eq_false_iff_ne]
  rintro rfl
  simp [plain] at alpha

theorem toLower_eq_iff (plain : mark.isAlpha = false) : c.toLower = mark ↔ c = mark := by
  have same : (c.toLower == mark) = (c == mark) := caseless_beq plain c
  rw [← beq_iff_eq, same, beq_iff_eq]

theorem caseless_isAlpha : Caseless Char.isAlpha :=
  Char.isAlpha_toLower_eq_isAlpha

theorem isAlpha_eq_false_of_isDigit (digit : c.isDigit = true) : c.isAlpha = false := by
  rw [Bool.eq_false_iff, ne_eq, isAlpha_iff]
  simp only [Char.isDigit, UInt32.le_iff_toNat_le, Bool.and_eq_true, decide_eq_true_eq] at digit
  change 48 ≤ c.toNat ∧ c.toNat ≤ 57 at digit
  omega

theorem caseless_isDigit : Caseless Char.isDigit := by
  refine caseless_of_letters false fun c alpha => ?_
  by_contra digit
  simp [isAlpha_eq_false_of_isDigit (Bool.eq_true_of_not_eq_false digit)] at alpha

theorem caseless_isBlank : Caseless isBlank := by
  refine caseless_of_letters false fun c alpha => ?_
  have range := isAlpha_iff.mp alpha
  simp only [isBlank, Bool.or_eq_false_iff, Bool.and_eq_false_iff, decide_eq_false_iff_not, beq_eq_false_iff_ne]
  omega

theorem caseless_mark : Caseless fun c => c == 'e' || c == 'E' := by
  intro c
  by_cases upper : c.isUpper
  · have range := isUpper_iff.mp upper
    have lowered := toNat_toLower upper
    have code (d : Char) : c.toLower = d ↔ c.toNat + 32 = d.toNat := by
      rw [← lowered, Char.toNat_inj]
    have same (d : Char) : c = d ↔ c.toNat = d.toNat := Char.toNat_inj.symm
    have small : 'e'.toNat = 101 := rfl
    have large : 'E'.toNat = 69 := rfl
    rw [Bool.eq_iff_iff]
    simp only [Bool.or_eq_true, beq_iff_eq, code, same, small, large]
    omega
  · simp only [Char.toLower_eq_of_not_isUpper upper]

theorem le_iff_toNat_le : a ≤ b ↔ a.toNat ≤ b.toNat :=
  UInt32.le_iff_toNat_le

theorem caseless_hexValue? : Caseless hexValue? := by
  intro c
  by_cases upper : c.isUpper
  · have range := isUpper_iff.mp upper
    have lowered := toNat_toLower upper
    have alpha : c.isAlpha = true := by simp [Char.isAlpha, upper]
    have digit : c.isDigit = false := by
      by_contra digit
      simp [isAlpha_eq_false_of_isDigit (Bool.eq_true_of_not_eq_false digit)] at alpha
    -- a capital and its small letter stand at the same distance from the first letter of their range
    simp only [hexValue?, caseless_isDigit c, digit, Bool.false_eq_true, if_false, le_iff_toNat_le, lowered,
      show 'a'.toNat = 97 from rfl, show 'f'.toNat = 102 from rfl, show 'A'.toNat = 65 from rfl,
      show 'F'.toNat = 70 from rfl]
    split_ifs
    all_goals first
      | omega
      | exact congrArg some (by omega)
      | rfl
  · simp only [Char.toLower_eq_of_not_isUpper upper]

theorem caseless_isHexDigit : Caseless isHexDigit :=
  fun c => congrArg Option.isSome (caseless_hexValue? c)

theorem ofHexDigits_map_toLower (digits : List Char) : ofHexDigits (digits.map Char.toLower) = ofHexDigits digits := by
  simp only [ofHexDigits, foldl_map, caseless_hexValue? _]

/-! ### Texts -/

@[simp]
theorem toList_foldCase : (foldCase text).toList = text.toList.map Char.toLower :=
  String.toList_ofList

theorem foldCase_foldCase : foldCase (foldCase text) = foldCase text := by
  simp [foldCase, Function.comp_def]

theorem foldCase_eq_iff {text mark : String} (plain : mark.toList.all (!·.isAlpha) = true) :
    foldCase text = mark ↔ text = mark := by
  constructor
  · intro folded
    have letters : text.toList.map Char.toLower = mark.toList := by rw [← folded, toList_foldCase]
    have same : text.toList.map Char.toLower = text.toList.map id := by
      apply map_congr_left
      intro c member
      have listed : c.toLower ∈ mark.toList := letters ▸ mem_map_of_mem member
      have outside := all_eq_true.mp plain _ listed
      exact toLower_eq_self (by simpa using outside)
    rw [map_id] at same
    exact String.toList_inj.mp (same ▸ letters)
  · rintro rfl
    apply String.toList_inj.mp
    rw [toList_foldCase]
    conv_rhs => rw [← map_id text.toList]
    apply map_congr_left
    intro c member
    exact toLower_eq_self (by simpa using all_eq_true.mp plain c member)

theorem foldCase_beq {mark : String} (plain : mark.toList.all (!·.isAlpha) = true) :
    (foldCase text == mark) = (text == mark) := by
  rw [Bool.eq_iff_iff, beq_iff_eq, beq_iff_eq, foldCase_eq_iff plain]

theorem head?_map_toLower (cs : List Char) (plain : mark.isAlpha = false) :
    ((cs.map Char.toLower).head? == some mark) = (cs.head? == some mark) := by
  cases cs with
  | nil => rfl
  | cons c rest => exact caseless_beq plain c

theorem isNumberWord_foldCase : isNumberWord (foldCase text) = isNumberWord text := by
  have marks : (fun c : Char => !(c == 'e' || c == 'E')) ∘ Char.toLower = fun c => !(c == 'e' || c == 'E') :=
    caseless_mark.not.comp
  simp only [isNumberWord, toList_foldCase, takeWhile_map, dropWhile_map, marks, isEmpty_map,
    ← map_drop, all_map, caseless_isDigit.comp]

theorem ofWord_foldCase : Kind.ofWord (foldCase text) = Kind.ofWord text := by
  have head : ((foldCase text).toList.head? == some '[') = (text.toList.head? == some '[') := by
    rw [toList_foldCase, head?_map_toLower _ (by decide)]
  have mark (mark : String) (plain : mark.toList.all (!·.isAlpha) = true) := foldCase_beq text plain
  simp only [Kind.ofWord, foldCase_foldCase, isNumberWord_foldCase, head, mark "," (by decide),
    mark "." (by decide), mark "(" (by decide), mark ")" (by decide), mark ":" (by decide), mark "\n" (by decide)]

/-! ### Names -/

theorem bareName_of_head (plain : name.head? ≠ some '[') : bareName name = name := by
  unfold bareName
  split
  · simp at plain
  · rfl

theorem bareName_map_toLower (name : List Char) :
    bareName (name.map Char.toLower) = (bareName name).map Char.toLower := by
  by_cases opened : name.head? = some '['
  · obtain ⟨rest, rfl⟩ : ∃ rest, name = '[' :: rest := head?_eq_some_iff.mp opened
    -- the closing bracket is the last character, which is looked at from behind
    cases last : rest.reverse with
    | nil => simp [bareName, ← map_reverse, last]
    | cons c inner =>
      by_cases closed : c = ']'
      · subst closed
        simp [bareName, ← map_reverse, last]
      · have still : c.toLower ≠ ']' := mt (toLower_eq_iff (by decide)).mp closed
        simp [bareName, ← map_reverse, last, closed, still]
  · have plain : (name.map Char.toLower).head? ≠ some '[' := by
      have same := head?_map_toLower name (show '['.isAlpha = false by decide)
      rw [beq_eq_false_iff_ne.mpr opened] at same
      exact beq_eq_false_iff_ne.mp same
    rw [bareName_of_head opened, bareName_of_head plain]

theorem nameKey_foldCase (name : String) : nameKey (foldCase name) = nameKey name := by
  simp [nameKey, bareName_map_toLower, Function.comp_def]

/-! ### Numerals -/

theorem map_toLower_of_digits (digits : cs.all Char.isDigit = true) : cs.map Char.toLower = cs := by
  conv_rhs => rw [← map_id cs]
  apply map_congr_left
  intro c member
  exact toLower_eq_self (isAlpha_eq_false_of_isDigit (all_eq_true.mp digits c member))

theorem natural?_map_toLower (cs : List Char) : natural? (cs.map Char.toLower) = natural? cs := by
  by_cases digits : cs.all Char.isDigit = true
  · rw [map_toLower_of_digits digits]
  · simp [natural?, all_map, caseless_isDigit.comp, digits]

theorem takeWhile_isDigit_map_toLower (cs : List Char) :
    (cs.map Char.toLower).takeWhile Char.isDigit = cs.takeWhile Char.isDigit := by
  rw [takeWhile_map, caseless_isDigit.comp, map_toLower_of_digits]
  exact all_takeWhile

theorem dropWhile_isDigit_map_toLower (cs : List Char) :
    (cs.map Char.toLower).dropWhile Char.isDigit = (cs.dropWhile Char.isDigit).map Char.toLower := by
  rw [dropWhile_map, caseless_isDigit.comp]

theorem splitSign_cons (c : Char) (rest : List Char) : splitSign (c :: rest) =
    if c = '-' then (true, rest) else if c = '+' then (false, rest) else (false, c :: rest) := by
  unfold splitSign
  split <;> simp_all

theorem splitSign_map_toLower (cs : List Char) : splitSign (cs.map Char.toLower) =
    ((splitSign cs).1, (splitSign cs).2.map Char.toLower) := by
  cases cs with
  | nil => rfl
  | cons c rest =>
    rw [map_cons, splitSign_cons, splitSign_cons]
    simp only [toLower_eq_iff (show '-'.isAlpha = false by decide), toLower_eq_iff (show '+'.isAlpha = false by decide)]
    split_ifs <;> rfl

theorem exponent?_map_toLower (cs : List Char) : exponent? (cs.map Char.toLower) = exponent? cs := by
  cases cs with
  | nil => rfl
  | cons c rest =>
    have mark : (c.toLower = 'e' ∨ c.toLower = 'E') = (c = 'e' ∨ c = 'E') := by
      simpa using congrArg (· = true) (caseless_mark c)
    simp only [map_cons, exponent?, mark, splitSign_map_toLower, natural?_map_toLower]

/-- The digits behind a point that comes next, and the text behind them. -/
def fractionOf (text : List Char) : List Char × List Char :=
  match text with
  | '.' :: rest => (rest.takeWhile Char.isDigit, rest.dropWhile Char.isDigit)
  | _ => ([], text)

theorem fractionOf_cons (c : Char) (rest : List Char) : fractionOf (c :: rest) =
    if c = '.' then (rest.takeWhile Char.isDigit, rest.dropWhile Char.isDigit) else ([], c :: rest) := by
  unfold fractionOf
  split <;> simp_all

theorem fractionOf_map_toLower (text : List Char) : fractionOf (text.map Char.toLower) =
    ((fractionOf text).1, (fractionOf text).2.map Char.toLower) := by
  cases text with
  | nil => rfl
  | cons c rest =>
    rw [map_cons, fractionOf_cons, fractionOf_cons]
    simp only [toLower_eq_iff (show '.'.isAlpha = false by decide), takeWhile_isDigit_map_toLower,
      dropWhile_isDigit_map_toLower]
    split_ifs <;> rfl

theorem unsigned?_eq (text : List Char) : unsigned? text = let whole := text.takeWhile Char.isDigit
    let fraction := fractionOf (text.dropWhile Char.isDigit)
    if whole.isEmpty && fraction.1.isEmpty then none
    else (exponent? fraction.2).map fun e => (ofDigits (whole ++ fraction.1), e - (fraction.1.length : Int)) := rfl

theorem unsigned?_map_toLower (text : List Char) : unsigned? (text.map Char.toLower) = unsigned? text := by
  simp only [unsigned?_eq, takeWhile_isDigit_map_toLower, dropWhile_isDigit_map_toLower, fractionOf_map_toLower,
    exponent?_map_toLower]

theorem read?_foldCase : Quantity.read? (foldCase text) = Quantity.read? text := by
  have word (cs : List Char) : foldCase (String.ofList (cs.map Char.toLower)) = foldCase (String.ofList cs) := by
    simp [foldCase, Function.comp_def]
  simp only [Quantity.read?, toList_foldCase, splitSign_map_toLower, word, unsigned?_map_toLower]

theorem int64?_cons (c : Char) (rest : List Char) : int64? (c :: rest) =
    (if c = '-' then (natural? rest).map fun n => -(n : Int)
      else if c = '+' then (natural? rest).map Int.ofNat
      else (natural? (c :: rest)).map Int.ofNat).filter fun n => -(int64Bound : Int) ≤ n && n < int64Bound := by
  unfold int64?
  split <;> simp_all

theorem int64?_map_toLower (cs : List Char) : int64? (cs.map Char.toLower) = int64? cs := by
  cases cs with
  | nil => rfl
  | cons c rest =>
    rw [map_cons, int64?_cons, int64?_cons]
    have whole := natural?_map_toLower (c :: rest)
    rw [map_cons] at whole
    simp only [toLower_eq_iff (show '-'.isAlpha = false by decide), toLower_eq_iff (show '+'.isAlpha = false by decide),
      natural?_map_toLower, whole]

theorem endsInMark_eq_of_foldCase {t u : Token} (same : foldCase t.text = foldCase u.text) :
    Numeral.endsInMark t = Numeral.endsInMark u := by
  have ends (v : Token) : Numeral.endsInMark v = v.text.toList.getLast?.any fun c => c == 'e' || c == 'E' := by
    unfold Numeral.endsInMark
    cases v.text.toList.getLast? <;> rfl
  have letters : t.text.toList.map Char.toLower = u.text.toList.map Char.toLower := by
    rw [← toList_foldCase, same, toList_foldCase]
  have last := congrArg (fun cs => cs.getLast?.any fun c => c == 'e' || c == 'E') letters
  have marks (c : Char) : (c.toLower == 'e' || c.toLower == 'E') = (c == 'e' || c == 'E') := caseless_mark c
  simpa only [ends, getLast?_map, Option.any_map, marks] using last

end VbSharp
