import VbSharp.Proofs.Token.NumeralSign
import VbSharp.Proofs.Token.NumeralWords

/-!
# Numerals are joined whole

The tokens of a numeral become one number token with the text of the numeral, on the line of the first of them. What
stands before and behind them is passed on, if it may stand beside a number.
-/
namespace VbSharp

open List Numeral

variable {c m : Char} {rest word : List Char}

/-! ### The kinds of the words -/

theorem ofWord_of_digit {text : String} (spelled : text.toList = c :: rest) (digit : c.isDigit = true)
    (number : isNumberWord text = true) : Kind.ofWord text = .number := by
  have folded : (foldCase text).toList.head?.any Char.isDigit = true := by
    rw [toList_foldCase, spelled]
    exact (caseless_isDigit c).trans digit
  have unlisted (words : List String) (plain : words.all (fun w => !w.toList.head?.any Char.isDigit) = true) :
      words.contains (foldCase text) = false := by
    by_contra listed
    have refuted := all_eq_true.mp plain _ (contains_iff_mem.mp (Bool.eq_true_of_not_eq_false listed))
    rw [folded] at refuted
    cases refuted
  have other (mark : String) (plain : mark.toList.head?.any Char.isDigit = false) : (text == mark) = false := by
    rw [beq_eq_false_iff_ne]
    rintro rfl
    rw [spelled] at plain
    simp [digit] at plain
  have noBracket : (text.toList.head? == some '[') = false := by
    rw [spelled, head?_cons, beq_eq_false_iff_ne]
    rintro ⟨⟩
    cases digit
  simp only [Kind.ofWord, other "," rfl, other "." rfl, other "(" rfl, other ")" rfl, other ":" rfl, other "\n" rfl,
    noBracket, unlisted arithmeticOperators rfl, unlisted comparisonOperators rfl, unlisted logicalOperators rfl,
    unlisted constantWords rfl, unlisted keywords rfl, unlisted softKeywords rfl, number, Bool.or_self,
    Bool.false_eq_true, if_false, if_true]

/-- A token on any line that shows a word. -/
structure Token.Shows (t : Token) (word : List Char) : Prop where
  kind : t.kind = Kind.ofWord (String.ofList word)
  text : t.text = String.ofList word

namespace Token.Shows

variable {t : Token}

theorem toList (shown : t.Shows word) : t.text.toList = word := by
  rw [shown.text, String.toList_ofList]

theorem isMinus (shown : t.Shows ['-']) : Numeral.isMinus t = true := by
  refine isMinus_iff.mpr ⟨?_, shown.text⟩
  rw [shown.kind]
  decide

theorem isSign (shown : t.Shows [c]) (sign : c = '+' ∨ c = '-') : Numeral.isSign t = true := by
  rcases sign with rfl | rfl
  · have kind : t.kind = .arithmetic := shown.kind.trans (by decide)
    simp [Numeral.isSign, kind, shown.text]
  · exact isSign_of_isMinus shown.isMinus

theorem point (shown : t.Shows ['.']) : t.kind = .point :=
  shown.kind.trans (by decide)

end Token.Shows

namespace Decimal

theorem Digits.noMark (d : Digits) : ∀ c ∈ d.chars, (!(c == 'e' || c == 'E')) = true := by
  intro c member
  have digit := all_eq_true.mp d.only c member
  by_contra mark
  simp only [Bool.not_eq_true', Bool.not_eq_false, Bool.or_eq_true, beq_iff_eq] at mark
  rcases mark with rfl | rfl <;> cases digit

theorem isNumberWord_attached (d : Digits) (e : Option Exponent) :
    isNumberWord (String.ofList (d.chars ++ attached e)) = true := by
  have some : d.chars.isEmpty = false := by simpa using d.filled
  simp only [isNumberWord, String.toList_ofList, takeWhile_append_of_pos d.noMark, dropWhile_append_of_pos d.noMark]
  rcases attached_cases e with none | ⟨mark, digits, same, isMark, only⟩
  · simp [none, some, d.only]
  · have stops : (!(mark == 'e' || mark == 'E')) = false := by
      rcases isMark with rfl | rfl <;> rfl
    simp only [same, takeWhile_cons, dropWhile_cons, stops]
    simp [some, d.only, only]

end Decimal

namespace Token.Shows

open Decimal

variable {t : Token} {d : Digits} {e : Option Exponent}

theorem number (shown : t.Shows (d.chars ++ attached e)) : t.kind = .number := by
  obtain ⟨c, rest, same, digit⟩ := d.exists_cons
  rw [shown.kind]
  apply ofWord_of_digit (String.toList_ofList.trans (congrArg (· ++ attached e) same)) digit
  exact isNumberWord_attached d e

theorem notMem (shown : t.Shows (d.chars ++ attached e)) (mark : Atom.isNumeralLetter m = false) :
    m ∉ t.text.toList := by
  intro member
  rw [shown.toList] at member
  have letter := all_eq_true.mp (letters_attached d e) m member
  rw [mark] at letter
  cases letter

theorem attached_none (shown : t.Shows d.chars) : t.Shows (d.chars ++ attached none) := by
  rwa [attached, append_nil]

theorem endsInMark_unsigned (shown : t.Shows (d.chars ++ attached e)) (unsigned : ∀ x ∈ e, x.sign = none) :
    endsInMark t = false := by
  -- the last character is a digit
  have last : ∃ front, ∃ f : Digits, d.chars ++ attached e = front ++ f.chars := by
    cases e with
    | none => exact ⟨[], d, append_nil _⟩
    | some x => exact ⟨d.chars ++ [x.mark], x.digits, by simp [attached, unsigned x rfl]⟩
  obtain ⟨front, f, same⟩ := last
  rw [endsInMark, shown.toList, same, getLast?_append_of_ne_nil _ f.filled, getLast?_eq_some_getLast f.filled]
  simpa using f.noMark _ (getLast_mem f.filled)

theorem endsInMark_signed {x : Exponent} (shown : t.Shows (d.chars ++ attached (some x))) (signed : x.sign = some c) :
    endsInMark t = true := by
  have last : attached (some x) = [x.mark] := by simp [attached, signed]
  rw [endsInMark, shown.toList, last, getLast?_concat]
  simpa using x.isMark

end Token.Shows

/-! ### Joining the tokens -/

namespace Numeral

open Decimal

variable {t sign number : Token} {lead ts : List Token} {next : Option Token} {d : Digits} {e : Option Exponent}

theorem isPlain_of_shows (shown : t.Shows (d.chars ++ attached e)) : IsPlain t :=
  ⟨shown.number, shown.notMem (by decide), shown.notMem (by decide)⟩

/-- The last digits and the exponent, with or without a point before them. -/
theorem core_lastWords (before : lead = [] ∨ Pointed lead) (shown : Forall₂ Token.Shows ts (lastWords d e))
    (stops : ∀ n ∈ next, n.kind ≠ .point) : Core (lead ++ ts) next := by
  obtain _ | @⟨t, _, _, _, first, others⟩ := shown
  have leads : Leads lead t := by
    rcases before with rfl | pointed
    · exact .first first.number
    · exact .behind pointed (isPlain_of_shows first)
  by_cases unsigned : ∀ x ∈ e, x.sign = none
  · rw [detached_eq_nil unsigned, forall₂_nil_right_iff] at others
    subst others
    have unmarked := first.endsInMark_unsigned unsigned
    cases leads with
    | first number => exact .whole number unmarked stops
    | behind pointed plain => exact .fraction pointed plain unmarked
  · obtain ⟨x, c, rfl, signed⟩ := exists_sign unsigned
    rw [detached_signed signed] at others
    obtain _ | ⟨second, _ | ⟨third, ⟨⟩⟩⟩ := others
    refine .exponent leads (first.endsInMark_signed signed) (second.isSign (x.isSign c signed)) ?_
    exact ⟨third.attached_none.number, by rw [third.toList]; exact x.digits.only⟩

theorem pointed_of_shows {u : Token} (digits : t.Shows d.chars) (point : u.Shows ['.']) : Pointed [t, u] :=
  .digits digits.attached_none.number (digits.attached_none.endsInMark_unsigned nofun)
    (digits.attached_none.notMem (by decide)) point.point

theorem core_mantissa {m : Mantissa} (shown : Forall₂ Token.Shows ts (m.words e))
    (stops : ∀ n ∈ next, n.kind ≠ .point ∧ n.kind ≠ .number) : Core ts next := by
  have noPoint : ∀ n ∈ next, n.kind ≠ .point := fun n first => (stops n first).1
  cases m with
  | whole d => exact core_lastWords (.inl rfl) shown noPoint
  | pointed d =>
    obtain _ | ⟨first, _ | ⟨second, ⟨⟩⟩⟩ := shown
    exact .pointed (pointed_of_shows first second) fun n found => ⟨noPoint n found, fun plain => (stops n found).2 plain.1⟩
  | full d f =>
    obtain _ | ⟨first, _ | ⟨second, others⟩⟩ := shown
    exact core_lastWords (.inr (pointed_of_shows first second)) others noPoint
  | fraction f =>
    obtain _ | ⟨first, others⟩ := shown
    exact core_lastWords (.inr (.bare first.point)) others noPoint

theorem first_mantissa {m : Mantissa} (shown : Forall₂ Token.Shows ts (m.words e)) :
    ∃ t, ts.head? = some t ∧ (t.kind = .number ∧ t.text.toList.head? ≠ some '-' ∨ t.kind = .point) := by
  have digits {t : Token} {d : Digits} {e : Option Exponent} (first : t.Shows (d.chars ++ attached e)) :
      t.kind = .number ∧ t.text.toList.head? ≠ some '-' :=
    ⟨first.number, fun minus => first.notMem (by decide) (mem_of_mem_head? minus)⟩
  cases m with
  | whole =>
    obtain _ | ⟨first, -⟩ := shown
    exact ⟨_, rfl, .inl (digits first)⟩
  | pointed | full =>
    obtain _ | ⟨first, -⟩ := shown
    exact ⟨_, rfl, .inl (digits first.attached_none)⟩
  | fraction =>
    obtain _ | ⟨first, -⟩ := shown
    exact ⟨_, rfl, .inr first.point⟩

/-- The tokens of a spelling are a sign or nothing, and a numeral. -/
theorem core_spelling {n : Spelling} (shown : Forall₂ Token.Shows ts n.words)
    (stops : ∀ t ∈ next, t.kind ≠ .point ∧ t.kind ≠ .number) :
    ∃ front parts, ts = front ++ parts ∧ Begins true front parts.head? ∧ Core parts next := by
  rw [Spelling.words] at shown
  cases negative : n.negative with
  | false =>
    rw [negative] at shown
    obtain ⟨t, first, part⟩ := first_mantissa shown
    refine ⟨[], ts, rfl, ?_, core_mantissa shown stops⟩
    rw [first]
    exact part.elim (fun digits => .number digits.1) (.point rfl)
  | true =>
    rw [negative] at shown
    obtain _ | ⟨minus, others⟩ := shown
    obtain ⟨t, first, part⟩ := first_mantissa others
    refine ⟨[_], _, rfl, ?_, core_mantissa others stops⟩
    rw [first]
    refine .minus rfl minus.isMinus fun number => ?_
    rcases part with digits | point
    · exact digits.2
    · simp [point] at number

theorem textOf_shows {words : List (List Char)} (shown : Forall₂ Token.Shows ts words) :
    textOf ts = String.ofList words.flatten := by
  apply congrArg String.ofList
  induction shown with
  | nil => rfl
  | cons first _ ih => rw [flatMap_cons, flatten_cons, first.toList, ih]

theorem join_spelling (n : Spelling) (finite : |n.value| < overflowBound)
    (shown : Forall₂ Token.Shows ts n.words) : join ts = .ok ⟨.number, String.ofList n.text, lineOf ts⟩ := by
  have text : textOf ts = String.ofList n.text := by rw [textOf_shows shown, flatten_words]
  rw [join, text]
  exact if_pos ((finite_iff n).mpr finite)

/-- A token that is part of no numeral. -/
structure IsOutside (t : Token) : Prop where
  noPoint : t.kind ≠ .point
  noNumber : t.kind ≠ .number
  noSign : t.kind ≠ .arithmetic

theorem IsOutside.joined (outside : IsOutside t) {signed : Bool} {rest out : List Token}
    (later : Joined t.mayPrecedeSign rest out) : Joined signed (t :: rest) (t :: out) :=
  .pass outside.noNumber (fun _ => ⟨by simp [isMinus, outside.noSign], outside.noPoint⟩) later

theorem IsOutside.settlePoint (outside : IsOutside t) : settlePoint t = t :=
  if_neg outside.noPoint

end Numeral

/-- The kinds that may stand before a signed numeral. -/
def kindsBeforeNumeral : List Kind :=
  [.openBracket, .comma, .comparison, .terminator]

/-- The kinds that may stand behind a numeral. -/
def kindsAfterNumeral : List Kind :=
  [.closeBracket, .comma, .terminator]

theorem Numeral.isOutside_of_mem {t : Token} (listed : t.kind ∈ kindsBeforeNumeral ++ kindsAfterNumeral) :
    IsOutside t := by
  have parts : ∀ k ∈ kindsBeforeNumeral ++ kindsAfterNumeral, k ≠ .point ∧ k ≠ .number ∧ k ≠ .arithmetic := by decide
  obtain ⟨noPoint, noNumber, noSign⟩ := parts t.kind listed
  exact ⟨noPoint, noNumber, noSign⟩

theorem mayPrecedeSign_of_mem {t : Token} (listed : t.kind ∈ kindsBeforeNumeral) : t.mayPrecedeSign = true := by
  have signed : ∀ k ∈ kindsBeforeNumeral, k.mayPrecedeSign = true := by decide
  exact signed t.kind listed

/-- The tokens of a numeral that is finite as a double are joined into one, on whatever lines they stand, and the
tokens beside them are left alone. -/
theorem joinNumerals_joins_spelling (n : Decimal.Spelling) (finite : |n.value| < Decimal.overflowBound) :
    ∃ scanned, scanTokens (String.ofList n.text) = .ok scanned ∧
      ∀ (tokens : List Token) (before after : Option Token),
        Forall₂ (fun t u => t.kind = u.kind ∧ t.text = u.text) tokens scanned →
        (∀ t ∈ before, t.kind ∈ kindsBeforeNumeral) → (∀ t ∈ after, t.kind ∈ kindsAfterNumeral) →
        joinNumerals (before.toList ++ tokens ++ after.toList) =
          .ok (before.toList ++ ⟨.number, String.ofList n.text, Numeral.lineOf tokens⟩ :: after.toList) := by
  refine ⟨_, Decimal.scanTokens_text n, fun tokens before after alike precedes follows => ?_⟩
  have shown : Forall₂ Token.Shows tokens n.words := by
    rw [forall₂_map_right_iff] at alike
    exact alike.imp fun _ _ same => ⟨same.1, same.2⟩
  have outsideBefore : ∀ t ∈ before, Numeral.IsOutside t :=
    fun t member => isOutside_of_mem (mem_append_left _ (precedes t member))
  have outsideAfter : ∀ t ∈ after, Numeral.IsOutside t :=
    fun t member => isOutside_of_mem (mem_append_right _ (follows t member))
  generalize made : (⟨.number, String.ofList n.text, Numeral.lineOf tokens⟩ : Token) = number
  have joined : Numeral.join tokens = .ok number := made ▸ Numeral.join_spelling n finite shown
  have stops : ∀ t ∈ after, t.kind ≠ .point ∧ t.kind ≠ .number :=
    fun t member => ⟨(outsideAfter t member).noPoint, (outsideAfter t member).noNumber⟩
  obtain ⟨front, parts, rfl, begins, core⟩ := Numeral.core_spelling shown stops
  have behind : Numeral.Joined false after.toList after.toList := by
    cases after with
    | none => exact .nil
    | some t => exact (outsideAfter t rfl).joined .nil
  have numeral : Numeral.Joined true (front ++ parts ++ after.toList) (number :: after.toList) := by
    refine .number begins ?_ joined behind
    rwa [Option.head?_toList]
  refine joinNumerals_iff.mpr ⟨before.toList ++ number :: after.toList, ?_, ?_⟩
  · cases before with
    | none => exact numeral
    | some t => exact (outsideBefore t rfl).joined (mayPrecedeSign_of_mem (precedes t rfl) ▸ numeral)
  · -- none of the tokens is a point
    have kept : ∀ t ∈ before.toList ++ number :: after.toList, Numeral.settlePoint t = t := by
      intro t member
      rcases mem_append.mp member with earlier | later
      · exact (outsideBefore t (Option.mem_toList.mp earlier)).settlePoint
      · rcases mem_cons.mp later with rfl | later
        · rw [← made]
          rfl
        · exact (outsideAfter t (Option.mem_toList.mp later)).settlePoint
    rw [map_congr_left kept, map_id']

/-- The numeral `-1.5E-3`. -/
def smallNumeral : Decimal.Spelling where
  negative := true
  mantissa := .full ⟨['1'], by decide, by decide⟩ ⟨['5'], by decide, by decide⟩
  exponent := some ⟨'E', some '-', ⟨['3'], by decide, by decide⟩, .inr rfl,
    fun _ sign => .inr (Option.some.inj sign).symm⟩
  ends := nofun

/-- Six tokens on two lines, in an argument list. -/
theorem joinNumerals_joins_spelling_argument :
    |smallNumeral.value| < Decimal.overflowBound ∧
      joinNumerals [.ofWord "(" 0, .ofWord "-" 0, .ofWord "1" 0, .ofWord "." 0, .ofWord "5E" 0, .ofWord "-" 1,
          .ofWord "3" 1, .ofWord "," 1] =
        .ok [.ofWord "(" 0, ⟨.number, "-1.5E-3", 0⟩, .ofWord "," 1] := by
  have finite : |smallNumeral.value| < Decimal.overflowBound := by
    decide +kernel
  obtain ⟨scanned, ok, joins⟩ := joinNumerals_joins_spelling smallNumeral finite
  have same : scanned =
      [.ofWord "-" 0, .ofWord "1" 0, .ofWord "." 0, .ofWord "5E" 0, .ofWord "-" 0, .ofWord "3" 0] := by
    exact (Except.ok.inj ok).symm
  refine ⟨finite, joins [.ofWord "-" 0, .ofWord "1" 0, .ofWord "." 0, .ofWord "5E" 0, .ofWord "-" 1, .ofWord "3" 1]
    (some (.ofWord "(" 0)) (some (.ofWord "," 1)) ?_ ?_ ?_⟩
  · rw [same]
    repeat' constructor
  · decide
  · decide

end VbSharp
