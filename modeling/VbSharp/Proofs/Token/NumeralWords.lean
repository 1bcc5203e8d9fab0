import VbSharp.Proofs.Number.Spelling
import VbSharp.Proofs.Token.CodeScan

/-!
# The words of a numeral

A script breaks a numeral into words at its signs and its point. An exponent without a sign stays in one word with the
digits before it, and so does the mark of an exponent with a sign. Joining the words again gives the numeral as one
token, whatever lines they stand on.
-/
namespace VbSharp

open List

variable (d : Digits) (e : Option Exponent) (n : Spelling) (line : Nat) (text : List Char)

variable {c m : Char}

namespace Decimal

/-- What stands in one word with the last digits. -/
def attached : Option Exponent → List Char
  | none => []
  | some e => e.mark :: (if e.sign.isSome then [] else e.digits.chars)

/-- The words behind it. -/
def detached : Option Exponent → List (List Char)
  | none => []
  | some e =>
    match e.sign with
    | none => []
    | some c => [[c], e.digits.chars]

theorem detached_unsigned {e : Exponent} (sign : e.sign = none) : detached (some e) = [] := by
  rw [detached, sign]

theorem detached_signed {e : Exponent} (sign : e.sign = some c) : detached (some e) = [[c], e.digits.chars] := by
  rw [detached, sign]

theorem detached_eq_nil {e : Option Exponent} (unsigned : ∀ x ∈ e, x.sign = none) : detached e = [] := by
  cases e with
  | none => rfl
  | some x => exact detached_unsigned (unsigned x rfl)

theorem exists_sign {e : Option Exponent} (signed : ¬ ∀ x ∈ e, x.sign = none) :
    ∃ x c, e = some x ∧ x.sign = some c := by
  push Not at signed
  obtain ⟨x, member, filled⟩ := signed
  obtain ⟨c, sign⟩ := Option.ne_none_iff_exists'.mp filled
  exact ⟨x, c, member, sign⟩

/-- The words of the last digits and the exponent. -/
def lastWords (d : Digits) (e : Option Exponent) : List (List Char) :=
  (d.chars ++ attached e) :: detached e

/-- The words behind the sign. -/
def Mantissa.words (e : Option Exponent) : Mantissa → List (List Char)
  | .whole d => lastWords d e
  | .pointed d => [d.chars, ['.']]
  | .full d f => d.chars :: ['.'] :: lastWords f e
  | .fraction f => ['.'] :: lastWords f e

def Spelling.words (n : Spelling) : List (List Char) :=
  (if n.negative then [['-']] else []) ++ n.mantissa.words n.exponent

theorem flatten_lastWords : (lastWords d e).flatten = d.chars ++ (e.map Exponent.text).getD [] := by
  cases e with
  | none => simp [lastWords, attached, detached]
  | some e =>
    cases sign : e.sign <;> simp [lastWords, attached, detached, Exponent.text, sign]

theorem flatten_words : n.words.flatten = n.text := by
  have behind : (n.mantissa.words n.exponent).flatten = n.mantissa.text ++ n.exponentText := by
    cases shape : n.mantissa with
    | pointed d =>
      simp [Mantissa.words, Mantissa.text, Mantissa.before, Mantissa.behind, Spelling.exponentText, n.ends d shape]
    | whole d => simp [Mantissa.words, flatten_lastWords, Mantissa.text, Mantissa.before, Spelling.exponentText]
    | full d f | fraction f =>
      simp [Mantissa.words, flatten_lastWords, Mantissa.text, Mantissa.before, Mantissa.behind, Spelling.exponentText]
  rw [Spelling.words, Spelling.text, flatten_append, behind, ← append_assoc]
  cases n.negative <;> rfl

end Decimal

/-! ### Scanning the words -/

namespace Atom

/-- The characters of a numeral that do not end a word. -/
def isNumeralLetter (c : Char) : Bool :=
  c.isDigit || c == 'e' || c == 'E'

theorem isBlank_of_isNumeralLetter (letter : isNumeralLetter c = true) : isBlank c = false := by
  simp only [isNumeralLetter, Bool.or_eq_true, beq_iff_eq] at letter
  rcases letter with (digit | rfl) | rfl
  · simp only [Char.isDigit, ge_iff_le, Bool.and_eq_true, decide_eq_true_eq, UInt32.le_iff_toNat_le] at digit
    have range : 48 ≤ c.toNat ∧ c.toNat ≤ 57 := digit
    simp only [isBlank, Bool.or_eq_false_iff, Bool.and_eq_false_iff, decide_eq_false_iff_not, beq_eq_false_iff_ne]
    omega
  · decide
  · decide

theorem wordStep_letter (letter : isNumeralLetter c = true) (rest : List Char) :
    wordStep line text c rest = ([], ⟨line, .word (c :: text)⟩) := by
  -- none of the characters that are looked for is such a letter
  have other : ∀ m ∈ '\n' :: '_' :: '[' :: '&' :: marks, c ≠ m := by
    have apart : ('\n' :: '_' :: '[' :: '&' :: marks).all (fun m => !isNumeralLetter m) = true := by rfl
    rintro m listed rfl
    have refuted := all_eq_true.mp apart c listed
    rw [letter] at refuted
    cases refuted
  simp only [forall_mem_cons] at other
  obtain ⟨noEnd, noJoin, noBracket, noHex, noMark⟩ := other
  have unmarked : c ∉ marks := fun listed => noMark c listed rfl
  simp [wordStep, noEnd, noJoin, noBracket, noHex, unmarked, isBlank_of_isNumeralLetter letter]

/-- The marks inside a numeral. -/
def numeralMarks : List Char :=
  ['-', '+', '.']

theorem wordStep_mark (mark : m ∈ numeralMarks) (rest : List Char) :
    wordStep line text m rest =
      (wordTokens text line ++ [Token.ofWord (String.ofList [m]) line], ⟨line, .word []⟩) := by
  simp only [numeralMarks, mem_cons, not_mem_nil, or_false] at mark
  rcases mark with rfl | rfl | rfl <;> rfl

theorem feed_letters (text : List Char) {letters : List Char} (only : letters.all isNumeralLetter = true)
    (rest : List Char) :
    machine.feed rest ⟨line, .word text⟩ letters = .ok ([], ⟨line, .word (letters.reverse ++ text)⟩) := by
  induction letters generalizing text with
  | nil => rfl
  | cons c letters ih =>
    obtain ⟨letter, others⟩ := Bool.and_eq_true_iff.mp only
    refine Transducer.feed_cons_ok_iff.mpr ⟨[], ⟨line, .word (c :: text)⟩, [], ?_, ?_, rfl⟩
    · show Except.ok (wordStep line text c (letters ++ rest)) = _
      rw [wordStep_letter line text letter]
    · rw [ih (c :: text) others, reverse_cons, append_assoc]
      rfl

/-- Words of letters with marks between them. -/
inductive Separated : List (List Char) → Prop where
  | nil : Separated []
  | mark {m : Char} {words : List (List Char)} (isMark : m ∈ numeralMarks) (later : Separated words) :
    Separated ([m] :: words)
  | last {word : List Char} (filled : word ≠ []) (only : word.all isNumeralLetter = true) : Separated [word]
  | word {word : List Char} {m : Char} {words : List (List Char)} (filled : word ≠ [])
    (only : word.all isNumeralLetter = true) (isMark : m ∈ numeralMarks) (later : Separated words) :
    Separated (word :: [m] :: words)

/-- The token of a word. -/
def token (line : Nat) (word : List Char) : Token :=
  Token.ofWord (String.ofList word) line

theorem wordTokens_reverse {word : List Char} (filled : word ≠ []) :
    wordTokens word.reverse line = [token line word] := by
  have some : word.reverse.isEmpty = false := by simpa using filled
  rw [wordTokens, some, reverse_reverse]
  rfl

theorem run_mark (mark : m ∈ numeralMarks) {rest : List Char} {later : List Token}
    (ran : machine.run ⟨line, .word []⟩ rest = .ok later) :
    machine.run ⟨line, .word text⟩ (m :: rest) = .ok (wordTokens text line ++ token line [m] :: later) := by
  have stepped : machine.step ⟨line, .word text⟩ m rest = .ok (wordStep line text m rest) := rfl
  rw [Transducer.run_cons, stepped, wordStep_mark line text mark]
  simp only [Except.bind, ran, Except.map, append_assoc]
  rfl

theorem run_separated {words : List (List Char)} (separated : Separated words) :
    machine.run ⟨line, .word []⟩ words.flatten = .ok (words.map (token line)) := by
  induction separated with
  | nil => rfl
  | mark isMark _ ih => exact run_mark line [] isMark ih
  | @last word filled only =>
    have ran := Transducer.run_append (feed_letters line [] only [])
    have ended : machine.finish ⟨line, .word (word.reverse ++ [])⟩ = .ok (wordTokens (word.reverse ++ []) line) := rfl
    rw [Transducer.run_nil, ended, append_nil, append_nil, wordTokens_reverse line filled] at ran
    simpa [Except.map] using ran
  | @word word m words filled only isMark _ ih =>
    have ran := Transducer.run_append (feed_letters line [] only (m :: words.flatten))
    rw [append_nil, run_mark line _ isMark ih, wordTokens_reverse line filled] at ran
    exact ran

theorem Separated.mem {words : List (List Char)} (separated : Separated words) :
    ∀ c ∈ words.flatten, isNumeralLetter c = true ∨ c ∈ numeralMarks := by
  have letters {word : List Char} (only : word.all isNumeralLetter = true) :
      ∀ c ∈ word, isNumeralLetter c = true ∨ c ∈ numeralMarks :=
    fun c member => .inl (all_eq_true.mp only c member)
  induction separated with
  | nil => nofun
  | mark isMark _ ih => exact forall_mem_cons.mpr ⟨.inr isMark, ih⟩
  | last _ only =>
    rw [flatten_singleton]
    exact letters only
  | word _ only isMark _ ih =>
    exact forall_mem_append.mpr ⟨letters only, forall_mem_cons.mpr ⟨.inr isMark, ih⟩⟩

theorem isCode_of_numeral (part : isNumeralLetter c = true ∨ c ∈ numeralMarks) :
    Passage.isCode c = true ∧ c.toLower ≠ 'r' := by
  simp only [isNumeralLetter, numeralMarks, Bool.or_eq_true, beq_iff_eq, mem_cons, not_mem_nil, or_false] at part
  rcases part with ((digit | rfl) | rfl) | rfl | rfl | rfl
  · have apart (m : Char) (other : m.isDigit = false) : c ≠ m := by
      rintro rfl
      rw [other] at digit
      cases digit
    rw [toLower_eq_self (isAlpha_eq_false_of_isDigit digit)]
    simp [Passage.isCode, apart]
  all_goals decide

theorem scanTokens_separated {words : List (List Char)} (separated : Separated words) :
    scanTokens (String.ofList words.flatten) = .ok (words.map (token 0)) := by
  have plain := Passage.isCodeBefore_of_forall [] fun c member => isCode_of_numeral (separated.mem c member)
  rw [scanTokens_code plain, atoms, String.toList_ofList]
  exact run_separated 0 separated

end Atom

namespace Decimal

open Atom (isNumeralLetter Separated numeralMarks)

theorem Digits.letters : d.chars.all isNumeralLetter = true := by
  refine all_eq_true.mpr fun c member => ?_
  simp [isNumeralLetter, all_eq_true.mp d.only c member]

/-- Attached is nothing, or the mark of an exponent and perhaps its digits. -/
theorem attached_cases : attached e = [] ∨
    ∃ mark digits, attached e = mark :: digits ∧ (mark = 'e' ∨ mark = 'E') ∧ digits.all Char.isDigit = true := by
  cases e with
  | none => exact .inl rfl
  | some e =>
    refine .inr ⟨_, _, rfl, e.isMark, ?_⟩
    split
    · rfl
    · exact e.digits.only

theorem letters_attached : (d.chars ++ attached e).all isNumeralLetter = true := by
  rw [all_append, d.letters, Bool.true_and]
  rcases attached_cases e with none | ⟨mark, digits, same, isMark, only⟩
  · rw [none]
    rfl
  · have first : isNumeralLetter mark = true := by
      rcases isMark with rfl | rfl <;> rfl
    have others : digits.all isNumeralLetter = true := by
      refine all_eq_true.mpr fun c member => ?_
      simp [isNumeralLetter, all_eq_true.mp only c member]
    rw [same, all_cons, first, others]
    rfl

theorem Exponent.mem_numeralMarks (e : Exponent) (sign : e.sign = some c) : c ∈ numeralMarks := by
  rcases e.isSign c sign with rfl | rfl <;> decide

theorem separated_lastWords : Separated (lastWords d e) := by
  have filled : d.chars ++ attached e ≠ [] := by simp [d.filled]
  have only := letters_attached d e
  rw [lastWords]
  cases e with
  | none => exact .last filled only
  | some e =>
    cases sign : e.sign with
    | none =>
      rw [detached_unsigned sign]
      exact .last filled only
    | some c =>
      rw [detached_signed sign]
      exact .word filled only (e.mem_numeralMarks sign) (.last e.digits.filled e.digits.letters)

theorem separated_words : Separated n.words := by
  have point : '.' ∈ numeralMarks := by decide
  have behind : Separated (n.mantissa.words n.exponent) := by
    cases n.mantissa with
    | whole d => exact separated_lastWords d _
    | pointed d => exact .word d.filled d.letters point .nil
    | full d f => exact .word d.filled d.letters point (separated_lastWords f _)
    | fraction f => exact .mark point (separated_lastWords f _)
  rw [Spelling.words]
  cases n.negative with
  | false => exact behind
  | true => exact .mark (by decide) behind

theorem scanTokens_text : scanTokens (String.ofList n.text) = .ok (n.words.map (Atom.token 0)) := by
  rw [← flatten_words]
  exact Atom.scanTokens_separated (separated_words n)

end Decimal

end VbSharp
