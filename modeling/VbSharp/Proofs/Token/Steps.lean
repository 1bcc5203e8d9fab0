import Mathlib.Tactic.SplitIfs
import VbSharp.Proofs.Transducer
import VbSharp.Token.Atom

/-!
# Steps of the scans

What one character does to each of the two scans, one case for each way it can go. What is kept along a scan is shown
from these cases.
-/
namespace VbSharp

variable {s next : Scan} {c : Char} {rest : List Char} {out : List Token}

theorem lineFeeds_cons (c : Char) (text : List Char) :
    lineFeeds (c :: text) = lineFeeds text + if c = '\n' then 1 else 0 := by
  simp [lineFeeds, List.count_cons]

/-- The kinds that a word or mark can have. -/
def Kind.isOfWord : Kind → Bool
  | .string | .date | .comment | .inlineComment | .raw | .member => false
  | _ => true

theorem isOfWord_ofWord (text : String) : (Kind.ofWord text).isOfWord = true := by
  simp only [Kind.ofWord, apply_ite Kind.isOfWord]
  simp only [Kind.isOfWord, ite_self]

namespace Passage

/-- What one character of code does. -/
inductive Moves (s : Scan) (c : Char) : List Token → Scan → Prop where
  | literal (mode : Mode) (opens : c = '\x22' ∧ mode = .string [] ∨ c = '#' ∧ mode = .date []) :
    Moves s c (rawTokens s.pending s.start) { s with pending := [], mode := mode }
  | comment (skip : Nat) (opens : c = '\x27' ∨ c.toLower = 'r' ∧ s.atStatementStart = true) :
    Moves s c (s.openComment skip).1 (s.openComment skip).2
  | lineEnd (ends : c = '\n') : Moves s c [] { s.push c with line := s.line + 1 }
  | other (stays : c ≠ '\n') : Moves s c [] (s.push c)

theorem moves_codeStep (s : Scan) (c : Char) (rest : List Char) :
    Moves s c (codeStep s c rest).1 (codeStep s c rest).2 := by
  unfold codeStep
  split_ifs with string date comment rem ends
  · exact .literal _ (.inl ⟨by simpa using string, rfl⟩)
  · exact .literal _ (.inr ⟨by simpa using date, rfl⟩)
  · exact .comment _ (.inl (by simpa using comment))
  · simp only [Bool.and_eq_true, beq_iff_eq] at rem
    exact .comment _ (.inr rem.1)
  · exact .lineEnd (by simpa using ends)
  · exact .other (by simpa using ends)

/-- What one character does to the first scan. -/
inductive Steps (s : Scan) (c : Char) : List Token → Scan → Prop where
  | code {out : List Token} {next : Scan} (mode : s.mode = .code) (moves : Moves s c out next) : Steps s c out next
  | inside (next : Mode) (stays : c ≠ '\n')
    (within : ∃ text, s.mode = .string text ∧ (c = '\x22' ∧ next = .quote text ∨ c ≠ '\x22' ∧ next = .string (c :: text)) ∨
      s.mode = .quote text ∧ c = '\x22' ∧ next = .string (c :: text) ∨
      s.mode = .date text ∧ c ≠ '#' ∧ next = .date (c :: text)) :
    Steps s c [] { s with mode := next }
  | closed {text : List Char} {out : List Token} {next : Scan} (mode : s.mode = .quote text)
    (moves : Moves (s.closeLiteral .string text).2 c out next) :
    Steps s c ((s.closeLiteral .string text).1 ++ out) next
  | dated {text : List Char} (mode : s.mode = .date text) (closes : c = '#') :
    Steps s c (s.closeLiteral .date text).1 (s.closeLiteral .date text).2
  | commented {inline : Bool} {skip : Nat} {text : List Char} (mode : s.mode = .comment inline skip text)
    (ends : c = '\n') :
    Steps s c [s.commentToken inline text] { { s with mode := .code }.push c with line := s.line + 1 }
  | comment {inline : Bool} {skip left : Nat} {text more : List Char} (mode : s.mode = .comment inline skip text)
    (stays : c ≠ '\n') : Steps s c [] { s with mode := .comment inline left more }

theorem steps_of_ok (ok : step s c rest = .ok (out, next)) : Steps s c out next := by
  unfold step at ok
  cases mode : s.mode with
  | code =>
    simp only [mode] at ok
    obtain ⟨rfl, rfl⟩ := Prod.mk.inj (Except.ok.inj ok)
    exact .code mode (moves_codeStep s c rest)
  | string text =>
    simp only [mode] at ok
    split_ifs at ok with quote ends <;> obtain ⟨rfl, rfl⟩ := Prod.mk.inj (Except.ok.inj ok)
    · have isQuote : c = '\x22' := by simpa using quote
      exact .inside _ (by simp [isQuote]) ⟨text, .inl ⟨mode, .inl ⟨isQuote, rfl⟩⟩⟩
    · exact .inside _ (by simpa using ends) ⟨text, .inl ⟨mode, .inr ⟨by simpa using quote, rfl⟩⟩⟩
  | quote text =>
    simp only [mode] at ok
    split_ifs at ok with quote <;> obtain ⟨rfl, rfl⟩ := Prod.mk.inj (Except.ok.inj ok)
    · have isQuote : c = '\x22' := by simpa using quote
      exact .inside _ (by simp [isQuote]) ⟨text, .inr (.inl ⟨mode, isQuote, rfl⟩)⟩
    · exact .closed mode (moves_codeStep ..)
  | date text =>
    simp only [mode] at ok
    split_ifs at ok with closes ends
    · obtain ⟨rfl, rfl⟩ := Prod.ext_iff.mp (Except.ok.inj ok)
      exact .dated mode (by simpa using closes)
    · obtain ⟨rfl, rfl⟩ := Prod.mk.inj (Except.ok.inj ok)
      exact .inside _ (by simpa using ends) ⟨text, .inr (.inr ⟨mode, by simpa using closes, rfl⟩)⟩
  | comment inline skip text =>
    simp only [mode] at ok
    split_ifs at ok with ends
    · obtain rfl : c = '\n' := by simpa using ends
      obtain ⟨rfl, rfl⟩ := Prod.mk.inj (Except.ok.inj ok)
      exact .commented mode rfl
    all_goals
      obtain ⟨rfl, rfl⟩ := Prod.mk.inj (Except.ok.inj ok)
      exact .comment mode (by simpa using ends)

end Passage

namespace Atom

/-- What a character does in or behind the word `text`. -/
inductive Moves (line : Nat) (text : List Char) (c : Char) (rest : List Char) : List Token → Scan → Prop where
  | lineEnd (ends : c = '\n') :
    Moves line text c rest (wordTokens text line ++ [Token.lineEnd line]) ⟨line + 1, .word []⟩
  | blank (stays : c ≠ '\n') (blank : isBlank c = true) : Moves line text c rest (wordTokens text line) ⟨line, .word []⟩
  | opens (mode : Mode) (stays : c ≠ '\n') (opening : c = '_' ∧ mode = .continuation ∨ c = '[' ∧ mode = .escaped [c] ∨
      c = '&' ∧ startsHex rest = true ∧ mode = .hexOpening) : Moves line text c rest [] ⟨line, mode⟩
  | mark (stays : c ≠ '\n') (isMark : c ∈ marks) :
    Moves line text c rest (wordTokens text line ++ [Token.ofWord (String.ofList [c]) line]) ⟨line, .word []⟩
  | letter (plain : isBlank c = false ∧ c ∉ marks) : Moves line text c rest [] ⟨line, .word (c :: text)⟩

theorem moves_wordStep (line : Nat) (text : List Char) (c : Char) (rest : List Char) :
    Moves line text c rest (wordStep line text c rest).1 (wordStep line text c rest).2 := by
  unfold wordStep
  split_ifs with ends blank continues escapes hex mark
  · exact .lineEnd (by simpa using ends)
  · exact .blank (by simpa using ends) blank
  · simp only [Bool.and_eq_true, beq_iff_eq] at continues
    exact .opens _ (by simpa using ends) (.inl ⟨continues.1.1, rfl⟩)
  · simp only [Bool.and_eq_true, beq_iff_eq] at escapes
    exact .opens _ (by simpa using ends) (.inr (.inl ⟨escapes.1, rfl⟩))
  · simp only [Bool.and_eq_true, beq_iff_eq] at hex
    exact .opens _ (by simpa using ends) (.inr (.inr ⟨hex.1.1, hex.2, rfl⟩))
  · exact .mark (by simpa using ends) (by simpa using mark)
  · exact .letter ⟨by simpa using blank, by simpa using mark⟩

/-- What one character does to the second scan. -/
inductive Steps (s : Scan) (c : Char) (rest : List Char) : List Token → Scan → Prop where
  | word {text : List Char} {out : List Token} {next : Scan} (mode : s.mode = .word text)
    (moves : Moves s.line text c rest out next) : Steps s c rest out next
  | joined (mode : s.mode = .continuation) (ends : c = '\n') : Steps s c rest [] ⟨s.line + 1, .word []⟩
  | passed (mode : s.mode = .continuation) (blank : isBlank c = true) (stays : c ≠ '\n') : Steps s c rest [] s
  | closed {text : List Char} (mode : s.mode = .escaped text) (closes : c = ']') :
    Steps s c rest [⟨.name, String.ofList (c :: text).reverse, s.line⟩] ⟨s.line, .word []⟩
  | inside {text : List Char} (mode : s.mode = .escaped text) (opened : c ≠ ']' ∧ c ≠ '\n') :
    Steps s c rest [] ⟨s.line, .escaped (c :: text)⟩
  | letter (mode : s.mode = .hexOpening) : Steps s c rest [] ⟨s.line, .hex []⟩
  | digit {digits : List Char} (mode : s.mode = .hex digits) (isDigit : isHexDigit c = true) :
    Steps s c rest [] ⟨s.line, .hex (c :: digits)⟩
  | number {digits : List Char} {number : Token} {out : List Token} {next : Scan} (mode : s.mode = .hex digits)
    (made : hexToken digits s.line = .ok number) (moves : Moves s.line [] c rest out next) :
    Steps s c rest (number :: out) next

theorem steps_of_ok (ok : step s c rest = .ok (out, next)) : Steps s c rest out next := by
  unfold step at ok
  cases mode : s.mode with
  | word text =>
    simp only [mode] at ok
    obtain ⟨rfl, rfl⟩ := Prod.mk.inj (Except.ok.inj ok)
    exact .word mode (moves_wordStep ..)
  | continuation =>
    simp only [mode] at ok
    split_ifs at ok with ends blank <;> obtain ⟨rfl, rfl⟩ := Prod.mk.inj (Except.ok.inj ok)
    · exact .joined mode (by simpa using ends)
    · exact .passed mode blank (by simpa using ends)
  | escaped text =>
    simp only [mode] at ok
    split_ifs at ok with closes ends <;> obtain ⟨rfl, rfl⟩ := Prod.mk.inj (Except.ok.inj ok)
    · exact .closed mode (by simpa using closes)
    · exact .inside mode ⟨by simpa using closes, by simpa using ends⟩
  | hexOpening =>
    simp only [mode] at ok
    obtain ⟨rfl, rfl⟩ := Prod.mk.inj (Except.ok.inj ok)
    exact .letter mode
  | hex digits =>
    simp only [mode] at ok
    split_ifs at ok with isDigit
    · obtain ⟨rfl, rfl⟩ := Prod.mk.inj (Except.ok.inj ok)
      exact .digit mode isDigit
    · split at ok
      next number made =>
        obtain ⟨rfl, rfl⟩ := Prod.mk.inj (Except.ok.inj ok)
        exact .number mode made (moves_wordStep ..)
      next => cases ok

end Atom
end VbSharp
