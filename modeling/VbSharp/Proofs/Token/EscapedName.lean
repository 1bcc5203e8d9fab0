import VbSharp.Proofs.Token.CodeScan
import VbSharp.Proofs.Token.CommentStart

/-!
# Names in square brackets

It is the second scan that knows square brackets. The first one looks into them for literals and comments like anywhere
else, so a name is one token if it has none of their marks, and else the brackets are left open.
-/
namespace VbSharp

open List

variable {name pending : List Char} {c : Char}

theorem Atom.run_closed (line : Nat) (text : List Char) (inside : ∀ c ∈ name, c ≠ ']' ∧ c ≠ '\n') :
    machine.run ⟨line, .escaped text⟩ (name ++ [']']) =
      .ok [⟨.name, String.ofList (text.reverse ++ name ++ [']']), line⟩] := by
  induction name generalizing text with
  | nil =>
    simp [Transducer.run_cons, machine, step, Except.bind, Transducer.run_nil, finish, wordTokens, Except.map]
  | cons c name ih =>
    obtain ⟨⟨opened, stays⟩, inside⟩ := forall_mem_cons.mp inside
    have stepped : machine.step ⟨line, .escaped text⟩ c (name ++ [']']) = .ok ([], ⟨line, .escaped (c :: text)⟩) := by
      simp [machine, step, opened, stays]
    rw [cons_append, Transducer.run_cons, stepped]
    simp [Except.bind, ih (c :: text) inside, Except.map]

/-- Text that opens a bracket becomes a name or a fault. -/
theorem atoms_bracket (text : List Char) (line : Nat) :
    atoms (String.ofList ('[' :: text)) line = Atom.machine.run ⟨line, .escaped ['[']⟩ text := by
  have stepped : Atom.machine.step { line := line } '[' text = .ok ([], ⟨line, .escaped ['[']⟩) := rfl
  rw [atoms, String.toList_ofList, Transducer.run_cons, stepped]
  cases ran : Atom.machine.run ⟨line, .escaped ['[']⟩ text <;> simp [Except.bind, ran, Except.map]

namespace Passage

/-- Whether the word `Rem` starts a comment in the text, behind a colon and indentation. -/
def hidesRem (behindColon : Bool) : List Char → Bool
  | [] => false
  | c :: rest =>
    c.toLower == 'r' && behindColon && completesRem rest || hidesRem (c == ':' || behindColon && isIndent c) rest

theorem atStatementStart_push (pending : List Char) (stays : c ≠ '\n') :
    (codeScan (c :: pending) false).atStatementStart = (c == ':' || (codeScan pending false).atStatementStart && isIndent c) := by
  simp only [Scan.atStatementStart, codeScan, dropWhile_cons]
  cases indent : isIndent c with
  | true =>
    have other : c ≠ ':' := by
      rintro rfl
      cases indent
    simp [other]
  | false => simp [stays]

/-- Code that the scan does not take to the pending text completes that text. -/
theorem codeStep_flush (s : Scan) {rest : List Char} (stays : c ≠ '\n')
    (breaks : isCode c = false ∨ (c.toLower == 'r' && s.atStatementStart && completesRem rest) = true) :
    ∃ code more next, codeStep s c rest = (rawTokens code s.start ++ more, next) ∧
      (code = s.pending ∨ code = s.pending.dropWhile isIndent) := by
  unfold codeStep
  split_ifs with string date comment rem ends
  · exact ⟨_, [], _, by rw [append_nil]; rfl, .inl rfl⟩
  · exact ⟨_, [], _, by rw [append_nil]; rfl, .inl rfl⟩
  · exact ⟨_, _, _, rfl, .inr rfl⟩
  · exact ⟨_, _, _, rfl, .inr rfl⟩
  · exact absurd (by simpa using ends) stays
  · simp_all [isCode]

/-- Where pending text is completed, a bracket that is open in it is never closed. -/
theorem tokens_flush {text rest : List Char} (stays : c ≠ '\n') (unclosed : ']' ∉ text) (breaks : isCode c = false ∨
      (c.toLower == 'r' && (codeScan (text ++ ['[']) false).atStatementStart && completesRem rest) = true) :
    ∃ fault, (codeScan (text ++ ['[']) false).tokens (c :: rest) = .error fault := by
  obtain ⟨code, more, next, flushed, whole⟩ := codeStep_flush (codeScan (text ++ ['[']) false) stays breaks
  have opened : ∃ read, code = read ++ ['['] ∧ ']' ∉ read := by
    rcases whole with rfl | rfl
    · exact ⟨text, rfl, unclosed⟩
    · refine ⟨text.dropWhile isIndent, ?_, fun closes => unclosed ((dropWhile_suffix _).subset closes)⟩
      simp only [codeScan, dropWhile_append]
      split <;> simp_all [show isIndent '[' = false from rfl]
  obtain ⟨read, rfl, unclosed⟩ := opened
  rw [← mem_reverse] at unclosed
  obtain ⟨fault, failed⟩ := Atom.run_escaped 0 ['['] unclosed
  have stepped : machine.step (codeScan (text ++ ['[']) false) c rest = .ok (rawTokens (read ++ ['[']) 0 ++ more, next) :=
    congrArg Except.ok flushed
  have broken : wordsOf (rawTokens (read ++ ['[']) 0) = .error fault := by
    rw [wordsOf_rawTokens, reverse_append, reverse_singleton, singleton_append, atoms_bracket, failed]
  rw [Scan.tokens, Transducer.run_cons, stepped]
  simp only [Except.bind]
  cases machine.run next rest with
  | error fault => exact ⟨fault, rfl⟩
  | ok ps => exact ⟨fault, by simp [Except.map, wordsOf_append, broken, Except.bind]⟩

/-- The first scan passes a name on whole if it takes each character for code, and else leaves its bracket open. -/
theorem tokens_escaped (text : List Char) (unclosed : ']' ∉ text) (inside : ∀ c ∈ name, c ≠ ']' ∧ c ≠ '\n') :
    if name.all isCode && !hidesRem (codeScan (text ++ ['[']) false).atStatementStart (name ++ [']']) then
      (codeScan (text ++ ['[']) false).tokens (name ++ [']']) =
        atoms (String.ofList ('[' :: text.reverse ++ name ++ [']'])) 0
    else ∃ fault, (codeScan (text ++ ['[']) false).tokens (name ++ [']']) = .error fault := by
  induction name generalizing text with
  | nil =>
    simp only [all_nil, nil_append, hidesRem]
    rw [← append_nil [']'], tokens_code _ _ rfl, tokens_codeScan]
    simp
  | cons c name ih =>
    obtain ⟨⟨opened, stays⟩, inside⟩ := forall_mem_cons.mp inside
    by_cases breaks : isCode c = false ∨
        (c.toLower == 'r' && (codeScan (text ++ ['[']) false).atStatementStart && completesRem (name ++ [']'])) = true
    · rw [if_neg (by rcases breaks with mark | rem <;> simp_all [hidesRem])]
      exact tokens_flush stays unclosed breaks
    · simp only [not_or, Bool.not_eq_false, Bool.not_eq_true] at breaks
      obtain ⟨plain, noRem⟩ := breaks
      have later := ih (c :: text) (by simpa using ⟨opened.symm, unclosed⟩) inside
      rw [cons_append, atStatementStart_push _ stays] at later
      rw [cons_append, tokens_push _ _ plain noRem]
      have passed : hidesRem (codeScan (text ++ ['[']) false).atStatementStart (c :: (name ++ [']'])) =
          hidesRem (c == ':' || (codeScan (text ++ ['[']) false).atStatementStart && isIndent c) (name ++ [']']) := by
        rw [hidesRem, noRem, Bool.false_or]
      have read : '[' :: (c :: text).reverse ++ name ++ [']'] = '[' :: text.reverse ++ (c :: name) ++ [']'] := by simp
      rw [passed, all_cons, plain, Bool.true_and, ← read]
      exact later

end Passage

/-- Whether the first scan takes a name in brackets for code, together with the bracket that closes it. -/
def isPlainInside (name : String) : Bool :=
  name.toList.all Passage.isCode && !Passage.hidesRem false (name.toList ++ [']'])

theorem scanTokens_bracket (name : String) (inside : ∀ c ∈ name.toList, c ≠ ']' ∧ c ≠ '\n') :
    if isPlainInside name then scanTokens ("[" ++ name ++ "]") = .ok [⟨.name, "[" ++ name ++ "]", 0⟩]
    else ∃ fault, scanTokens ("[" ++ name ++ "]") = .error fault := by
  have scanned := Passage.tokens_escaped [] (by simp) inside
  have whole : "[" ++ name ++ "]" = String.ofList ('[' :: name.toList ++ [']']) := by simp [← String.toList_inj]
  have opened : scanTokens ("[" ++ name ++ "]") = (Passage.codeScan ['['] false).tokens (name.toList ++ [']']) := by
    rw [scanTokens_eq, whole, String.toList_ofList]
    exact Passage.tokens_push [] false rfl rfl
  have closed : atoms (String.ofList ('[' :: (name.toList ++ [']']))) 0 = .ok [⟨.name, "[" ++ name ++ "]", 0⟩] := by
    rw [atoms_bracket, Atom.run_closed 0 ['['] inside, whole]
    rfl
  rw [nil_append, ← opened, reverse_nil, append_assoc, cons_append, nil_append, closed] at scanned
  exact scanned

/-- A name in brackets at the start of a line is one token, whatever it holds, unless it holds a mark that starts a literal
or comment; then the script is refused. -/
theorem escaped_name_whole_unless_marked (before name : String) (tokens : List Token)
    (ends : before.toList.getLast? = some '\n') (ok : scanTokens before = .ok tokens)
    (inside : ∀ c ∈ name.toList, c ≠ ']' ∧ c ≠ '\n') :
    (isPlainInside name = true → scanTokens (before ++ ("[" ++ name ++ "]")) =
      .ok (tokens ++ [⟨.name, "[" ++ name ++ "]", lineFeeds before.toList⟩])) ∧
    (isPlainInside name = false → ∃ fault, scanTokens (before ++ ("[" ++ name ++ "]")) = .error fault) := by
  rw [scanTokens_append _ ends ok]
  have alone := scanTokens_bracket name inside
  constructor
  · intro plain
    rw [if_pos plain] at alone
    rw [alone]
    simp [shiftResult, Except.map, Except.mapError, Token.shift]
  · intro marked
    rw [if_neg (by simp [marked])] at alone
    obtain ⟨fault, failed⟩ := alone
    rw [failed]
    exact ⟨_, rfl⟩

/-- Blanks, marks and the letters of `Rem` behind a colon may stand in a name. -/
theorem escaped_name_whole_unless_marked_colon :
    scanTokens ("\n" ++ ("[" ++ " a;(:rem" ++ "]")) = .ok ([.lineEnd 0] ++ [⟨.name, "[" ++ " a;(:rem" ++ "]", 1⟩]) :=
  (escaped_name_whole_unless_marked "\n" " a;(:rem" _ rfl rfl (by simp)).1 rfl

/-- An apostrophe in a name starts a comment, and so does `Rem` with a blank behind it. -/
theorem marked_name_is_refused : scanTokens "\n[a'b]" = .error (.malformed 2 .unclosedEscapedName) ∧
    scanTokens "\n[a: rem b]" = .error (.malformed 2 .unclosedEscapedName) :=
  ⟨rfl, rfl⟩

end VbSharp
