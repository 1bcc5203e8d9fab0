import VbSharp.Proofs.Token.Lines

/-!
# Scanning code

Text without literals, comments and line ends is passed on whole by the first scan, so it is the second scan that
decides which tokens it has.
-/
namespace VbSharp.Passage

variable (pending : List Char) (afterLiteral : Bool)

variable {text rest : List Char} {c : Char}

/-- A character that the scan takes for code, wherever it stands. -/
def isCode (c : Char) : Bool :=
  c != '\x22' && c != '#' && c != '\x27' && c != '\n'

/-- The text can be scanned as code before some other text: it holds no mark of a literal or comment, no line end
and no `Rem`. -/
def isCodeBefore (rest : List Char) : List Char → Bool
  | [] => true
  | c :: text => isCode c && !(c.toLower == 'r' && completesRem (text ++ rest)) && isCodeBefore rest text

theorem isCodeBefore_of_forall (rest : List Char) (plain : ∀ c ∈ text, isCode c = true ∧ c.toLower ≠ 'r') :
    isCodeBefore rest text = true := by
  induction text with
  | nil => rfl
  | cons c text ih =>
    obtain ⟨⟨code, noRem⟩, others⟩ := List.forall_mem_cons.mp plain
    simp [isCodeBefore, code, noRem, ih others]

theorem codeStep_push (s : Scan) (plain : isCode c = true)
    (noRem : (c.toLower == 'r' && s.atStatementStart && completesRem rest) = false) :
    codeStep s c rest = ([], s.push c) := by
  simp only [isCode, Bool.and_eq_true, bne_iff_ne] at plain
  obtain ⟨⟨⟨noString, noDate⟩, noComment⟩, noEnd⟩ := plain
  simp [codeStep, noString, noDate, noComment, noEnd, noRem]

/-- A scan in code on the first line. -/
def codeScan (pending : List Char) (afterLiteral : Bool) : Scan :=
  ⟨0, pending, 0, afterLiteral, .code⟩

/-- A character of code is pending when the text behind it is scanned. -/
theorem tokens_push (plain : isCode c = true)
    (noRem : (c.toLower == 'r' && (codeScan pending afterLiteral).atStatementStart && completesRem rest) = false) :
    (codeScan pending afterLiteral).tokens (c :: rest) = (codeScan (c :: pending) afterLiteral).tokens rest := by
  have stepped : machine.step (codeScan pending afterLiteral) c rest = .ok ([], codeScan (c :: pending) afterLiteral) := by
    show Except.ok (codeStep (codeScan pending afterLiteral) c rest) = _
    rw [codeStep_push _ plain noRem]
    cases pending <;> rfl
  rw [Scan.tokens, Transducer.run_cons, stepped]
  simp only [Except.bind, Scan.tokens]
  cases machine.run (codeScan (c :: pending) afterLiteral) rest <;> rfl

/-- Code before some text is pending when that text is scanned. -/
theorem tokens_code (pending : List Char) (afterLiteral : Bool) (plain : isCodeBefore rest text = true) :
    (codeScan pending afterLiteral).tokens (text ++ rest) =
      (codeScan (text.reverse ++ pending) afterLiteral).tokens rest := by
  induction text generalizing pending with
  | nil => rfl
  | cons c text ih =>
    simp only [isCodeBefore, Bool.and_eq_true, Bool.not_eq_true'] at plain
    obtain ⟨⟨plain, noRem⟩, later⟩ := plain
    rw [List.cons_append, tokens_push pending afterLiteral plain, ih (c :: pending) later]
    · simp
    · cases isR : c.toLower == 'r' <;> simp_all

theorem tokens_codeScan : (codeScan pending afterLiteral).tokens [] = atoms (String.ofList pending.reverse) 0 :=
  wordsOf_rawTokens pending 0

end VbSharp.Passage

namespace VbSharp

/-- The tokens of a script that is all code are its words and marks. -/
theorem scanTokens_code {text : List Char} (plain : Passage.isCodeBefore [] text = true) :
    scanTokens (String.ofList text) = atoms (String.ofList text) 0 := by
  have scanned := Passage.tokens_code [] false plain
  rw [Passage.tokens_codeScan, List.append_nil, List.append_nil, List.reverse_reverse] at scanned
  rw [scanTokens_eq, String.toList_ofList]
  exact scanned

end VbSharp
