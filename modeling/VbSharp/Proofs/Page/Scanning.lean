import VbSharp.Page
import VbSharp.Proofs.Token.CodeScan
import VbSharp.Proofs.Token.SignRun

/-!
# The tokens of markup

Markup becomes a script of one statement, which writes out a string expression. The expression is scanned again
into the pieces that the markup was cut into: a token for each of them, with an `&` between two neighbours. The
constants of the pieces are raw text to the first scan, so what it has pending grows from piece to piece until
the next literal; the second scan then breaks it up.
-/
namespace VbSharp.Page

open List Transducer
open Passage (codeScan isCodeBefore tokens_code)

variable (markup : List Char) (constant : Control)

variable {ps : List Piece} {out : List Token} {pending : List Char}

/-! ### Pieces -/

/-- The token of a piece. -/
def Piece.token : Piece → Token
  | .text run => ⟨.string, String.ofList run, 0⟩
  | .control constant => ⟨.name, constant.name, 0⟩

/-- The mark between two pieces. -/
def ampersand : Token :=
  ⟨.arithmetic, "&", 0⟩

/-- The words of some text are complete: whatever follows, they come out first. -/
def AreWordsOf (out : List Token) (text : List Char) : Prop :=
  ∀ more, Atom.machine.run ⟨0, .word []⟩ (text ++ more) = (Atom.machine.run ⟨0, .word []⟩ more).map (out ++ ·)

theorem AreWordsOf.append {a b : List Token} {front back : List Char} (first : AreWordsOf a front)
    (second : AreWordsOf b back) : AreWordsOf (a ++ b) (front ++ back) := by
  intro more
  rw [append_assoc, first, second]
  cases Atom.machine.run ⟨0, .word []⟩ more <;> simp [Except.map]

theorem AreWordsOf.run {text : List Char} (words : AreWordsOf out text) :
    Atom.machine.run ⟨0, .word []⟩ text = .ok out := by
  have ended := words []
  rw [append_nil] at ended
  rw [ended]
  exact congrArg Except.ok (append_nil out)

end VbSharp.Page
