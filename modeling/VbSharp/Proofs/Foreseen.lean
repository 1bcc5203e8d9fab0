import VbSharp.Proofs.Block.AlikeParsing
import VbSharp.Proofs.Lower.AlikeProgram
import VbSharp.Proofs.Token.CommentStart

/-!
# Faults that a script can cause

Where every kind is settled and every comment starts a statement, the tokens of a statement are of kinds that can stand
inside one, so an expression is never read from a comment. Such tokens are alike to themselves in a sense in which
faults have to be foreseen, and so are the blocks that are parsed from them: every value is a literal and every call has
a name. Lowering can name all of it.
-/
namespace VbSharp

/-- Tokens within a statement are of kinds that can stand there, and faults are foreseen. -/
def Likeness.foreseen : Likeness where
  view := id
  shift := 0
  optionInClass := False
  known t := t.isInner = true
  noted _ := True
  lax := False
  sound same := congrArg Char.toLower same
  noted_of_known _ := trivial
  inner := .inr

variable {tokens rest part : List Token} {t : Token}

theorem CommentsStart.tail (starts : CommentsStart (t :: rest)) : CommentsStart rest := by
  rintro before c after rfl comment
  have isEnd := starts (t :: before) c after rfl comment
  cases last : before.getLast? with
  | none => rfl
  | some u => simpa [List.getLast?_cons, last] using isEnd

end VbSharp
