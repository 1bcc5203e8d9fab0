import VbSharp.Block.Reader
import VbSharp.Text.Blank

/-!
# Bodies

A construct that holds blocks is parsed with the help of a parser for the blocks of its body. That
parser is an argument here, so each construct can be described on its own.
-/
namespace VbSharp.Parser

abbrev Ends := List (List String)

/-- Parses blocks up to the first of some ends, on which the cursor stays, or to the end of the tokens.
The answer tells which of the ends was found. -/
abbrev Body := Ends → Parser (List Block × Option Nat)

def endsText (ends : Ends) : String :=
  joinText " or " (ends.map (joinText " "))

/-- Parses a body that has to be ended; `openedOn` is the line on which its construct starts. -/
def bodyUntil (body : Body) (ends : Ends) (openedOn : Nat) : Parser (List Block × Nat) := do
  match ← body ends with
  | (blocks, some found) => return (blocks, found)
  | (_, none) => throw (.missingEnd (openedOn + 1) (endsText ends))

def bodyThrough (body : Body) (words : List String) (openedOn : Nat) : Parser (List Block) := do
  let (blocks, _) ← bodyUntil body [words] openedOn
  move (·.advance words.length)
  return blocks

end VbSharp.Parser
