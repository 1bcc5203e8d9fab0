import VbSharp.Proofs.CSharp.Brace
import VbSharp.Proofs.CSharp.Rendering
import VbSharp.Proofs.Page.Cutting
import VbSharp.Proofs.Page.Statement

/-!
# Markup is written out unchanged

The call that markup becomes is lowered into one statement, whose argument joins literals and constants. Read as
string literals and constants are read, these spell the page again, character by character.
-/
namespace VbSharp

open List Noting Lower
open CSharp (Term Simple Stmt Line)

namespace Page

variable (site : Site)

/-! ### The argument of the call -/

/-- The operand of a piece. -/
def Piece.operand (p : Piece) : Operand Argument :=
  match p with
  | .text _ => .value p.token
  | .control _ => .chain [([p.token], [])]

/-- The tree of the pieces: each is joined to all before it. -/
def joined (tree : Tree (Operand Argument)) (ps : List Piece) : Tree (Operand Argument) :=
  ps.foldl (fun left p => .binary .concat ampersand left (.operand p.operand)) tree

/-- The expression of a piece in the generated code. -/
def Piece.term : Piece → Term
  | .text run => .string (String.ofList run)
  | .control constant => .constant constant.name

section Names

variable (settings : Settings) (e : Expr)

section Hosted

variable (response : nameKey "Response" ∈ settings.externalReferences.map nameKey)
  (constants : ∀ constant : Control, nameKey constant.name ∉ settings.externalReferences.map nameKey)
  (p : Piece) (ps : List Piece)
include response constants

end Hosted
end Names

end Page

/-! ### Reading the written code -/

namespace CSharp

end CSharp

namespace Page

end Page
end VbSharp
