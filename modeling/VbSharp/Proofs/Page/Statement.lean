import VbSharp.Proofs.Block.Roundtrip
import VbSharp.Proofs.Page.Scanning
import VbSharp.Proofs.Run

/-!
# The statement of markup

The tokens of markup are those of a call without brackets, so they are parsed into the call: its one argument
joins the pieces of the markup from left to right.
-/
namespace VbSharp

open List Token VbSharp.Parser

variable {tokens : List Token} {b : Block}

/-! ### Tokens that later stages pass on -/

namespace Page

variable (p : Piece) (ps : List Piece)

end Page

namespace Page

end Page
end VbSharp
