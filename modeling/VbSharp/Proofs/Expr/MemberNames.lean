import VbSharp.Proofs.Block.Budget
import VbSharp.Proofs.Token.NumeralSign
import VbSharp.Proofs.Token.SignRun

/-!
# Words that name members

Behind a point every word is a name, but the stages that join numerals and combine signs do not know of that. They look
at the kind of the word, and where it is a keyword or an operator they take a sign behind it for the sign of a number.
Up to this, any word behind a point can be replaced by another one.
-/
namespace VbSharp

open List Sign

variable {w v : Token} {tokens : List Token}

namespace Numeral

variable {s next : State} {t point : Token} {front back out : List Token}

end Numeral

open Numeral

end VbSharp
