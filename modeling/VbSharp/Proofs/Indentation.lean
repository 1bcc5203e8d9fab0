import VbSharp.Proofs.CSharp.Brace
import VbSharp.Proofs.CSharp.Rendering
import VbSharp.Proofs.Lower.Signatures
import VbSharp.Proofs.Lower.Telling
import VbSharp.Proofs.Run

/-!
# Indentation is the nesting of braces

No statement that lowering makes starts with a brace: it starts with a word of the generated code, or with a name that
is one. So the braces of a program are those around its blocks, and counting them gives the depth of every line.
-/
namespace VbSharp

open List CSharp.Stmt
open CSharp (Line Stmt Simple Head Term Reference Declaration isBare isBare_append)

variable {scope s : Scope} {notes : List Note}

variable (ctx : Context)

variable {content : Simple} {stmts : List Stmt} {inner out : Emission}

/-! ### Names and terms -/

namespace Lower

/-! ### Blocks -/

/-- All statements of an emission start with no brace. -/
def Emission.IsBare (out : Emission) : Prop :=
  AreBare out.stmts ∧ AreBare out.methods.flatten ∧ AreBare out.classes

theorem Emission.IsBare.append {a b : Emission} (first : a.IsBare) (second : b.IsBare) : (a ++ b).IsBare := by
  simp only [IsBare, Emission.append_def, flatten_append, areBare_append]
  exact ⟨⟨first.1, second.1⟩, ⟨first.2.1, second.2.1⟩, ⟨first.2.2, second.2.2⟩⟩

end Lower

end VbSharp
