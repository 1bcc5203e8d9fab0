import VbSharp.Layout
import VbSharp.Proofs.Name
import VbSharp.Scope
import VbSharp.Settings.Read

/-!
# What the host provides

Settings list the values that the host provides. Blanks around a listed name do not count where the list is checked, but
they do count where a name is looked up and where the properties of the host are written. So a reference works exactly
if it is listed without them, and `Me` never does.
-/
namespace VbSharp

open List

variable {settings : Settings} {listed seen externals : List String} {r : String} {index : Nat} {c : Char} {cs : List Char} {t : Token}
  {scope : Scope}

/-- The name has characters, and only those that a reference may have. -/
def IsProperReference (reference : String) : Prop :=
  trimBlank reference.toList ≠ [] ∧ (trimBlank reference.toList).all isWordChar = true

theorem mem_dropWhile_isBlank (member : c ∈ cs) : isBlank c = true ∨ c ∈ cs.dropWhile isBlank := by
  rw [← takeWhile_append_dropWhile (p := isBlank) (l := cs)] at member
  exact (mem_append.mp member).imp_left mem_takeWhile_imp

theorem IsProperReference.chars (proper : IsProperReference r) : ∀ c ∈ r.toList, isBlank c = true ∨ isWordChar c = true := by
  intro c member
  rcases mem_dropWhile_isBlank member with blank | inner
  · exact .inl blank
  · refine (mem_dropWhile_isBlank (mem_reverse.mpr inner)).imp_right fun inside => ?_
    exact all_eq_true.mp proper.2 c (mem_reverse.mpr inside)

namespace Scope

end Scope

/-! ### Properties of the host -/

end VbSharp
