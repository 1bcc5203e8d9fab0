/-!
# Letter case

Keywords and names are compared without regard to the case of the ASCII letters; no other character
has a case.
-/
namespace VbSharp

def foldCase (text : String) : String :=
  String.ofList (text.toList.map Char.toLower)

def raiseCase (text : String) : String :=
  String.ofList (text.toList.map Char.toUpper)

/-- Whether two texts differ at most in the case of ASCII letters. -/
def sameWord (a b : String) : Bool :=
  foldCase a == foldCase b

theorem sameWord_iff {a b : String} : sameWord a b = true ↔ foldCase a = foldCase b := by
  simp [sameWord]

end VbSharp
