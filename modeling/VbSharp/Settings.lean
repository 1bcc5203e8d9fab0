import VbSharp.Date

/-!
# Settings
-/
namespace VbSharp

/-- Whether the output is a program or only its statements. -/
inductive Shape where
  | fullProgram
  | bodyOnly
  deriving Repr, DecidableEq

/-- What can be set for a run. -/
structure Settings where
  /-- Values that the host provides and that count as declared. -/
  externalReferences : List String := ["WScript"]
  shape : Shape := .fullProgram
  culture : Culture := {}
  /-- What one level of depth is indented by. -/
  indent : String := "    "
  deriving Repr, DecidableEq

def Settings.isExternalReference (s : Settings) (name : String) : Bool :=
  s.externalReferences.any (sameWord · name)

end VbSharp
