import VbSharp.Lower.Block
import VbSharp.Settings

/-!
# Lowering a program

The outermost code becomes the body of the generated program. If the script defines a class, the
outermost code becomes a class itself, so that the script's classes can reach it. Names that nobody
declares are declared here, each with a warning, and date literals whose day depends on the culture are
checked before anything else runs.
-/
namespace VbSharp.Lower

open CSharp (Term Stmt Declaration Visibility)

def definesRoutine (key : String) : Block → Bool
  | .routine header _ => !header.kind.isProperty && nameKey header.name.text == key
  | _ => false

/-- The header of a function or sub that one of the blocks after it defines again. -/
def superseded? (b : Block) (later : List Block) : Option Header :=
  match b with
  | .routine header _ =>
    if !header.kind.isProperty && later.any (definesRoutine (nameKey header.name.text)) then some header
    else none
  | _ => none

/-- The blocks without the functions and subs that are defined again: the last definition counts. -/
def dropSuperseded : List Block → List Block
  | [] => []
  | b :: rest => if (superseded? b rest).isSome then dropSuperseded rest else b :: dropSuperseded rest

def supersededHeaders : List Block → List Header
  | [] => []
  | b :: rest => (superseded? b rest).toList ++ supersededHeaders rest

def firstNames (names : List Token) : List Token :=
  names.foldl (fun found t =>
    if found.any fun u => nameKey u.text == nameKey t.text then found else found ++ [t]) []

def firstTexts (texts : List String) : List String :=
  texts.foldl (fun found t => if found.contains t then found else found ++ [t]) []

def undeclaredNames (notes : List Note) : List Token :=
  firstNames (notes.filterMap fun
    | .undeclared name => some name
    | _ => none)

def datesToCheck (notes : List Note) : List String :=
  firstTexts (notes.filterMap fun
    | .date text => some text
    | _ => none)

def undeclaredWarning (name : Token) : String :=
  "Undeclared variable: \"" ++ name.text ++ "\" (line " ++ toString name.lineNumber ++ ")"

/-- A lowered program. -/
structure Lowered where
  body : List Stmt
  classes : List Stmt
  /-- The date literals that are checked at run time. -/
  dates : List String
  warnings : List String
  deriving Repr

def outerClassStmt (fields : List Stmt) (stmts : List Stmt) (methods : List (List Stmt)) : Stmt :=
  let methodStmts := if methods.isEmpty then [] else Stmt.blank :: Stmt.spaced methods
  .ofBlock (.classDefinition CSharp.outerClass false)
    (fields ++ classFrame CSharp.outerClass false false ++
      [.blank, .ofBlock .run (Stmt.trim stmts)] ++ methodStmts)

def dateCheck (dates : List String) : List Stmt :=
  if dates.isEmpty then []
  else [.ofSimple (.expression (.support "VALIDATEDATELITERALS" [.strings dates]))]

/-- Puts a program together from its outermost code. The declarations come first in both forms. -/
def arrange (asClass : Bool) (dates : List String) (declarations : List Stmt) (out : Emission) :
    List Stmt × List Stmt :=
  let classes := Stmt.spaced (out.classes.map ([·]))
  if asClass then
    let outer := outerClassStmt declarations out.stmts out.methods
    (dateCheck dates ++ [.ofSimple .runOuter],
      outer :: if classes.isEmpty then [] else .blank :: classes)
  else
    let top := dateCheck dates ++ declarations
    let gap := if top.isEmpty || out.stmts.isEmpty then [] else [Stmt.blank]
    (top ++ gap ++ out.stmts, classes)

def program (settings : Settings) (source : List Block) : Lowering Lowered := do
  (supersededHeaders source).forM fun header =>
    report (.definitionSuperseded header.name.text header.name.lineNumber)
  let kept := dropSuperseded source
  let scope := Scope.ofProgram kept settings.externalReferences
  let asClass := !scope.frame.declared.classes.isEmpty
  let out ← blocks ⟨settings.culture, asClass⟩ scope [] kept
  let dates := datesToCheck out.notes
  let explicit := Declaration.merge out.declared
  let implicit := (undeclaredNames out.notes).filter fun name =>
    !explicit.any (·.name == identifier name.text)
  let visibility := if asClass then Visibility.publicField else .localVariable
  implicit.forM fun name => report (.warning (undeclaredWarning name))
  report (.programDeclared explicit.length implicit.length)
  let declarations := explicit.map (fun d => Stmt.ofSimple (.declare d)) ++
    implicit.map fun name =>
      Stmt.ofSimple (.declareImplicit ⟨identifier name.text, false, visibility⟩)
  let (body, classes) := arrange asClass dates declarations out
  return ⟨body, classes, dates, implicit.map undeclaredWarning⟩

end VbSharp.Lower

namespace VbSharp

def lowerBlocks (settings : Settings) (blocks : List Block) : Except Fault Lower.Lowered :=
  match (Lower.program settings blocks).run {} with
  | .ok lowered _ => .ok lowered
  | .error fault _ => .error fault

end VbSharp
