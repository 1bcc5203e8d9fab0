import VbSharp.CSharp.Term

/-!
# Generated statements

The statements of the generated code form a tree; its lines are written from it, each with its depth. So
the depth of a line is always the number of braces around it.
-/
namespace VbSharp.CSharp

/-- One line of code: its depth and its text. A blank line has no text. -/
structure Line where
  depth : Nat
  text : String
  deriving Repr, DecidableEq

def Line.blank : Line :=
  ⟨0, ""⟩

def Line.isBlank (l : Line) : Bool :=
  l.text.isEmpty

/-- Who can see a variable. -/
inductive Visibility where
  | localVariable
  | publicField
  | privateField
  deriving Repr, DecidableEq

/-- A variable that the generated code declares. -/
structure Declaration where
  name : String
  isArray : Bool
  visibility : Visibility
  deriving Repr, DecidableEq

namespace Declaration

def render (d : Declaration) : String :=
  let access := match d.visibility with
    | .localVariable => ""
    | .publicField => "public "
    | .privateField => "private "
  access ++ "object " ++ d.name ++ " = " ++ (if d.isArray then "new object[0]" else "null") ++ ";"

/-- Adds a declaration to those made before; one that repeats a name only adds that it is an array. -/
def insert (made : List Declaration) (d : Declaration) : List Declaration :=
  if made.any (·.name == d.name) then
    made.map fun e => if e.name == d.name then { e with isArray := e.isArray || d.isArray } else e
  else made ++ [d]

/-- The declarations with repetitions folded into the first of each name. -/
def merge (declarations : List Declaration) : List Declaration :=
  declarations.foldl insert []

end Declaration

/-- The first line of a method. -/
structure Signature where
  access : String
  returnsValue : Bool
  name : String
  /-- Each parameter with whether it is passed by reference. -/
  parameters : List (Bool × String)
  deriving Repr, DecidableEq

def Signature.render (s : Signature) : String :=
  let parameter := fun (byRef, name) => (if byRef then "ref object " else "object ") ++ name
  s.access ++ (if s.returnsValue then "object " else "void ") ++ s.name ++ "(" ++
    Term.commas (s.parameters.map parameter) ++ ")"

def outerClass : String := "GlobalReferences"

/-- A statement of one line. -/
inductive Simple where
  | comment (text : String)
  | declare (declaration : Declaration)
  /-- A variable that the script uses without declaring it. -/
  | declareImplicit (declaration : Declaration)
  /-- The variable that holds the result of a routine. -/
  | declareResult (name : String)
  | assign (target value : Term)
  | expression (term : Term)
  | leave (result : Option String)
  /-- Marks a method as an accessor of the property of that name. -/
  | propertyAttribute (name : String)
  | defaultAttribute
  | readOnlyField (type name : String)
  | storeField (field parameter : String)
  /-- Runs the outermost code that a class holds. -/
  | runOuter
  deriving Repr

namespace Simple

def render : Simple → String
  | .comment text => "//" ++ text
  | .declare d => d.render
  | .declareImplicit d => d.render ++ " // Undeclared variable"
  | .declareResult name => "object " ++ name ++ " = null;"
  | .assign target value => target.render ++ " = " ++ value.render ++ ";"
  | .expression term => term.render ++ ";"
  | .leave none => "return;"
  | .leave (some result) => "return " ++ result ++ ";"
  | .propertyAttribute name => "[TranslatedProperty(" ++ stringLiteral name ++ ")]"
  | .defaultAttribute => "[IsDefault]"
  | .readOnlyField type name => "private readonly " ++ type ++ " " ++ name ++ ";"
  | .storeField field parameter => field ++ " = " ++ parameter ++ ";"
  | .runOuter => "new " ++ outerClass ++ "(_, _env).Run();"

end Simple

/-- The line before the braces of a compound statement. -/
inductive Head where
  | branch (condition : Term)
  | elseBranch (condition : Term)
  | otherwise
  | method (signature : Signature)
  /-- A class; `reflecting` ones have a property with arguments. -/
  | classDefinition (name : String) (reflecting : Bool)
  | constructor (className : String) (takesOuter : Bool)
  | run
  deriving Repr

namespace Head

def render : Head → String
  | .branch condition => "if (" ++ condition.render ++ ")"
  | .elseBranch condition => "else if (" ++ condition.render ++ ")"
  | .otherwise => "else"
  | .method signature => signature.render
  | .classDefinition name reflecting =>
    "public class " ++ name ++
      (if reflecting then " : TranslatedPropertyIReflectImplementation" else "")
  | .constructor className takesOuter =>
    "public " ++ className ++ "(IProvideVBScriptCompatFunctionality compatLayer, " ++
      "EnvironmentReferences env" ++ (if takesOuter then ", " ++ outerClass ++ " outer" else "") ++ ")"
  | .run => "public void Run()"

end Head

/-- A statement, with the comment that stands behind its last line if there is one. -/
inductive Stmt where
  | blank
  | line (content : Simple) (remark : Option String)
  | block (head : Head) (body : List Stmt) (remark : Option String)
  deriving Repr

def remarkText : Option String → String
  | none => ""
  | some text => " //" ++ text

namespace Stmt

def ofSimple (content : Simple) : Stmt :=
  .line content none

def ofBlock (head : Head) (body : List Stmt) : Stmt :=
  .block head body none

def isBlank : Stmt → Bool
  | .blank => true
  | _ => false

/-- Adds a comment behind the last line of a statement; a blank line takes none. -/
def addRemark? (text : String) : Stmt → Option Stmt
  | .blank => none
  | .line content remark => some (.line content (some (combined remark)))
  | .block head body remark => some (.block head body (some (combined remark)))
where
  combined : Option String → String
    | none => text
    | some earlier => earlier ++ " //" ++ text

mutual

def lines (depth : Nat) : Stmt → List Line
  | .blank => [.blank]
  | .line content remark => [⟨depth, content.render ++ remarkText remark⟩]
  | .block head body remark =>
    ⟨depth, head.render⟩ :: ⟨depth, "\x7b"⟩ ::
      (linesOf (depth + 1) body ++ [⟨depth, "\x7d" ++ remarkText remark⟩])

def linesOf (depth : Nat) : List Stmt → List Line
  | [] => []
  | s :: rest => lines depth s ++ linesOf depth rest

end

/-- The statements without the blank ones at both ends. -/
def trim (stmts : List Stmt) : List Stmt :=
  ((stmts.dropWhile isBlank).reverse.dropWhile isBlank).reverse

def spaced (groups : List (List Stmt)) : List Stmt :=
  List.intercalate [.blank] groups

end Stmt
end VbSharp.CSharp
