import VbSharp.CSharp.Term
import VbSharp.Date
import VbSharp.Expr.Tree
import VbSharp.Lower.Noting
import VbSharp.Scope

/-!
# Lowering expressions

An expression of a script becomes an expression of the generated code. Each part is lowered for itself,
and the outcomes of the parts are put together along the operator tree. An outcome may be a fault; since
the tree is built before any outcome is looked at, and outcomes are looked at from left to right, the
first fault in that order is the one that counts.
-/
namespace VbSharp

open CSharp (Term)

/-- What lowering knows apart from the code itself: where it stands and how dates are written. -/
structure Site where
  scope : Scope
  culture : Culture
  deriving Repr, DecidableEq

/-- A lowered argument. If the script writes nothing but a name, that name is kept, since a variable can
be passed by reference. -/
structure Argument where
  plainName : Option Token
  term : Noting Term

/-- A name in a chain of member accesses, with the arguments behind it. -/
structure Step where
  name : Token
  arguments : List Argument

namespace Lower

/-- The function of the support library for an operator between two operands. -/
def binaryFunction : BinaryOp → String
  | .imp => "IMP"
  | .eqv => "EQV"
  | .xor => "XOR"
  | .or => "OR"
  | .and => "AND"
  | .equal => "EQ"
  | .notEqual => "NOTEQ"
  | .less => "LT"
  | .greater => "GT"
  | .lessEqual => "LTE"
  | .greaterEqual => "GTE"
  | .is => "IS"
  | .concat => "CONCAT"
  | .add => "ADD"
  | .subtract => "SUBT"
  | .mod => "MOD"
  | .intDivide => "INTDIV"
  | .multiply => "MULT"
  | .divide => "DIV"
  | .power => "POW"

/-- The function of the support library for an operator before an operand. -/
def unaryFunction : UnaryOp → String
  | .negate => "NEG"
  | .not => "NOT"

def literal (site : Site) (t : Token) : Noting Term :=
  match t.kind with
  | .string => return .string t.text
  | .number => return .number t.text
  | .date => do
    match Date.classify site.culture t.text with
    | .invalid => Noting.fail (.invalidDate t.lineNumber t.text)
    | .cultureDependent => Noting.note (.date t.text)
    | .valid => pure ()
    return .support "DATELITERAL" [.string t.text]
  | .constant =>
    let word := foldCase t.text
    if word == "true" then return .boolean true
    else if word == "false" then return .boolean false
    else if word == "empty" then return .null
    else if word == "nothing" then return .constant "Nothing"
    else return .dbNull
  | _ => Noting.fail (.inconsistent (.notALiteral t.lineNumber t.text))

/-- A new instance. Classes that the script does not define are left to the support library. -/
def newInstance (site : Site) (className : Token) : Term :=
  match site.scope.resolve className with
  | .classType name => .new name site.scope.isWithinClass
  | _ => .support "NEW" [.string className.text]

def plainArguments : List Argument → Noting (List Term)
  | [] => return []
  | a :: rest => do
    let term ← a.term
    return term :: (← plainArguments rest)

def boundArguments (arguments : List Argument) : Noting Term := do
  return .support "ARGS" (← plainArguments arguments)

/-- A call that is bound at run time: members of the target, then arguments if there are any. -/
def lateCall (target : Term) (members : List Token) (arguments : List Argument) : Noting Term := do
  let names := Term.strings (members.map Token.text)
  if arguments.isEmpty then return .support "CALL" [target, names]
  return .support "CALL" [target, names, ← boundArguments arguments]

/-- The variable that an argument names, if it does nothing else. -/
def variableArgument? (site : Site) (argument : Argument) : Noting (Option Term) := do
  match argument.plainName with
  | none => return none
  | some name =>
    match site.scope.resolve name with
    | .variable target => return some (.variable target)
    | .undeclared target =>
      Noting.note (.undeclared name)
      return some (.variable target)
    | _ => return none

/-- One argument of a routine of the script. By reference go variables; any other value is put into a
place of its own first. -/
def routineArgument (site : Site) (argument : Argument) (byRef : Bool) : Noting Term := do
  if !byRef then argument.term
  else
    match ← variableArgument? site argument with
    | some term => return .byRef term
    | none => return .byRef (.support "TEMPREF" [← argument.term])

/-- The arguments of a routine of the script, each with whether it goes by reference. -/
def routineArguments (site : Site) : List (Argument × Bool) → Noting (List Term)
  | [] => return []
  | (argument, byRef) :: rest => do
    let term ← routineArgument site argument byRef
    return term :: (← routineArguments site rest)

def routineCall (site : Site) (target : CSharp.Reference) (byRef : List Bool) (step : Step) :
    Noting Term := do
  if step.arguments.length ≠ byRef.length then
    Noting.fail (.malformed step.name.lineNumber
      (.argumentCount step.name.text byRef.length step.arguments.length))
  else return .call target (← routineArguments site (step.arguments.zip byRef))

/-- A value with the arguments behind it: an element of an array or the default member. -/
def indexed (target : Term) (arguments : List Argument) : Noting Term :=
  if arguments.isEmpty then return target else lateCall target [] arguments

def chainRoot (site : Site) (step : Step) : Noting Term :=
  match site.scope.resolve step.name with
  | .routine target byRef => routineCall site target byRef step
  | .builtInFunction function => do
    return .support (raiseCase function) (← plainArguments step.arguments)
  | .property => lateCall .this [step.name] step.arguments
  | .builtInConstant constant =>
    if step.arguments.isEmpty then return .constant constant
    else Noting.fail (.malformed step.name.lineNumber (.notCallable constant))
  | .classType _ =>
    Noting.fail (.malformed step.name.lineNumber (.classAsValue step.name.text))
  | .this => indexed .this step.arguments
  | .errorObject => indexed .errorObject step.arguments
  | .external name => indexed (.environment name) step.arguments
  | .variable target => indexed (.variable target) step.arguments
  | .result name => indexed (.result name) step.arguments
  | .undeclared target => do
    Noting.note (.undeclared step.name)
    indexed (.variable target) step.arguments

/-- The members after the first name of a chain. Names are gathered until one has arguments, and each
argument list ends one call. -/
def chainMembers (target : Term) (pending : List Token) : List Step → Noting Term
  | [] => if pending.isEmpty then return target else lateCall target pending []
  | step :: rest => do
    let names := pending ++ [step.name]
    if step.arguments.isEmpty then chainMembers target names rest
    else chainMembers (← lateCall target names step.arguments) [] rest

def chain (site : Site) : List Step → Noting Term
  | [] => Noting.fail (.inconsistent .emptyChain)
  | root :: members => do
    chainMembers (← chainRoot site root) [] members

/-- The names of one call; the arguments belong to the last of them. -/
def stepsOfCall (names : List Token) (arguments : List Argument) : List Step :=
  match names with
  | [] => []
  | [name] => [⟨name, arguments⟩]
  | name :: rest => ⟨name, []⟩ :: stepsOfCall rest arguments

def stepsOf (calls : List (List Token × List Argument)) : List Step :=
  calls.flatMap fun (names, arguments) => stepsOfCall names arguments

def operand (site : Site) : Operand Argument → Noting Term
  | .chain calls => chain site (stepsOf calls)
  | .value t => literal site t
  | .bracketed inner => inner.term
  | .new className => return newInstance site className

def tree {α : Type} (operand : α → Noting Term) : Tree α → Noting Term
  | .operand a => operand a
  | .unary op _ inner => do
    return .support (unaryFunction op) [← tree operand inner]
  | .binary op _ left right => do
    let left ← tree operand left
    let right ← tree operand right
    return .support (binaryFunction op) [left, right]

def assemble (site : Site) (line : Nat) (pieces : List (Piece Argument)) : Noting Term := do
  tree (operand site) (← Noting.lift (Tree.build line (Piece.items pieces)))

def plainName? : Expr → Option Token
  | [.call [name] []] => some name
  | _ => none

mutual

def piece (site : Site) : Segment → Piece Argument
  | .call names es => .call names (arguments site es)
  | .value t => .value t
  | .operator t => .operator t
  | .bracketed inner =>
    .bracketed ⟨plainName? inner, assemble site (Expr.line inner) (pieces site inner)⟩
  | .new className => .new className

def pieces (site : Site) : List Segment → List (Piece Argument)
  | [] => []
  | s :: rest => piece site s :: pieces site rest

def arguments (site : Site) : List (List Segment) → List Argument
  | [] => []
  | e :: rest => ⟨plainName? e, assemble site (Expr.line e) (pieces site e)⟩ :: arguments site rest

end

def expression (site : Site) (e : Expr) : Noting Term :=
  assemble site (Expr.line e) (pieces site e)

def expressions (site : Site) (es : List Expr) : Noting (List Term) :=
  plainArguments (arguments site es)

end Lower
end VbSharp
