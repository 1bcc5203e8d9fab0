import VbSharp.CSharp.Stmt
import VbSharp.Lower.Expression

/-!
# Lowering calls and assignments
-/
namespace VbSharp.Lower

open CSharp (Term Simple)

def chainSteps (site : Site) : Expr → List Step
  | [] => []
  | .call names es :: rest => stepsOfCall names (arguments site es) ++ chainSteps site rest
  | _ :: rest => chainSteps site rest

/-- Whether a name alone is not called by being named. Its value is then asked for its default
member. -/
def isBareValue (site : Site) : List Step → Bool
  | [step] =>
    step.arguments.isEmpty &&
      match site.scope.resolve step.name with
      | .routine _ _ | .builtInFunction _ | .property => false
      | _ => true
  | _ => false

def callStatement (site : Site) (e : Expr) : Noting Simple := do
  if !Expr.isChain e then Noting.fail (.malformed (Expr.line e + 1) .expectedCall)
  else
    let steps := chainSteps site e
    let term ← chain site steps
    if isBareValue site steps then return .expression (.support "CALL" [term, .strings []])
    return .expression term

/-- What is assigned to: a variable, or a member of an object through the support library. -/
inductive Target where
  | name (term : Term)
  | member (object : Term) (name : String)
  deriving Repr

def rootTarget (site : Site) (name : Token) (line : Nat) : Noting Target :=
  match site.scope.resolveTarget name with
  | .variable target => return .name (.variable target)
  | .result result => return .name (.result result)
  | .undeclared target => do
    Noting.note (.undeclared name)
    return .name (.variable target)
  | .property => return .member .this name.text
  | _ => Noting.fail (.malformed line (.unassignable name.text))

/-- The target of an assignment, without the arguments of its last name. -/
def target (site : Site) (leading : List Step) (last : Step) (line : Nat) : Noting Target := do
  if leading.isEmpty then rootTarget site last.name line
  else return .member (← chain site leading) last.name.text

/-- Stores a value. Elements and members are set through the support library. -/
def store (target : Target) (arguments : List Argument) (value : Term) : Noting Simple := do
  match target, arguments.isEmpty with
  | .name term, true => return .assign term value
  | .name term, false =>
    return .expression (.support "SET" [value, term, .null, ← boundArguments arguments])
  | .member object name, true =>
    return .expression (.support "SET" [value, object, .string name])
  | .member object name, false =>
    return .expression (.support "SET" [value, object, .string name, ← boundArguments arguments])

/-- The function of the support library that reads what is to be stored. -/
def readFunction : AssignKind → String
  | .value => "VAL"
  | .object => "OBJ"

/-- An assignment: its target is looked at first, then its value, then the arguments of the target's
last name. -/
def assignment (site : Site) (kind : AssignKind) (left right : Expr) : Noting Simple := do
  let line := Expr.line left + 1
  if !Expr.isChain left then Noting.fail (.malformed line .invalidTarget)
  else
    match (chainSteps site left).reverse with
    | [] => Noting.fail (.malformed line .missingTarget)
    | last :: leading =>
      let target ← target site leading.reverse last line
      let value ← expression site right
      store target last.arguments (.support (readFunction kind) [value])

end VbSharp.Lower
