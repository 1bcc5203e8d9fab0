import VbSharp.Expr

/-!
# The tree of a program

A program is a list of blocks: statements, declarations and constructs that hold further blocks. Every
construct that the language knows has a block, also those for which no code is produced.
-/
namespace VbSharp

/-- How a list of variables is introduced. -/
inductive DeclarationKind where
  | dim
  | reDim (preserve : Bool)
  | privateField
  | publicField
  deriving Repr, DecidableEq

def DeclarationKind.isReDim : DeclarationKind → Bool
  | .reDim _ => true
  | _ => false

/-- One variable of a declaration. The bounds are `none` for a plain variable and empty for `a()`. -/
structure Variable where
  name : Token
  bounds : Option (List Expr)
  deriving Repr

/-- How an argument reaches its parameter. -/
inductive Passing where
  | byRef
  | byVal
  | unspecified
  deriving Repr, DecidableEq

/-- Arguments are passed by reference unless the parameter says otherwise. -/
def Passing.isByRef : Passing → Bool
  | .byVal => false
  | _ => true

structure Parameter where
  passing : Passing
  name : Token
  isArray : Bool
  deriving Repr, DecidableEq

/-- The kinds of routine. -/
inductive RoutineKind where
  | function
  | sub
  | propertyGet
  | propertyLet
  | propertySet
  deriving Repr, DecidableEq

namespace RoutineKind

def isProperty : RoutineKind → Bool
  | .propertyGet | .propertyLet | .propertySet => true
  | _ => false

def returnsValue : RoutineKind → Bool
  | .function | .propertyGet => true
  | _ => false

def endWords : RoutineKind → List String
  | .function => ["End", "Function"]
  | .sub => ["End", "Sub"]
  | _ => ["End", "Property"]

end RoutineKind

/-- All that a routine says before its body. -/
structure Header where
  kind : RoutineKind
  name : Token
  isPublic : Bool
  isDefault : Bool
  parameters : List Parameter
  deriving Repr, DecidableEq

/-- What `Exit` leaves. -/
inductive ExitKind where
  | doLoop
  | forLoop
  | function
  | sub
  | property
  deriving Repr, DecidableEq

/-- What happens on a run-time error. -/
inductive ErrorMode where
  | resumeNext
  | gotoZero
  deriving Repr, DecidableEq

/-- The condition of a `Do` loop: whether it is tested before or after each turn, and whether the loop
goes on while it holds or until it does. -/
inductive LoopTest where
  | none
  | whileBefore (condition : Expr)
  | untilBefore (condition : Expr)
  | whileAfter (condition : Expr)
  | untilAfter (condition : Expr)
  deriving Repr

/-- Whether an assignment stores a value or a reference to an object. -/
inductive AssignKind where
  | value
  | object
  deriving Repr, DecidableEq

mutual

/-- A statement, a declaration or a construct. Lines are counted from zero. -/
inductive Block where
  | blankLine
  | comment (text : String) (inline : Bool)
  | optionExplicit
  | declaration (kind : DeclarationKind) (vars : List Variable) (line : Nat)
  | classDefinition (name : Token) (body : List Block)
  | routine (header : Header) (body : List Block)
  | branch (condition : Expr) (body : List Block) (rest : Alternative)
  /-- A call, with or without the word `Call`. -/
  | call (expression : Expr) (withCall : Bool)
  | assignment (kind : AssignKind) (target value : Expr)
  | exit (kind : ExitKind) (line : Nat)
  | randomize (seed : Option Expr) (line : Nat)
  | doLoop (test : LoopTest) (body : List Block) (line : Nat)
  | whileLoop (condition : Expr) (body : List Block) (line : Nat)
  | forLoop (counter : Token) (first last : Expr) (step : Option Expr) (body : List Block)
  | forEach (item : Token) (collection : Expr) (body : List Block)
  | select (subject : Expr) (cases : Cases) (line : Nat)
  | onError (mode : ErrorMode) (line : Nat)
  | withTarget (target : Expr) (body : List Block) (line : Nat)

/-- What follows the first clause of a branch. -/
inductive Alternative where
  | none
  | elseIf (condition : Expr) (body : List Block) (rest : Alternative)
  | otherwise (body : List Block)

/-- The cases of a selection; a case without values takes everything. -/
inductive Cases where
  | none
  | case (values : List Expr) (body : List Block) (rest : Cases)

end

end VbSharp
