import VbSharp.Token

/-!
# Expressions

An expression is a flat list of segments: operands and the operators between them, with no precedence
applied. Neighbouring call segments form one chain of member accesses: `a(0).Test` is two segments.
-/
namespace VbSharp

/-- A piece of an expression. -/
inductive Segment where
  /-- Names joined by points, and the arguments in the brackets after the last one. -/
  | call (names : List Token) (arguments : List (List Segment))
  /-- A string, number, date or constant. -/
  | value (token : Token)
  | operator (token : Token)
  /-- An expression in brackets that are no argument list. -/
  | bracketed (inner : List Segment)
  /-- A new instance of the class of that name. -/
  | new (className : Token)
  deriving Repr

/-- An expression: its segments from left to right. -/
abbrev Expr := List Segment

mutual

/-- The line of a segment's first token; zero if it has none. -/
def Segment.line : Segment → Nat
  | .call names _ =>
    match names with
    | [] => 0
    | first :: _ => first.line
  | .value token => token.line
  | .operator token => token.line
  | .bracketed inner => Expr.line inner
  | .new className => className.line

/-- The line of an expression's first segment; zero if it has none. -/
def Expr.line : List Segment → Nat
  | [] => 0
  | first :: _ => first.line

end

def Segment.isCall : Segment → Bool
  | .call _ _ => true
  | _ => false

def Segment.isOperator : Segment → Bool
  | .operator _ => true
  | _ => false

/-- Whether the expression is a chain of member accesses and nothing else. -/
def Expr.isChain (e : Expr) : Bool :=
  !e.isEmpty && e.all Segment.isCall

end VbSharp
