import VbSharp.Expr
import VbSharp.Fault

/-!
# Operator precedence

The segments of an expression are grouped into a tree. From the tightest to the loosest, the operators
are `^`, the sign `-`, `*` and `/`, `\`, `Mod`, `+` and `-`, `&`, comparisons, `Not`, `And`, `Or`, `Xor`,
`Eqv` and `Imp`; operators between two operands group to the left.

The tree is built from left to right with a stack of operators that wait for their right operand. An
operator that comes next first takes in all waiting operators that bind at least as tightly.
-/
namespace VbSharp

/-- The operators between two operands. -/
inductive BinaryOp where
  | imp
  | eqv
  | xor
  | or
  | and
  | equal
  | notEqual
  | less
  | greater
  | lessEqual
  | greaterEqual
  | is
  | concat
  | add
  | subtract
  | mod
  | intDivide
  | multiply
  | divide
  | power
  deriving Repr, DecidableEq

namespace BinaryOp

def strength : BinaryOp → Nat
  | .imp => 1
  | .eqv => 2
  | .xor => 3
  | .or => 4
  | .and => 5
  | .equal | .notEqual | .less | .greater | .lessEqual | .greaterEqual | .is => 7
  | .concat => 8
  | .add | .subtract => 9
  | .mod => 10
  | .intDivide => 11
  | .multiply | .divide => 12
  | .power => 14

def words : List (String × BinaryOp) :=
  [("imp", .imp), ("eqv", .eqv), ("xor", .xor), ("or", .or), ("and", .and), ("=", .equal),
    ("<>", .notEqual), ("<", .less), (">", .greater), ("<=", .lessEqual), (">=", .greaterEqual),
    ("is", .is), ("&", .concat), ("+", .add), ("-", .subtract), ("mod", .mod), ("\\", .intDivide),
    ("*", .multiply), ("/", .divide), ("^", .power)]

def ofToken? (t : Token) : Option BinaryOp :=
  words.lookup (foldCase t.text)

end BinaryOp

/-- The operators before an operand. -/
inductive UnaryOp where
  | negate
  | not
  deriving Repr, DecidableEq

namespace UnaryOp

def strength : UnaryOp → Nat
  | .negate => 13
  | .not => 6

def ofToken? (t : Token) : Option UnaryOp :=
  if t.text == "-" then some .negate
  else if t.isWord "Not" then some .not
  else none

end UnaryOp

/-- An expression with its operators applied. -/
inductive Tree (α : Type) where
  | operand (a : α)
  | unary (op : UnaryOp) (token : Token) (operand : Tree α)
  | binary (op : BinaryOp) (token : Token) (left right : Tree α)
  deriving Repr

/-- What a tree is built from. -/
inductive Item (α : Type) where
  | operand (a : α)
  | operator (token : Token)
  deriving Repr

/-- An operator that waits for its right operand. -/
inductive Waiting (α : Type) where
  | unary (op : UnaryOp) (token : Token)
  | binary (op : BinaryOp) (token : Token) (left : Tree α)

namespace Tree

variable {α : Type}

def apply (right : Tree α) : Waiting α → Tree α
  | .unary op token => .unary op token right
  | .binary op token left => .binary op token left right

/-- Whether a waiting operator takes its operand before the next operator does. -/
def yields (next : BinaryOp) : Waiting α → Bool
  | .unary op _ => next.strength < op.strength
  | .binary op _ _ => next.strength ≤ op.strength

/-- Lets the waiting operators that come before the next one take their operand. -/
def reduce (next : BinaryOp) (right : Tree α) : List (Waiting α) → Tree α × List (Waiting α)
  | [] => (right, [])
  | top :: rest => if yields next top then reduce next (apply right top) rest else (right, top :: rest)

mutual

def buildOperand (line : Nat) (stack : List (Waiting α)) : List (Item α) → Except Fault (Tree α)
  | [] => .error (.malformed (line + 1) .missingOperand)
  | .operand a :: rest => buildOperator line stack (.operand a) rest
  | .operator token :: rest =>
    match UnaryOp.ofToken? token with
    | some op => buildOperand line (.unary op token :: stack) rest
    | none => .error (.malformed token.lineNumber (.cannotStartOperand token.text))

def buildOperator (line : Nat) (stack : List (Waiting α)) (left : Tree α) :
    List (Item α) → Except Fault (Tree α)
  | [] => .ok (stack.foldl apply left)
  | .operand _ :: _ => .error (.malformed (line + 1) .missingOperator)
  | .operator token :: rest =>
    match BinaryOp.ofToken? token with
    | some op =>
      let (left, stack) := reduce op left stack
      buildOperand line (.binary op token left :: stack) rest
    | none => .error (.malformed token.lineNumber (.cannotJoinOperands token.text))

end

/-- The tree of some items; the line is that of the expression. -/
def build (line : Nat) (items : List (Item α)) : Except Fault (Tree α) :=
  buildOperand line [] items

def items : Tree α → List (Item α)
  | .operand a => [.operand a]
  | .unary _ token inner => .operator token :: inner.items
  | .binary _ token left right => left.items ++ .operator token :: right.items

end Tree

/-- A segment in which something else stands for each expression inside it. -/
inductive Piece (δ : Type) where
  | call (names : List Token) (arguments : List δ)
  | value (token : Token)
  | operator (token : Token)
  | bracketed (inner : δ)
  | new (className : Token)
  deriving Repr

def Segment.piece : Segment → Piece Expr
  | .call names arguments => .call names arguments
  | .value token => .value token
  | .operator token => .operator token
  | .bracketed inner => .bracketed inner
  | .new className => .new className

/-- An operand of an expression. -/
inductive Operand (δ : Type) where
  /-- A chain of member accesses: calls with no operator between them. -/
  | chain (calls : List (List Token × List δ))
  | value (token : Token)
  | bracketed (inner : δ)
  | new (className : Token)
  deriving Repr

/-- The items of a tree: each run of calls is one operand. -/
def Piece.items {δ : Type} : List (Piece δ) → List (Item (Operand δ))
  | [] => []
  | .call names arguments :: rest =>
    match Piece.items rest with
    | .operand (.chain calls) :: others => .operand (.chain ((names, arguments) :: calls)) :: others
    | others => .operand (.chain [(names, arguments)]) :: others
  | .value token :: rest => .operand (.value token) :: Piece.items rest
  | .operator token :: rest => .operator token :: Piece.items rest
  | .bracketed inner :: rest => .operand (.bracketed inner) :: Piece.items rest
  | .new className :: rest => .operand (.new className) :: Piece.items rest

def Expr.tree (e : Expr) : Except Fault (Tree (Operand Expr)) :=
  Tree.build (Expr.line e) (Piece.items (e.map Segment.piece))

end VbSharp
