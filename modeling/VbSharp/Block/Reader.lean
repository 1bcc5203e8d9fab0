import VbSharp.Block
import VbSharp.Expr.Read

/-!
# Reading position

The cursor holds the tokens that are still to be read. A parser moves it forward, and when it fails the
cursor stays where the failure was found. The state also notes which constructs were recognised, in
order, so that a failed run can still tell how far it came.
-/
namespace VbSharp

/-- The constructs that the statement parsers recognise. -/
inductive Construct where
  | optionExplicit
  | newInstance
  | classDefinition
  | routine
  | declaration
  | doLoop
  | whileLoop
  | forLoop
  | branch
  | select
  | exit
  | onError
  | randomize
  | call
  | withTarget
  | statement
  deriving Repr, DecidableEq

def Construct.label : Construct → String
  | .optionExplicit => "option explicit"
  | .newInstance => "new instance"
  | .classDefinition => "class"
  | .routine => "function"
  | .declaration => "dim"
  | .doLoop => "do"
  | .whileLoop => "while"
  | .forLoop => "for"
  | .branch => "if"
  | .select => "select"
  | .exit => "exit"
  | .onError => "on error"
  | .randomize => "randomize"
  | .call => "call"
  | .withTarget => "with"
  | .statement => "statement"

/-- The tokens still to be read, and the line that is reported once there are none. -/
structure Cursor where
  rest : List Token
  endLine : Nat
  deriving Repr, DecidableEq

namespace Cursor

def ofTokens (tokens : List Token) : Cursor :=
  ⟨tokens, (tokens.getLast?.map Token.line).getD 0⟩

def peek? (c : Cursor) : Option Token :=
  c.rest.head?

def peekAt? (c : Cursor) (offset : Nat) : Option Token :=
  c.rest[offset]?

/-- The line of the next token, or of the last one once all are read. -/
def line (c : Cursor) : Nat :=
  match c.rest with
  | [] => c.endLine
  | t :: _ => t.line

def advance (c : Cursor) (count : Nat) : Cursor :=
  { c with rest := c.rest.drop count }

def holdsAt (c : Cursor) (offset : Nat) (test : Token → Bool) : Bool :=
  (c.peekAt? offset).any test

def isKeywordAt (c : Cursor) (offset : Nat) (word : String) : Bool :=
  c.holdsAt offset (·.isKeyword word)

def isKeywordLikeAt (c : Cursor) (offset : Nat) (word : String) : Bool :=
  c.holdsAt offset (·.isKeywordLike word)

def isKeyword (c : Cursor) (word : String) : Bool :=
  c.isKeywordAt 0 word

def statement (c : Cursor) : List Token :=
  c.rest.takeWhile (!·.isTerminator)

/-- Passes over one terminator, if one is next. -/
def skipTerminator (c : Cursor) : Cursor :=
  match c.rest with
  | [] => c
  | t :: rest => if t.isTerminator then { c with rest := rest } else c

def afterStatement (c : Cursor) : Cursor :=
  { c with rest := c.rest.dropWhile (!·.isTerminator) }.skipTerminator

def lineTokens (c : Cursor) : List Token :=
  c.rest.takeWhile (!·.isLineEnd)

def afterLine (c : Cursor) : Cursor :=
  { c with rest := c.rest.dropWhile (!·.isLineEnd) }.skipTerminator

/-- Whether the words stand at the cursor. The first one has to be a keyword; the others may be words
that are keywords in some places only, so `End Property` is found and a statement that starts with
the name `property` is not. -/
def startsWith (c : Cursor) : List String → Bool
  | [] => true
  | first :: others =>
    c.isKeyword first &&
      others.zipIdx.all fun (word, i) => c.isKeywordLikeAt (i + 1) word

end Cursor

/-- The state of a parser: its cursor and the constructs recognised so far, the last one first. -/
structure Reader where
  cursor : Cursor
  recognised : List Construct := []
  deriving Repr, DecidableEq

/-- A parser of statements. When it fails it keeps the state in which it did. -/
abbrev Parser := EStateM Fault Reader

namespace Parser

def view {α : Type} (f : Cursor → α) : Parser α :=
  return f (← get).cursor

def move (f : Cursor → Cursor) : Parser Unit :=
  modify fun r => { r with cursor := f r.cursor }

/-- A result that may be a fault found without moving. -/
def lift {α : Type} (result : Except Fault α) : Parser α :=
  match result with
  | .ok a => pure a
  | .error fault => throw fault

def next? : Parser (Option Token) := do
  let t ← view Cursor.peek?
  move (·.advance 1)
  return t

def takeStatement : Parser (List Token) := do
  let tokens ← view Cursor.statement
  move Cursor.afterStatement
  return tokens

def takeLine : Parser (List Token) := do
  let tokens ← view Cursor.lineTokens
  move Cursor.afterLine
  return tokens

/-- The next token if it passes a test; `what` says what was expected. -/
def expect (test : Token → Bool) (what : String) : Parser Token := do
  match ← view Cursor.peek? with
  | some t =>
    if test t then
      move (·.advance 1)
      return t
    else throw (.malformed t.lineNumber (.expected what (some t.text)))
  | none => throw (.malformed ((← view Cursor.line) + 1) (.expected what none))

def expectKeyword (word : String) : Parser Token :=
  expect (·.isKeywordLike word) ("'" ++ word ++ "'")

def expectName : Parser Token :=
  expect Token.isNameLike "a name"

/-- The statement has to be over: a terminator is passed over, and the end of the tokens will do. -/
def expectTerminator : Parser Unit := do
  match ← view Cursor.peek? with
  | none => return
  | some t =>
    if t.isTerminator then move (·.advance 1)
    else throw (.malformed t.lineNumber (.expectedStatementEnd t.text))

def expression (tokens : List Token) (line : Nat) : Parser Expr :=
  lift (Expr.read tokens line)

end Parser
end VbSharp
