import VbSharp.Block.Control
import VbSharp.Block.Definition
import VbSharp.Block.Simple

/-!
# Parsing a program

At each position the constructs are tried in a fixed order; the first that is recognised wins. The
order matters: routines come before lists of variables, which share the words `Private` and `Public`,
and assignments and calls come last since they take any statement that starts with a name.
-/
namespace VbSharp.Parser

/-- The constructs in the order in which they are tried, given the parser for their bodies. -/
def constructs (body : Body) : List (Construct × Parser (Option Block)) :=
  [(.optionExplicit, optionExplicit),
    (.newInstance, newInstance),
    (.classDefinition, classDefinition body),
    (.routine, routine body),
    (.declaration, declaration),
    (.doLoop, doLoop body),
    (.whileLoop, whileLoop body),
    (.forLoop, forLoop body),
    (.branch, branch body),
    (.select, select body),
    (.exit, exit),
    (.onError, onError),
    (.randomize, randomize),
    (.call, callStatement),
    (.withTarget, withTarget body),
    (.statement, statement)]

def firstOf : List (Construct × Parser (Option Block)) → Parser Block
  | [] => do
    match ← view Cursor.peek? with
    | some t => throw (.malformed t.lineNumber (.unknownStatement t.text))
    | none => throw (.malformed ((← view Cursor.line) + 1) (.unknownStatement ""))
  | (construct, parser) :: others => do
    match ← parser with
    | some block =>
      modify fun r => { r with recognised := construct :: r.recognised }
      return block
    | none => firstOf others

/-- The block that starts with the given token. A colon is passed over and makes no block. -/
def blockAt (body : Body) (t : Token) : Parser (Option Block) := do
  match t.kind with
  | .terminator =>
    move (·.advance 1)
    return if t.isLineEnd then some .blankLine else none
  | .comment | .inlineComment =>
    move fun c => (c.advance 1).skipTerminator
    return some (.comment t.text (t.kind == .inlineComment))
  | _ => return some (← firstOf (constructs body))

def endAt? (ends : Ends) (c : Cursor) : Option Nat :=
  ends.findIdx? c.startsWith

/-- Parses blocks up to one of some ends or the end of the tokens. Every turn passes over at least one
token, so a budget of as many turns as there are tokens is enough. -/
def blocksWithin : Nat → Body
  | 0, _ => return ([], none)
  | budget + 1, ends => do
    match ← view Cursor.peek? with
    | none => return ([], none)
    | some t =>
      match ← view (endAt? ends) with
      | some found => return ([], some found)
      | none =>
        let block ← blockAt (blocksWithin budget) t
        let (blocks, found) ← blocksWithin budget ends
        return (block.toList ++ blocks, found)

def blocks : Body := fun ends => do
  blocksWithin (← view (·.rest.length)) ends

def blocksUntil (ends : Ends) (openedOn : Nat) : Parser (List Block × Nat) :=
  bodyUntil blocks ends openedOn

end VbSharp.Parser

namespace VbSharp

def Reader.ofTokens (tokens : List Token) : Reader :=
  { cursor := .ofTokens tokens }

def parseBlocks (tokens : List Token) : Except Fault (List Block) :=
  match (Parser.blocks []).run (.ofTokens tokens) with
  | .ok (blocks, _) _ => .ok blocks
  | .error fault _ => .error fault

end VbSharp
