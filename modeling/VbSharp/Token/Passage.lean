import VbSharp.Fault
import VbSharp.Text.Blank
import VbSharp.Transducer

/-!
# Passages of a script

The first look at a script sets apart what may hold any character: string literals, date literals and
comments. Everything between them is kept as `raw` text. The scan takes one character at a time; its
state is the text that is pending and the element it is inside of.

A comment starts at an apostrophe, or at the word `Rem` where a statement can start. If code stands
before it on its line, a line end is put in front of it, so that a comment never ends up inside a
statement.
-/
namespace VbSharp.Passage

/-- The element that the scan is inside of. Texts are kept with the last character first. -/
inductive Mode where
  | code
  | string (text : List Char)
  /-- Inside a string, after a quote that ends it unless a second one follows. -/
  | quote (text : List Char)
  | date (text : List Char)
  /-- Inside a comment, `skip` characters of whose opening word are still to come. -/
  | comment (inline : Bool) (skip : Nat) (text : List Char)
  deriving Repr, DecidableEq

/-- The state of the scan. -/
structure Scan where
  /-- The line of the next character. -/
  line : Nat := 0
  /-- Raw text not yet made a token, last character first. -/
  pending : List Char := []
  /-- The line of the first pending character. -/
  start : Nat := 0
  /-- Whether the last token made is a string or date literal. -/
  afterLiteral : Bool := false
  mode : Mode := .code
  deriving Repr, DecidableEq

/-- Spaces and tabs, the only characters allowed between a statement's start and its first word. -/
def isIndent (c : Char) : Bool :=
  c == ' ' || c == '\t'

/-- The token of the pending text, given with its last character first. -/
def rawTokens (pending : List Char) (start : Nat) : List Token :=
  if pending.isEmpty then [] else [⟨.raw, String.ofList pending.reverse, start⟩]

namespace Scan

def push (s : Scan) (c : Char) : Scan :=
  { s with pending := c :: s.pending, start := if s.pending.isEmpty then s.line else s.start }

/-- Whether nothing but indentation stands between the last statement boundary and here. -/
def atStatementStart (s : Scan) : Bool :=
  match s.pending.dropWhile isIndent with
  | [] => !s.afterLiteral
  | c :: _ => c == '\n' || c == ':'

/-- Starts a comment: the pending text becomes a token, without the indentation before the comment,
and a line end follows it if code stands before the comment on its line. -/
def openComment (s : Scan) (skip : Nat) : List Token × Scan :=
  let code := s.pending.dropWhile isIndent
  let lineTail := code.takeWhile (· != '\n')
  let inline := !lineTail.all isBlank || (code.isEmpty && s.afterLiteral)
  let lineEnd := if inline && lineTail.head? != some ':' then [Token.lineEnd s.line] else []
  (rawTokens code s.start ++ lineEnd,
    { s with pending := [], afterLiteral := false, mode := .comment inline skip [] })

/-- Starts a literal: the pending text becomes a token. -/
def openLiteral (s : Scan) (mode : Mode) : List Token × Scan :=
  (rawTokens s.pending s.start, { s with pending := [], mode := mode })

def closeLiteral (s : Scan) (kind : Kind) (text : List Char) : List Token × Scan :=
  ([⟨kind, String.ofList text.reverse, s.line⟩], { s with afterLiteral := true, mode := .code })

/-- The token of a comment; carriage returns at its end belong to the line end. -/
def commentToken (s : Scan) (inline : Bool) (text : List Char) : Token :=
  ⟨if inline then .inlineComment else .comment,
    String.ofList (text.dropWhile (· == '\r')).reverse, s.line⟩

end Scan

/-- Whether the text completes the word `Rem`, begun with its first letter. -/
def completesRem : List Char → Bool
  | e :: m :: rest => e.toLower == 'e' && m.toLower == 'm' && rest.head?.all isBlank
  | _ => false

def codeStep (s : Scan) (c : Char) (rest : List Char) : List Token × Scan :=
  if c == '\x22' then s.openLiteral (.string [])
  else if c == '#' then s.openLiteral (.date [])
  else if c == '\x27' then s.openComment 0
  else if c.toLower == 'r' && s.atStatementStart && completesRem rest then s.openComment 2
  else if c == '\n' then ([], { s.push c with line := s.line + 1 })
  else ([], s.push c)

/-- One character, with the text after it: the tokens that it completes and the next state. -/
def step (s : Scan) (c : Char) (rest : List Char) : Except Fault (List Token × Scan) :=
  match s.mode with
  | .code => .ok (codeStep s c rest)
  | .string text =>
    if c == '\x22' then .ok ([], { s with mode := .quote text })
    else if c == '\n' then .error (.unclosedString (s.line + 1))
    else .ok ([], { s with mode := .string (c :: text) })
  | .quote text =>
    if c == '\x22' then .ok ([], { s with mode := .string (c :: text) })
    else
      let (literal, s) := s.closeLiteral .string text
      let (tokens, s) := codeStep s c rest
      .ok (literal ++ tokens, s)
  | .date text =>
    if c == '#' then .ok (s.closeLiteral .date text)
    else if c == '\n' then .error (.unclosedDate (s.line + 1))
    else .ok ([], { s with mode := .date (c :: text) })
  | .comment inline skip text =>
    if c == '\n' then
      let (tokens, next) := codeStep { s with mode := .code } c rest
      .ok (s.commentToken inline text :: tokens, next)
    else if skip = 0 then .ok ([], { s with mode := .comment inline 0 (c :: text) })
    else .ok ([], { s with mode := .comment inline (skip - 1) text })

def finish (s : Scan) : Except Fault (List Token) :=
  match s.mode with
  | .code => .ok (rawTokens s.pending s.start)
  | .string _ => .error (.unclosedString (s.line + 1))
  | .quote text => .ok (s.closeLiteral .string text).1
  | .date _ => .error (.unclosedDate (s.line + 1))
  | .comment inline _ text => .ok [s.commentToken inline text]

def machine : Transducer Scan Char Token Fault :=
  ⟨step, finish⟩

end VbSharp.Passage

namespace VbSharp

/-- The literals and comments of a script and the raw text between them. -/
def passages (script : String) : Except Fault (List Token) :=
  Passage.machine.run {} script.toList

end VbSharp
