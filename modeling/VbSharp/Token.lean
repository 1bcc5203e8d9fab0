import VbSharp.Text.Fold
import VbSharp.Number.Decimal

/-!
# Tokens

A token is a kind, the text it was made from and the number of its line, counted from zero. The words
of the language are classified here; which literal a number or a point belongs to is settled later, so
a point starts out as `point`.
-/
namespace VbSharp

/-- What a token is. -/
inductive Kind where
  | string
  | date
  | comment
  /-- A comment that shares its line with code. -/
  | inlineComment
  /-- Text between literals and comments that is not yet broken into words. -/
  | raw
  | name
  | keyword
  /-- A word such as `Property`, a keyword in some places and a name in others. -/
  | softKeyword
  | arithmetic
  | comparison
  | logical
  /-- `True`, `False`, `Empty`, `Nothing` or `Null`. -/
  | constant
  | number
  /-- A point that is either part of a number or selects a member. -/
  | point
  /-- A point that selects a member. -/
  | member
  | openBracket
  | closeBracket
  | comma
  /-- A line end or a colon. -/
  | terminator
  deriving Repr, DecidableEq

namespace Kind

def label : Kind → String
  | .string => "StringLiteral"
  | .date => "DateLiteral"
  | .comment => "Comment"
  | .inlineComment => "InlineComment"
  | .raw => "Unprocessed"
  | .name => "Name"
  | .keyword => "KeyWord"
  | .softKeyword => "MayBeKeywordOrName"
  | .arithmetic => "Operator"
  | .comparison => "ComparisonOperator"
  | .logical => "LogicalOperator"
  | .constant => "BuiltInValue"
  | .number => "NumericValue"
  | .point => "MemberAccessorOrDecimalPoint"
  | .member => "MemberAccessor"
  | .openBracket => "OpenBrace"
  | .closeBracket => "CloseBrace"
  | .comma => "ArgumentSeparator"
  | .terminator => "EndOfStatement"

def isOperator : Kind → Bool
  | .arithmetic | .comparison | .logical => true
  | _ => false

def isNameLike : Kind → Bool
  | .name | .softKeyword => true
  | _ => false

/-- Kinds after which a sign or a leading point belongs to a literal: an operator, an open bracket, a
comma, a keyword or the start of a statement. -/
def mayPrecedeSign (k : Kind) : Bool :=
  k.isOperator ||
    match k with
    | .openBracket | .comma | .terminator | .keyword => true
    | _ => false

end Kind

def keywords : List String :=
  ["byref", "byval", "call", "case", "class", "const", "dim", "do", "each", "else", "elseif",
    "end", "erase", "exit", "for", "function", "goto", "if", "in", "let", "loop", "new", "next",
    "on", "option", "preserve", "private", "public", "randomize", "redim", "rem", "resume",
    "select", "set", "sub", "then", "to", "until", "wend", "while", "with"]

/-- The words that are keywords in some positions only. -/
def softKeywords : List String :=
  ["property", "default", "error", "explicit", "step", "get"]

def arithmeticOperators : List String :=
  ["+", "-", "*", "/", "\\", "^", "&", "mod"]

def comparisonOperators : List String :=
  ["=", "<", ">", "<=", ">=", "<>", "is"]

def logicalOperators : List String :=
  ["and", "or", "not", "xor", "eqv", "imp"]

def constantWords : List String :=
  ["true", "false", "empty", "nothing", "null"]

/-- Whether a word consists of digits and perhaps an exponent mark with more digits. The sign of an
exponent is a word of its own, so the digits after the mark may be missing. -/
def isNumberWord (text : String) : Bool :=
  let isMark (c : Char) := c == 'e' || c == 'E'
  let mantissa := text.toList.takeWhile (!isMark ·)
  let exponent := (text.toList.dropWhile (!isMark ·)).drop 1
  !mantissa.isEmpty && mantissa.all Char.isDigit && exponent.all Char.isDigit

def Kind.ofWord (text : String) : Kind :=
  let word := foldCase text
  if text == "," then .comma
  else if text == "." then .point
  else if text == "(" then .openBracket
  else if text == ")" then .closeBracket
  else if text == ":" || text == "\n" then .terminator
  else if text.toList.head? == some '[' then .name
  else if arithmeticOperators.contains word then .arithmetic
  else if comparisonOperators.contains word then .comparison
  else if logicalOperators.contains word then .logical
  else if constantWords.contains word then .constant
  else if keywords.contains word then .keyword
  else if softKeywords.contains word then .softKeyword
  else if isNumberWord text then .number
  else .name

/-- A token: its kind, its text and its line, counted from zero. -/
structure Token where
  kind : Kind
  text : String
  line : Nat
  deriving Repr, DecidableEq

namespace Token

def ofWord (text : String) (line : Nat) : Token :=
  ⟨.ofWord text, text, line⟩

def lineEnd (line : Nat) : Token :=
  ⟨.terminator, "\n", line⟩

def lineNumber (t : Token) : Nat :=
  t.line + 1

def isWord (t : Token) (word : String) : Bool :=
  sameWord t.text word

def isKeyword (t : Token) (word : String) : Bool :=
  t.kind == .keyword && t.isWord word

/-- Whether the token is that word as a keyword or as a word that can be one. -/
def isKeywordLike (t : Token) (word : String) : Bool :=
  (t.kind == .keyword || t.kind == .softKeyword) && t.isWord word

def isOperator (t : Token) : Bool :=
  t.kind.isOperator

def isNameLike (t : Token) : Bool :=
  t.kind.isNameLike

def mayPrecedeSign (t : Token) : Bool :=
  t.kind.mayPrecedeSign

def isTerminator (t : Token) : Bool :=
  t.kind == .terminator

/-- Whether the token ends a line and not only a statement. -/
def isLineEnd (t : Token) : Bool :=
  t.kind == .terminator && t.text == "\n"

/-- The sign `=`, which compares or assigns. -/
def isEquals (t : Token) : Bool :=
  t.kind == .comparison && t.text == "="

/-- Whether the token can stand after a point as the name of a member. There almost every word is a
name, keywords and word operators included. -/
def canNameMember (t : Token) : Bool :=
  t.isNameLike ||
    ((match t.kind with
      | .keyword | .constant | .logical | .comparison | .arithmetic => true
      | _ => false) && t.text.toList.all Char.isAlpha)

def quantity? (t : Token) : Option Quantity :=
  if t.kind = .number then Quantity.read? t.text else none

end Token
end VbSharp
