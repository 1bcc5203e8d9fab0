import VbSharp.Token.Passage

/-!
# Words and marks

Raw text is broken into words and single marks. Blank characters end a word, a line end becomes a
token, and an underscore that stands alone before a line end joins the two lines. A name in square
brackets is one token whatever it holds. Hexadecimal numbers are written out in decimal here; all other
numbers are left in pieces, since only their neighbours tell what a point or a sign belongs to.
-/
namespace VbSharp.Atom

def marks : List Char :=
  [',', '.', '*', '&', '+', '-', '=', '!', '(', ')', '\x7b', '\x7d', '[', ']', ':', ';', '/', '\\',
    '^', '<', '>']

/-- The element that the scan is inside of. Texts are kept with the last character first. -/
inductive Mode where
  | word (text : List Char)
  /-- After an underscore, before the line end that it hides. -/
  | continuation
  /-- Inside a name in square brackets, whose opening bracket is part of the text. -/
  | escaped (text : List Char)
  /-- Between the ampersand and the letter that open a hexadecimal number. -/
  | hexOpening
  | hex (digits : List Char)
  deriving Repr, DecidableEq

/-- The state of the scan: the line of the next character and the element it is in. -/
structure Scan where
  line : Nat
  mode : Mode := .word []
  deriving Repr, DecidableEq

def wordTokens (text : List Char) (line : Nat) : List Token :=
  if text.isEmpty then [] else [Token.ofWord (String.ofList text.reverse) line]

/-- Whether the text goes on with the letter and the first digit of a hexadecimal number. -/
def startsHex : List Char → Bool
  | h :: d :: _ => h.toLower == 'h' && isHexDigit d
  | _ => false

/-- One character in or after the word `text`, with the text after it. -/
def wordStep (line : Nat) (text : List Char) (c : Char) (rest : List Char) : List Token × Scan :=
  if c == '\n' then (wordTokens text line ++ [Token.lineEnd line], ⟨line + 1, .word []⟩)
  else if isBlank c then (wordTokens text line, ⟨line, .word []⟩)
  else if c == '_' && text.isEmpty && rest.head?.all isBlank then ([], ⟨line, .continuation⟩)
  else if c == '[' && text.isEmpty then ([], ⟨line, .escaped [c]⟩)
  else if c == '&' && text.isEmpty && startsHex rest then ([], ⟨line, .hexOpening⟩)
  else if marks.contains c then
    (wordTokens text line ++ [Token.ofWord (String.ofList [c]) line], ⟨line, .word []⟩)
  else ([], ⟨line, .word (c :: text)⟩)

/-- The token of a hexadecimal number, given with its last digit first. -/
def hexToken (digits : List Char) (line : Nat) : Except Fault Token :=
  let value := ofHexDigits digits.reverse
  if value < int64Bound then .ok ⟨.number, decimalText value, line⟩
  else .error (.malformed (line + 1) (.hexOutOfRange (String.ofList digits.reverse)))

/-- One character, with the text after it: the tokens that it completes and the next state. -/
def step (s : Scan) (c : Char) (rest : List Char) : Except Fault (List Token × Scan) :=
  match s.mode with
  | .word text => .ok (wordStep s.line text c rest)
  | .continuation =>
    if c == '\n' then .ok ([], ⟨s.line + 1, .word []⟩)
    else if isBlank c then .ok ([], s)
    else .error (.brokenContinuation (s.line + 1))
  | .escaped text =>
    if c == ']' then .ok ([⟨.name, String.ofList (c :: text).reverse, s.line⟩], ⟨s.line, .word []⟩)
    else if c == '\n' then .error (.malformed (s.line + 1) .unclosedEscapedName)
    else .ok ([], ⟨s.line, .escaped (c :: text)⟩)
  | .hexOpening => .ok ([], ⟨s.line, .hex []⟩)
  | .hex digits =>
    if isHexDigit c then .ok ([], ⟨s.line, .hex (c :: digits)⟩)
    else
      match hexToken digits s.line with
      | .ok number =>
        let (tokens, next) := wordStep s.line [] c rest
        .ok (number :: tokens, next)
      | .error fault => .error fault

def finish (s : Scan) : Except Fault (List Token) :=
  match s.mode with
  | .word text => .ok (wordTokens text s.line)
  | .continuation => .error (.brokenContinuation (s.line + 1))
  | .escaped _ => .error (.malformed (s.line + 1) .unclosedEscapedName)
  | .hexOpening => .ok []
  | .hex digits => (hexToken digits s.line).map fun number => [number]

def machine : Transducer Scan Char Token Fault :=
  ⟨step, finish⟩

end VbSharp.Atom

namespace VbSharp

def atoms (text : String) (line : Nat) : Except Fault (List Token) :=
  Atom.machine.run { line := line } text.toList

/-- The words and marks of a raw token; any other token is one already. -/
def Token.atoms (t : Token) : Except Fault (List Token) :=
  if t.kind = .raw then VbSharp.atoms t.text t.line else .ok [t]

/-- The tokens of a script, numbers and signs still in pieces. The whole script is cut into passages
before any of them is broken up, so a literal that is never closed is reported first. -/
def scanTokens (script : String) : Except Fault (List Token) := do
  let parts ← (← passages script).mapM Token.atoms
  return parts.flatten

end VbSharp
