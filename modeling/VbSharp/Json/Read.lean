import VbSharp.Json
import VbSharp.Number.Integer

/-!
# Reading JSON

The text holds one value and blanks around it. Nothing beyond the grammar is accepted: no comments, no
comma before a closing bracket, no control characters in strings.
-/
namespace VbSharp.JsonValue

/-! ### Strings -/

/-- A place of a string: a character, or sixteen bits that an escape names. -/
inductive StringUnit where
  | char (c : Char)
  | bits (n : Nat)
  deriving Repr, DecidableEq

def escaped? (letter : Char) : Option Char :=
  [('\x22', '\x22'), ('\\', '\\'), ('/', '/'), ('b', '\x08'), ('f', '\x0c'), ('n', '\n'), ('r', '\r'),
    ('t', '\t')].lookup letter

def hex4? (a b c d : Char) : Option Nat :=
  if [a, b, c, d].all isHexDigit then some (ofHexDigits [a, b, c, d]) else none

/-- The places of a string up to its closing quotation mark, and the text after that. -/
def stringUnits : List Char → Option (List StringUnit × List Char)
  | [] => none
  | '\x22' :: rest => some ([], rest)
  | '\\' :: 'u' :: a :: b :: c :: d :: rest => do
    let n ← hex4? a b c d
    let (units, after) ← stringUnits rest
    return (.bits n :: units, after)
  | '\\' :: letter :: rest => do
    let c ← escaped? letter
    let (units, after) ← stringUnits rest
    return (.char c :: units, after)
  | c :: rest => do
    if c == '\\' || c.toNat < 0x20 then none
    let (units, after) ← stringUnits rest
    return (.char c :: units, after)

def isHighHalf (n : Nat) : Bool :=
  0xD800 ≤ n && n < 0xDC00

def isLowHalf (n : Nat) : Bool :=
  0xDC00 ≤ n && n < 0xE000

/-- The characters of a string; two halves of a pair make one, and a half alone makes none. -/
def decodeUnits : List StringUnit → Option (List Char)
  | [] => some []
  | .char c :: rest => (decodeUnits rest).map (c :: ·)
  | .bits high :: .bits low :: rest =>
    if isHighHalf high && isLowHalf low then
      (decodeUnits rest).map (Char.ofNat (0x10000 + (high - 0xD800) * 0x400 + (low - 0xDC00)) :: ·)
    else if isHighHalf high || isLowHalf high then none
    else (decodeUnits (.bits low :: rest)).map (Char.ofNat high :: ·)
  | .bits n :: rest =>
    if isHighHalf n || isLowHalf n then none else (decodeUnits rest).map (Char.ofNat n :: ·)

/-! ### Values -/

abbrev Reader := StateT (List Char) Option

namespace Reader

def peek? : Reader (Option Char) :=
  return (← get).head?

def skipBlanks : Reader Unit :=
  modify (·.dropWhile [' ', '\t', '\n', '\r'].contains)

/-- Takes the next character if it is the given one. -/
def accept (c : Char) : Reader Bool := do
  match ← get with
  | d :: rest =>
    if c == d then
      set rest
      return true
    else return false
  | [] => return false

def expect (c : Char) : Reader Unit := do
  unless ← accept c do failure

def literal (text : String) : Reader Unit :=
  text.toList.forM expect

def digits : Reader (List Char) := do
  let text ← get
  let run := text.takeWhile Char.isDigit
  if run.isEmpty then failure
  set (text.dropWhile Char.isDigit)
  return run

/-- Digits of an integer; a zero in front stands alone. -/
def integer : Reader (List Char) := do
  let run ← digits
  if run.head? == some '0' && run.length > 1 then failure
  return run

def fraction : Reader (List Char) := do
  if ← accept '.' then return '.' :: (← digits)
  else return []

def sign : Reader (List Char) := do
  if ← accept '+' then return ['+']
  else if ← accept '-' then return ['-']
  else return []

def exponent : Reader (List Char) := do
  match ← peek? with
  | some c =>
    if c == 'e' || c == 'E' then
      expect c
      let sign ← sign
      return c :: sign ++ (← digits)
    else return []
  | none => return []

def number : Reader String := do
  let minus := if ← accept '-' then ['-'] else []
  let whole ← integer
  let part ← fraction
  let power ← exponent
  return String.ofList (minus ++ whole ++ part ++ power)

def stringRest : Reader (Option String) := do
  let (units, rest) ← (stringUnits (← get) : Option _)
  set rest
  return (decodeUnits units).map String.ofList

def key : Reader (Option String) := do
  skipBlanks
  expect '\x22'
  let name ← stringRest
  skipBlanks
  expect ':'
  return name

/-- The part of a list behind one of its items: the rest of the list, or its end. -/
def continued {α : Type} (closing : Char) (item : α) (rest : Reader (List α)) : Reader (List α) := do
  skipBlanks
  if ← accept ',' then return item :: (← rest)
  expect closing
  return [item]

mutual

def value : Nat → Reader JsonValue
  | 0 => failure
  | budget + 1 => do
    skipBlanks
    match ← peek? with
    | some '\x7b' =>
      expect '\x7b'
      skipBlanks
      if ← accept '\x7d' then return .object []
      return .object (← fields budget)
    | some '[' =>
      expect '['
      skipBlanks
      if ← accept ']' then return .array []
      return .array (← items budget)
    | some '\x22' =>
      expect '\x22'
      return .string (← stringRest)
    | some 't' =>
      literal "true"
      return .boolean true
    | some 'f' =>
      literal "false"
      return .boolean false
    | some 'n' =>
      literal "null"
      return .null
    | _ => return .number (← number)

/-- The items of an array, of which there is at least one, with the closing bracket. -/
def items : Nat → Reader (List JsonValue)
  | 0 => failure
  | budget + 1 => do
    let item ← value budget
    continued ']' item (items budget)

/-- The fields of an object, of which there is at least one, with the closing brace. -/
def fields : Nat → Reader (List (Option String × JsonValue))
  | 0 => failure
  | budget + 1 => do
    let name ← key
    let value ← value budget
    continued '\x7d' (name, value) (fields budget)

end

end Reader

/-- The value that a text holds. Between two calls of the reader that spend a character there is at most
one that spends none, so twice the length of the text is a sufficient budget. -/
def read? (text : String) : Option JsonValue := do
  let chars := text.toList
  let (v, rest) ← (Reader.value (2 * chars.length + 2)).run chars
  let (_, rest) ← Reader.skipBlanks.run rest
  if rest.isEmpty then some v else none

end VbSharp.JsonValue
