/-!
# Integers in text

An integer is written as ASCII digits after an optional sign. A reader has a range: digits whose value
lies outside it are refused like any other text that is no integer.
-/
namespace VbSharp

def digitValue (c : Char) : Nat :=
  c.toNat - '0'.toNat

/-- The number that decimal digits spell, the first one counting most. -/
def ofDigits (digits : List Char) : Nat :=
  digits.foldl (fun n c => 10 * n + digitValue c) 0

/-- The number spelled by a text that holds at least one digit and nothing else. -/
def natural? (text : List Char) : Option Nat :=
  if text.isEmpty || !text.all Char.isDigit then none else some (ofDigits text)

def word32Bound : Nat :=
  Nat.pow 2 32

def int64Bound : Nat :=
  Nat.pow 2 63

/-- A natural number below `2 ^ 32`; a plus sign may stand before it. -/
def word32? (text : List Char) : Option Nat :=
  let digits := match text with
    | '+' :: rest => rest
    | _ => text
  (natural? digits).filter (· < word32Bound)

/-- An integer from `- 2 ^ 63` to `2 ^ 63 - 1`, with either sign or none. -/
def int64? (text : List Char) : Option Int :=
  let value := match text with
    | '-' :: rest => (natural? rest).map fun n => -(n : Int)
    | '+' :: rest => (natural? rest).map Int.ofNat
    | _ => (natural? text).map Int.ofNat
  value.filter fun n => -(int64Bound : Int) ≤ n && n < int64Bound

def hexValue? (c : Char) : Option Nat :=
  if c.isDigit then some (digitValue c)
  else if 'a' ≤ c ∧ c ≤ 'f' then some (c.toNat - 'a'.toNat + 10)
  else if 'A' ≤ c ∧ c ≤ 'F' then some (c.toNat - 'A'.toNat + 10)
  else none

def isHexDigit (c : Char) : Bool :=
  (hexValue? c).isSome

/-- The number that hexadecimal digits spell; other characters count as zero. -/
def ofHexDigits (digits : List Char) : Nat :=
  digits.foldl (fun n c => 16 * n + (hexValue? c).getD 0) 0

def decimalText (n : Nat) : String :=
  String.ofList (Nat.toDigits 10 n)

end VbSharp
