import VbSharp.Text.Fold
import VbSharp.Number.Integer

/-!
# Decimal numerals

A numeral is read exactly, as an integer times a power of ten. Whether it fits the range of doubles is
decided on that exact value, and so is its double: the nearest one, a tie going to the even neighbour.
The words for infinity and for an undefined value are numerals too.
-/
namespace VbSharp

/-- The value `digits * 10 ^ exponent`, negated where `negative` says so. -/
structure Decimal where
  negative : Bool
  digits : Nat
  exponent : Int
  deriving Repr, DecidableEq

/-- What a text denotes as a floating-point number. -/
inductive Quantity where
  | exact (value : Decimal)
  | infinite (negative : Bool)
  | undefined (negative : Bool)
  deriving Repr, DecidableEq

namespace Decimal

/-- A sign, if one is there, and the text after it. -/
def splitSign : List Char → Bool × List Char
  | '-' :: rest => (true, rest)
  | '+' :: rest => (false, rest)
  | text => (false, text)

/-- The exponent that ends a numeral: nothing, or `e` and a signed integer. -/
def exponent? : List Char → Option Int
  | [] => some 0
  | c :: rest =>
    if c = 'e' ∨ c = 'E' then
      let (negative, digits) := splitSign rest
      (natural? digits).map fun n => if negative then -(n : Int) else n
    else none

/-- An unsigned numeral: digits with at most one point, at least one digit, then the exponent. -/
def unsigned? (text : List Char) : Option (Nat × Int) :=
  let whole := text.takeWhile Char.isDigit
  let afterWhole := text.dropWhile Char.isDigit
  let (fraction, afterFraction) := match afterWhole with
    | '.' :: rest => (rest.takeWhile Char.isDigit, rest.dropWhile Char.isDigit)
    | _ => ([], afterWhole)
  if whole.isEmpty && fraction.isEmpty then none
  else (exponent? afterFraction).map fun e => (ofDigits (whole ++ fraction), e - fraction.length)

/-- The least magnitude that is nearer to infinity than to the greatest double. -/
def overflowBound : Nat := Nat.pow 2 1024 - Nat.pow 2 970

/-- Whether rounding to a double leaves the range of finite ones. The first test answers for an
exponent so small that the value is below one, the second for one so great that it is out of range;
between them the powers of ten stay small enough to compute. -/
def overflows (d : Decimal) : Bool :=
  if d.digits = 0 then false
  else if d.exponent < 0 then
    if d.digits.log2 < d.exponent.natAbs then false
    else overflowBound * Nat.pow 10 d.exponent.natAbs ≤ d.digits
  else if 310 ≤ d.exponent then true
  else overflowBound ≤ d.digits * Nat.pow 10 d.exponent.natAbs

def infinityBits : Nat := 0x7FF * Nat.pow 2 52

/-- The double nearest to `num / den`, as its bit pattern: `2 ^ (scale - 1074)` is the unit in the last
place, and adding the rounded count of units to the biased scale carries into the exponent field. -/
def nearestBits (num den : Nat) : Nat :=
  let estimate : Int := (num.log2 : Int) - den.log2 - 53
  let fits (k : Int) : Bool :=
    if k < 0 then num * Nat.pow 2 k.natAbs < Nat.pow 2 53 * den
    else num < Nat.pow 2 53 * den * Nat.pow 2 k.natAbs
  let tight := if fits estimate then estimate else if fits (estimate + 1) then estimate + 1
    else estimate + 2
  let k := max tight (-1074)
  let top := if k < 0 then num * Nat.pow 2 k.natAbs else num
  let bottom := if k < 0 then den else den * Nat.pow 2 k.natAbs
  let quotient := top / bottom
  let remainder := top % bottom
  let units :=
    if bottom < 2 * remainder || (2 * remainder == bottom && quotient % 2 == 1) then quotient + 1
    else quotient
  (k + 1074).toNat * Nat.pow 2 52 + units

/-- The bit pattern of the nearest double, without the sign. -/
def magnitudeBits (d : Decimal) : Nat :=
  if d.digits = 0 then 0
  else if d.overflows then infinityBits
  else if d.exponent < 0 then
    if d.digits.log2 + 1100 < d.exponent.natAbs then 0
    else nearestBits d.digits (Nat.pow 10 d.exponent.natAbs)
  else nearestBits (d.digits * Nat.pow 10 d.exponent.natAbs) 1

end Decimal

namespace Quantity

/-- Reads a number: a sign, then digits with a point and an exponent, or a word for infinity or for an
undefined value in any case. -/
def read? (text : String) : Option Quantity :=
  let (negative, body) := Decimal.splitSign text.toList
  let word := foldCase (String.ofList body)
  if word == "inf" || word == "infinity" then some (.infinite negative)
  else if word == "nan" then some (.undefined negative)
  else (Decimal.unsigned? body).map fun (digits, exponent) => .exact ⟨negative, digits, exponent⟩

def isFinite : Quantity → Bool
  | .exact d => !d.overflows
  | .infinite _ => false
  | .undefined _ => false

def doubleBits : Quantity → Nat
  | .exact d => signBit d.negative + d.magnitudeBits
  | .infinite negative => signBit negative + Decimal.infinityBits
  | .undefined negative => signBit negative + Decimal.infinityBits + Nat.pow 2 51
where
  signBit (negative : Bool) : Nat := if negative then Nat.pow 2 63 else 0

end Quantity
end VbSharp
