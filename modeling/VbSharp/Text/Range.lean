/-!
# Ranges of characters

A class of characters is written down as a list of ranges of their numbers. A long list is given by how far
each range lies behind the one before it and how many characters it has.
-/
namespace VbSharp

/-- Whether a character lies in one of the ranges. A range includes both its ends. -/
def inRanges (ranges : List (Nat × Nat)) (c : Char) : Bool :=
  ranges.any fun (first, last) => first ≤ c.toNat && c.toNat ≤ last

/-- The ranges behind `start`, where distances and sizes take turns. -/
def rangesFrom (start : Nat) : List Nat → List (Nat × Nat)
  | distance :: size :: rest =>
    (start + distance, start + distance + size - 1) :: rangesFrom (start + distance + size) rest
  | _ => []

end VbSharp
