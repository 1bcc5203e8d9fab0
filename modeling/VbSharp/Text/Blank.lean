/-!
# Blank characters

Words of a script are separated by the characters that have the Unicode property `White_Space`, and
the same characters are cut from both ends of a text. The control characters U+001C to U+001F, the
zero-width space and the byte-order mark do not have the property.
-/
namespace VbSharp

/-- Whether the character has the Unicode property `White_Space`. -/
def isBlank (c : Char) : Bool :=
  let n := c.toNat
  (0x09 ≤ n && n ≤ 0x0D) || n == 0x20 || n == 0x85 || n == 0xA0 || n == 0x1680 ||
    (0x2000 ≤ n && n ≤ 0x200A) || n == 0x2028 || n == 0x2029 || n == 0x202F || n == 0x205F ||
    n == 0x3000

/-- The characters in front of the longest tail that satisfies `p` throughout. -/
def dropTail (p : Char → Bool) (cs : List Char) : List Char :=
  (cs.reverse.dropWhile p).reverse

/-- The text without the blank characters at its two ends. -/
def trimBlank (cs : List Char) : List Char :=
  dropTail isBlank (cs.dropWhile isBlank)

/-- The maximal runs of characters that do not satisfy `p`, empty runs included: `n` characters that
satisfy `p` cut the text into `n + 1` runs. -/
def cutAt (p : Char → Bool) : List Char → List (List Char)
  | [] => [[]]
  | c :: cs =>
    match cutAt p cs with
    | [] => [[]]
    | run :: runs => if p c then [] :: run :: runs else (c :: run) :: runs

/-- The non-empty runs of characters that do not satisfy `p`. -/
def fieldsAt (p : Char → Bool) (cs : List Char) : List (List Char) :=
  (cutAt p cs).filter (!·.isEmpty)

def lineFeeds (cs : List Char) : Nat :=
  cs.count '\n'

/-- The texts one after the other with the separator between neighbours. -/
def joinText (separator : String) (texts : List String) : String :=
  String.ofList (List.intercalate separator.toList (texts.map String.toList))

end VbSharp
