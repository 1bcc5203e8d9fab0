import VbSharp.Text.Quoted

/-!
# Text for a terminal

A message may hold a name from a script, and a terminal would obey some of the control characters in
it. Those are spelled out; every other character is left as it is.
-/
namespace VbSharp.Terminal

/-- The ASCII characters that a terminal obeys: bell, backspace, form feed, escape and delete, each with
its spelling. -/
def spelling? : Char → Option String
  | '\x07' => some "\\x07"
  | '\x08' => some "\\x08"
  | '\x0c' => some "\\x0c"
  | '\x1b' => some "\\x1b"
  | '\x7f' => some "\\x7f"
  | _ => none

/-- A character of a message. The control characters from U+0080 to U+009F are written by their
numbers. -/
def encodeChar (c : Char) : List Char :=
  match spelling? c with
  | some spelling => spelling.toList
  | none => if 0x80 ≤ c.toNat && c.toNat ≤ 0x9F then Quoted.numbered c else [c]

/-- A message that a terminal shows and does not obey. -/
def encode (message : String) : String :=
  String.ofList (message.toList.flatMap encodeChar)

end VbSharp.Terminal
