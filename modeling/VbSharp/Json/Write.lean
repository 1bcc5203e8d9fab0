import VbSharp.Json
import VbSharp.Number.Integer
import VbSharp.Text.Blank

/-!
# Writing JSON

Every item and field stands on a line of its own, two blanks deeper than the brackets around it.
-/
namespace VbSharp.JsonValue

def hexDigit (n : Nat) : Char :=
  Nat.digitChar (n % 16)

/-- A character of a string. Quotation marks, backslashes and control characters are escaped, and
everything else is written as it is. -/
def escapeChar (c : Char) : List Char :=
  match c with
  | '\x22' => ['\\', '\x22']
  | '\\' => ['\\', '\\']
  | '\x08' => ['\\', 'b']
  | '\x0c' => ['\\', 'f']
  | '\n' => ['\\', 'n']
  | '\r' => ['\\', 'r']
  | '\t' => ['\\', 't']
  | c =>
    if c.toNat < 0x20 then ['\\', 'u', '0', '0', hexDigit (c.toNat / 16), hexDigit c.toNat] else [c]

def quoted (text : String) : String :=
  String.ofList ('\x22' :: text.toList.flatMap escapeChar ++ ['\x22'])

def newLine (depth : Nat) : String :=
  "\n" ++ String.ofList (List.replicate (2 * depth) ' ')

/-- Items between brackets, each on its line; without items the brackets close at once. -/
def enclosed (opening closing : String) (depth : Nat) (items : List String) : String :=
  if items.isEmpty then opening ++ closing
  else
    opening ++ newLine (depth + 1) ++ joinText ("," ++ newLine (depth + 1)) items ++ newLine depth ++
      closing

mutual

def prettyAt (depth : Nat) : JsonValue → String
  | .null => "null"
  | .boolean value => if value then "true" else "false"
  | .number text => text
  | .string text => quoted (text.getD "")
  | .array items => enclosed "[" "]" depth (prettyItems (depth + 1) items)
  | .object fields => enclosed "\x7b" "\x7d" depth (prettyFields (depth + 1) fields)

def prettyItems (depth : Nat) : List JsonValue → List String
  | [] => []
  | item :: rest => prettyAt depth item :: prettyItems depth rest

def prettyFields (depth : Nat) : List (Option String × JsonValue) → List String
  | [] => []
  | (key, value) :: rest =>
    (quoted (key.getD "") ++ ": " ++ prettyAt depth value) :: prettyFields depth rest

end

def pretty (v : JsonValue) : String :=
  prettyAt 0 v

end VbSharp.JsonValue
