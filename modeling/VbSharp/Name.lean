import VbSharp.Text.Fold

/-!
# Names

A script may write a name in square brackets, which then holds any characters. Two spellings are the
same name if they agree without the brackets and the case of letters; that common form is the key of the
name. In the generated code a name becomes an identifier of small letters, digits and underscores.
-/
namespace VbSharp

/-- The words that cannot be identifiers of the generated code unless they are marked. -/
def reservedWords : List String :=
  ["abstract", "as", "base", "bool", "break", "byte", "case", "catch", "char", "checked",
    "class", "const", "continue", "decimal", "default", "delegate", "do", "double", "else",
    "enum", "event", "explicit", "extern", "false", "finally", "fixed", "float", "for",
    "foreach", "goto", "if", "implicit", "in", "int", "interface", "internal", "is", "lock",
    "long", "namespace", "new", "null", "object", "operator", "out", "override", "params",
    "private", "protected", "public", "readonly", "ref", "return", "sbyte", "sealed", "short",
    "sizeof", "stackalloc", "static", "string", "struct", "switch", "this", "throw", "true",
    "try", "typeof", "uint", "ulong", "unchecked", "unsafe", "ushort", "using", "virtual",
    "void", "volatile", "while"]

/-- The characters of a name without the square brackets around it. -/
def bareName (name : List Char) : List Char :=
  match name with
  | '[' :: rest =>
    match rest.reverse with
    | ']' :: inner => inner.reverse
    | _ => name
  | _ => name

/-- The form that all spellings of one name share. -/
def nameKey (name : String) : String :=
  String.ofList ((bareName name.toList).map Char.toLower)

def identifierChar (c : Char) : Char :=
  if c.isAlphanum || c == '_' then c.toLower else '_'

/-- The identifier of a name in the generated code. -/
def identifier (name : String) : String :=
  let letters := (bareName name.toList).map identifierChar
  let started := if letters.head?.all Char.isDigit then '_' :: letters else letters
  if reservedWords.contains (String.ofList started) then String.ofList ('@' :: started)
  else String.ofList started

/-- The name of the `n`-th result variable. Its capital letter keeps it apart from all identifiers of
names. -/
def resultName (n : Nat) : String :=
  s!"retVal{n}"

end VbSharp
