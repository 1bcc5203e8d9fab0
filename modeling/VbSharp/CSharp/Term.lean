import VbSharp.Number.Integer
import VbSharp.Text.Blank

/-!
# Generated expressions

The expressions of the generated code, and how they are written. Nearly everything goes through the
support library, which the code knows as `_`; values that the host provides are members of `_env`, and a
class reaches the program around it through `_outer`.
-/
namespace VbSharp.CSharp

def escapeChar (c : Char) : List Char :=
  if c == '\x22' then ['\\', '\x22']
  else if c == '\\' then ['\\', '\\']
  else if c == '\t' then ['\\', 't']
  else if c == '\r' then ['\\', 'r']
  else if c == '\n' then ['\\', 'n']
  else if c == '\x00' then ['\\', '0']
  else [c]

def stringLiteral (text : String) : String :=
  String.ofList ('\x22' :: text.toList.flatMap escapeChar ++ ['\x22'])

def int32Bound : Nat :=
  Nat.pow 2 31

/-- A numeral of a script as a number literal. A point or an exponent makes it a double already, and an
integer beyond 32 bits is made one by its suffix. -/
def numberLiteral (text : String) : String :=
  if text.toList.any fun c => c == '.' || c == 'e' || c == 'E' then text
  else
    match int64? text.toList with
    | some n => if -(int32Bound : Int) ≤ n ∧ n < int32Bound then text else text ++ "D"
    | none => text ++ "D"

/-- A name of the program: whether it is reached through `_outer`, and its identifier. -/
structure Reference where
  outer : Bool
  name : String
  deriving Repr, DecidableEq

def Reference.render (r : Reference) : String :=
  if r.outer then "_outer." ++ r.name else r.name

/-- An expression of the generated code. -/
inductive Term where
  | variable (target : Reference)
  /-- The variable that holds the result of a routine. -/
  | result (name : String)
  | this
  /-- The object that describes the last run-time error. -/
  | errorObject
  /-- A value that the host provides. -/
  | environment (name : String)
  /-- A constant of the script language. -/
  | constant (name : String)
  | boolean (value : Bool)
  | null
  | dbNull
  | string (text : String)
  /-- A number, as the script writes it. -/
  | number (text : String)
  /-- A function of the support library. -/
  | support (function : String) (arguments : List Term)
  /-- A routine of the script. -/
  | call (target : Reference) (arguments : List Term)
  /-- An argument passed by reference. -/
  | byRef (argument : Term)
  /-- A new instance of a class of the script, which is given the program around it. -/
  | new (className : String) (outer : Bool)
  /-- An array of strings. -/
  | strings (texts : List String)
  /-- An array of values. -/
  | objects (items : List Term)
  deriving Repr

namespace Term

def commas (texts : List String) : String :=
  joinText ", " texts

/-- An array of strings. Without elements its type has to be written. -/
def renderStrings (texts : List String) : String :=
  if texts.isEmpty then "new string[0]"
  else "new[] \x7b " ++ commas (texts.map stringLiteral) ++ " \x7d"

mutual

def render : Term → String
  | .variable target => target.render
  | .result name => name
  | .this => "this"
  | .errorObject => "_.ERR"
  | .environment name => "_env." ++ name
  | .constant name => "VBScriptConstants." ++ name
  | .boolean true => "true"
  | .boolean false => "false"
  | .null => "null"
  | .dbNull => "DBNull.Value"
  | .string text => stringLiteral text
  | .number text => numberLiteral text
  | .support function arguments => "_." ++ function ++ "(" ++ commas (renderAll arguments) ++ ")"
  | .call target arguments => target.render ++ "(" ++ commas (renderAll arguments) ++ ")"
  | .byRef argument => "ref " ++ render argument
  | .new className outer =>
    "new " ++ className ++ "(_, _env, " ++ (if outer then "_outer" else "this") ++ ")"
  | .strings texts => renderStrings texts
  | .objects items => "new object[] \x7b " ++ commas (renderAll items) ++ " \x7d"

def renderAll : List Term → List String
  | [] => []
  | t :: rest => render t :: renderAll rest

end

end Term
end VbSharp.CSharp
