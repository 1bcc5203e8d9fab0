import VbSharp.Json.Read
import VbSharp.Settings

/-!
# Settings from JSON

What is not set keeps its default. Settings that are set have to make sense: a reference that the host
provides is listed once under a proper name, and an indentation is blank.
-/
namespace VbSharp

/-- Why settings are refused. -/
inductive SettingsFault where
  /-- The text is no JSON, or not of the right form. -/
  | unreadable
  | emptyReference (index : Nat)
  | invalidReference (name : String)
  | repeatedReference (name : String)
  | invalidIndent
  deriving Repr, DecidableEq

def SettingsFault.message : SettingsFault → String
  | .unreadable => "Failed to parse config JSON"
  | .emptyReference index => s!"external reference {index} is empty"
  | .invalidReference name => "external reference `" ++ name ++ "` is not a valid name"
  | .repeatedReference name => "external reference `" ++ name ++ "` is listed twice"
  | .invalidIndent => "indent may only contain spaces and tabs"

namespace JsonValue

def string? : JsonValue → Option String
  | .string text => text
  | _ => none

def strings? : JsonValue → Option (List String)
  | .array items => items.mapM string?
  | _ => none

/-- A choice is written as its name, or as an object with its name over nothing. -/
def choice? : JsonValue → Option String
  | .string text => text
  | .object [(name, .null)] => name
  | _ => none

/-- The values of the named fields. A record is written as an object, in which every key is a proper
string, no named field stands twice and others do not count, or as an array of its fields in order. -/
def record? (names : List String) : JsonValue → Option (List (Option JsonValue))
  | .array items =>
    if items.length ≤ names.length then
      some (items.map some ++ List.replicate (names.length - items.length) none)
    else none
  | .object fields => do
    let fields ← fields.mapM fun (key, value) => key.map (·, value)
    names.mapM fun name =>
      match fields.filter (·.1 == name) with
      | [] => some none
      | [(_, value)] => some (some value)
      | _ => none
  | _ => none

end JsonValue

def optionalField {α : Type} (default : α) (read? : JsonValue → Option α) :
    Option JsonValue → Option α
  | none => some default
  | some value => read? value

def Shape.ofJson? (v : JsonValue) : Option Shape := do
  [("full_program", Shape.fullProgram), ("body_only", .bodyOnly)].lookup (← v.choice?)

def DateOrder.ofJson? (v : JsonValue) : Option DateOrder := do
  [("month_day_year", DateOrder.monthDayYear), ("day_month_year", .dayMonthYear),
    ("year_month_day", .yearMonthDay)].lookup (← v.choice?)

def Culture.ofJson? (v : JsonValue) : Option Culture := do
  let defaults : Culture := {}
  match ← v.record? ["name", "date_order"] with
  | [name, order] =>
    let name ← optionalField defaults.name JsonValue.string? name
    let order ← optionalField defaults.dateOrder DateOrder.ofJson? order
    return ⟨name, order⟩
  | _ => none

def Settings.ofJson? (v : JsonValue) : Option Settings := do
  let defaults : Settings := {}
  match ← v.record? ["external_references", "output_shape", "culture", "indent"] with
  | [references, shape, culture, indent] =>
    let references ← optionalField defaults.externalReferences JsonValue.strings? references
    let shape ← optionalField defaults.shape Shape.ofJson? shape
    let culture ← optionalField defaults.culture Culture.ofJson? culture
    let indent ← optionalField defaults.indent JsonValue.string? indent
    return ⟨references, shape, culture, indent⟩
  | _ => none

def isReferenceChar (c : Char) : Bool :=
  c.isAlphanum || c == '_'

/-- Checks references from the given index on, after those whose names were seen. Blanks around a name
and the case of letters do not count. -/
def checkReferences (index : Nat) (seen : List String) : List String → Except SettingsFault Unit
  | [] => .ok ()
  | name :: rest =>
    let bare := trimBlank name.toList
    let folded := foldCase (String.ofList bare)
    if bare.isEmpty then .error (.emptyReference index)
    else if !bare.all isReferenceChar then .error (.invalidReference name)
    else if seen.contains folded then .error (.repeatedReference name)
    else checkReferences (index + 1) (folded :: seen) rest

def Settings.check (s : Settings) : Except SettingsFault Unit := do
  checkReferences 0 [] s.externalReferences
  unless s.indent.toList.all [' ', '\t'].contains do throw .invalidIndent

def Settings.read (json : String) : Except SettingsFault Settings := do
  match JsonValue.read? json >>= Settings.ofJson? with
  | none => throw .unreadable
  | some settings =>
    settings.check
    return settings

end VbSharp
