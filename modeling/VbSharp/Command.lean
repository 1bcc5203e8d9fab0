import VbSharp.Layout

/-!
# The command line

The arguments name the input and, if wanted, the output; everything else is an option. Options may stand
anywhere before an argument that is only two dashes. No option may be given twice.
-/
namespace VbSharp.Command

/-- What the arguments ask for. -/
structure Job where
  input : String
  /-- Where the program is written; to the standard output if nowhere. -/
  output : Option String
  /-- The file with the settings. -/
  settings : Option String
  bodyOnly : Bool
  /-- Whether the input is a page. -/
  isPage : Bool
  format : Format
  verbose : Bool
  deriving Repr, DecidableEq

/-- Why there is no job. -/
inductive Stop where
  | misuse
  | version
  | help
  deriving Repr, DecidableEq

/-- The arguments read so far. -/
structure Draft where
  input : Option String := none
  output : Option String := none
  settings : Option String := none
  bodyOnly : Bool := false
  isPage : Bool := false
  format : Option Format := none
  verbose : Bool := false
  deriving Repr, DecidableEq

/-- One argument by its form. -/
inductive Argument where
  | plain (text : String)
  /-- Two dashes: no options follow. -/
  | plainFromHere
  | long (name : String) (value : Option String)
  | short (letters : List Char)
  deriving Repr, DecidableEq

def Argument.ofText (text : String) : Argument :=
  match text.toList with
  | ['-', '-'] => .plainFromHere
  | '-' :: '-' :: word =>
    let name := String.ofList (word.takeWhile (· != '='))
    match word.dropWhile (· != '=') with
    | [] => .long name none
    | _ :: value => .long name (some (String.ofList value))
  | '-' :: letter :: letters => .short (letter :: letters)
  | _ => .plain text

namespace Draft

def place (p : Draft) (text : String) : Except Stop Draft :=
  if text.isEmpty then .error .misuse
  else if p.input.isNone then .ok { p with input := some text }
  else if p.output.isNone then .ok { p with output := some text }
  else .error .misuse

/-- Takes an option without a value. -/
def raise (p : Draft) (name : String) : Except Stop Draft :=
  match name with
  | "body-only" => if p.bodyOnly then .error .misuse else .ok { p with bodyOnly := true }
  | "asp" => if p.isPage then .error .misuse else .ok { p with isPage := true }
  | "verbose" => if p.verbose then .error .misuse else .ok { p with verbose := true }
  | "version" => .error .version
  | "help" => .error .help
  | _ => .error .misuse

def takesValue (name : String) : Bool :=
  name == "config" || name == "emit"

def give (p : Draft) (name value : String) : Except Stop Draft :=
  match name with
  | "config" =>
    if p.settings.isSome || value.isEmpty then .error .misuse
    else .ok { p with settings := some value }
  | "emit" =>
    match p.format, value with
    | none, "csharp" => .ok { p with format := some .csharp }
    | none, "json" => .ok { p with format := some .json }
    | _, _ => .error .misuse
  | _ => .error .misuse

def raiseLetter (p : Draft) (letter : Char) : Except Stop Draft :=
  match letter with
  | 'v' => p.raise "verbose"
  | 'V' => p.raise "version"
  | 'h' => p.raise "help"
  | _ => .error .misuse

def take (p : Draft) : List String → Except Stop Draft
  | [] => .ok p
  | text :: rest =>
    match Argument.ofText text with
    | .plain text => do (← p.place text).take rest
    | .plainFromHere => rest.foldlM place p
    | .short letters => do (← letters.foldlM raiseLetter p).take rest
    | .long name (some value) => do (← p.give name value).take rest
    | .long name none =>
      if takesValue name then
        match rest with
        | [] => .error .misuse
        | next :: rest =>
          match Argument.ofText next with
          | .plain value => do (← p.give name value).take rest
          | _ => .error .misuse
      else do (← p.raise name).take rest

end Draft

def Job.ofArguments (arguments : List String) : Except Stop Job := do
  let p ← Draft.take {} arguments
  match p.input with
  | none => throw .misuse
  | some input =>
    return ⟨input, p.output, p.settings, p.bodyOnly, p.isPage, p.format.getD .csharp, p.verbose⟩

end VbSharp.Command
