import VbSharp.Json.Write
import VbSharp.Name
import VbSharp.Program

/-!
# Written programs

A program is written as C# source or as a JSON list of its lines. The source of a full program puts the
body into a method and declares a property for each value that the host provides.
-/
namespace VbSharp

open CSharp (Line)

/-- What a program is written as. -/
inductive Format where
  | csharp
  | json
  deriving Repr, DecidableEq

def CSharp.Line.nest (levels : Nat) (l : Line) : Line :=
  if l.isBlank then l else ⟨levels + l.depth, l.text⟩

/-- The text of a line with its line end. A blank line has no indentation. -/
def CSharp.Line.render (indent : String) (l : Line) : String :=
  if l.isBlank then "\n" else String.join (List.replicate l.depth indent) ++ l.text ++ "\n"

namespace Program

def braced (depth : Nat) (head : String) (body : List Line) : List Line :=
  ⟨depth, head⟩ :: ⟨depth, "\x7b"⟩ :: (body ++ [⟨depth, "\x7d"⟩])

def runner (body : List Line) : List Line :=
  braced 1 "public class Runner" <|
    braced 2 "public void Go(IProvideVBScriptCompatFunctionality _, EnvironmentReferences _env)" <|
      body.map (·.nest 3)

def environment (references : List String) : List Line :=
  braced 1 "public class EnvironmentReferences" <|
    references.map fun name => ⟨2, "public object " ++ identifier name ++ " \x7b get; set; \x7d"⟩

def sourceLines (p : Program) : List Line :=
  match p.shape with
  | .bodyOnly => p.lines
  | .fullProgram =>
    let classes := if p.classes.isEmpty then [] else .blank :: p.classes.map (·.nest 1)
    [⟨0, "using System;"⟩, ⟨0, "using CSharpSupport;"⟩, ⟨0, "using CSharpSupport.Attributes;"⟩,
        .blank] ++
      braced 0 "namespace TranslatedProgram"
        (runner p.body ++ classes ++ .blank :: environment p.externalReferences)

def lineValue (l : Line) : JsonValue :=
  .object [(some "content", .string (some l.text)),
    (some "indentation_depth", .number (decimalText l.depth))]

def write (p : Program) (format : Format) (indent : String) : String :=
  match format with
  | .csharp => String.join (p.sourceLines.map (·.render indent))
  | .json => (JsonValue.array (p.lines.map lineValue)).pretty ++ "\n"

end Program
end VbSharp
