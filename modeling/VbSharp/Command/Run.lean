import VbSharp.Command
import VbSharp.Command.Folder
import VbSharp.Page
import VbSharp.Settings.Read

/-!
# Running the program

The settings are read first, then the input; the output is only created once the program is there. The
first failure ends the run.
-/
namespace VbSharp.Command

/-- What a run leaves behind. -/
structure Outcome where
  exitCode : Nat
  output : String := ""
  errors : String := ""
  log : List String := []
  /-- The path and the text of the file that is written. -/
  written : Option (String × String) := none
  deriving Repr, DecidableEq

/-- Why a job fails. -/
inductive Failure where
  | reading (path : String) (fault : FileFault)
  | settings (fault : SettingsFault)
  | page (fault : Fault)
  | script (path : String) (fault : Fault)
  | creating (path : String) (fault : FileFault)
  deriving Repr, DecidableEq

namespace Failure

def context : Failure → String
  | .reading path _ => "Reading " ++ path
  | .settings _ => "Parsing config JSON"
  | .page _ => "Converting ASP page to script"
  | .script path _ => "Translating " ++ path
  | .creating path _ => "Creating " ++ path

def cause : Failure → String
  | .reading _ fault | .creating _ fault => fault.message
  | .settings fault => fault.message
  | .page fault | .script _ fault => fault.message

def report (f : Failure) : String :=
  let lines := (cutAt (· == '\n') f.cause.toList).map fun line => "\n    " ++ String.ofList line
  "Error: " ++ f.context ++ "\n\nCaused by:" ++ String.join lines ++ "\n"

end Failure

namespace Job

def readSettings (job : Job) (files : Files) : Except Failure Settings := do
  let settings ← match job.settings with
    | none => pure {}
    | some path =>
      let json ← (files.text path).mapError (.reading path)
      (Settings.read json).mapError .settings
  return if job.bodyOnly then { settings with shape := .bodyOnly } else settings

def withResponse (settings : Settings) : Settings :=
  if settings.isExternalReference "Response" then settings
  else { settings with externalReferences := settings.externalReferences ++ ["Response"] }

def prepare (job : Job) (files : Files) : Except Failure (Settings × String) := do
  let settings ← job.readSettings files
  let source ← (files.text job.input).mapError (.reading job.input)
  if job.isPage then
    let script ← (pageScript source).mapError .page
    return (withResponse settings, script)
  else return (settings, source)

/-- The log lines of some events, the last event first. -/
def logLines (job : Job) (events : List Event) : List String :=
  (events.reverse.filter fun e => job.verbose || e.isWarning).map Event.text

def failed (failure : Failure) (log : List String) : Outcome :=
  { exitCode := 1, errors := failure.report, log }

def run (job : Job) (files : Files) : Outcome :=
  match job.prepare files with
  | .error failure => failed failure []
  | .ok (settings, script) =>
    match (Run.program settings script).run [] with
    | .error fault events => failed (.script job.input fault) (job.logLines events)
    | .ok program events =>
      let log := job.logLines events
      let text := program.write job.format settings.indent
      match job.output with
      | none => { exitCode := 0, output := text, log }
      | some path =>
        match files.create path with
        | .error fault => failed (.creating path fault) log
        | .ok () => { exitCode := 0, log, written := some (path, text) }

end Job

def versionText : String :=
  "vbscript-translator 0.1.0\n"

def usageText : String :=
  "Usage: vbscript-translator [--config FILE] [--body-only] [--asp] [--emit csharp|json] [-v|--verbose] " ++
    "<INPUT> [OUTPUT]\n"

def run (files : Files) (arguments : List String) : Outcome :=
  match Job.ofArguments arguments with
  | .error .misuse => { exitCode := 2 }
  | .error .version => { exitCode := 0, output := versionText }
  | .error .help => { exitCode := 0, output := usageText }
  | .ok job => job.run files

end VbSharp.Command
