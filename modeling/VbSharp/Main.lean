import VbSharp.Command.Run

/-!
# The program

Reads the files that the arguments name, runs the command and carries its outcome out.
-/
namespace VbSharp.Command

def FileFault.ofError (e : IO.Error) : FileFault :=
  match e with
  | .noFileOrDirectory _ _ _ | .noSuchThing _ _ _ => .missing
  | .inappropriateType _ _ _ => .isFolder
  | e => .other (toString e)

def attempt {α : Type} (action : IO α) : IO (Except FileFault α) := do
  try return .ok (← action)
  catch e => return .error (FileFault.ofError e)

def loadFiles (paths : List String) (created : Except FileFault Unit) : IO Files := do
  let contents ← paths.mapM fun (path : String) => return (path, ← attempt (IO.FS.readBinFile path))
  return ⟨fun path => (contents.lookup path).getD (.error .missing), fun _ => created⟩

def Outcome.print (o : Outcome) : IO Unit := do
  let errors ← IO.getStderr
  o.log.forM errors.putStrLn
  errors.putStr (if o.exitCode == 2 then usageText else o.errors)
  (← IO.getStdout).putStr o.output

end VbSharp.Command

open VbSharp.Command in
def main (arguments : List String) : IO UInt32 := do
  let paths := match Job.ofArguments arguments with
    | .ok job => job.input :: job.settings.toList
    | .error _ => []
  let outcome := run (← loadFiles paths (.ok ())) arguments
  let outcome ← match outcome.written with
    | none => pure outcome
    | some (path, text) =>
      match ← attempt (IO.FS.writeFile path text) with
      | .ok () => pure outcome
      | .error fault => pure (run (← loadFiles paths (.error fault)) arguments)
  outcome.print
  return outcome.exitCode.toUInt32
