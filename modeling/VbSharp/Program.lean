import VbSharp.Block.Parse
import VbSharp.Lower.Program
import VbSharp.Token.Atom
import VbSharp.Token.Sign

/-!
# From a script to a program

The stages one after the other. Each stage reports what it did, and a fault ends the run with the events
up to then.
-/
namespace VbSharp

open CSharp (Line Stmt)

/-- A generated program. -/
structure Program where
  /-- The outermost statements. -/
  body : List Line
  /-- The classes, with depths counted from the class itself. -/
  classes : List Line
  externalReferences : List String
  shape : Shape
  /-- The date literals that are checked at run time. -/
  dates : List String
  warnings : List String
  deriving Repr, DecidableEq

def Program.lines (p : Program) : List Line :=
  let gap := if p.body.isEmpty || p.classes.isEmpty then [] else [Line.blank]
  p.body ++ gap ++ p.classes

def Program.ofLowered (settings : Settings) (lowered : Lower.Lowered) : Program :=
  ⟨Stmt.linesOf 0 lowered.body, Stmt.linesOf 0 lowered.classes, settings.externalReferences,
    settings.shape, lowered.dates, lowered.warnings⟩

/-- A run with its log, the last event first. -/
abbrev Run := EStateM Fault (List Event)

namespace Run

def report (e : Event) : Run Unit :=
  modify (e :: ·)

def lift {α : Type} (result : Except Fault α) : Run α :=
  match result with
  | .ok a => pure a
  | .error fault => throw fault

def tokens (script : String) : Run (List Token) := do
  let scanned ← lift (scanTokens script)
  report (.tokensScanned scanned.length)
  let joined ← lift (joinNumerals scanned)
  report (.numeralsJoined joined.length)
  let combined := combineOperators joined
  report (.operatorsCombined combined.length)
  report (.tokensNormalised combined.length)
  return combined

def blocks (tokens : List Token) : Run (List Block) := do
  match (Parser.blocks []).run (.ofTokens tokens) with
  | .ok (blocks, _) r =>
    modify (r.recognised.map .constructRecognised ++ ·)
    report (.blocksParsed blocks.length)
    report (.blocksAccepted blocks.length)
    return blocks
  | .error fault r =>
    modify (r.recognised.map .constructRecognised ++ ·)
    throw fault

def lowered (settings : Settings) (blocks : List Block) : Run Lower.Lowered := do
  match (Lower.program settings blocks).run { events := ← get } with
  | .ok lowered progress =>
    set progress.events
    return lowered
  | .error fault progress =>
    set progress.events
    throw fault

def program (settings : Settings) (script : String) : Run Program := do
  let blocks ← blocks (← tokens script)
  return .ofLowered settings (← lowered settings blocks)

end Run

/-- The program of a script. -/
def compile (settings : Settings) (script : String) : Except Fault Program :=
  match (Run.program settings script).run [] with
  | .ok program _ => .ok program
  | .error fault _ => .error fault

end VbSharp
