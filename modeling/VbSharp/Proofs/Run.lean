import VbSharp.Program
import VbSharp.Proofs.Block.PartByPart
import VbSharp.Proofs.Lower.Events

/-!
# A run is its stages

A run goes from the script to its blocks and from there to the program, or ends with the first fault on the way.
What it logs does not change this, and no stage but the last one warns.
-/
namespace VbSharp

open List

variable {e : Event} {settings : Settings} {events log : List Event}

variable (script : String)

/-- The blocks of a script. -/
def scriptBlocks (script : String) : Except Fault (List Block) := do
  blocksOfTokens (← scanTokens script)

/-- The program of a script, stage by stage. -/
def stages (settings : Settings) (script : String) : Except Fault Lower.Lowered := do
  lowerBlocks settings (← scriptBlocks script)

namespace Run

variable {α : Type}

/-- The end of a run with a result or a fault. -/
def ending (result : Except Fault α) (log : List Event) : EStateM.Result Fault (List Event) α :=
  match result with
  | .ok a => .ok a log
  | .error fault => .error fault log

/-- Nothing in the log is a warning. -/
def IsQuiet (log : List Event) : Prop :=
  ∀ e ∈ log, e.warning? = none

/-- The computation comes to that result whatever has been logged before, and does not warn. -/
def Does (c : Run α) (result : Except Fault α) : Prop :=
  ∀ log, ∃ more, IsQuiet more ∧ c log = ending result (more ++ log)

theorem does_pure (a : α) : Does (pure a) (.ok a) :=
  fun _ => ⟨[], forall_mem_nil _, rfl⟩

theorem does_lift (result : Except Fault α) : Does (lift result) result := by
  cases result with
  | ok a => exact does_pure a
  | error fault => exact fun _ => ⟨[], forall_mem_nil _, rfl⟩

theorem does_report (quiet : e.warning? = none) : Does (report e) (.ok ()) :=
  fun _ => ⟨[e], forall_mem_singleton.mpr quiet, rfl⟩

variable {β : Type}

theorem Does.bind {c : Run α} {result : Except Fault α} {next : α → Run β} {last : α → Except Fault β}
    (first : Does c result) (second : ∀ a, Does (next a) (last a)) : Does (c >>= next) (result >>= last) := by
  intro log
  obtain ⟨more, quiet, ran⟩ := first log
  change ∃ added, IsQuiet added ∧ EStateM.bind c next log = _
  rw [EStateM.bind, ran]
  cases result with
  | error fault => exact ⟨more, quiet, rfl⟩
  | ok a =>
    obtain ⟨added, addedQuiet, went⟩ := second a (more ++ log)
    exact ⟨added ++ more, forall_mem_append.mpr ⟨addedQuiet, quiet⟩, by rw [append_assoc]; exact went⟩

theorem Does.behind {c : Run α} {result : Except Fault α} (does : Does c result) (quiet : e.warning? = none) :
    Does (do report e; c) result :=
  (does_report quiet).bind fun _ => does

theorem does_tokens : Does (tokens script) (do return combineOperators (← joinNumerals (← scanTokens script))) := by
  refine (does_lift _).bind fun scanned => Does.behind ?_ rfl
  exact (does_lift _).bind fun joined => Does.behind (Does.behind (Does.behind (does_pure _) rfl) rfl) rfl

theorem does_blocks (tokens : List Token) : Does (blocks tokens) (parseBlocks tokens) := by
  intro log
  unfold blocks parseBlocks
  have quiet (constructs : List Construct) : IsQuiet (constructs.map .constructRecognised) := by
    intro e listed
    obtain ⟨construct, -, rfl⟩ := mem_map.mp listed
    rfl
  cases (Parser.blocks []).run (.ofTokens tokens) with
  | ok result r =>
    refine ⟨[.blocksAccepted result.1.length, .blocksParsed result.1.length] ++
      r.recognised.map .constructRecognised, ?_, rfl⟩
    exact forall_mem_append.mpr ⟨by simp [Event.warning?], quiet r.recognised⟩
  | error fault r => exact ⟨r.recognised.map .constructRecognised, quiet r.recognised, rfl⟩

theorem does_scriptBlocks : Does (do blocks (← tokens script)) (scriptBlocks script) := by
  have whole := (does_tokens script).bind does_blocks
  have same : scriptBlocks script =
      (do return combineOperators (← joinNumerals (← scanTokens script))) >>= parseBlocks := by
    simp only [scriptBlocks, blocksOfTokens, bind_assoc, pure_bind]
  rw [same]
  exact whole

theorem lowered_apply {source : List Block} {later : Nat} (ran : Lower.program settings source ⟨0, log⟩ =
      Lower.ending (lowerBlocks settings source) ⟨later, events⟩) :
    lowered settings source log = ending (lowerBlocks settings source) events := by
  have opened (next : List Event → Run Lower.Lowered) : (do next (← get) : Run Lower.Lowered) log = next log log := rfl
  refine (opened _).trans ?_
  rw [EStateM.run, ran]
  cases lowerBlocks settings source with
  | error fault => rfl
  | ok lowered => rfl

/-- A run comes to what its stages come to. The log of a program holds its warnings, the last one first. -/
theorem program_apply (settings : Settings) (script : String) :
    ∃ log, (program settings script).run [] = ending ((stages settings script).map (Program.ofLowered settings)) log ∧
      ∀ lowered, stages settings script = .ok lowered → log.filterMap Event.warning? = lowered.warnings.reverse := by
  obtain ⟨before, quiet, parsed⟩ := does_scriptBlocks script []
  have silent : before.filterMap Event.warning? = [] := filterMap_eq_nil_iff.mpr quiet
  have staged : program settings script = (do blocks (← tokens script)) >>= fun source =>
      lowered settings source >>= fun lowered => pure (.ofLowered settings lowered) := by
    simp only [program, bind_assoc]
  rw [staged, stages]
  change ∃ log, EStateM.bind _ _ [] = _ ∧ _
  rw [EStateM.bind, parsed]
  cases scriptBlocks script with
  | error fault =>
    refine ⟨before ++ [], rfl, ?_⟩
    intro lowered success
    cases success
  | ok source =>
    obtain ⟨later, events, ran⟩ := Lower.program_apply settings source (before ++ [])
    refine ⟨events ++ (before ++ []), ?_, ?_⟩
    · have went := lowered_apply ran
      change EStateM.bind (Run.lowered settings source) _ (before ++ []) =
        ending ((lowerBlocks settings source).map _) _
      rw [EStateM.bind, went]
      cases lowerBlocks settings source with
      | error fault => rfl
      | ok lowered => rfl
    · intro lowered success
      change lowerBlocks settings source = .ok lowered at success
      rw [success] at ran
      have warned := Lower.warnings_of_program ran
      simpa [silent] using warned

end Run

theorem compile_eq (settings : Settings) (script : String) :
    compile settings script = (stages settings script).map (Program.ofLowered settings) := by
  obtain ⟨log, ran, -⟩ := Run.program_apply settings script
  unfold compile
  rw [ran]
  cases stages settings script with
  | error fault => rfl
  | ok lowered => rfl

end VbSharp
