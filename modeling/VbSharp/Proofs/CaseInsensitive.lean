import VbSharp.Proofs.Block.AlikeParsing
import VbSharp.Proofs.Lower.AlikeProgram
import VbSharp.Proofs.Run

/-!
# The case of letters does not matter

Two scripts that are the same but for the case of their letters, and that spell their dates the same, go through all
stages in step. Both are refused for the same reason on the same line, or both become programs with the same lines,
but for the case of the letters that comments, strings and member names take over from the script.
-/
namespace VbSharp

open List
open CSharp (Line Stmt)

variable {L : Likeness} {script other : String}

theorem scriptBlocks_alike [L.IsFree] (level : L.shift = 0) (looks : L.text script = L.text other)
    (dates : dateLiterals script = dateLiterals other) :
    L.Results (Forall₂ (Block.Alike L)) (scriptBlocks script) (scriptBlocks other) :=
  (scanTokens_alike level looks dates).bind fun tokens =>
    (joinNumerals_alike tokens).bind fun joined => parseBlocks_alike (.of_alike (combineOperators_alike joined))

theorem stages_alike [L.IsFree] (settings : Settings) (level : L.shift = 0) (looks : L.text script = L.text other)
    (dates : dateLiterals script = dateLiterals other) :
    L.Results (Lower.Lowered.Alike L) (stages settings script) (stages settings other) :=
  (scriptBlocks_alike level looks dates).bind fun blocks => lowerBlocks_alike settings blocks fun _ => .inl level

theorem undeclaredWarning_alike {t u : Token} (level : L.shift = 0) (alike : t.Alike L u) :
    L.text (Lower.undeclaredWarning t) = L.text (Lower.undeclaredWarning u) := by
  have line : u.lineNumber = t.lineNumber := by rw [alike.lineNumber, level, Nat.add_zero]
  unfold Lower.undeclaredWarning
  rw [line]
  simp only [Likeness.text_append, alike.text]

/-- The case of letters decides neither whether a script compiles nor what it compiles to. -/
theorem compile_ignores_case (settings : Settings) (script other : String)
    (spelled : foldCase script = foldCase other) (dates : dateLiterals script = dateLiterals other) :
    (∃ f g, compile settings script = .error f ∧ compile settings other = .error g ∧
      f.mapText foldCase = g.mapText foldCase) ∨
    ∃ p q, compile settings script = .ok p ∧ compile settings other = .ok q ∧
      Forall₂ (fun l k => l.depth = k.depth ∧ foldCase l.text = foldCase k.text) p.body q.body ∧
      Forall₂ (fun l k => l.depth = k.depth ∧ foldCase l.text = foldCase k.text) p.classes q.classes ∧
      p.dates = q.dates ∧ Forall₂ (fun a b => foldCase a = foldCase b) p.warnings q.warnings := by
  rw [compile_eq, compile_eq]
  have staged := stages_alike settings (L := Likeness.letters) rfl spelled dates
  generalize stages settings script = one at staged ⊢
  generalize stages settings other = two at staged ⊢
  cases staged with
  | error alike => exact .inl ⟨_, _, rfl, rfl, alike.mapText rfl⟩
  | @ok x y alike =>
    obtain ⟨names, others, named, warned, wary⟩ := alike.warnings
    refine .inr ⟨_, _, rfl, rfl, ?_, ?_, alike.dates, ?_⟩
    · exact (Stmt.linesOf_alike alike.body 0).imp fun _ _ same => ⟨same.depth, same.text⟩
    · exact (Stmt.linesOf_alike alike.classes 0).imp fun _ _ same => ⟨same.depth, same.text⟩
    · change Forall₂ _ x.warnings y.warnings
      rw [warned, wary, forall₂_map_left_iff, forall₂_map_right_iff]
      exact named.imp fun _ _ same => undeclaredWarning_alike (L := Likeness.letters) rfl same

/-- A script with a comment, a date, a string and a name that nobody declares. -/
def plainScript : String :=
  "Dim Day ' first\nDay = #1 Jan 2020# & \"am\" & Shown"

/-- The same script with its letters in the other case, except in its date. -/
def shoutedScript : String :=
  "DIM dAY ' FIRST\ndAY = #1 Jan 2020# & \"AM\" & sHOWN"

theorem compile_ignores_case_shouted :
    plainScript ≠ shoutedScript ∧ dateLiterals plainScript = ["1 Jan 2020"] ∧
    ∃ p q, compile {} plainScript = .ok p ∧ compile {} shoutedScript = .ok q ∧ p.warnings.length = 1 ∧
      Forall₂ (fun l k => l.depth = k.depth ∧ foldCase l.text = foldCase k.text) p.body q.body ∧
      Forall₂ (fun a b => foldCase a = foldCase b) p.warnings q.warnings := by
  have spelled : foldCase plainScript = foldCase shoutedScript := by decide +kernel
  have dates : dateLiterals plainScript = ["1 Jan 2020"] ∧ dateLiterals shoutedScript = ["1 Jan 2020"] := by
    decide +kernel
  have compiles : (compile {} plainScript).toOption.map (·.warnings.length) = some 1 := by decide +kernel
  refine ⟨by decide, dates.1, ?_⟩
  obtain ⟨f, g, failed, -⟩ | ⟨p, q, made, remade, body, -, -, warnings⟩ :=
    compile_ignores_case {} plainScript shoutedScript spelled (dates.1.trans dates.2.symm)
  · rw [failed] at compiles
    cases compiles
  · rw [made] at compiles
    exact ⟨p, q, made, remade, Option.some.inj compiles, body, warnings⟩

end VbSharp
