import VbSharp.Proofs.Lower.Hoisting
import VbSharp.Proofs.Lower.Undeclared
import VbSharp.Proofs.Run

/-!
# One warning for each undeclared name

A run warns about the names of its program that nobody declares, once for each key, and about nothing else. The
outermost code declares exactly these names, and no other part of the program declares a name in that way.
-/
namespace VbSharp

open List
open CSharp (Stmt Declaration)

/-! ### Variables that are declared without being told to -/

/-- The variable that a statement declares because the script does not. -/
def CSharp.Stmt.implicit? : Stmt → Option Declaration
  | .line (.declareImplicit d) _ => some d
  | _ => none

/-- All variables that some statements declare in this way, at any depth. -/
def CSharp.Stmt.implicits (stmts : List Stmt) : List Declaration :=
  stmts.flatMap (Stmt.deep fun s => s.implicit?.toList)

namespace Lower

open CSharp.Stmt (deep implicits)

theorem shows_implicit : Shows (fun s : Stmt => s.implicit?.toList) (fun _ => []) where
  blank := rfl
  block _ _ := rfl
  line content ordinary := by
    cases content with
    | declareImplicit d => cases ordinary
    | _ => rfl
  comment _ := rfl
  remark := by
    intro s text marked _ added
    cases s with
    | blank => cases added
    | line content remark =>
      cases added
      cases content with
      | declareImplicit d => rfl
      | _ => rfl
    | block head body remark =>
      cases added
      rfl

/-- If nothing at any depth is such a declaration, no statement is one. -/
theorem filterMap_implicit? {stmts : List Stmt} (none : implicits stmts = []) :
    stmts.filterMap Stmt.implicit? = [] := by
  rw [filterMap_eq_nil_iff]
  intro s member
  have silent := flatMap_eq_nil_iff.mp none s member
  cases s with
  | blank => rfl
  | block head body remark => rfl
  | line content remark => simpa [Option.toList_eq_nil_iff] using silent

/-- How the outermost code declares a name that nobody else declares. -/
def implicitDeclaration (asClass : Bool) (name : Token) : Declaration :=
  ⟨identifier name.text, false, if asClass then .publicField else .localVariable⟩

variable {asClass : Bool} {out : Emission}

theorem implicit?_outermostDeclarations :
    (outermostDeclarations asClass out).filterMap Stmt.implicit? =
      (implicitNames out).map (implicitDeclaration asClass) := by
  rw [outermostDeclarations, filterMap_append, filterMap_map, filterMap_map]
  have explicit : (Declaration.merge out.declared).filterMap
      (Stmt.implicit? ∘ fun d => Stmt.ofSimple (.declare d)) = [] := by
    rw [filterMap_eq_nil_iff]
    intro d _
    rfl
  rw [explicit, nil_append, ← filterMap_eq_map]
  rfl

theorem implicits_outermostDeclarations :
    implicits (outermostDeclarations asClass out) = (implicitNames out).map (implicitDeclaration asClass) := by
  rw [← implicit?_outermostDeclarations, implicits, filterMap_eq_flatMap_toList]
  have lines : ∀ s ∈ outermostDeclarations asClass out, ∃ content, s = .ofSimple content := by
    intro s member
    simp only [outermostDeclarations, mem_append, mem_map] at member
    rcases member with ⟨d, -, rfl⟩ | ⟨name, -, rfl⟩
    · exact ⟨_, rfl⟩
    · exact ⟨_, rfl⟩
  refine flatMap_congr fun s member => ?_
  obtain ⟨content, rfl⟩ := lines s member
  exact Stmt.deep_line _ content none

/-- The outermost statements declare the implicit names, and nothing else in the program does. -/
theorem ProgramMade.implicits_eq {source : List Block} {lowered : Lowered} {ctx : Context} {scope : Scope}
    (program : ProgramMade source lowered ctx scope out) (silent : out.sight (fun s => s.implicit?.toList) = 0) :
    (implicits (lowered.body ++ lowered.classes)).Perm ((implicitNames out).map (implicitDeclaration ctx.asClass)) ∧
      lowered.outermost.filterMap Stmt.implicit? = (implicitNames out).map (implicitDeclaration ctx.asClass) := by
  have sparse := shows_implicit.toIsSparse
  constructor
  · have whole := program.deep_eq sparse
    rw [silent, add_zero, Multiset.coe_eq_coe] at whole
    rw [← implicits_outermostDeclarations]
    exact whole
  · simp only [Emission.sight, add_eq_zero, Multiset.coe_eq_zero] at silent
    obtain ⟨⟨stmts, methods⟩, -⟩ := silent
    obtain ⟨rest, outermost, same⟩ := program.exists_rest
    have others : implicits rest = [] := by
      rw [implicits, same (IsSparse.isTransparent sparse), stmts, methods, append_nil]
    have check : (if ctx.asClass then [] else dateCheck lowered.dates).filterMap Stmt.implicit? = [] := by
      unfold dateCheck
      split_ifs <;> rfl
    rw [outermost, filterMap_append, filterMap_append, check, filterMap_implicit? others,
      implicit?_outermostDeclarations, nil_append, append_nil]

/-! ### The implicit names -/

/-- Names of different keys have different identifiers. -/
def KeysTold (names : List Token) : Prop :=
  ∀ a ∈ names, ∀ b ∈ names, identifier a.text = identifier b.text → keyOf a = keyOf b

instance (names : List Token) : Decidable (KeysTold names) :=
  inferInstanceAs (Decidable (∀ a ∈ names, ∀ b ∈ names, identifier a.text = identifier b.text → keyOf a = keyOf b))

section Names

variable {ctx : Context} {kept : List Block} {externals : List String}

section

variable (ends : Ends (blocks ctx (.ofProgram kept externals) [] kept) out)
include ends

theorem mem_undeclaredNames {name : Token} (listed : name ∈ undeclaredNames out.notes) :
    name ∈ Block.listUndeclared (.ofProgram kept externals) kept := by
  have noted : .undeclared name ∈ out.notes := by
    obtain ⟨note, member, found⟩ := mem_filterMap.mp (firstNames_subset _ listed)
    cases note with
    | undeclared other =>
      cases found
      exact member
    | date text => cases found
  exact (followed_undeclared.ofBlocks kept _ out ends name).mp noted

theorem exists_mem_undeclaredNames {name : Token}
    (used : name ∈ Block.listUndeclared (.ofProgram kept externals) kept) :
    ∃ first ∈ undeclaredNames out.notes, keyOf first = keyOf name := by
  have noted : .undeclared name ∈ out.notes := (followed_undeclared.ofBlocks kept _ out ends name).mpr used
  exact exists_mem_firstNames (mem_filterMap.mpr ⟨_, noted, rfl⟩)

theorem implicitNames_eq
    (told : KeysTold (Block.listUndeclared (.ofProgram kept externals) kept ++ (Contents.ofBlocks kept).declared.map Prod.snd)) :
    implicitNames out = undeclaredNames out.notes := by
  rw [implicitNames, filter_eq_self]
  intro name listed
  have used := mem_undeclaredNames ends listed
  rw [Bool.not_eq_true', any_eq_false]
  intro d merged same
  -- a declaration of that identifier would belong to a variable of the same key
  obtain ⟨v, isNew, spelled⟩ := (blocks_hoist ends).mem_merge.mp (mem_map_of_mem merged)
  obtain ⟨isReDim, declared, -⟩ := Contents.mem_newVariables.mp isNew
  have sameKey : keyOf v = keyOf name := by
    apply told
    · exact mem_append_right _ (mem_map_of_mem declared)
    · exact mem_append_left _ used
    · rw [spelled]
      exact beq_iff_eq.mp same
  have missing := Block.hasVariable_of_listUndeclared _ kept name used
  have known := (belongTo_of_all (locals_ofProgram kept externals) _ declared).2
  rw [show nameKey v.text = nameKey name.text from sameKey, missing] at known
  cases known

end

end Names
end Lower

open Lower (KeysTold keyOf undeclaredWarning implicitDeclaration)

/-- The names that a program uses and nobody declares. A function that is defined again does not count. -/
def undeclaredUses (settings : Settings) (source : List Block) : List Token :=
  let kept := Lower.dropSuperseded source
  Block.listUndeclared (.ofProgram kept settings.externalReferences) kept

/-- The variables that the outermost code of a program declares. -/
def outermostVariables (source : List Block) : List Token :=
  (Contents.ofBlocks (Lower.dropSuperseded source)).declared.map Prod.snd

/-- A run warns exactly once for each key of a name that its program uses and nobody declares, provided that
names of different keys have different identifiers. The warnings are the messages of the program and stand in the
log in that order; the outermost code declares one variable for each of them, and no other part of the program
declares a variable in that way. -/
theorem run_warns_undeclared (settings : Settings) (script : String) (source : List Block) (program : Program)
    (log : List Event) (parsed : scriptBlocks script = .ok source)
    (ran : (Run.program settings script).run [] = .ok program log)
    (told : KeysTold (undeclaredUses settings source ++ outermostVariables source)) :
    ∃ (lowered : Lower.Lowered) (names : List Token),
      lowerBlocks settings source = .ok lowered ∧ program = .ofLowered settings lowered ∧
      (names.map keyOf).Nodup ∧ (∀ name ∈ names, name ∈ undeclaredUses settings source) ∧
      (∀ name ∈ undeclaredUses settings source, keyOf name ∈ names.map keyOf) ∧
      log.reverse.filterMap Event.warning? = names.map undeclaredWarning ∧
      program.warnings = names.map undeclaredWarning ∧
      (Stmt.implicits (lowered.body ++ lowered.classes)).Perm
        (names.map (implicitDeclaration lowered.outerClass?.isSome)) ∧
      lowered.outermost.filterMap Stmt.implicit? =
        names.map (implicitDeclaration lowered.outerClass?.isSome) := by
  let kept := Lower.dropSuperseded source
  obtain ⟨log', went, warned⟩ := Run.program_apply settings script
  have staged : stages settings script = lowerBlocks settings source := by rw [stages, parsed]; rfl
  rw [went, staged] at ran
  cases success : lowerBlocks settings source with
  | error fault =>
    rw [success] at ran
    cases ran
  | ok lowered =>
    rw [success] at ran
    cases ran
    obtain ⟨out, program⟩ := Lower.made_of_lowerBlocks success
    have ends := program.ends
    have warnings := program.warnings
    have silent : out.sight (fun s => s.implicit?.toList) = 0 := by
      rw [(Lower.shows_implicit.followed fun _ => rfl).ofBlocks kept _ out ends]
      simp [Lower.shownBy]
    obtain ⟨everywhere, outermost⟩ := program.implicits_eq silent
    rw [Lower.implicitNames_eq ends told] at everywhere outermost warnings
    refine ⟨lowered, Lower.undeclaredNames out.notes, rfl, rfl, 
      Lower.keys_firstNames _ ▸ Lower.nodup_firstTexts _, ?_, ?_, ?_, warnings,
      everywhere, outermost⟩
    · intro name listed
      exact Lower.mem_undeclaredNames ends listed
    · intro name used
      obtain ⟨first, listed, same⟩ := Lower.exists_mem_undeclaredNames ends used
      exact mem_map.mpr ⟨first, listed, same⟩
    · rw [filterMap_reverse, warned lowered (staged.trans success), reverse_reverse, warnings]

/-- Two names that nobody declares, one of them in two spellings. -/
def spellingsScript : String :=
  "x = Y + y"

theorem run_warns_undeclared_spellings :
    ∃ program log, (Run.program {} spellingsScript).run [] = .ok program log ∧
      log.reverse.filterMap Event.warning? = program.warnings ∧ program.warnings.length = 2 := by
  have checked : ((scriptBlocks spellingsScript).toOption.any fun source =>
      decide (KeysTold (undeclaredUses {} source ++ outermostVariables source)) &&
        ((undeclaredUses {} source).map keyOf == ["x", "y", "y"] && (lowerBlocks {} source).isOk)) = true := by
    decide +kernel
  cases parsed : scriptBlocks spellingsScript with
  | error fault =>
    rw [parsed] at checked
    cases checked
  | ok source =>
    rw [parsed] at checked
    obtain ⟨told, rest⟩ := Bool.and_eq_true_iff.mp checked
    obtain ⟨keys, lowers⟩ := Bool.and_eq_true_iff.mp rest
    obtain ⟨program, log, ran⟩ : ∃ program log, (Run.program {} spellingsScript).run [] = .ok program log := by
      obtain ⟨log, went, -⟩ := Run.program_apply {} spellingsScript
      have staged : stages {} spellingsScript = lowerBlocks {} source := by rw [stages, parsed]; rfl
      rw [went, staged]
      cases lowered : lowerBlocks {} source with
      | error fault =>
        rw [lowered] at lowers
        cases lowers
      | ok lowered => exact ⟨_, log, rfl⟩
    obtain ⟨-, names, -, -, distinct, known, all, logged, warnings, -, -⟩ :=
      run_warns_undeclared {} spellingsScript source program log parsed ran (of_decide_eq_true told)
    have two : (names.map keyOf).Perm ["x", "y"] := by
      rw [perm_ext_iff_of_nodup distinct (by decide)]
      intro key
      have same : key ∈ (undeclaredUses {} source).map keyOf ↔ key ∈ ["x", "y"] := by
        rw [beq_iff_eq.mp keys]
        simp
      rw [← same]
      constructor
      · intro listed
        obtain ⟨name, member, rfl⟩ := mem_map.mp listed
        exact mem_map_of_mem (known name member)
      · intro listed
        obtain ⟨name, member, rfl⟩ := mem_map.mp listed
        exact all name member
    have length : (names.map keyOf).length = 2 := two.length_eq
    refine ⟨program, log, ran, logged.trans warnings.symm, ?_⟩
    rw [warnings, length_map]
    rwa [length_map] at length

end VbSharp
