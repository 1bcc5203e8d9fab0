import VbSharp.Proofs.Lower.Levels

/-!
# Variables are kept apart

Names with different keys may have the same identifier, since every character that an identifier cannot have
becomes an underscore. Two variables are then one variable of the generated code, or the inner one captures what
is said about the outer one. As long as the names in sight are told apart by their identifiers this never happens.
A name of the runtime is hidden exactly where a variable has it as its identifier.
-/
namespace VbSharp

open List Lower Contents CSharp.Stmt
open CSharp (Declaration Reference Signature Stmt)
open Lower (Context Emission Ends KeysTold blocks keyOf)

variable {u : Use} {r : Reference}

/-! ### One level -/

/-- The variables of a level and the levels around it are kept apart in the generated code. -/
structure Separates (scope : Scope) (c : Contents) (own : Level) (around : List Level) : Prop where
  /-- The level refers to what the uses of its blocks are written as. -/
  references : ∀ r, r ∈ own.references ↔ ∃ u ∈ c.uses, scope.written? u = some r
  /-- A name of the runtime is hidden exactly if it is the identifier of a variable of the level. -/
  runtime : ∀ name ∈ runtimeNames, name ∈ own.names ↔ ∃ v ∈ own.vars, identifier v.text = name
  /-- Two uses become the same name exactly if their names have the same stem. -/
  stems : ∀ u ∈ c.uses, ∀ r, scope.written? u = some r → ∀ v ∈ c.uses, ∀ s, scope.written? v = some s →
    (r.name = s.name ↔ stem u.name.text = stem v.name.text)
  /-- If the names in sight are told apart, each use is found at the place where the source has its variable. -/
  places : KeysTold ((own :: around).flatMap Level.vars) →
    ∀ u ∈ c.uses, ∀ r, scope.written? u = some r → SamePlace (own :: around) u.name r
  /-- Then two uses have the same identifier exactly if they have the same key. -/
  keys : KeysTold ((own :: around).flatMap Level.vars) →
    ∀ u ∈ c.uses, ∀ r, scope.written? u = some r → ∀ v ∈ c.uses, ∀ s, scope.written? v = some s →
      (r.name = s.name ↔ keyOf u.name = keyOf v.name)

section Level

variable {scope : Scope} {c : Contents} {own top : Level} {around levels : List Level} {notes : List Note}
  {inner : List Frame} {outermost : Frame}

/-- A use is written as what its name means. Only an array that is new has no meaning yet. -/
theorem written?_cases (written : scope.written? u = some r) :
    ((scope.resolve u.name).target? = some r ∧
        (scope.resolve u.name = .undeclared r → u.isArray = false ∧ scope.meaning u = .undeclared r)) ∨
      ∃ isReDim, u.role = .array isReDim ∧ (declaredVariable scope isReDim u.name).2 = true ∧
        r = ⟨false, identifier u.name.text⟩ := by
  obtain ⟨name, role⟩ := u
  cases role with
  | value | target =>
    left
    have same := Scope.resolve_of_meaning written
    constructor
    · rw [← same]
      exact written
    · intro undeclared
      exact ⟨rfl, same.trans undeclared⟩
  | array isReDim =>
    rw [Scope.written?_array, Option.some.injEq] at written
    -- an array that a frame around has is resized in place
    rcases declaredVariable_cases scope isReDim name with isNew | resolved
    · right
      exact ⟨isReDim, rfl, isNew, written.symm.trans (declaredVariable_of_isNew isNew)⟩
    · left
      rw [resolved, written]
      exact ⟨rfl, nofun⟩

theorem name_of_written? (proper : scope.IsProper) (written : scope.written? u = some r) :
    r.name = identifier u.name.text := by
  rcases written?_cases written with ⟨resolved, -⟩ | ⟨-, -, -, rfl⟩
  · rw [Scope.reference_of_target? proper resolved]
  · rfl

/-- The names of a level are the identifiers of its variables, and perhaps the variable for a result. -/
theorem names_of_levels (fit : Forall₂ (LevelFits scope) inner levels) (topFits : TopFits outermost top)
    (shape : own :: around = levels ++ [top]) :
    (∀ v ∈ own.vars, identifier v.text ∈ own.names) ∧
      ∀ name ∈ own.names, (∃ n, name = resultName n) ∨ ∃ v ∈ own.vars, identifier v.text = name := by
  cases fit with
  | nil =>
    cases shape
    exact ⟨topFits.declared, fun name listed => .inr (topFits.only name listed)⟩
  | cons first _ =>
    cases shape
    exact ⟨first.declared, first.only⟩

section Fitting

variable (proper : scope.IsProper) (frames : scope.frames = inner ++ [outermost])
  (fit : Forall₂ (LevelFits scope) inner levels) (topFits : TopFits outermost top)
  (shape : own :: around = levels ++ [top]) (covers : Covers scope c.uses own.references notes)
  (arrays : ∀ u ∈ c.uses, ∀ resized, u.role = .array resized → (resized, u.name) ∈ c.declared)
  (fresh : ∀ v ∈ c.newVariables scope, v ∈ own.vars)
  (noted : ∀ name, .undeclared name ∈ notes → top.holds name = true)
include proper frames fit topFits shape covers arrays fresh noted

theorem samePlace_of_written? (told : KeysTold ((own :: around).flatMap Level.vars)) (used : u ∈ c.uses)
    (written : scope.written? u = some r) : SamePlace (own :: around) u.name r := by
  rcases written?_cases written with ⟨resolved, unknown⟩ | ⟨isReDim, role, isNew, rfl⟩
  · rw [shape] at told ⊢
    apply samePlace_of_resolve proper frames fit topFits told resolved
    intro undeclared
    obtain ⟨scalar, meant⟩ := unknown undeclared
    exact noted u.name (covers.noted u used scalar r meant)
  · -- a new array is a variable of the level itself
    have listed := fresh u.name (mem_newVariables.mpr ⟨isReDim, arrays u used isReDim role, isNew⟩)
    have holds := Level.holds_iff.mpr ⟨u.name, listed, rfl⟩
    exact .here holds (offers_of_holds (names_of_levels fit topFits shape).1 rfl (.inl rfl) holds)

theorem separates_of_levels : Separates scope c own around where
  references := covers.written
  runtime := by
    obtain ⟨declared, only⟩ := names_of_levels fit topFits shape
    intro name isRuntime
    constructor
    · intro listed
      -- the variable for a result has no name of the runtime
      rcases only name listed with ⟨n, rfl⟩ | found
      · exact absurd isRuntime (resultName_not_mem_runtimeNames n)
      · exact found
    · rintro ⟨v, listed, rfl⟩
      exact declared v listed
  stems u _ r written v _ s writtenToo := by
    rw [name_of_written? proper written, name_of_written? proper writtenToo, identifier_eq_iff]
  places told _ used _ written :=
    samePlace_of_written? proper frames fit topFits shape covers arrays fresh noted told used written
  keys told u used r written v usedToo s writtenToo := by
    rw [name_of_written? proper written, name_of_written? proper writtenToo]
    constructor
    · intro same
      -- both names have variables in sight, and those are told apart
      have known : ∀ u ∈ c.uses, ∀ r, scope.written? u = some r →
          ∃ x ∈ (own :: around).flatMap Level.vars, keyOf x = keyOf u.name := by
        intro u used r written
        exact (samePlace_of_written? proper frames fit topFits shape covers arrays fresh noted told used
          written).exists_variable
      obtain ⟨x, listedX, keyX⟩ := known u used r written
      obtain ⟨y, listedY, keyY⟩ := known v usedToo s writtenToo
      rw [← keyX, ← keyY]
      apply told x listedX y listedY
      rw [identifier_eq_of_nameKey_eq keyX, identifier_eq_of_nameKey_eq keyY, same]
    · exact identifier_eq_of_nameKey_eq

end Fitting
end Level

/-! ### Routines and classes -/

/-- The variables of a routine are kept apart, where `result` is the variable for its result. -/
def RoutineSeparates (scope : Scope) (around : List Level) (source : Header × List Block)
    (method : Signature × List Stmt) : Prop :=
  ∃ result : Option String, result.isSome = source.1.kind.returnsValue ∧
    Separates (scope.ofRoutine source.1 source.2 result) (.ofBlocks source.2)
      (.ofRoutine (scope.ofRoutine source.1 source.2 result) source method) around

/-- The fields of a class are kept apart, and so are the variables of its routines. -/
def ClassSeparates (scope : Scope) (around : List Level) (source : Token × List Block) (members : List Stmt) : Prop :=
  Separates (scope.ofClass source.2) (.ofBlocks source.2) (.ofClass source members) around ∧
    Forall₂ (RoutineSeparates (scope.ofClass source.2) (.ofClass source members :: around))
      (Contents.ofBlocks source.2).routines (listMethods members)

section Around

variable {ctx : Context} {scope : Scope} {top : Level} {levels : List Level} {notes : List Note} {inner : List Frame}
  {outermost : Frame} (proper : scope.IsProper) (frames : scope.frames = inner ++ [outermost])
  (fit : ∀ within : Scope, Forall₂ (LevelFits within) inner levels) (topFits : TopFits outermost top)
  (noted : ∀ name, .undeclared name ∈ notes → top.holds name = true)
include proper frames fit topFits noted

theorem routineSeparates_of_made {source : Header × List Block} {method : Signature × List Stmt}
    (made : RoutineMade ctx scope notes source method) : RoutineSeparates scope (levels ++ [top]) source method := by
  obtain ⟨result, body, ends, kept, rfl⟩ := made
  have hoisted := isHoisted_of_ends ends.issued ends.ends
  have covers := (blocks_fit ends.ends).covers.mono kept
  have framesWithin : (scope.ofRoutine source.1 source.2 result).frames =
      ((scope.ofRoutine source.1 source.2 result).frame :: inner) ++ [outermost] := by
    rw [cons_append, ← frames]
    rfl
  refine ⟨result, ends.returns, separates_of_levels (proper.ofRoutine _ _ _) framesWithin
    (.cons (levelFits_ofRoutine proper ends.issued hoisted) (fit _)) topFits rfl ?_ (agrees_ofBlocks _).arrays
    (fun v isNew => mem_append_right _ isNew) noted⟩
  rw [Level.ofRoutine, listReferences_methodBody]
  exact covers

theorem classSeparates_of_made {source : Token × List Block} {members : List Stmt}
    (made : MembersMade ctx scope notes source members) : ClassSeparates scope (levels ++ [top]) source members := by
  obtain ⟨body, ends, kept, written⟩ := id made
  have hoists := blocks_hoist ends
  have all := newVariables_of_all (locals_ofClass scope source.2)
  have names : ∀ name, name ∈ listDeclaredNames members ↔
      ∃ v ∈ (Contents.ofBlocks source.2).declared.map Prod.snd, identifier v.text = name := by
    intro name
    rw [listDeclaredNames_members written hoists.stated, hoists.mem_merge, all.1]
  have framesWithin : (scope.ofClass source.2).frames = ((scope.ofClass source.2).frame :: inner) ++ [outermost] := by
    rw [cons_append, ← frames]
    rfl
  have fitWithin : ∀ within : Scope, Forall₂ (LevelFits within) ((scope.ofClass source.2).frame :: inner)
      (.ofClass source members :: levels) :=
    fun within => .cons (levelFits_ofClass scope names) (fit within)
  constructor
  · apply separates_of_levels (proper.ofClass _) framesWithin (fitWithin _) topFits rfl _
      (agrees_ofBlocks _).arrays _ noted
    · rw [Level.ofClass, listReferences_members written]
      exact (blocks_fit ends).covers.mono kept
    · intro v isNew
      rw [all.1] at isNew
      exact isNew
  · exact made.routines.imp fun _ _ =>
      routineSeparates_of_made (proper.ofClass _) framesWithin fitWithin topFits noted

end Around

/-! ### Names and programs -/

/-- How far names are told apart by their identifiers. Names have the same identifier exactly if they have the same
stem: plain names with different keys never do, but every other name has the identifier of a plain name. A lowered
program keeps its variables apart, at every level, as long as this does not happen among the names in sight. A name of
the runtime is the identifier of a name exactly if it is its stem, and a variable of that name hides it. -/
theorem variables_apart_by_stem (settings : Settings) (source : List Block) (lowered : Lowered)
    (success : lowerBlocks settings source = .ok lowered) :
    let kept := dropSuperseded source
    let scope := Scope.ofProgram kept settings.externalReferences
    let outermost := Level.ofProgram settings source lowered
    (∀ a b, identifier a = identifier b ↔ stem a = stem b) ∧
      (∀ a b, isPlain a = true → isPlain b = true → (identifier a = identifier b ↔ nameKey a = nameKey b)) ∧
      (∀ a, isPlain a = false → nameKey (stem a) ≠ nameKey a ∧ identifier (stem a) = identifier a) ∧
      (∀ a, ∀ name ∈ runtimeNames, identifier a = name ↔ stem a = name) ∧
      Separates scope (.ofBlocks kept) outermost [] ∧
      Forall₂ (RoutineSeparates scope [outermost]) (Contents.ofBlocks kept).routines
        (listMethods lowered.outermost) ∧
      Forall₂ (ClassSeparates scope [outermost]) (Contents.ofBlocks kept).classes
        (lowered.scriptClasses.filterMap classMembers?) := by
  intro kept scope outermost
  obtain ⟨out, program⟩ := made_of_lowerBlocks success
  have proper : scope.IsProper := Scope.isProper_ofProgram kept settings.externalReferences
  have topFits : TopFits scope.frame outermost := topFits_ofProgram (mem_names_ofProgram program)
  have noted : ∀ name, .undeclared name ∈ out.notes → outermost.holds name = true := by
    intro name given
    have used := (followed_undeclared.ofBlocks kept scope out program.ends name).mp given
    exact Level.holds_iff.mpr ⟨name, mem_append_left _ used, rfl⟩
  have all := newVariables_of_all (locals_ofProgram kept settings.externalReferences)
  refine ⟨fun _ _ => identifier_eq_iff, ?_, ?_, ?_, ?_, ?_, ?_⟩
  · intro a b plainA plainB
    exact ⟨nameKey_eq_of_isPlain plainA plainB, identifier_eq_of_nameKey_eq⟩
  · intro a other
    constructor
    · rw [ne_eq, nameKey_stem_eq_iff, other]
      decide
    · exact identifier_eq_iff.mpr (isPlain_stem a).2
  · intro a name isRuntime
    exact identifier_eq_runtimeName_iff isRuntime
  · apply separates_of_levels proper rfl .nil topFits rfl _ (agrees_ofBlocks kept).arrays _ noted
    · exact program.spaceFits.1.covers
    · intro v isNew
      rw [all.1] at isNew
      exact mem_append_right _ isNew
  · exact program.routines.imp fun _ _ => routineSeparates_of_made proper rfl (fun _ => .nil) topFits noted
  · exact program.members.imp fun _ _ => classSeparates_of_made proper rfl (fun _ => .nil) topFits noted

/-- A class with a field, and a sub that uses a parameter, the field and a variable with a blank in its name. -/
def ledgerProgram : List Block :=
  let name := fun text => (⟨.name, text, 0⟩ : Token)
  let value := fun text => Segment.call [name text] []
  [.declaration .dim [⟨name "[grand total]", none⟩] 0, .classDefinition (name "Ledger")
      [.declaration .privateField [⟨name "n", none⟩] 0,
        .routine ⟨.sub, name "Add", true, false, [⟨.byVal, name "x", false⟩]⟩
          [.assignment .value [value "n"] [value "x"], .assignment .value [value "[Grand Total]"] [value "n"]]]]

/-- All names that the sub of the ledger can see are told apart, so the field and the variable outside of the class are
found where the source has them. -/
theorem variables_apart_by_stem_ledger :
    ∃ lowered members method, lowerBlocks {} ledgerProgram = .ok lowered ∧
      lowered.scriptClasses.filterMap classMembers? = [members] ∧ listMethods members = [method] ∧
      ∃ own inClass, own.names = method.1.parameters.map Prod.snd ++ listDeclaredNames method.2 ∧
        inClass.names = listDeclaredNames members ∧
        SamePlace [own, inClass, .ofProgram {} ledgerProgram lowered] ⟨.name, "n", 0⟩ ⟨false, "n"⟩ ∧
        SamePlace [own, inClass, .ofProgram {} ledgerProgram lowered] ⟨.name, "[Grand Total]", 0⟩
          ⟨true, "grand_total"⟩ ∧
        "_env" ∉ own.names := by
  have run : (lowerBlocks {} ledgerProgram).toOption.map (fun _ => ()) = some () := by decide +kernel
  obtain ⟨lowered, success, -⟩ := exists_of_toOption_map run
  obtain ⟨-, -, -, -, -, -, classes⟩ := variables_apart_by_stem {} ledgerProgram lowered success
  obtain ⟨members, _, ⟨-, methods⟩, noClass, sameClasses⟩ := forall₂_cons_left_iff.mp classes
  obtain rfl := forall₂_nil_left_iff.mp noClass
  obtain ⟨method, _, ⟨result, returns, separates⟩, noMethod, sameMethods⟩ := forall₂_cons_left_iff.mp methods
  obtain rfl := forall₂_nil_left_iff.mp noMethod
  obtain rfl : result = none := by
    cases result with
    | none => rfl
    | some name => cases returns
  -- what the three levels have does not depend on what the program becomes
  have places := separates.places (by
    simp only [flatMap_cons, flatMap_nil, Level.ofRoutine, Level.ofClass, Level.ofProgram]
    decide +kernel)
  have field := places ⟨⟨.name, "n", 0⟩, .target⟩ (by decide +kernel) ⟨false, "n"⟩ (by decide +kernel)
  have outside := places ⟨⟨.name, "[Grand Total]", 0⟩, .target⟩ (by decide +kernel) ⟨true, "grand_total"⟩
    (by decide +kernel)
  have visible := (separates.runtime "_env" (by decide)).not.mpr (by
    simp only [Level.ofRoutine]
    decide +kernel)
  exact ⟨lowered, members, method, success, sameClasses, sameMethods, .ofRoutine _ _ method, .ofClass _ members, rfl,
    rfl, field, outside, visible⟩

/-- Two variables that become one: the second assignment overwrites the first. A variable of another program hides
what the host provides. -/
theorem bracketed_variable_captured :
    let name := fun text => (⟨.name, text, 0⟩ : Token)
    let assign := fun target value =>
      Block.assignment .value [.call [name target] []] [.value ⟨.number, value, 0⟩]
    let source : List Block :=
      [.declaration .dim [⟨name "[a b]", none⟩, ⟨name "a_b", none⟩] 0, assign "[a b]" "1", assign "a_b" "2"]
    nameKey "[a b]" ≠ nameKey "a_b" ∧ identifier "[a b]" = identifier "a_b" ∧ identifier "[_env]" = "_env" ∧
      (lowerBlocks {} source).toOption.map (fun lowered =>
        (listDeclaredNames lowered.outermost, Stmt.listReferences lowered.outermost)) =
          some (["a_b"], [⟨false, "a_b"⟩, ⟨false, "a_b"⟩]) := by
  decide +kernel

end VbSharp
