import VbSharp.Proofs.Lower.Complete
import VbSharp.Proofs.Lower.Hoisting

/-!
# Results stay in their methods

A function or property that returns a value has a variable for its result. It is declared at the top of the method,
assigned where the script assigns to the name of the routine, and returned wherever the method is left. No two methods
share such a variable, and none is used outside its method.
-/
namespace VbSharp

open List Lower
open CSharp (Head Mark Signature Simple Stmt Term)

/-! ### Results in generated code -/

namespace CSharp

/-- The results that an expression uses. -/
def Term.results (t : Term) : List (Option String) :=
  (t.marks.filterMap Mark.result?).map some

/-- The results that a line declares, uses or returns. Leaving a method without a result counts as returning none. -/
def Simple.results : Simple → List (Option String)
  | .leave result => [result]
  | content => (content.marks.filterMap Mark.result?).map some

def Head.results : Head → List (Option String)
  | .branch condition | .elseBranch condition => condition.results
  | _ => []

mutual

/-- The results in a statement, outside the spaces within it. -/
def Stmt.results : Stmt → List (Option String)
  | .blank => []
  | .line content _ => content.results
  | .block head body _ => if head.opensSpace then [] else head.results ++ Stmt.listResults body

def Stmt.listResults : List Stmt → List (Option String)
  | [] => []
  | s :: rest => s.results ++ Stmt.listResults rest

end

namespace Stmt

theorem listResults_eq_flatMap (stmts : List Stmt) : listResults stmts = stmts.flatMap results := by
  induction stmts with
  | nil => rfl
  | cons s rest ih => rw [listResults, ih, flatMap_cons]

end Stmt
end CSharp

/-- The result belongs to the routine around: it is that of the routine, or that of a sub, which has none. -/
def Scope.Returns (s : Scope) (result : Option String) : Prop :=
  result = s.result?.map Prod.snd ∧ (result = none → s.kind = .routine)

theorem Tells.returns {site : Site} {elements : List Element} {marks : List Mark} {notes : List Note}
    (tells : Tells site elements marks notes) :
    ∀ r ∈ (marks.filterMap Mark.result?).map some, site.scope.Returns r := by
  intro r member
  obtain ⟨name, listed, rfl⟩ := mem_map.mp member
  obtain ⟨m, marked, same⟩ := mem_filterMap.mp listed
  refine ⟨?_, fun none => by cases none⟩
  cases m with
  | result found =>
    cases same
    exact (tells.proper _ marked).symm
  | _ => cases same

namespace Lower

variable {ctx : Context} {scope : Scope} {out : Emission} {content : Simple} {stmts : List Stmt}
  {result : Option String}

theorem returns_says {site : Site} {elements : List Element} {notes : List Note}
    (told : Says site elements content notes) : ∀ r ∈ (Stmt.ofSimple content).results ++ [], site.scope.Returns r := by
  have own : (Stmt.ofSimple content).results ++ [] = (content.marks.filterMap Mark.result?).map some := by
    cases content with
    | assign | expression => exact append_nil _
    | _ => cases told.led
  rw [own]
  exact told.tells.returns

theorem outside_results : IsOutside Stmt.results :=
  ⟨⟨rfl, Stmt.listResults_eq_flatMap, rfl⟩, fun _ _ => rfl, fun _ => rfl, rfl⟩

/-- Blocks use and return the result of the routine around if the blocks inside do. -/
theorem returns_inherited (ctx : Context) : Inherited ctx (fun out => out.stmts.flatMap Stmt.results)
    (fun scope _ results => ∀ r ∈ results, scope.Returns r) where
  view_append _ _ := flatMap_append
  view_remark added := Stmt.flatMap_addRemark? added
  append first second := forall_mem_append.mpr ⟨first, second⟩
  empty _ := forall_mem_nil _
  blank _ := forall_mem_nil _
  comment _ _ := forall_mem_nil _
  leave _ inside := forall_mem_singleton.mpr ⟨rfl, fun _ => inside⟩
  call given := returns_says (told_callStatement given).toSays
  assignment given := returns_says (told_assignment given).2.toSays
  randomize given := returns_says (told_randomize given).toSays
  variableEmission ends := by
    obtain ⟨-, -, -, ⟨-, stmts, -⟩ | ⟨content, _, _, -, given, stmts⟩⟩ := ends.of_variableEmission
    · rw [stmts]
      exact forall_mem_nil _
    · rw [stmts]
      exact returns_says (told_sizeArray given).2
  routine _ _ := by
    rw [outside_results.routineEmission]
    exact forall_mem_nil _
  classDefinition _ _ _ := forall_mem_nil _
  clause given opens held := by
    have tested := (told_condition given).returns
    rw [← Stmt.listResults_eq_flatMap] at held
    rcases opens with rfl | rfl
    · exact forall_mem_append.mpr ⟨forall_mem_append.mpr ⟨tested, held⟩, forall_mem_nil _⟩
    · exact forall_mem_append.mpr ⟨forall_mem_append.mpr ⟨tested, held⟩, forall_mem_nil _⟩
  otherwise held := by
    rw [← Stmt.listResults_eq_flatMap] at held
    exact forall_mem_append.mpr ⟨held, forall_mem_nil _⟩

theorem blocks_return {bs : List Block} (ends : Ends (blocks ctx scope [] bs) out) :
    ∀ r ∈ Stmt.listResults out.stmts, scope.Returns r := by
  rw [Stmt.listResults_eq_flatMap]
  exact (returns_inherited ctx).ofBlocks ends

/-- Code that is in no routine uses and returns nothing. -/
theorem listResults_outside {bs : List Block} (ends : Ends (blocks ctx scope [] bs) out)
    (outside : scope.kind ≠ .routine) (none : scope.result? = none) : Stmt.listResults out.stmts = [] := by
  rw [eq_nil_iff_forall_not_mem]
  intro r member
  obtain ⟨same, inside⟩ := blocks_return ends r member
  exact outside (inside (by rw [same, none]; rfl))

theorem listResults_methodBody (declared : List CSharp.Declaration) :
    Stmt.listResults (methodBody result declared stmts) =
      result.toList.map some ++ (Stmt.listResults stmts ++ result.toList.map some) := by
  have declarations : (declared.flatMap fun d => (Stmt.ofSimple (.declare d)).results) = [] :=
    flatMap_eq_nil_iff.mpr fun _ _ => rfl
  rw [Stmt.listResults_eq_flatMap, flatMap_methodBody rfl, declarations, ← Stmt.listResults_eq_flatMap, nil_append]
  cases result with
  | none => rfl
  | some name => rfl

end Lower

/-! ### Methods -/

/-- An assignment to a name alone that has the given key. -/
def Block.assignsTo (key : String) : Block → Prop
  | .assignment _ target _ => ∃ name, Expr.steps target = [(name, [])] ∧ nameKey name.text = key
  | _ => False

/-- A method and its result, compared with the routine that it was made from. -/
structure IsReturned (site : Site) (source : Header × List Block) (result : Option String)
    (method : Signature × List Stmt) : Prop where
  /-- Routines that return a value have a result, which no name can be written as. -/
  returns : result.isSome = source.1.kind.returnsValue
  named : ∀ name ∈ result, (∃ n, name = resultName n) ∧ ∀ text, identifier text ≠ name
  /-- The result is declared first and returned at the end. -/
  declared : result.toList.map (fun name => Stmt.ofSimple (.declareResult name)) <+: method.2
  returned : result.toList.map (fun name => Stmt.ofSimple (.leave (some name))) <:+ method.2
  /-- Wherever the method is left it returns its result, and it uses no other one. -/
  own : ∀ r ∈ Stmt.listResults method.2, r = result
  /-- The lines of the method stand for the statements of the routine, and assignments to its name write the result. -/
  written : ∃ main, Stmt.listParts method.2 = main ++ result.toList.map (fun name => .line (.leave (some name))) ∧
    Matches site (Block.listParts source.2) main
  assigned : ∀ name ∈ result, ∀ b content, b.assignsTo (nameKey source.1.name.text) → IsWritten site b content →
    ∃ value, content = .assign (.result name) value

/-- A routine of a scope and the method that it becomes. -/
def RoutineReturns (ctx : Lower.Context) (scope : Scope) (source : Header × List Block)
    (method : Signature × List Stmt) : Prop :=
  ∃ result, IsReturned (ctx.site (scope.ofRoutine source.1 source.2 result)) source result method

/-- A class of a scope and the members that it becomes. Outside its methods there are no results. -/
structure ClassReturns (ctx : Lower.Context) (scope : Scope) (source : Token × List Block) (members : List Stmt) :
    Prop where
  outside : Stmt.listResults members = []
  routines : Forall₂ (RoutineReturns ctx (scope.ofClass source.2)) (Contents.ofBlocks source.2).routines
    (Stmt.listMethods members)

section

variable {ctx : Lower.Context} {scope : Scope} {notes : List Note} {header : Header} {body : List Block} {name : String}

/-- An assignment to the name of the routine around it writes the result. -/
theorem assign_of_assignsTo {b : Block} {content : Simple} (assigns : b.assignsTo (nameKey header.name.text))
    (written : IsWritten (ctx.site (scope.ofRoutine header body (some name))) b content) :
    ∃ value, content = .assign (.result name) value := by
  cases b with
  | assignment kind target value =>
    obtain ⟨own, steps, key⟩ := assigns
    obtain ⟨notes, given⟩ := written
    have target : (scope.ofRoutine header body (some name)).resolveTarget own = .result name :=
      if_pos (by simpa using key)
    unfold assignment at given
    split at given
    · cases given
    · rw [chainSteps_eq, steps] at given
      obtain ⟨stored, _, _, storedGiven, later, -⟩ := Noting.gives_bind.mp given
      obtain ⟨read, _, _, -, storeGiven, -⟩ := Noting.gives_bind.mp later
      simp only [Lower.target, reverse_nil, isEmpty_nil, if_true, rootTarget, Context.scope_site, step,
        target] at storedGiven
      obtain ⟨rfl, -⟩ := Noting.gives_pure.mp storedGiven
      obtain ⟨rfl, -⟩ := Noting.gives_pure.mp storeGiven
      exact ⟨_, rfl⟩
  | _ => exact absurd assigns id

theorem routineReturns_of_made {source : Header × List Block} {method : Signature × List Stmt}
    (made : RoutineMade ctx scope notes source method) : RoutineReturns ctx scope source method := by
  obtain ⟨result, inner, ends, -, rfl⟩ := made
  refine ⟨result, ends.returns, fun name member => ?_, ?_, ?_, fun r member => ?_,
    ⟨_, listParts_methodBody _ _ _, blocks_match ends.ends⟩, fun name member b content assigns written => ?_⟩
  · obtain ⟨n, rfl⟩ := ends.issued name member
    exact ⟨⟨n, rfl⟩, fun text => identifier_ne_resultName text n⟩
  · simp only [methodBody, append_assoc]
    exact prefix_append _ _
  · exact suffix_append _ _
  · have inside := blocks_return ends.ends
    have held : (scope.ofRoutine source.1 source.2 result).result?.map Prod.snd = result := by
      cases result with
      | none | some name => rfl
    rw [listResults_methodBody] at member
    rcases mem_append.mp member with first | later
    · obtain ⟨name, listed, rfl⟩ := mem_map.mp first
      exact (Option.mem_toList.mp listed).symm
    · rcases mem_append.mp later with here | last
      · exact (inside r here).1.trans held
      · obtain ⟨name, listed, rfl⟩ := mem_map.mp last
        exact (Option.mem_toList.mp listed).symm
  · cases member
    exact assign_of_assignsTo assigns written

theorem classReturns_of_made {source : Token × List Block} {members : List Stmt} (outside : scope.result? = none)
    (made : Lower.MembersMade ctx scope notes source members) : ClassReturns ctx scope source members := by
  obtain ⟨inner, ends, -, found⟩ := id made
  refine ⟨?_, made.routines.imp fun _ _ => routineReturns_of_made⟩
  have silent : Stmt.listResults inner.stmts = [] := by
    refine listResults_outside ends (by simp [Scope.kind, Scope.ofClass]) ?_
    exact outside
  have frame : Stmt.listResults (classFrame (identifier source.1.text) true (hasInitializer source.2)) = [] := by
    cases hasInitializer source.2 <;> rfl
  have fields : ((CSharp.Declaration.merge inner.declared).map fun d => Stmt.ofSimple (.declare d)).flatMap
      Stmt.results = [] := by
    rw [flatMap_map]
    exact flatMap_eq_nil_iff.mpr fun _ _ => rfl
  rw [Stmt.listResults_eq_flatMap, flatMap_members rfl found, fields]
  simp only [← Stmt.listResults_eq_flatMap, frame, silent, append_nil]

end

/-- The outermost code uses and returns no result. -/
theorem Lower.ProgramMade.listResults_outermost {ctx : Lower.Context} {scope : Scope} {source : List Block}
    {lowered : Lower.Lowered} {out : Lower.Emission} (program : Lower.ProgramMade source lowered ctx scope out)
    (outside : scope.result? = none) : Stmt.listResults lowered.outermost = [] := by
  have check : Stmt.listResults (if ctx.asClass then [] else dateCheck lowered.dates) = [] := by
    unfold dateCheck
    split_ifs
    · rfl
    · rfl
    · simp [Stmt.listResults, Stmt.results, Stmt.ofSimple, Simple.results, Simple.marks, Term.marks, Term.listMarks,
        Mark.result?]
  have declared : Stmt.listResults (outermostDeclarations ctx.asClass out) = [] := by
    rw [outermostDeclarations, Stmt.listResults_eq_flatMap, flatMap_append, flatMap_map, flatMap_map]
    exact append_eq_nil_iff.mpr ⟨flatMap_eq_nil_iff.mpr fun _ _ => rfl, flatMap_eq_nil_iff.mpr fun _ _ => rfl⟩
  have stmts := listResults_outside program.ends (by simp [program.isProgram]) outside
  rw [Stmt.listResults_eq_flatMap, program.flatMap_outermost_outside outside_results]
  simp only [← Stmt.listResults_eq_flatMap, flatMap_append, check, declared, stmts, append_nil]

/-- The variables for results of a lowered program are all different. -/
theorem Lower.ProgramMade.nodup_heldResults {ctx : Lower.Context} {scope : Scope} {source : List Block}
    {lowered : Lower.Lowered} {out : Lower.Emission} (program : Lower.ProgramMade source lowered ctx scope out) :
    ((lowered.body ++ lowered.classes).flatMap (Stmt.deep heldResult)).Nodup := by
  obtain ⟨issued, later, count, -, seen⟩ := Logs.of_ends (logs_blocks ctx scope [] · _) program.ends
  have declarations : (outermostDeclarations ctx.asClass out).flatMap (Stmt.deep heldResult) = [] := by
    rw [outermostDeclarations, flatMap_append, flatMap_map, flatMap_map]
    simp [Stmt.ofSimple, heldResult]
  have whole := program.deep_eq shows_heldResult.toIsSparse
  rw [declarations, seen, Multiset.coe_nil, zero_add, flatMap_nil, Multiset.coe_nil, zero_add] at whole
  rw [← Multiset.coe_nodup, whole, nextResults, Multiset.coe_nodup]
  exact Nodup.map resultName_injective nodup_range'

/-- Every method of a lowered program that returns a value has a result of its own, in the outermost code and in the
classes. It is declared once in the whole program, every way out of the method returns it, assignments to the name of
the routine write it, and no other code uses it. A method that returns no value is left without one. -/
theorem results_stay_in_methods (settings : Settings) (source : List Block) (lowered : Lower.Lowered)
    (success : lowerBlocks settings source = .ok lowered) :
    let kept := dropSuperseded source
    let scope := Scope.ofProgram kept settings.externalReferences
    let ctx : Lower.Context := ⟨settings.culture, lowered.outerClass?.isSome⟩
    ((lowered.body ++ lowered.classes).flatMap (Stmt.deep heldResult)).Nodup ∧
      Stmt.listResults lowered.outermost = [] ∧
      Forall₂ (RoutineReturns ctx scope) (Contents.ofBlocks kept).routines (Stmt.listMethods lowered.outermost) ∧
      Forall₂ (ClassReturns ctx scope) (Contents.ofBlocks kept).classes
        (lowered.scriptClasses.filterMap Stmt.classMembers?) := by
  obtain ⟨out, program⟩ := made_of_lowerBlocks success
  exact ⟨program.nodup_heldResults, program.listResults_outermost rfl,
    program.routines.imp fun _ _ => routineReturns_of_made,
    program.members.imp fun _ _ => classReturns_of_made rfl⟩

/-- A function and a sub that can be left early. -/
def earlyProgram : List Block :=
  let name := fun text => (⟨.name, text, 0⟩ : Token)
  let early := fun kind => Block.branch [.call [name "a"] []] [.exit kind 1] .none
  [.routine ⟨.function, name "F", true, false, [⟨.byVal, name "a", false⟩]⟩
      [early .function, .assignment .value [.call [name "f"] []] [.value ⟨.number, "1", 2⟩]],
    .routine ⟨.sub, name "G", true, false, [⟨.byVal, name "a", false⟩]⟩ [early .sub]]

theorem results_stay_in_methods_early :
    ∃ lowered, lowerBlocks {} earlyProgram = .ok lowered ∧ Stmt.listResults lowered.outermost = [] ∧
      (Stmt.listMethods lowered.outermost).map (Stmt.listResults ·.2) = [replicate 4 (some "retVal1"), [none]] := by
  have run : ((lowerBlocks {} earlyProgram).toOption.map fun lowered =>
      (Stmt.listMethods lowered.outermost).map (Stmt.listResults ·.2)) =
        some [replicate 4 (some "retVal1"), [none]] := by decide +kernel
  obtain ⟨lowered, success, results⟩ := exists_of_toOption_map run
  exact ⟨lowered, success, (results_stay_in_methods {} earlyProgram lowered success).2.1, results⟩

end VbSharp
