import VbSharp.Proofs.Lower.Signatures
import VbSharp.Proofs.Lower.Within
import VbSharp.Proofs.Name

/-!
# Hoisted declarations

The declarations of a routine are collected from its whole body and written once at the top of its method. They
are compared here with the parameters of the method. A declaration never asks whether its name is a parameter, so
a parameter that the body declares or resizes is declared a second time.
-/
namespace VbSharp

open List CSharp.Declaration Lower
open CSharp (Declaration Head Signature Simple Stmt)

variable {name : Token} {notes : List Note} {body bs : List Block} {result : Option String}
  {source : Header × List Block}

variable {stmts : List Stmt} {c : Contents} {content : Simple}

/-! ### Names that statements declare -/

namespace CSharp

/-- The variable that a line declares. -/
def Simple.declaredName? : Simple → Option String
  | .declare d | .declareImplicit d => some d.name
  | .declareResult name => some name
  | _ => none

mutual

/-- The variables that a statement declares, outside the spaces within it. -/
def Stmt.declaredNames : Stmt → List String
  | .blank => []
  | .line content _ => content.declaredName?.toList
  | .block head body _ => if head.opensSpace then [] else Stmt.listDeclaredNames body

def Stmt.listDeclaredNames : List Stmt → List String
  | [] => []
  | s :: rest => s.declaredNames ++ Stmt.listDeclaredNames rest

end

namespace Stmt

theorem listDeclaredNames_eq_flatMap (stmts : List Stmt) : listDeclaredNames stmts = stmts.flatMap declaredNames := by
  induction stmts with
  | nil => rfl
  | cons s rest ih => rw [listDeclaredNames, ih, flatMap_cons]

@[simp]
theorem listDeclaredNames_append (a b : List Stmt) :
    listDeclaredNames (a ++ b) = listDeclaredNames a ++ listDeclaredNames b := by
  simp [listDeclaredNames_eq_flatMap]

theorem listDeclaredNames_addRemark? {text : String} {remarked : List Stmt}
    (added : Lower.addRemark? text stmts = some remarked) : listDeclaredNames remarked = listDeclaredNames stmts := by
  rw [listDeclaredNames_eq_flatMap, listDeclaredNames_eq_flatMap]
  exact flatMap_addRemark? added

theorem listDeclaredNames_lines {α : Type} (items : List α) (content : α → Simple) :
    listDeclaredNames (items.map fun a => ofSimple (content a)) =
      items.filterMap fun a => (content a).declaredName? := by
  induction items with
  | nil => rfl
  | cons a rest ih =>
    rw [map_cons, listDeclaredNames, ih, filterMap_cons]
    cases named : (content a).declaredName? with
    | none => simp [ofSimple, declaredNames, named]
    | some name => simp [ofSimple, declaredNames, named]

end Stmt

end CSharp

/-! ### New variables -/

/-- The variables that blocks declare and that are new where they stand. -/
def Contents.newVariables (c : Contents) (scope : Scope) : List Token :=
  (c.declared.filter fun v => (Lower.declaredVariable scope v.1 v.2).2).map Prod.snd

theorem Contents.mem_newVariables {scope : Scope} :
    name ∈ c.newVariables scope ↔
      ∃ isReDim, (isReDim, name) ∈ c.declared ∧ (Lower.declaredVariable scope isReDim name).2 = true := by
  simp [newVariables]

namespace Lower

variable {ctx : Context} {scope : Scope} {out : Emission}

/-- The names that an emission declares: collected ones, and ones that its statements declare themselves. -/
structure Naming where
  collected : List String
  stated : List String

instance : Append Naming where
  append a b := ⟨a.collected ++ b.collected, a.stated ++ b.stated⟩

def Emission.naming (out : Emission) : Naming :=
  ⟨out.declared.map Declaration.name, Stmt.listDeclaredNames out.stmts⟩

theorem Emission.naming_append (a b : Emission) : (a ++ b).naming = a.naming ++ b.naming := by
  change Naming.mk _ _ = Naming.mk _ _
  rw [Emission.append_def, map_append, Stmt.listDeclaredNames_append]
  rfl

/-- Every declaration is collected: it is that of a new variable, and no statement declares one. -/
structure Hoists (scope : Scope) (c : Contents) (n : Naming) : Prop where
  collected : n.collected = (c.newVariables scope).map (identifier ·.text)
  stated : n.stated = []

namespace Hoists

theorem append {d : Contents} {n m : Naming} (first : Hoists scope c n) (second : Hoists scope d m) :
    Hoists scope (c ++ d) (n ++ m) where
  collected := by
    rw [Contents.newVariables, Contents.declared_append, filter_append, map_append, map_append]
    exact congr (congrArg _ first.collected) second.collected
  stated := by
    change n.stated ++ m.stated = []
    rw [first.stated, second.stated, append_nil]

theorem of_single (plain : content.declaredName? = none) (none : c.declared = []) :
    Hoists scope c ({ stmts := [.ofSimple content], notes := notes } : Emission).naming where
  collected := by
    rw [Contents.newVariables, none]
    rfl
  stated := by
    change content.declaredName?.toList ++ [] = []
    rw [plain]
    rfl

end Hoists

theorem declaredName?_of_isAction (acts : content.isAction = true) : content.declaredName? = none := by
  cases content with
  | expression _ | leave _ | assign _ _ => rfl
  | comment _ | declare _ | declareImplicit _ | declareResult _ | propertyAttribute _ | defaultAttribute
  | readOnlyField _ _ | storeField _ _ | runOuter => cases acts

theorem declaredName?_of_isSizing (sizes : content.isSizing = true) : content.declaredName? = none := by
  cases content with
  | assign _ _ => rfl
  | expression _ | leave _ | comment _ | declare _ | declareImplicit _ | declareResult _ | propertyAttribute _
  | defaultAttribute | readOnlyField _ _ | storeField _ _ | runOuter => cases sizes

theorem Ends.hoists_variableEmission {kind : DeclarationKind} {visibility : CSharp.Visibility} {v : Variable}
    (ends : Ends (variableEmission ctx scope kind visibility v) out) :
    Hoists scope { uses := v.uses kind.isReDim, declared := [(kind.isReDim, v.name)] } out.naming := by
  obtain ⟨declared, -, -, made⟩ := ends.of_variableEmission
  constructor
  · change out.declared.map Declaration.name = _
    rw [declared, Contents.newVariables, filter_cons]
    by_cases isNew : (declaredVariable scope kind.isReDim v.name).2 = true
    · rw [if_pos isNew, if_pos isNew, declaredVariable_of_isNew isNew]
      rfl
    · rw [if_neg isNew, if_neg isNew]
      rfl
  · change Stmt.listDeclaredNames out.stmts = []
    rcases made with ⟨-, stmts, -⟩ | ⟨content, _, _, -, given, stmts⟩
    · rw [stmts]
      rfl
    · have silent := declaredName?_of_isSizing (told_sizeArray given).1
      rw [stmts]
      exact (Stmt.listDeclaredNames_lines [content] id).trans (filterMap_cons_none silent)

theorem outside_declaredNames : IsOutside Stmt.declaredNames :=
  ⟨⟨rfl, Stmt.listDeclaredNames_eq_flatMap, rfl⟩, fun _ _ => rfl, fun _ => rfl, rfl⟩

/-- What blocks declare is collected if this holds for the blocks inside. -/
theorem hoists_inherited (ctx : Context) : Inherited ctx Emission.naming Hoists where
  view_append := Emission.naming_append
  view_remark added := by rw [Emission.naming, Emission.naming, Stmt.listDeclaredNames_addRemark? added]
  append := Hoists.append
  empty _ := ⟨rfl, rfl⟩
  blank _ := ⟨rfl, rfl⟩
  comment _ _ := ⟨rfl, rfl⟩
  leave _ _ := ⟨rfl, rfl⟩
  call given := .of_single (declaredName?_of_isAction (told_callStatement given).acts) rfl
  assignment given := .of_single (declaredName?_of_isAction (told_assignment given).2.acts) rfl
  randomize given := .of_single (declaredName?_of_isAction (told_randomize given).acts) rfl
  variableEmission ends := ends.hoists_variableEmission
  routine _ _ := by
    refine ⟨?_, (Stmt.listDeclaredNames_eq_flatMap _).trans outside_declaredNames.routineEmission⟩
    unfold routineEmission
    split_ifs <;> rfl
  classDefinition _ _ _ := ⟨rfl, rfl⟩
  clause _ opens held := by
    rw [Emission.naming_append]
    refine Hoists.append ⟨rfl, rfl⟩ ⟨held.collected, ?_⟩
    -- the braces of a clause open no space
    rcases opens with rfl | rfl
    · exact (append_nil _).trans held.stated
    · exact (append_nil _).trans held.stated
  otherwise held := ⟨held.collected, (append_nil _).trans held.stated⟩

theorem blocks_hoist (ends : Ends (blocks ctx scope [] bs) out) : Hoists scope (.ofBlocks bs) out.naming :=
  (hoists_inherited ctx).ofBlocks ends

theorem Hoists.mem_merge (hoists : Hoists scope c out.naming) {name : String} :
    name ∈ (merge out.declared).map Declaration.name ↔ ∃ v ∈ c.newVariables scope, identifier v.text = name := by
  rw [mem_names_merge, ← mem_map]
  exact iff_of_eq (congrArg (name ∈ ·) hoists.collected)

theorem listDeclaredNames_declare (declared : List Declaration) :
    Stmt.listDeclaredNames (declared.map fun d => Stmt.ofSimple (.declare d)) = declared.map Declaration.name := by
  rw [Stmt.listDeclaredNames_lines]
  exact congrFun filterMap_eq_map declared

/-- The body of a method declares its result and what has been collected, before anything else. -/
theorem listDeclaredNames_methodBody (result : Option String) (declared : List Declaration)
    (none : Stmt.listDeclaredNames stmts = []) :
    Stmt.listDeclaredNames (methodBody result declared stmts) = result.toList ++ declared.map Declaration.name := by
  rw [Stmt.listDeclaredNames_eq_flatMap] at none ⊢
  rw [flatMap_methodBody rfl, none, map_eq_flatMap]
  cases result with
  | none => exact append_nil _
  | some name => exact congrArg (name :: ·) (append_nil _)

theorem listDeclaredNames_members {inner : Emission} {members : List Stmt}
    (found : (classStmt name body inner).classMembers? = some members)
    (none : Stmt.listDeclaredNames inner.stmts = []) :
    Stmt.listDeclaredNames members = (merge inner.declared).map Declaration.name := by
  have frame : Stmt.listDeclaredNames (classFrame (identifier name.text) true (hasInitializer body)) = [] := rfl
  rw [Stmt.listDeclaredNames_eq_flatMap, flatMap_members rfl found]
  simp only [← Stmt.listDeclaredNames_eq_flatMap, listDeclaredNames_declare, frame, none, append_nil]

theorem listDeclaredNames_outermostDeclarations (asClass : Bool) (out : Emission) :
    Stmt.listDeclaredNames (outermostDeclarations asClass out) =
      (merge out.declared).map Declaration.name ++ (implicitNames out).map (identifier ·.text) := by
  rw [outermostDeclarations, Stmt.listDeclaredNames_append, listDeclaredNames_declare, Stmt.listDeclaredNames_lines]
  exact congrArg _ (congrFun filterMap_eq_map _)

/-- The outermost code declares what has been collected, and the names that nobody declares. -/
theorem ProgramMade.listDeclaredNames_outermost {source : List Block} {lowered : Lowered}
    (program : ProgramMade source lowered ctx scope out) : Stmt.listDeclaredNames lowered.outermost =
      (merge out.declared).map Declaration.name ++ (implicitNames out).map (identifier ·.text) := by
  have check : Stmt.listDeclaredNames (if ctx.asClass then [] else dateCheck lowered.dates) = [] := by
    unfold dateCheck
    split_ifs <;> rfl
  have stated : Stmt.listDeclaredNames out.stmts = [] := (blocks_hoist program.ends).stated
  rw [Stmt.listDeclaredNames_eq_flatMap, program.flatMap_outermost_outside outside_declaredNames]
  simp only [← Stmt.listDeclaredNames_eq_flatMap, Stmt.listDeclaredNames_append, check, stated,
    listDeclaredNames_outermostDeclarations, nil_append, append_nil]

end Lower

/-! ### Parameters and hoisted declarations -/

/-- The parameters of a method and the declarations at the top of it, compared with the routine that it was made
from, where `result` is the variable for its result. -/
structure IsHoisted (scope : Scope) (source : Header × List Block) (result : Option String)
    (method : Signature × List Stmt) : Prop where
  parameters : method.1.parameters.map Prod.snd = source.1.parameters.map (identifier ·.name.text)
  /-- Besides the result exactly the new variables of the body are declared. -/
  declares : ∀ name, name ∈ Stmt.listDeclaredNames method.2 ↔
    name ∈ result ∨ ∃ v ∈ (Contents.ofBlocks source.2).newVariables scope, identifier v.text = name
  /-- Each of them is declared once. -/
  once : (Stmt.listDeclaredNames method.2).Nodup
  /-- They are apart from the parameters exactly if no new variable has the identifier of a parameter. -/
  apart : (method.1.parameters.map Prod.snd ++ Stmt.listDeclaredNames method.2).Nodup ↔
    (method.1.parameters.map Prod.snd).Nodup ∧
      ∀ v ∈ (Contents.ofBlocks source.2).newVariables scope, identifier v.text ∉ method.1.parameters.map Prod.snd
  /-- A parameter that the body declares or resizes is a new variable of the body. -/
  again : ∀ p ∈ source.1.parameters, ∀ v ∈ (Contents.ofBlocks source.2).declared,
    nameKey v.2.text = nameKey p.name.text → v.2 ∈ (Contents.ofBlocks source.2).newVariables scope

/-- A routine of a scope and the method that it becomes. -/
def RoutineHoists (scope : Scope) (source : Header × List Block) (method : Signature × List Stmt) : Prop :=
  ∃ result : Option String, result.isSome = source.1.kind.returnsValue ∧
    IsHoisted (scope.ofRoutine source.1 source.2 result) source result method

/-- A class of a scope and the members that it becomes. -/
def ClassHoists (scope : Scope) (source : Token × List Block) (members : List Stmt) : Prop :=
  Forall₂ (RoutineHoists (scope.ofClass source.2)) (Contents.ofBlocks source.2).routines
    (Stmt.listMethods members)

/-- A parameter is a variable of its routine, so declaring or resizing it makes a new one. -/
theorem declaredVariable_of_parameter {scope : Scope} {header : Header} {p : Parameter} (listed : p ∈ header.parameters)
    (same : nameKey name.text = nameKey p.name.text) (isReDim : Bool) :
    (Lower.declaredVariable (scope.ofRoutine header body result) isReDim name).2 = true := by
  have known : nameKey name.text ∈ (scope.ofRoutine header body result).frame.declared.locals := by
    rw [locals_ofRoutine, same]
    apply mem_append_left
    apply mem_append_right
    exact mem_map_of_mem listed
  rw [declaredVariable_of_local (.inr _)]
  simpa [Scope.declaresLocally] using known

theorem isHoisted_of_ends {ctx : Lower.Context} {scope : Scope} {inner : Lower.Emission}
    (issued : ∀ name ∈ result, ∃ n, name = resultName n)
    (ends : Lower.Ends (Lower.blocks ctx (scope.ofRoutine source.1 source.2 result) [] source.2) inner) :
    IsHoisted (scope.ofRoutine source.1 source.2 result) source result
      (Lower.signature source.1 scope.kind (ctx.setsApart scope),
        Lower.methodBody result (merge inner.declared) inner.stmts) := by
  have hoists := Lower.blocks_hoist ends
  have names := Lower.listDeclaredNames_methodBody result (merge inner.declared) hoists.stated
  -- the result is no identifier of a name
  have noResult : ∀ name : String, identifier name ∉ result := by
    intro name member
    obtain ⟨n, same⟩ := issued _ member
    exact identifier_ne_resultName name n same
  have declares : ∀ name, name ∈ result.toList ++ (merge inner.declared).map Declaration.name ↔
      name ∈ result ∨ ∃ v ∈ (Contents.ofBlocks source.2).newVariables (scope.ofRoutine source.1 source.2 result),
        identifier v.text = name := by
    intro name
    rw [mem_append, Option.mem_toList, hoists.mem_merge]
    rfl
  have once : (result.toList ++ (merge inner.declared).map Declaration.name).Nodup := by
    rw [nodup_append]
    rw [names_merge]
    refine ⟨Option.toList_nodup result, nodup_firstTexts _, ?_⟩
    rintro name isResult _ declared rfl
    rw [← names_merge] at declared
    obtain ⟨v, -, rfl⟩ := hoists.mem_merge.mp declared
    exact noResult v.text (Option.mem_toList.mp isResult)
  have parameters : ((Lower.signature source.1 scope.kind (ctx.setsApart scope)).parameters.map Prod.snd) =
      source.1.parameters.map (identifier ·.name.text) := by
    rw [Lower.signature, map_map]
    rfl
  refine ⟨parameters, ?_, ?_, ?_, ?_⟩
  · rw [names]
    exact declares
  · rw [names]
    exact once
  · rw [names, nodup_append, parameters]
    constructor
    · rintro ⟨distinct, -, disjoint⟩
      refine ⟨distinct, fun v isNew parameter => ?_⟩
      exact disjoint _ parameter _ ((declares _).mpr (.inr ⟨v, isNew, rfl⟩)) rfl
    · rintro ⟨distinct, disjoint⟩
      refine ⟨distinct, once, ?_⟩
      rintro name parameter _ declared rfl
      rcases (declares name).mp declared with isResult | ⟨v, isNew, rfl⟩
      · obtain ⟨p, -, rfl⟩ := mem_map.mp parameter
        exact noResult _ isResult
      · exact disjoint v isNew parameter
  · rintro p listed ⟨isReDim, name⟩ declared same
    exact Contents.mem_newVariables.mpr ⟨isReDim, declared, declaredVariable_of_parameter listed same isReDim⟩

theorem routineHoists_of_made {ctx : Lower.Context} {scope : Scope} {method : Signature × List Stmt}
    (made : RoutineMade ctx scope notes source method) : RoutineHoists scope source method := by
  obtain ⟨result, inner, ends, -, rfl⟩ := made
  exact ⟨result, ends.returns, isHoisted_of_ends ends.issued ends.ends⟩

/-- The names of the parameters and of the hoisted declarations of every method of a lowered program, the methods of
its classes included. The declarations of one method never repeat a name. They repeat a parameter exactly if a new
variable of the body has its identifier, and that is so for every parameter that the body declares or resizes. -/
theorem declarations_beside_parameters (settings : Settings) (source : List Block) (lowered : Lower.Lowered)
    (success : lowerBlocks settings source = .ok lowered) :
    let kept := dropSuperseded source
    let scope := Scope.ofProgram kept settings.externalReferences
    Forall₂ (RoutineHoists scope) (Contents.ofBlocks kept).routines (Stmt.listMethods lowered.outermost) ∧
      Forall₂ (ClassHoists scope) (Contents.ofBlocks kept).classes
        (lowered.scriptClasses.filterMap Stmt.classMembers?) := by
  obtain ⟨out, program⟩ := made_of_lowerBlocks success
  constructor
  · exact program.routines.imp fun _ _ => routineHoists_of_made
  · exact program.members.imp fun _ _ made => made.routines.imp fun _ _ => routineHoists_of_made

/-- A sub with a parameter that declares a variable and resizes an array of the outermost code. -/
def resizingProgram : List Block :=
  let name := fun text => (⟨.name, text, 0⟩ : Token)
  [.declaration .dim [⟨name "g", some []⟩] 0, .routine ⟨.sub, name "S", true, false, [⟨.byRef, name "p", false⟩]⟩
      [.declaration .dim [⟨name "q", none⟩] 0,
        .declaration (.reDim false) [⟨name "g", some [[.value ⟨.number, "3", 0⟩]]⟩] 0]]

theorem declarations_beside_parameters_resizing :
    ∃ lowered method, lowerBlocks {} resizingProgram = .ok lowered ∧
      Stmt.listMethods lowered.outermost = [method] ∧ "q" ∈ Stmt.listDeclaredNames method.2 ∧
      "g" ∉ Stmt.listDeclaredNames method.2 ∧
      (method.1.parameters.map Prod.snd ++ Stmt.listDeclaredNames method.2).Nodup := by
  have run : (lowerBlocks {} resizingProgram).toOption.map (fun _ => ()) = some () := by decide +kernel
  obtain ⟨lowered, success, -⟩ := exists_of_toOption_map run
  obtain ⟨routines, -⟩ := declarations_beside_parameters {} resizingProgram lowered success
  obtain ⟨method, _, ⟨result, returns, hoisted⟩, others, methods⟩ := forall₂_cons_left_iff.mp routines
  obtain rfl := forall₂_nil_left_iff.mp others
  obtain rfl : result = none := by
    cases result with
    | none => rfl
    | some name => cases returns
  refine ⟨lowered, method, success, methods, ?_, ?_, ?_⟩
  · rw [hoisted.declares]
    decide +kernel
  · rw [hoisted.declares]
    decide +kernel
  · rw [hoisted.apart, hoisted.parameters]
    decide +kernel

/-- A sub that resizes its parameter declares it a second time. -/
theorem resized_parameter_declared_again :
    let p : Token := ⟨.name, "p", 0⟩
    let source : List Block :=
      [.routine ⟨.sub, ⟨.name, "S", 0⟩, true, false, [⟨.byRef, p, false⟩]⟩
        [.declaration (.reDim false) [⟨p, some [[.value ⟨.number, "3", 0⟩]]⟩] 0]]
    (lowerBlocks {} source).toOption.map (fun lowered => (Stmt.listMethods lowered.outermost).map fun method =>
        (method.1.parameters.map Prod.snd, Stmt.listDeclaredNames method.2)) = some [(["p"], ["p"])] := by
  decide +kernel

end VbSharp
