import VbSharp.Proofs.Lower.Closed

/-!
# Programs are closed

The outermost declarations come first in the body of the program or in the class that holds the
outermost code. Together with what holds for each routine and class, the whole program is closed.
-/
namespace VbSharp.Lower

open List
open CSharp (Stmt Declaration DeclarationSpace Outline)

variable {name : Token} {lowered : Lowered} {dates : List String}

/-! ### Outermost declarations -/

/-- The key of a token's text. -/
def keyOf (t : Token) : String :=
  nameKey t.text

theorem keys_firstNames (names : List Token) : (firstNames names).map keyOf = firstTexts (names.map keyOf) := by
  refine map_foldl_eq_firstTexts (fun found t => ?_) names
  have again : (found.map keyOf).contains (keyOf t) = found.any fun u => nameKey u.text == nameKey t.text := by
    rw [Bool.eq_iff_iff]
    simp [keyOf]
  rw [again]
  split
  · rfl
  · rw [map_append, map_singleton]

theorem exists_mem_firstNames {names : List Token} (member : name ∈ names) :
    ∃ first ∈ firstNames names, keyOf first = keyOf name := by
  rw [← mem_map, keys_firstNames, mem_firstTexts]
  exact mem_map_of_mem member

section Outermost

variable {asClass : Bool} {out : Emission}

theorem mem_outermostDeclarations {name : String} (member : name ∈ out.declared.map Declaration.name) :
    name ∈ (outermostDeclarations asClass out).filterMap Stmt.declaredName? := by
  obtain ⟨d, listed, rfl⟩ := mem_map.mp (mem_names_merge.mpr member)
  rw [outermostDeclarations, filterMap_append]
  exact mem_append_left _ (mem_filterMap.mpr ⟨_, mem_map_of_mem listed, rfl⟩)

/-- A noted name is declared, unless a declared variable has its identifier already. -/
theorem mem_outermostDeclarations_of_note (noted : .undeclared name ∈ out.notes) :
    identifier name.text ∈ (outermostDeclarations asClass out).filterMap Stmt.declaredName? := by
  obtain ⟨first, listed, same⟩ : ∃ first ∈ undeclaredNames out.notes, nameKey first.text = nameKey name.text :=
    exists_mem_firstNames (mem_filterMap.mpr ⟨_, noted, rfl⟩)
  rw [← identifier_eq_of_nameKey_eq same]
  by_cases explicit : (Declaration.merge out.declared).any (·.name == identifier first.text) = true
  · obtain ⟨d, declared, named⟩ := any_eq_true.mp explicit
    refine mem_outermostDeclarations (mem_names_merge.mp ?_)
    exact mem_map.mpr ⟨d, declared, by simpa using named⟩
  · rw [outermostDeclarations, filterMap_append]
    refine mem_append_right _ (mem_filterMap.mpr ⟨_, mem_map_of_mem ?_, rfl⟩)
    exact mem_filter.mpr ⟨listed, by simpa using explicit⟩

/-- The classes of a program as its outline lists them. -/
def classSpaces (classes : List (List Stmt)) : List (DeclarationSpace × List DeclarationSpace) :=
  classes.map fun members =>
    (.ofStmts .classBody members, (Stmt.listMethods members).map .ofMethod)

theorem classMembers?_filter (stmts : List Stmt) :
    (stmts.filter (!·.isBlank)).filterMap Stmt.classMembers? = stmts.filterMap Stmt.classMembers? := by
  rw [filterMap_filter]
  congr 1
  funext s
  cases s with
  | blank | line _ _ | block _ _ _ => rfl

theorem Lowered.outline_eq (lowered : Lowered) : lowered.outline =
    ⟨.ofStmts .program lowered.outermost, (Stmt.listMethods lowered.outermost).map .ofMethod,
      classSpaces (lowered.scriptClasses.filterMap Stmt.classMembers?)⟩ := by
  rw [Lowered.scriptClasses, classMembers?_filter, Lowered.outline, Lowered.outermost]
  cases lowered.outerClass? with
  | none | some => rfl

end Outermost
end VbSharp.Lower

namespace VbSharp

open List
open CSharp (Declaration DeclarationSpace Signature Stmt)
open Lower (RoutineMade ClassMade SpaceFits)

/-! ### Routines and classes -/

/-- The space of a routine is closed, where `result` is the variable for its result. -/
def RoutineClosed (scope : Scope) (around : List DeclarationSpace) (source : Header × List Block)
    (space : DeclarationSpace) : Prop :=
  ∃ result : Option String, result.isSome = source.1.kind.returnsValue ∧
    IsClosed (scope.ofRoutine source.1 source.2 result) (.ofBlocks source.2) space around

/-- The space of a class is closed, and so are the spaces of its routines. -/
def ClassClosed (scope : Scope) (around : List DeclarationSpace) (source : Token × List Block)
    (spaces : DeclarationSpace × List DeclarationSpace) : Prop :=
  IsClosed (scope.ofClass source.2) (.ofBlocks source.2) spaces.1 around ∧
    Forall₂ (RoutineClosed (scope.ofClass source.2) (spaces.1 :: around))
      (Contents.ofBlocks source.2).routines spaces.2

section Around

variable {ctx : Lower.Context} {scope : Scope} {around : List DeclarationSpace} {notes : List Note}
  (proper : scope.IsProper)
  (frames : Forall₂ FrameFits scope.frames around)
  (undeclared : ∀ name, .undeclared name ∈ notes →
    ∃ space ∈ around, space.kind = .program ∧ identifier name.text ∈ space.declared)
include proper frames undeclared

theorem routineClosed_of_made {source : Header × List Block} {method : Signature × List Stmt}
    (made : RoutineMade ctx scope notes source method) : RoutineClosed scope around source (.ofMethod method) := by
  obtain ⟨result, inner, ends, noted, rfl⟩ := made
  have fits := Lower.blocks_fit ends.ends
  have space : SpaceFits (scope.ofRoutine source.1 source.2 result) (.ofBlocks source.2) notes (.ofMethod
      (Lower.signature source.1 scope.kind (ctx.setsApart scope),
        Lower.methodBody result (Declaration.merge inner.declared) inner.stmts)) := by
    constructor
    · rw [DeclarationSpace.ofMethod, Lower.listReferences_methodBody]
      exact fits.covers.mono noted
    · intro v member isNew
      refine mem_append_right _ (Lower.mem_leadingNames_methodBody _ ?_)
      exact Lower.mem_names_merge.mpr (fits.declared v member isNew)
  have parameters : ∀ p ∈ source.1.parameters, identifier p.name.text ∈
      (Lower.signature source.1 scope.kind (ctx.setsApart scope)).parameters.map Prod.snd := by
    intro p member
    simp only [Lower.signature, map_map, mem_map]
    exact ⟨p, member, rfl⟩
  exact ⟨result, ends.returns, isClosed_of_fits (proper.ofRoutine _ _ _)
    (.cons (frameFits_ofRoutine space rfl fun p member => mem_append_left _ (parameters p member)) frames) space
    (belongTo_ofRoutine scope _ _ _) (Contents.agrees_ofBlocks _).arrays
    fun name noted => exists_mem_cons_of_exists (undeclared name noted)⟩

theorem classClosed_of_made {source : Token × List Block} {members : List Stmt}
    (made : Lower.MembersMade ctx scope notes source members) :
    ClassClosed scope around source
      (.ofStmts .classBody members, (Stmt.listMethods members).map .ofMethod) := by
  obtain ⟨inner, ends, noted, found⟩ := id made
  have fits := Lower.blocks_fit ends
  have space : SpaceFits (scope.ofClass source.2) (.ofBlocks source.2) notes (.ofStmts .classBody members) := by
    constructor
    · rw [DeclarationSpace.ofStmts, Lower.listReferences_members found]
      exact fits.covers.mono noted
    · intro v member isNew
      exact Lower.mem_leadingNames_members found (fits.declared v member isNew)
  have frame : FrameFits (scope.ofClass source.2).frame (.ofStmts .classBody members) :=
    frameFits_of_all space rfl (locals_ofClass scope source.2)
  have within : Forall₂ FrameFits (scope.ofClass source.2).frames
      (.ofStmts .classBody members :: around) := .cons frame frames
  have visible : ∀ name, .undeclared name ∈ notes → ∃ space ∈ .ofStmts .classBody members :: around,
        space.kind = .program ∧ identifier name.text ∈ space.declared :=
    fun name noted => exists_mem_cons_of_exists (undeclared name noted)
  refine ⟨isClosed_of_fits (proper.ofClass _) within space
    (belongTo_of_all (locals_ofClass scope source.2)) (Contents.agrees_ofBlocks _).arrays visible, ?_⟩
  rw [forall₂_map_right_iff]
  exact made.routines.imp fun _ _ => routineClosed_of_made (proper.ofClass _) within visible

end Around

/-! ### The program -/

/-- The outermost code of a lowered program fits the blocks that it was made from. -/
theorem Lower.ProgramMade.spaceFits {ctx : Lower.Context} {scope : Scope} {source : List Block}
    {lowered : Lower.Lowered} {out : Lower.Emission} (program : Lower.ProgramMade source lowered ctx scope out) :
    SpaceFits scope (.ofBlocks (Lower.dropSuperseded source)) out.notes (.ofStmts .program lowered.outermost) ∧
      ∀ name, .undeclared name ∈ out.notes → identifier name.text ∈ Stmt.leadingNames lowered.outermost := by
  obtain ⟨rest, outermost, -⟩ := program.exists_rest
  have fits := Lower.blocks_fit program.ends
  have declares : ∀ name ∈ (Lower.outermostDeclarations ctx.asClass out).filterMap Stmt.declaredName?,
      name ∈ Stmt.leadingNames lowered.outermost := by
    intro name member
    rw [outermost]
    refine Stmt.mem_leadingNames Lower.isLeading_first ?_
    rw [filterMap_append]
    exact mem_append_right _ member
  refine ⟨⟨?_, fun v member isNew => ?_⟩, fun name noted => ?_⟩
  · rw [DeclarationSpace.ofStmts, program.listReferences_outermost]
    exact fits.covers
  · exact declares _ (Lower.mem_outermostDeclarations (fits.declared v member isNew))
  · exact declares _ (Lower.mem_outermostDeclarations_of_note noted)

/-- The generated program is closed. Each routine and class of the source has one declaration space in
the output, in source order, and every use of a variable, in whatever part of the program it stands, is
declared in the space that resolution points to: in the method, in the class, or in the outermost code,
which is a class itself exactly if the program defines a class. -/
theorem lowerBlocks_closed (settings : Settings) (source : List Block) (lowered : Lower.Lowered)
    (success : lowerBlocks settings source = .ok lowered) :
    let kept := Lower.dropSuperseded source
    let scope := Scope.ofProgram kept settings.externalReferences
    let outermost := lowered.outline.outermost
    (lowered.outerClass?.isSome = true ↔ (Contents.ofBlocks kept).classes ≠ []) ∧
      IsClosed scope (.ofBlocks kept) outermost [] ∧
      Forall₂ (RoutineClosed scope [outermost]) (Contents.ofBlocks kept).routines
        lowered.outline.routines ∧
      Forall₂ (ClassClosed scope [outermost]) (Contents.ofBlocks kept).classes
        lowered.outline.classes := by
  intro kept scope outermost
  obtain ⟨out, program⟩ := Lower.made_of_lowerBlocks success
  obtain ⟨fits, undeclared⟩ := program.spaceFits
  have outline : outermost = .ofStmts .program lowered.outermost :=
    congrArg CSharp.Outline.outermost lowered.outline_eq
  have proper : scope.IsProper := Scope.isProper_ofProgram kept settings.externalReferences
  have locals := locals_ofProgram kept settings.externalReferences
  rw [← outline] at fits
  have kind : outermost.kind = .program := congrArg DeclarationSpace.kind outline
  have frames : Forall₂ FrameFits scope.frames [outermost] :=
    .cons (frameFits_of_all fits kind locals) .nil
  have visible : ∀ name, .undeclared name ∈ out.notes →
      ∃ space ∈ [outermost], space.kind = .program ∧ identifier name.text ∈ space.declared := by
    intro name noted
    refine ⟨outermost, mem_singleton_self _, kind, ?_⟩
    rw [outline]
    exact undeclared name noted
  refine ⟨program.asClass, ?_, ?_, ?_⟩
  · exact isClosed_of_fits proper frames fits (belongTo_of_all locals)
      (Contents.agrees_ofBlocks kept).arrays visible
  · rw [lowered.outline_eq, forall₂_map_right_iff]
    exact program.routines.imp fun _ _ => routineClosed_of_made proper frames visible
  · rw [lowered.outline_eq, Lower.classSpaces, forall₂_map_right_iff]
    exact program.members.imp fun _ _ => classClosed_of_made proper frames visible

/-- A class with a field, and a method that uses a parameter, the field, a variable of the outermost
code and a variable that nobody declares. -/
def tallyProgram : List Block :=
  let name := fun text => (⟨.name, text, 0⟩ : Token)
  let value := fun text => Segment.call [name text] []
  [.declaration .dim [⟨name "sum", none⟩] 0, .classDefinition (name "Tally")
      [.declaration .privateField [⟨name "n", none⟩] 0,
        .routine ⟨.sub, name "Add", true, false, [⟨.byVal, name "x", false⟩]⟩
          [.assignment .value [value "n"] [value "x"], .assignment .value [value "sum"] [value "y"]]]]

theorem lowerBlocks_closed_tally :
    ∃ lowered tally add, lowerBlocks {} tallyProgram = .ok lowered ∧
      lowered.outerClass?.isSome = true ∧ lowered.outline.classes = [(tally, [add])] ∧
      ⟨true, "sum"⟩ ∈ add.references ∧ "sum" ∈ lowered.outline.outermost.declared ∧
      ⟨true, "y"⟩ ∈ add.references ∧ "y" ∈ lowered.outline.outermost.declared ∧
      ⟨false, "n"⟩ ∈ add.references ∧ "n" ∈ tally.declared := by
  obtain ⟨lowered, success⟩ : ∃ lowered, lowerBlocks {} tallyProgram = .ok lowered := by
    have ok : (lowerBlocks {} tallyProgram).isOk = true := by decide +kernel
    cases result : lowerBlocks {} tallyProgram with
    | error fault =>
      rw [result] at ok
      cases ok
    | ok lowered => exact ⟨lowered, rfl⟩
  obtain ⟨asClass, _, _, classes⟩ := lowerBlocks_closed {} tallyProgram lowered success
  obtain ⟨⟨tally, methods⟩, _, ⟨_, related⟩, noClass, sameClasses⟩ :=
    forall₂_cons_left_iff.mp classes
  obtain ⟨add, _, ⟨result, returns, closed⟩, noMethod, sameMethods⟩ :=
    forall₂_cons_left_iff.mp related
  obtain rfl : result = none := by
    cases result with
    | none => rfl
    | some name => cases returns
  have kinds : [add.kind, tally.kind, lowered.outline.outermost.kind] =
      [.routine, .classBody, .program] := closed.kinds
  simp only [cons.injEq, and_true] at kinds
  have inProgram : ∀ space ∈ [add, tally, lowered.outline.outermost], space.kind = .program →
      space = lowered.outline.outermost := by simp [kinds]
  have inClass : ∀ space ∈ [add, tally, lowered.outline.outermost], space.kind = .classBody →
      space = tally := by simp [kinds]
  obtain ⟨sum, _, space, listed, kind, sumDeclared⟩ := closed.uses ⟨⟨.name, "sum", 0⟩, .target⟩
    (by decide +kernel) ⟨true, "sum"⟩ (by decide +kernel)
  rw [inProgram space listed (kind.trans (by decide +kernel))] at sumDeclared
  obtain ⟨y, _, space, listed, kind, yDeclared⟩ := closed.uses ⟨⟨.name, "y", 0⟩, .value⟩
    (by decide +kernel) ⟨true, "y"⟩ (by decide +kernel)
  rw [inProgram space listed (kind.trans (by decide +kernel))] at yDeclared
  obtain ⟨n, _, space, listed, kind, nDeclared⟩ := closed.uses ⟨⟨.name, "n", 0⟩, .target⟩
    (by decide +kernel) ⟨false, "n"⟩ (by decide +kernel)
  rw [inClass space listed (kind.trans (by decide +kernel))] at nDeclared
  obtain rfl := forall₂_nil_left_iff.mp noClass
  obtain rfl := forall₂_nil_left_iff.mp noMethod
  obtain rfl : methods = [add] := sameMethods
  exact ⟨lowered, tally, add, success, asClass.mpr (cons_ne_nil _ _), sameClasses, sum,
    sumDeclared, y, yDeclared, n, nDeclared⟩

end VbSharp
