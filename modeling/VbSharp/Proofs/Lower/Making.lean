import Mathlib.Data.List.Forall2
import VbSharp.Proofs.Lower.Following
import VbSharp.Proofs.Lower.Written

/-!
# How methods and classes are made

Each routine of a program becomes one method, and each class one class. Here every method is traced back to the
computation that lowered the body of its routine, so that what holds for the blocks of one frame can be said about
the method. The program is put together from what its outermost blocks become.
-/
namespace VbSharp.Lower

open List CSharp.Stmt
open CSharp (Signature Stmt Declaration Head)

variable {β : Type} {ctx : Context} {scope : Scope} {c d : Contents} {out inner early late : Emission}
  {notes later : List Note} {header : Header} {name : Token} {body : List Block} {result : Option String}
  {lowered : Lowered} {settings : Settings} {source : List Block} {dates : List String} {asClass : Bool}

variable {seen : Stmt → List β} {declarations : List Stmt}

/-- Nothing is seen of blank lines and of the frame of the outermost class, and what runs it is looked into. -/
structure IsTransparent (seen : Stmt → List β) : Prop where
  blank : seen .blank = []
  run : ∀ body, seen (.ofBlock .run body) = body.flatMap seen
  frame : (classFrame CSharp.outerClass false false).flatMap seen = []

/-- Nothing is seen of routines either, which are spaces of their own. -/
structure IsOutside (seen : Stmt → List β) : Prop extends IsTransparent seen where
  method : ∀ signature body, seen (.ofBlock (.method signature) body) = []
  property : ∀ name, seen (.ofSimple (.propertyAttribute name)) = []
  default : seen (.ofSimple .defaultAttribute) = []

theorem IsOutside.routineStmts (outside : IsOutside seen) :
    (Lower.routineStmts ctx scope header result inner).flatMap seen = [] := by
  unfold Lower.routineStmts attributes
  split_ifs <;> simp [outside.method, outside.property, outside.default]

theorem IsOutside.routineEmission (outside : IsOutside seen) :
    (Lower.routineEmission ctx scope header result inner).stmts.flatMap seen = [] := by
  unfold Lower.routineEmission
  split
  · rfl
  · exact outside.routineStmts

/-- What is seen of the body of a routine. -/
theorem flatMap_methodBody (blank : seen .blank = []) (declared : List Declaration) (stmts : List Stmt) :
    (methodBody result declared stmts).flatMap seen =
      (result.toList.flatMap fun name => seen (.ofSimple (.declareResult name))) ++
        ((declared.flatMap fun d => seen (.ofSimple (.declare d))) ++ (stmts.flatMap seen ++
          result.toList.flatMap fun name => seen (.ofSimple (.leave (some name))))) := by
  simp only [methodBody, flatMap_append, flatMap_map, append_assoc]
  split
  · rfl
  · rw [flatMap_singleton, blank, nil_append]

theorem listMethods_routineStmts (header : Header) (result : Option String) (inner : Emission) :
    listMethods (routineStmts ctx scope header result inner) = [(signature header scope.kind (ctx.setsApart scope),
        methodBody result (Declaration.merge inner.declared) inner.stmts)] := by
  have attributed : listMethods (attributes header) = [] := by
    unfold attributes
    split_ifs <;> rfl
  unfold routineStmts
  split_ifs <;> simp [attributed] <;> rfl

/-- The method that a routine becomes. Its body is lowered in the scope of the routine, and what the body declares is
written in front of it. What is noted in the body is among the notes. -/
def RoutineMade (ctx : Context) (scope : Scope) (notes : List Note) (source : Header × List Block)
    (method : Signature × List Stmt) : Prop :=
  ∃ result inner, RoutineEnds ctx scope source.1 source.2 result inner ∧ inner.notes ⊆ notes ∧
    method = (signature source.1 scope.kind (ctx.setsApart scope),
      methodBody result (Declaration.merge inner.declared) inner.stmts)

/-- The class that a class becomes. -/
def ClassMade (ctx : Context) (scope : Scope) (notes : List Note) (source : Token × List Block) (s : Stmt) : Prop :=
  ∃ inner, Ends (blocks ctx (scope.ofClass source.2) [] source.2) inner ∧ inner.notes ⊆ notes ∧
    s = classStmt source.1 source.2 inner

theorem RoutineMade.mono (kept : notes ⊆ later) {source : Header × List Block} {method : Signature × List Stmt}
    (made : RoutineMade ctx scope notes source method) : RoutineMade ctx scope later source method := by
  obtain ⟨result, inner, ends, noted, same⟩ := made
  exact ⟨result, inner, ends, Subset.trans noted kept, same⟩

theorem ClassMade.mono (kept : notes ⊆ later) {source : Token × List Block} {s : Stmt}
    (made : ClassMade ctx scope notes source s) : ClassMade ctx scope later source s := by
  obtain ⟨inner, ends, noted, same⟩ := made
  exact ⟨inner, ends, Subset.trans noted kept, same⟩

/-- The methods of routines, which stand apart from the statements or among them. -/
def Emission.routines (out : Emission) (apart : Bool) : List (Signature × List Stmt) :=
  listMethods (if apart then out.methods.flatten else out.stmts)

theorem Emission.routines_append (a b : Emission) (apart : Bool) :
    (a ++ b).routines apart = a.routines apart ++ b.routines apart := by
  cases apart <;> simp [Emission.routines, Emission.append_def]

/-- The methods and classes of an emission are made from the routines and classes of its blocks. -/
structure Made (ctx : Context) (scope : Scope) (c : Contents) (out : Emission) : Prop where
  routines : Forall₂ (RoutineMade ctx scope out.notes) c.routines (out.routines (ctx.setsApart scope))
  noOthers : out.routines (!ctx.setsApart scope) = []
  together : ctx.setsApart scope = false → out.methods = []
  methods : ∀ group ∈ out.methods, ∃ header body result inner, RoutineEnds ctx scope header body result inner ∧
    group = routineStmts ctx scope header result inner
  classes : Forall₂ (ClassMade ctx scope out.notes) c.classes out.classes
  /-- Only in the outermost code there are classes. -/
  outermost : scope.kind ≠ .program → out.classes = []

namespace Made

theorem append (first : Made ctx scope c early) (second : Made ctx scope d late) :
    Made ctx scope (c ++ d) (early ++ late) where
  routines := by
    rw [Emission.routines_append]
    exact rel_append
      (first.routines.imp fun _ _ => RoutineMade.mono (subset_append_left _ _))
      (second.routines.imp fun _ _ => RoutineMade.mono (subset_append_right _ _))
  noOthers := by rw [Emission.routines_append, first.noOthers, second.noOthers, append_nil]
  together flat := by rw [Emission.append_def, first.together flat, second.together flat, append_nil]
  methods := forall_mem_append.mpr ⟨first.methods, second.methods⟩
  classes := rel_append
    (first.classes.imp fun _ _ => ClassMade.mono (subset_append_left _ _))
    (second.classes.imp fun _ _ => ClassMade.mono (subset_append_right _ _))
  outermost inside := by rw [Emission.append_def, first.outermost inside, second.outermost inside, append_nil]

/-- Blocks without routines and classes become code without methods and classes. -/
theorem plain (noMethods : listMethods out.stmts = []) (methods : out.methods = []) (classes : out.classes = [])
    (noRoutines : c.routines = []) (noClasses : c.classes = []) : Made ctx scope c out := by
  have none : ∀ apart, out.routines apart = [] := by
    intro apart
    cases apart <;> simp [Emission.routines, noMethods, methods]
  refine ⟨?_, none _, fun _ => methods, ?_, ?_, fun _ => classes⟩
  · rw [noRoutines, none]
    exact .nil
  · rw [methods]
    exact forall_mem_nil _
  · rw [noClasses, classes]
    exact .nil

/-- Remarks and the braces of clauses change no method. -/
theorem with_stmts {stmts : List Stmt} (same : listMethods stmts = listMethods out.stmts)
    (made : Made ctx scope c out) : Made ctx scope c { out with stmts := stmts } := by
  have kept : ∀ apart, ({ out with stmts := stmts } : Emission).routines apart = out.routines apart := by
    intro apart
    cases apart with
    | true => rfl
    | false => exact same
  refine ⟨?_, ?_, made.together, made.methods, made.classes, made.outermost⟩
  · rw [kept]
    exact made.routines
  · rw [kept]
    exact made.noOthers

/-- Inside a routine or a class nothing stands apart, and there are no classes. -/
theorem nested (made : Made ctx scope c out) (inside : scope.kind ≠ .program) :
    out.methods = [] ∧ out.classes = [] ∧ c.classes = [] ∧
      Forall₂ (RoutineMade ctx scope out.notes) c.routines (listMethods out.stmts) := by
  have together : ctx.setsApart scope = false := by simp [Context.setsApart, inside]
  have routines := made.routines
  have classes := made.classes
  rw [together] at routines
  rw [made.outermost inside, forall₂_nil_right_iff] at classes
  exact ⟨made.together together, made.outermost inside, classes, routines⟩

theorem admitted (made : Made ctx scope c out) : ∀ r ∈ c.routines, Admits scope.kind r.1 := by
  have all := made.routines.imp fun r method (routine : RoutineMade ctx scope out.notes r method) => by
    obtain ⟨_, _, ends, -⟩ := id routine
    exact (⟨ends.admits, routine⟩ : Admits scope.kind r.1 ∧ RoutineMade ctx scope out.notes r method)
  exact ((forall₂_and_left ..).mp all).1

/-- Nothing is seen of the routines that stand apart. -/
theorem flatMap_methods (made : Made ctx scope c out) (outside : IsOutside seen) :
    out.methods.flatten.flatMap seen = [] := by
  rw [flatMap_eq_nil_iff]
  intro s member
  obtain ⟨group, listed, inGroup⟩ := mem_flatten.mp member
  obtain ⟨header, body, result, inner, -, rfl⟩ := made.methods group listed
  exact flatMap_eq_nil_iff.mp outside.routineStmts s inGroup

theorem routine (ends : RoutineEnds ctx scope header body result inner)
    (held : Made ctx (scope.ofRoutine header body result) (.ofBlocks body) inner) :
    Made ctx scope { routines := [(header, body)] } (routineEmission ctx scope header result inner) := by
  obtain ⟨methods, classes, -⟩ := held.nested (show FrameKind.routine ≠ .program by decide)
  have own : Forall₂ (RoutineMade ctx scope inner.notes) [(header, body)]
      (listMethods (routineStmts ctx scope header result inner)) := by
    rw [listMethods_routineStmts]
    exact .cons ⟨result, inner, ends, Subset.refl _, rfl⟩ .nil
  unfold routineEmission
  rw [methods, classes]
  cases apart : ctx.setsApart scope with
  | true =>
    refine ⟨?_, ?_, ?_, ?_, .nil, fun _ => rfl⟩
    · rw [apart]
      simpa [Emission.routines] using own
    · rw [apart]
      rfl
    · rw [apart]
      nofun
    · exact forall_mem_singleton.mpr ⟨header, body, result, inner, ends, rfl⟩
  | false =>
    refine ⟨?_, ?_, fun _ => rfl, forall_mem_nil _, .nil, fun _ => rfl⟩
    · rw [apart]
      exact own
    · rw [apart]
      rfl

theorem classDefinition (isProgram : scope.kind = .program)
    (ends : Ends (blocks ctx (scope.ofClass body) [] body) inner)
    (held : Made ctx (scope.ofClass body) (.ofBlocks body) inner) : Made ctx scope { classes := [(name, body)] }
      { notes := inner.notes, methods := inner.methods, classes := inner.classes ++ [classStmt name body inner] } := by
  obtain ⟨methods, classes, -⟩ := held.nested (show FrameKind.classBody ≠ .program by decide)
  have none : ∀ apart, ({ notes := inner.notes, classes := [classStmt name body inner] } : Emission).routines apart =
      [] := by
    intro apart
    cases apart <;> rfl
  rw [methods, classes, nil_append]
  refine ⟨?_, none _, fun _ => rfl, forall_mem_nil _, .cons ⟨inner, ends, Subset.refl _, rfl⟩ .nil,
    fun inside => absurd isProgram inside⟩
  rw [none]
  exact .nil

end Made

theorem followed_made (ctx : Context) : Followed ctx (fun scope bs out => Made ctx scope (.ofBlocks bs) out)
    (fun scope rest out => Made ctx scope (.ofAlternative rest) out) where
  nil _ := .plain rfl rfl rfl rfl rfl
  append first second := by
    rw [Contents.ofBlocks_append]
    exact first.append second
  remark held _ added := by
    rw [Contents.ofBlocks_append]
    exact (Contents.append_empty _).symm ▸ held.with_stmts (listReferences_addRemark? added).2
  blank _ := .plain rfl rfl rfl rfl rfl
  comment _ _ _ := .plain rfl rfl rfl rfl rfl
  optionExplicit _ := .plain rfl rfl rfl rfl rfl
  declaration _ ends := by
    obtain ⟨methods, classes, contents, stmts, -⟩ := ends.lines_of_variableEmissions
    refine .plain ?_ methods classes rfl rfl
    rw [stmts, listMethods_eq_flatMap, flatMap_eq_nil_iff]
    exact forall_mem_map.mpr fun _ _ => rfl
  call _ := .plain rfl rfl rfl rfl rfl
  assignment _ := .plain rfl rfl rfl rfl rfl
  randomize _ := .plain rfl rfl rfl rfl rfl
  exit _ := .plain rfl rfl rfl rfl rfl
  routine ends held := by
    exact .routine ends held
  classDefinition isProgram ends held := by
    exact .classDefinition isProgram ends held
  branch _ inner others := by
    rw [Contents.ofBlocks_singleton]
    exact ((Made.plain rfl rfl rfl rfl rfl).append (inner.with_stmts (append_nil _))).append others
  none _ := .plain rfl rfl rfl rfl rfl
  elseIf _ inner others :=
    ((Made.plain rfl rfl rfl rfl rfl).append (inner.with_stmts (append_nil _))).append others
  otherwise held := held.with_stmts (append_nil _)

theorem blocks_made {bs : List Block} (ends : Ends (blocks ctx scope [] bs) out) : Made ctx scope (.ofBlocks bs) out :=
  (followed_made ctx).ofBlocks bs scope out ends

/-- The members of the class that a class becomes. -/
def MembersMade (ctx : Context) (scope : Scope) (notes : List Note) (source : Token × List Block)
    (members : List Stmt) : Prop :=
  ∃ inner, Ends (blocks ctx (scope.ofClass source.2) [] source.2) inner ∧ inner.notes ⊆ notes ∧
    (classStmt source.1 source.2 inner).classMembers? = some members

theorem membersMade_of_classMade {sources : List (Token × List Block)} {classes : List Stmt}
    (made : Forall₂ (ClassMade ctx scope notes) sources classes) :
    Forall₂ (MembersMade ctx scope notes) sources (classes.filterMap classMembers?) := by
  induction made with
  | nil => exact .nil
  | cons first _ ih =>
    obtain ⟨inner, ends, noted, rfl⟩ := first
    exact .cons ⟨inner, ends, noted, rfl⟩ ih

/-- The methods of a class are made from its routines. -/
theorem MembersMade.routines {source : Token × List Block} {members : List Stmt}
    (made : MembersMade ctx scope notes source members) :
    Forall₂ (RoutineMade ctx (scope.ofClass source.2) notes) (Contents.ofBlocks source.2).routines
      (listMethods members) := by
  obtain ⟨inner, ends, noted, found⟩ := made
  obtain ⟨-, -, -, routines⟩ := (blocks_made ends).nested (show FrameKind.classBody ≠ .program by decide)
  rw [listMethods_members found]
  exact routines.imp fun _ _ => RoutineMade.mono noted

/-! ### Programs -/

theorem flatMap_spacedClasses (f : Stmt → List β) (silent : f .blank = []) (classes : List Stmt) :
    (Stmt.spaced (classes.map ([·]))).flatMap f = classes.flatMap f := by
  rw [flatMap_spaced f silent, ← flatMap_def, flatMap_singleton']

/-- If the outermost code becomes a class, the fields stand first in it, then what makes it run, then the
routines; the classes of the script follow, with blank lines between them. -/
theorem exists_outerClass (placed : (lowered.body, lowered.classes) = arrange true dates declarations out) :
    ∃ members rest, lowered.classes = .block (.classDefinition CSharp.outerClass false) members none :: rest ∧
      members = declarations ++ (classFrame CSharp.outerClass false false ++
        ([.blank, .ofBlock .run (trim out.stmts)] ++
          if out.methods.isEmpty then [] else Stmt.blank :: Stmt.spaced out.methods)) ∧
      ∀ {β : Type} (f : Stmt → List β), f .blank = [] → rest.flatMap f = out.classes.flatMap f := by
  simp only [arrange, if_true, Prod.mk.injEq] at placed
  refine ⟨_, _, placed.2, by simp, fun f silent => ?_⟩
  rw [← flatMap_spacedClasses f silent out.classes]
  split
  · next none => rw [isEmpty_iff.mp none]
  · rw [flatMap_cons, silent, nil_append]

theorem filter_eq_flatMap (stmts : List Stmt) :
    stmts.filter (!·.isBlank) = stmts.flatMap fun s => if s.isBlank then [] else [s] := by
  induction stmts with
  | nil => rfl
  | cons s rest ih => cases blank : s.isBlank <;> simp [blank, ih]

theorem isLeading_outermostDeclarations : ∀ s ∈ outermostDeclarations asClass out, s.isLeading = true := by
  intro s member
  simp only [outermostDeclarations, mem_append, mem_map] at member
  rcases member with ⟨_, _, rfl⟩ | ⟨_, _, rfl⟩ <;> rfl

theorem isLeading_dateCheck (dates : List String) : ∀ s ∈ dateCheck dates, s.isLeading = true := by
  unfold dateCheck
  split
  · simp
  · simp only [mem_singleton, forall_eq]
    rfl

/-- Before the outermost code stand its declarations, and the check of the dates if no class is around it. -/
theorem isLeading_first : ∀ s ∈ (if asClass then [] else dateCheck dates) ++ outermostDeclarations asClass out,
    s.isLeading = true := by
  refine forall_mem_append.mpr ⟨?_, isLeading_outermostDeclarations⟩
  split
  · exact forall_mem_nil _
  · exact isLeading_dateCheck dates

theorem classes_of_arrange (placed : (lowered.body, lowered.classes) = arrange asClass dates declarations out)
    (solid : ∀ s ∈ out.classes, s.isBlank = false) (none : asClass = false → out.classes = []) :
    lowered.outerClass?.isSome = asClass ∧ lowered.scriptClasses = out.classes := by
  cases asClass with
  | true =>
    obtain ⟨members, rest, classes, -, same⟩ := exists_outerClass placed
    have found : lowered.outerClass? = some (members, rest) := by simp [Lowered.outerClass?, classes]
    have kept : rest.filter (!·.isBlank) = out.classes.filter (!·.isBlank) := by
      rw [filter_eq_flatMap, same _ rfl, filter_eq_flatMap]
    rw [Lowered.scriptClasses, found]
    exact ⟨rfl, kept.trans (filter_eq_self.mpr fun s member => by simp [solid s member])⟩
  | false =>
    simp only [arrange, Bool.false_eq_true, if_false, Prod.mk.injEq, none rfl] at placed
    have found : lowered.outerClass? = .none := by
      rw [Lowered.outerClass?, placed.2]
      rfl
    rw [Lowered.scriptClasses, found, placed.2, none rfl]
    exact ⟨rfl, rfl⟩

/-- The emission that a lowered program was put together from. -/
structure ProgramMade (source : List Block) (lowered : Lowered) (ctx : Context) (scope : Scope) (out : Emission) :
    Prop where
  ends : Ends (blocks ctx scope [] (dropSuperseded source)) out
  placed : (lowered.body, lowered.classes) =
    arrange ctx.asClass lowered.dates (outermostDeclarations ctx.asClass out) out
  dates : lowered.dates = datesToCheck out.notes
  warnings : lowered.warnings = (implicitNames out).map undeclaredWarning
  isProgram : scope.kind = .program
  held : lowered.outerClass?.isSome = ctx.asClass
  asClass : ctx.asClass = true ↔ (Contents.ofBlocks (dropSuperseded source)).classes ≠ []
  classes : lowered.scriptClasses = out.classes

theorem made_of_lowerBlocks (success : lowerBlocks settings source = .ok lowered) :
    ∃ out, ProgramMade source lowered ⟨settings.culture, lowered.outerClass?.isSome⟩
      (.ofProgram (dropSuperseded source) settings.externalReferences) out := by
  obtain ⟨out, ends, placed, dates, warnings⟩ := exists_emission success
  have made := (blocks_made ends).classes
  have asClass : (!(Scope.ofProgram (dropSuperseded source) settings.externalReferences).frame.declared.classes.isEmpty) =
      true ↔ (Contents.ofBlocks (dropSuperseded source)).classes ≠ [] := by
    have classes : (Scope.ofProgram (dropSuperseded source) settings.externalReferences).frame.declared.classes = _ :=
      (Contents.agrees_ofBlocks (dropSuperseded source)).classes
    simp [classes]
  have solid : ∀ s ∈ out.classes, s.isBlank = false := by
    have all := made.flip.imp fun s _ ⟨inner, _, _, same⟩ => (⟨by rw [same]; rfl, trivial⟩ : s.isBlank = false ∧ True)
    exact ((forall₂_and_left ..).mp all).1
  obtain ⟨held, classes⟩ := classes_of_arrange placed solid fun flat => by
    -- the source decides whether there is an outermost class, not what has been emitted
    have none := mt asClass.mpr (Bool.not_eq_true _ ▸ flat)
    rw [not_not.mp none] at made
    exact forall₂_nil_left_iff.mp made
  rw [← held] at ends placed asClass
  exact ⟨out, ends, placed, dates, warnings, rfl, rfl, asClass, classes⟩

namespace ProgramMade

variable (program : ProgramMade source lowered ctx scope out)
include program

theorem made : Made ctx scope (.ofBlocks (dropSuperseded source)) out :=
  blocks_made program.ends

theorem setsApart : ctx.setsApart scope = ctx.asClass := by
  simp [Context.setsApart, program.isProgram]

/-- The outermost code starts with its declarations. Without a class around it the dates are checked before. -/
theorem exists_rest : ∃ rest, lowered.outermost = (if ctx.asClass then [] else dateCheck lowered.dates) ++
      outermostDeclarations ctx.asClass out ++ rest ∧ ∀ {β : Type} {seen : Stmt → List β}, IsTransparent seen →
      rest.flatMap seen = out.stmts.flatMap seen ++ out.methods.flatten.flatMap seen := by
  have placed := program.placed
  have held := program.held
  cases asClass : ctx.asClass with
  | true =>
    rw [asClass] at placed
    obtain ⟨members, rest, classes, listed, -⟩ := exists_outerClass placed
    have outermost : lowered.outermost = members := by simp [Lowered.outermost, Lowered.outerClass?, classes]
    refine ⟨_, outermost.trans listed, fun {_ seen} transparent => ?_⟩
    have methods : (if out.methods.isEmpty then [] else .blank :: Stmt.spaced out.methods).flatMap seen =
        out.methods.flatten.flatMap seen := by
      split
      · next none => rw [isEmpty_iff.mp none, flatten_nil]
      · rw [flatMap_cons, transparent.blank, nil_append, flatMap_spaced _ transparent.blank]
    simp only [flatMap_append, flatMap_cons, flatMap_nil, transparent.frame, transparent.blank,
      transparent.run, flatMap_trim _ transparent.blank, methods, nil_append, append_nil]
  | false =>
    rw [asClass] at placed held
    have outermost : lowered.outermost = lowered.body := by
      rw [Lowered.outermost, Option.isSome_eq_false_iff.mp held |> Option.isNone_iff_eq_none.mp]
      rfl
    have noMethods := program.made.together (program.setsApart.trans asClass)
    simp only [arrange, Bool.false_eq_true, if_false, Prod.mk.injEq, append_assoc] at placed
    rw [← append_assoc] at placed
    refine ⟨_, outermost.trans placed.1, fun {_ seen} transparent => ?_⟩
    rw [noMethods, flatten_nil, flatMap_nil, append_nil, flatMap_append]
    split
    · rfl
    · rw [flatMap_singleton, transparent.blank, nil_append]

/-- What is seen of the outermost code. -/
theorem flatMap_outermost (transparent : IsTransparent seen) : lowered.outermost.flatMap seen =
    ((if ctx.asClass then [] else dateCheck lowered.dates) ++ outermostDeclarations ctx.asClass out).flatMap seen ++
      (out.stmts.flatMap seen ++ out.methods.flatten.flatMap seen) := by
  obtain ⟨rest, outermost, same⟩ := program.exists_rest
  rw [outermost, flatMap_append, same transparent]

theorem flatMap_outermost_outside (outside : IsOutside seen) : lowered.outermost.flatMap seen =
    ((if ctx.asClass then [] else dateCheck lowered.dates) ++ outermostDeclarations ctx.asClass out).flatMap seen ++
      out.stmts.flatMap seen := by
  rw [program.flatMap_outermost outside.toIsTransparent, program.made.flatMap_methods outside, append_nil]

/-- Each routine of the outermost code becomes a method of it. -/
theorem routines : Forall₂ (RoutineMade ctx scope out.notes) (Contents.ofBlocks (dropSuperseded source)).routines
    (listMethods lowered.outermost) := by
  have transparent : IsTransparent Stmt.methods := ⟨rfl, listMethods_eq_flatMap, rfl⟩
  have routines := program.made.routines
  have noOthers := program.made.noOthers
  rw [listMethods_eq_flatMap, program.flatMap_outermost transparent]
  simp only [← listMethods_eq_flatMap, (silent_of_isLeading isLeading_first).2, nil_append]
  cases apart : ctx.setsApart scope with
  | true =>
    rw [apart] at routines noOthers
    have none : listMethods out.stmts = [] := noOthers
    rw [none]
    exact routines
  | false =>
    rw [apart] at routines noOthers
    have none : listMethods out.methods.flatten = [] := noOthers
    rw [none, append_nil]
    exact routines

theorem members : Forall₂ (MembersMade ctx scope out.notes) (Contents.ofBlocks (dropSuperseded source)).classes
    (lowered.scriptClasses.filterMap classMembers?) := by
  rw [program.classes]
  exact membersMade_of_classMade program.made.classes

end ProgramMade

end VbSharp.Lower
