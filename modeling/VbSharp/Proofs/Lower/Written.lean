import Mathlib.Data.List.TakeWhile
import VbSharp.Lower.Program
import VbSharp.Scope

/-!
# What the generated code declares and refers to

The outermost code, the classes and the methods of the generated code are declaration spaces. For each
space we list the names that it declares before it refers to any variable, and the variables that it
refers to itself, outside the spaces within it.
-/
namespace VbSharp.CSharp

open List

variable {β : Type} {text name : String}

variable (s : Stmt) (content : Simple) (f : Stmt → List β)

/-! ### References -/

mutual

/-- The variables that an expression refers to. -/
def Term.references : Term → List Reference
  | .variable target => [target]
  | .support _ arguments => Term.listReferences arguments
  | .call _ arguments => Term.listReferences arguments
  | .byRef argument => argument.references
  | .objects items => Term.listReferences items
  | _ => []

def Term.listReferences : List Term → List Reference
  | [] => []
  | t :: rest => t.references ++ Term.listReferences rest

end

def Simple.references : Simple → List Reference
  | .assign target value => target.references ++ value.references
  | .expression term => term.references
  | _ => []

def Head.references : Head → List Reference
  | .branch condition => condition.references
  | .elseBranch condition => condition.references
  | _ => []

/-- Whether the statements in the braces have a declaration space of their own. -/
def Head.opensSpace : Head → Bool
  | .method _ | .classDefinition _ _ | .constructor _ _ => true
  | _ => false

mutual

/-- The variables that a statement refers to, outside the spaces within it. -/
def Stmt.references : Stmt → List Reference
  | .blank => []
  | .line content _ => content.references
  | .block head body _ =>
    if head.opensSpace then [] else head.references ++ Stmt.listReferences body

def Stmt.listReferences : List Stmt → List Reference
  | [] => []
  | s :: rest => s.references ++ Stmt.listReferences rest

end

mutual

/-- The methods and local functions of a space: their first lines and their bodies. -/
def Stmt.methods : Stmt → List (Signature × List Stmt)
  | .block (.method signature) body _ => [(signature, body)]
  | .block head body _ => if head.opensSpace then [] else Stmt.listMethods body
  | _ => []

def Stmt.listMethods : List Stmt → List (Signature × List Stmt)
  | [] => []
  | s :: rest => s.methods ++ Stmt.listMethods rest

end

namespace Stmt

variable {stmts remarked : List Stmt}

theorem listReferences_eq_flatMap (stmts : List Stmt) : listReferences stmts = stmts.flatMap references := by
  induction stmts with
  | nil => rfl
  | cons s rest ih => rw [listReferences, ih, flatMap_cons]

theorem listMethods_eq_flatMap (stmts : List Stmt) : listMethods stmts = stmts.flatMap methods := by
  induction stmts with
  | nil => rfl
  | cons s rest ih => rw [listMethods, ih, flatMap_cons]

@[simp]
theorem listReferences_nil : listReferences [] = [] := rfl

@[simp]
theorem listReferences_cons (rest : List Stmt) : listReferences (s :: rest) = s.references ++ listReferences rest := rfl

@[simp]
theorem listReferences_append (a b : List Stmt) : listReferences (a ++ b) = listReferences a ++ listReferences b := by
  simp [listReferences_eq_flatMap]

@[simp]
theorem listMethods_nil : listMethods [] = [] := rfl

@[simp]
theorem listMethods_cons (rest : List Stmt) : listMethods (s :: rest) = s.methods ++ listMethods rest := rfl

@[simp]
theorem listMethods_append (a b : List Stmt) : listMethods (a ++ b) = listMethods a ++ listMethods b := by
  simp [listMethods_eq_flatMap]

@[simp]
theorem references_blank : Stmt.blank.references = [] := rfl

@[simp]
theorem methods_blank : Stmt.blank.methods = [] := rfl

@[simp]
theorem references_ofSimple : (ofSimple content).references = content.references := rfl

@[simp]
theorem methods_ofSimple : (ofSimple content).methods = [] := rfl

/-! ### Blank lines and remarks -/

/-- A remark goes behind the last of some statements. -/
theorem exists_of_addRemark? (added : Lower.addRemark? text stmts = some remarked) :
    ∃ before last marked, stmts = before ++ [last] ∧ last.addRemark? text = some marked ∧ remarked = before ++ [marked] := by
  unfold Lower.addRemark? at added
  split at added
  · cases added
  next last before reversed =>
    obtain ⟨marked, markedLast, rfl⟩ := Option.map_eq_some_iff.mp added
    exact ⟨before.reverse, last, marked, by rw [← reverse_cons, ← reversed, reverse_reverse], markedLast, rfl⟩

/-- A remark behind some statements changes nothing that does not depend on remarks. -/
theorem flatMap_addRemark? {f : Stmt → List β} (added : Lower.addRemark? text stmts = some remarked)
    (line : ∀ content remark more, f (.line content remark) = f (.line content more) := by intros; rfl)
    (block : ∀ head body remark more, f (.block head body remark) = f (.block head body more) := by intros; rfl) :
    remarked.flatMap f = stmts.flatMap f := by
  obtain ⟨before, last, marked, rfl, markedLast, rfl⟩ := exists_of_addRemark? added
  have same : f marked = f last := by
    cases last with
    | blank => cases markedLast
    | line content remark =>
      cases markedLast
      exact line ..
    | block head body remark =>
      cases markedLast
      exact block ..
  simp [same]

/-- A remark behind some statements changes neither what they refer to nor their methods. -/
theorem listReferences_addRemark? (added : Lower.addRemark? text stmts = some remarked) :
    listReferences remarked = listReferences stmts ∧ listMethods remarked = listMethods stmts := by
  simp only [listReferences_eq_flatMap, listMethods_eq_flatMap]
  exact ⟨flatMap_addRemark? added, flatMap_addRemark? added (fun _ _ _ => rfl) fun head _ _ _ => by cases head <;> rfl⟩

/-- Only blank lines are cut away at the ends. -/
theorem trim_split (stmts : List Stmt) :
    ∃ before after, stmts = before ++ trim stmts ++ after ∧
      (∀ s ∈ before, s.isBlank = true) ∧ ∀ s ∈ after, s.isBlank = true := by
  refine ⟨stmts.takeWhile isBlank, ((stmts.dropWhile isBlank).reverse.takeWhile isBlank).reverse,
    ?_, fun s => mem_takeWhile_imp, fun s member => mem_takeWhile_imp (mem_reverse.mp member)⟩
  rw [append_assoc, trim, ← reverse_append, takeWhile_append_dropWhile, reverse_reverse, takeWhile_append_dropWhile]

theorem flatMap_blank (silent : f .blank = []) (blank : ∀ s ∈ stmts, s.isBlank = true) : stmts.flatMap f = [] := by
  rw [flatMap_eq_nil_iff]
  intro s member
  cases s with
  | blank => exact silent
  | line content remark | block head body remark => simpa [isBlank] using blank _ member

theorem flatMap_trim (silent : f .blank = []) (stmts : List Stmt) : (trim stmts).flatMap f = stmts.flatMap f := by
  obtain ⟨before, after, split, blankBefore, blankAfter⟩ := trim_split stmts
  calc (trim stmts).flatMap f = (before ++ trim stmts ++ after).flatMap f := by
        simp [flatMap_blank f silent blankBefore, flatMap_blank f silent blankAfter]
    _ = stmts.flatMap f := by rw [← split]

theorem flatMap_spaced {β : Type} (f : Stmt → List β) (silent : f .blank = [])
    (groups : List (List Stmt)) : (spaced groups).flatMap f = groups.flatten.flatMap f := by
  match groups with
  | [] => rfl
  | [group] => simp [spaced, intercalate]
  | group :: next :: rest =>
    -- the blank line behind the first group gives nothing
    have ih := flatMap_spaced f silent (next :: rest)
    simp only [spaced, intercalate, intersperse_cons_cons, flatten_cons,
      flatMap_append, flatMap_cons, flatMap_nil, silent, nil_append] at ih ⊢
    rw [ih]

end Stmt

/-- The members of a class. -/
def Stmt.classMembers? : Stmt → Option (List Stmt)
  | .block (.classDefinition _ _) members _ => some members
  | _ => none

/-! ### Declarations -/

/-- The variable that a statement declares. -/
def Stmt.declaredName? : Stmt → Option String
  | .line (.declare d) _ => some d.name
  | .line (.declareImplicit d) _ => some d.name
  | _ => none

/-- Whether a statement may stand before declarations: it has no braces and refers to no variable. -/
def Stmt.isLeading : Stmt → Bool
  | .blank => true
  | .line content _ => content.references.isEmpty
  | .block _ _ _ => false

/-- The names declared before anything refers to a variable. -/
def Stmt.leadingNames (stmts : List Stmt) : List String :=
  (stmts.takeWhile Stmt.isLeading).filterMap Stmt.declaredName?

theorem Stmt.silent_of_isLeading {stmts : List Stmt} (leading : ∀ s ∈ stmts, s.isLeading = true) :
    listReferences stmts = [] ∧ listMethods stmts = [] := by
  rw [listReferences_eq_flatMap, listMethods_eq_flatMap, flatMap_eq_nil_iff, flatMap_eq_nil_iff]
  refine ⟨fun s member => ?_, fun s member => ?_⟩
  · cases s with
    | blank => rfl
    | line content remark => simpa [isLeading, references] using leading _ member
    | block head body remark => simpa [isLeading] using leading _ member
  · cases s with
    | blank | line content remark => rfl
    | block head body remark => simpa [isLeading] using leading _ member

theorem Stmt.mem_leadingNames {first rest : List Stmt} (leading : ∀ s ∈ first, s.isLeading = true)
    (member : name ∈ first.filterMap declaredName?) : name ∈ leadingNames (first ++ rest) := by
  rw [leadingNames, takeWhile_append_of_pos leading, filterMap_append]
  exact mem_append_left _ member

/-! ### Declaration spaces -/

/-- A part of the code that declares variables. -/
structure DeclarationSpace where
  kind : FrameKind
  declared : List String
  references : List Reference
  deriving Repr, DecidableEq

namespace DeclarationSpace

/-- A space from its statements. -/
def ofStmts (kind : FrameKind) (stmts : List Stmt) : DeclarationSpace :=
  ⟨kind, Stmt.leadingNames stmts, Stmt.listReferences stmts⟩

/-- A method declares its parameters too. -/
def ofMethod (method : Signature × List Stmt) : DeclarationSpace :=
  ⟨.routine, method.1.parameters.map Prod.snd ++ Stmt.leadingNames method.2, Stmt.listReferences method.2⟩

end DeclarationSpace

/-- The spaces of a generated program: its outermost code, the routines of that, and the classes
with the routines of each. -/
structure Outline where
  outermost : DeclarationSpace
  routines : List DeclarationSpace
  classes : List (DeclarationSpace × List DeclarationSpace)
  deriving Repr, DecidableEq

/-- The outline of a program whose outermost statements and classes are given. -/
def Outline.ofStmts (outermost classes : List Stmt) : Outline :=
  ⟨.ofStmts .program outermost, (Stmt.listMethods outermost).map .ofMethod,
    (classes.filterMap Stmt.classMembers?).map fun members =>
      (.ofStmts .classBody members, (Stmt.listMethods members).map .ofMethod)⟩

end VbSharp.CSharp

namespace VbSharp.Lower

open List
open CSharp (Stmt Outline Declaration)

/-! ### The first of each key -/

theorem firstTexts_from (texts found : List String) (distinct : found.Nodup) :
    let all := texts.foldl (fun found t => if found.contains t then found else found ++ [t]) found
    all.Nodup ∧ ∀ text, text ∈ all ↔ text ∈ found ∨ text ∈ texts := by
  induction texts generalizing found with
  | nil => exact ⟨distinct, by simp⟩
  | cons t rest ih =>
    simp only [foldl_cons]
    by_cases repeated : t ∈ found
    · rw [if_pos (contains_iff_mem.mpr repeated)]
      obtain ⟨nodup, members⟩ := ih found distinct
      grind
    · rw [if_neg (by simpa using repeated)]
      have grown : (found ++ [t]).Nodup := by grind [nodup_append]
      obtain ⟨nodup, members⟩ := ih (found ++ [t]) grown
      refine ⟨nodup, fun text => ?_⟩
      rw [members, mem_append, mem_singleton, mem_cons, or_assoc]

theorem nodup_firstTexts (texts : List String) : (firstTexts texts).Nodup :=
  (firstTexts_from texts [] nodup_nil).1

theorem mem_firstTexts {texts : List String} {text : String} : text ∈ firstTexts texts ↔ text ∈ texts := by
  rw [firstTexts, (firstTexts_from texts [] nodup_nil).2]
  simp

/-- Where an item is added only with a new key, the keys are the first ones. -/
theorem map_foldl_eq_firstTexts {α : Type} {key : α → String} {add : List α → α → List α}
    (adds : ∀ found a, (add found a).map key =
      if (found.map key).contains (key a) then found.map key else found.map key ++ [key a]) (items : List α) :
    (items.foldl add []).map key = firstTexts (items.map key) := by
  rw [firstTexts, foldl_map]
  exact (foldl_hom (map key) fun found a => (adds found a).symm).symm

theorem names_merge (declarations : List Declaration) :
    (Declaration.merge declarations).map Declaration.name = firstTexts (declarations.map Declaration.name) := by
  refine map_foldl_eq_firstTexts (fun made d => ?_) declarations
  have kept : (fun e : Declaration => (if e.name == d.name then
      { e with isArray := e.isArray || d.isArray } else e).name) = Declaration.name := by
    funext e
    split <;> rfl
  have again : (made.map Declaration.name).contains d.name = made.any (·.name == d.name) := by
    rw [Bool.eq_iff_iff]
    simp
  rw [again, Declaration.insert]
  split
  · rw [map_map, Function.comp_def, kept]
  · rw [map_append, map_singleton]

theorem mem_names_merge {declarations : List Declaration} {name : String} :
    name ∈ (Declaration.merge declarations).map Declaration.name ↔ name ∈ declarations.map Declaration.name := by
  rw [names_merge, mem_firstTexts]

variable {β : Type} {declared : List Declaration} {stmts rest : List Stmt} {name : String} {token : Token}
  {body : List Block} {members : Emission}

/-! ### Bodies and classes -/

theorem isLeading_declare (declared : List Declaration) :
    ∀ s ∈ declared.map (fun d => Stmt.ofSimple (.declare d)), s.isLeading = true := by
  intro s listed
  obtain ⟨_, _, rfl⟩ := mem_map.mp listed
  rfl

theorem silent_declare (declared : List Declaration) :
    Stmt.listReferences (declared.map fun d => Stmt.ofSimple (.declare d)) = [] ∧
      Stmt.listMethods (declared.map fun d => Stmt.ofSimple (.declare d)) = [] :=
  Stmt.silent_of_isLeading (isLeading_declare declared)

/-- The body of a routine refers to what its statements refer to. -/
theorem listReferences_methodBody (result : Option String) (declared : List Declaration) (stmts : List Stmt) :
    Stmt.listReferences (methodBody result declared stmts) = Stmt.listReferences stmts := by
  cases result <;> simp only [methodBody] <;> split <;>
    simp [(silent_declare _).1, CSharp.Simple.references]

theorem mem_leadingNames_methodBody (result : Option String) (member : name ∈ declared.map Declaration.name) :
    name ∈ Stmt.leadingNames (methodBody result declared stmts) := by
  simp only [methodBody, append_assoc]
  rw [← append_assoc]
  refine Stmt.mem_leadingNames ?_ ?_
  · intro s listed
    simp only [mem_append, mem_map] at listed
    rcases listed with ⟨_, _, rfl⟩ | ⟨_, _, rfl⟩ <;> rfl
  · obtain ⟨d, listed, rfl⟩ := mem_map.mp member
    exact mem_filterMap.mpr ⟨_, mem_append_right _ (mem_map_of_mem listed), rfl⟩

theorem leadingNames_declare (member : name ∈ declared.map Declaration.name) :
    name ∈ Stmt.leadingNames (declared.map (fun d => Stmt.ofSimple (.declare d)) ++ rest) := by
  refine Stmt.mem_leadingNames (isLeading_declare declared) ?_
  obtain ⟨d, listed, rfl⟩ := mem_map.mp member
  exact mem_filterMap.mpr ⟨_, mem_map_of_mem listed, rfl⟩

/-- The members of a class are its fields, its frame, and what its body becomes. -/
theorem flatMap_members {seen : Stmt → List β} (silent : seen .blank = []) {stmts : List Stmt}
    (found : (classStmt token body members).classMembers? = some stmts) :
    stmts.flatMap seen = ((Declaration.merge members.declared).map fun d => Stmt.ofSimple (.declare d)).flatMap seen ++
        (classFrame (identifier token.text) true (hasInitializer body)).flatMap seen ++ members.stmts.flatMap seen := by
  cases found
  simp only [flatMap_append]
  split
  · next blank =>
    -- members that are all blank are left out
    rw [Stmt.flatMap_blank seen silent (all_eq_true.mp blank)]
    rfl
  · rw [flatMap_cons, silent, nil_append, Stmt.flatMap_trim seen silent]

section

variable (found : (classStmt token body members).classMembers? = some stmts)
include found

theorem listReferences_members : Stmt.listReferences stmts = Stmt.listReferences members.stmts := by
  rw [Stmt.listReferences_eq_flatMap, flatMap_members rfl found]
  simp only [← Stmt.listReferences_eq_flatMap, (silent_declare _).1, nil_append]
  rfl

theorem listMethods_members : Stmt.listMethods stmts = Stmt.listMethods members.stmts := by
  rw [Stmt.listMethods_eq_flatMap, flatMap_members rfl found]
  simp only [← Stmt.listMethods_eq_flatMap, (silent_declare _).2, nil_append]
  rfl

/-- A class declares the fields of its members. -/
theorem mem_leadingNames_members (member : name ∈ members.declared.map Declaration.name) :
    name ∈ Stmt.leadingNames stmts := by
  cases found
  rw [append_assoc]
  exact leadingNames_declare (mem_names_merge.mpr member)

end

/-- The members of the class that holds the outermost code, and the classes after it. -/
def Lowered.outerClass? (lowered : Lowered) : Option (List Stmt × List Stmt) :=
  match lowered.classes with
  | .block (.classDefinition name _) members _ :: rest =>
    if name = CSharp.outerClass then some (members, rest) else none
  | _ => none

/-- The spaces of a lowered program. Its outermost code is its body, or the first of its classes. -/
def Lowered.outline (lowered : Lowered) : Outline :=
  match lowered.outerClass? with
  | some (members, classes) => .ofStmts members classes
  | none => .ofStmts lowered.body lowered.classes

/-- The outermost code: the body, or the members of the class that holds it. -/
def Lowered.outermost (lowered : Lowered) : List Stmt :=
  (lowered.outerClass?.map Prod.fst).getD lowered.body

/-- The classes that the script defines. -/
def Lowered.scriptClasses (lowered : Lowered) : List Stmt :=
  ((lowered.outerClass?.map Prod.snd).getD lowered.classes).filter (!·.isBlank)

end VbSharp.Lower
