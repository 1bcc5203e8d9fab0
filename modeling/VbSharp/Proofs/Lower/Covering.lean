import VbSharp.Proofs.Lower.Telling

/-!
# Every use is written

Lowering writes a variable for each use that stands for one, and no other variables; and its notes tell exactly
which of the uses nobody declares.
-/
namespace VbSharp

open List Element
open CSharp (Mark Reference Simple Term)

variable {name : Token} {e right left : Expr} {kind : AssignKind} {seed : Option Expr} {preserve isReDim : Bool}
  {bounds : List Expr}

@[simp]
theorem Scope.written?_array (s : Scope) (name : Token) (isReDim : Bool) :
    s.written? ⟨name, .array isReDim⟩ = some (Lower.declaredVariable s isReDim name).1 := rfl

/-- The references are the variables written for the uses, and the notes tell which of the uses nobody
declares. -/
structure Covers (s : Scope) (uses : List Use) (references : List Reference) (notes : List Note) :
    Prop where
  written : ∀ r, r ∈ references ↔ ∃ u ∈ uses, s.written? u = some r
  noted : ∀ u ∈ uses, u.isArray = false → ∀ r, s.meaning u = .undeclared r → .undeclared u.name ∈ notes

namespace Covers

variable {s : Scope} {uses more : List Use} {references others : List Reference}
  {notes later : List Note}

theorem nil : Covers s [] [] [] := by
  constructor <;> simp

theorem append (first : Covers s uses references notes) (second : Covers s more others later) :
    Covers s (uses ++ more) (references ++ others) (notes ++ later) where
  written := by
    intro r
    simp only [mem_append, first.written, second.written, or_and_right, exists_or]
  noted := by
    intro u member plain r meaning
    rcases mem_append.mp member with used | used
    · exact mem_append_left _ (first.noted u used plain r meaning)
    · exact mem_append_right _ (second.noted u used plain r meaning)

theorem mono (covers : Covers s uses references notes) (kept : notes ⊆ later) : Covers s uses references later where
  written := covers.written
  noted u member plain r meaning := kept (covers.noted u member plain r meaning)

end Covers

/-- Whether a name means a variable that nobody declares. -/
def Meaning.isUndeclared : Meaning → Bool
  | .undeclared _ => true
  | _ => false

/-- The names among some uses that nobody declares. The array that a declaration makes is declared by it. -/
def Scope.undeclaredAmong (s : Scope) (uses : List Use) : List Token :=
  (uses.filter fun u => !u.isArray && (s.meaning u).isUndeclared).map Use.name

theorem Scope.mem_undeclaredAmong {s : Scope} {uses : List Use} :
    name ∈ s.undeclaredAmong uses ↔
      ∃ u ∈ uses, u.isArray = false ∧ (s.meaning u).isUndeclared = true ∧ u.name = name := by
  simp [Scope.undeclaredAmong, and_assoc]

@[simp]
theorem Scope.undeclaredAmong_nil (s : Scope) : s.undeclaredAmong [] = [] := rfl

/-- The notes tell exactly which of the uses nobody declares. -/
def NotesExactly (s : Scope) (uses : List Use) (notes : List Note) : Prop :=
  ∀ name, .undeclared name ∈ notes ↔ name ∈ s.undeclaredAmong uses

/-! ### Uses are elements -/

mutual

theorem Segment.uses_eq (inChain : Bool) : (s : Segment) →
    (if inChain then [] else s.root?.toList) ++ s.innerUses = (s.elements inChain).filterMap use?
  | .call [] _ | .operator _ | .value _ | .new _ => by cases inChain <;> rfl
  | .call (name :: names) arguments => by
    have members : (names.map Element.member).filterMap use? = [] := by simp [use?]
    rw [Segment.innerUses, Segment.elements, Expr.listUses_eq arguments, filterMap_cons,
      filterMap_append, members, nil_append]
    cases inChain <;> rfl
  | .bracketed inner => by
    rw [Segment.innerUses, Segment.elements, Expr.usesFrom_eq false inner]
    cases inChain <;> rfl

theorem Expr.usesFrom_eq (inChain : Bool) : (e : List Segment) →
    Expr.usesFrom inChain e = (Expr.elementsFrom inChain e).filterMap use?
  | [] => rfl
  | s :: rest => by
    rw [Expr.usesFrom, Expr.elementsFrom, s.uses_eq, Expr.usesFrom_eq _ rest, filterMap_append]

theorem Expr.listUses_eq : (es : List (List Segment)) → Expr.listUses es = (Expr.listElements es).filterMap use?
  | [] => rfl
  | e :: rest => by
    rw [Expr.listUses, Expr.listElements, Expr.usesFrom_eq false e, Expr.listUses_eq rest, filterMap_append]

end

theorem Expr.uses_eq (e : Expr) : Expr.uses e = (Expr.elements e).filterMap use? :=
  Expr.usesFrom_eq false e

theorem Expr.chainNames_eq (e : Expr) : chainNames e = (steps e).map Prod.fst := by
  induction e with
  | nil => rfl
  | cons s rest ih =>
    cases s with
    | call names arguments =>
      change names ++ chainNames rest = (stepsOfCall names arguments ++ steps rest).map Prod.fst
      rw [map_append, fst_stepsOfCall, ih]
    | value token | operator token | bracketed inner | new className => exact ih

theorem Expr.targetUses_eq (chained : Expr.isChain e = true) :
    Expr.targetUses e = (Lower.targetElements (steps e)).filterMap use? := by
  rw [targetUses, chainNames_eq, usesFrom_eq, elementsFrom_chain true e (calls_of_isChain chained), chainElements_true]
  cases steps e with
  | nil => rfl
  | cons first rest =>
    cases rest with
    | nil => simp [Use.ofTarget, Lower.targetElements, memberElements, use?, filterMap_cons]
    | cons next rest =>
      simp [Use.ofTarget, Lower.targetElements, chainElements, memberElements, use?, filterMap_cons]

/-! ### What code tells of uses -/

namespace Tells

variable {site : Site} {elements : List Element} {marks : List Mark} {notes : List Note}

theorem notesExactly (tells : Tells site elements marks notes) :
    NotesExactly site.scope (elements.filterMap use?) notes := by
  intro name
  have noted (x : Element) : .undeclared name ∈ x.notes site ↔
      ∃ u, x.use? = some u ∧ u.isArray = false ∧ (site.scope.meaning u).isUndeclared = true ∧ u.name = name := by
    cases x with
    | use u =>
      by_cases isArray : u.isArray = true
      · simp [Element.notes, use?, isArray]
      · have plain : u.isArray = false := by simpa using isArray
        rw [Element.notes, plain]
        cases meant : site.scope.meaning u with
        | undeclared r =>
          simp only [Bool.false_eq_true, if_false, Meaning.notes, mem_singleton, Note.undeclared.injEq,
            use?, Option.some.injEq, exists_eq_left', plain, meant, Meaning.isUndeclared, true_and]
          exact eq_comm
        | _ => simp [Meaning.notes, use?, meant, Meaning.isUndeclared]
    | value t =>
      rw [Element.notes]
      split <;> simp [use?]
    | member name | new className => simp [Element.notes, use?]
  simp only [tells.noted, noted, Scope.mem_undeclaredAmong, mem_filterMap]
  constructor
  · rintro ⟨x, listed, u, same, missing⟩
    exact ⟨u, ⟨x, listed, same⟩, missing⟩
  · rintro ⟨u, ⟨x, listed, same⟩, missing⟩
    exact ⟨x, listed, u, same, missing⟩

theorem covers (tells : Tells site elements marks notes) :
    Covers site.scope (elements.filterMap use?) (marks.filterMap Mark.variable?) notes where
  written r := by
    have marked : r ∈ marks.filterMap Mark.variable? ↔ .variable r ∈ marks := by
      rw [mem_filterMap]
      constructor
      · rintro ⟨m, member, same⟩
        cases m with
        | «variable» target =>
          cases same
          exact member
        | _ => cases same
      · intro member
        exact ⟨_, member, rfl⟩
    -- only uses leave variables
    have left (x : Element) : .variable r ∈ x.marks site.scope ↔
        ∃ u, x.use? = some u ∧ site.scope.written? u = some r := by
      cases x with
      | use u => simp [mem_marks_use, use?]
      | value t =>
        rw [Element.marks]
        split <;> simp [use?]
      | member name => simp [Element.marks, use?]
      | new className =>
        rw [Element.marks]
        split <;> simp [use?]
    simp only [marked, tells.left (.variable r) rfl, left, mem_filterMap]
    constructor
    · rintro ⟨x, listed, u, same, written⟩
      exact ⟨u, ⟨x, listed, same⟩, written⟩
    · rintro ⟨u, ⟨x, listed, same⟩, written⟩
      exact ⟨x, listed, u, same, written⟩
  noted u used plain r meant := by
    rw [tells.notesExactly u.name]
    exact Scope.mem_undeclaredAmong.mpr ⟨u, used, plain, by rw [meant]; rfl, rfl⟩

end Tells

namespace Lower

variable {site : Site} {content : Simple} {elements : List Element} {notes : List Note}

/-- Lines are made of the uses and nothing else, and the notes tell which of them nobody declares. -/
structure Accounts (s : Scope) (uses : List Use) (references : List Reference) (notes : List Note) : Prop where
  covers : Covers s uses references notes
  exactly : NotesExactly s uses notes

theorem accounts_line (tells : Tells site elements content.marks notes) :
    Accounts site.scope (elements.filterMap use?) content.references notes := by
  rw [content.references_eq]
  exact ⟨tells.covers, tells.notesExactly⟩

theorem accounts_callStatement (given : (callStatement site e).Gives content notes) :
    Accounts site.scope (Expr.uses e) content.references notes := by
  rw [Expr.uses_eq]
  exact accounts_line (told_callStatement given).tells

theorem accounts_assignment (given : (assignment site kind left right).Gives content notes) :
    Accounts site.scope (Expr.targetUses left ++ Expr.uses right) content.references notes := by
  obtain ⟨chained, does⟩ := told_assignment given
  rw [Expr.targetUses_eq chained, Expr.uses_eq, ← filterMap_append]
  exact accounts_line does.tells

theorem accounts_condition {test : Term} (given : (condition site e).Gives test notes) :
    Accounts site.scope (Expr.uses e) test.references notes := by
  rw [Expr.uses_eq, test.references_eq]
  exact ⟨(told_condition given).covers, (told_condition given).notesExactly⟩

theorem accounts_randomize (given : (randomize site seed).Gives content notes) :
    Accounts site.scope (seed.toList.flatMap Expr.uses) content.references notes := by
  have uses : seed.toList.flatMap Expr.uses = (Expr.listElements seed.toList).filterMap use? := by
    cases seed with
    | none => rfl
    | some e => simp [Expr.uses_eq, Expr.elements, Expr.listElements]
  rw [uses]
  exact accounts_line (told_randomize given).tells

/-- The array that a declaration makes is written, and so is what its bounds use. -/
theorem accounts_sizeArray (given : (sizeArray site (declaredVariable site.scope isReDim name).1 preserve bounds).Gives
      content notes) : Accounts site.scope (⟨name, .array isReDim⟩ :: Expr.listUses bounds) content.references notes := by
  rw [Expr.listUses_eq]
  exact accounts_line (told_sizeArray given).2.tells

end Lower
end VbSharp
