import VbSharp.Proofs.Lower.Block

/-!
# The generated program is closed

Resolution works on frames that are made from the whole source beforehand; declarations are collected
while the code is lowered. Here the two are shown to agree: every variable that the generated code
refers to is declared in the declaration space that resolution points to.
-/
namespace VbSharp

open List Scope
open CSharp (Reference DeclarationSpace Outline Stmt)

variable {u : Use} {spaces : List DeclarationSpace} {resized : Bool}

/-! ### Frames and spaces -/

/-- The blocks of a scope are closed in a declaration space of their own and the spaces around it. -/
structure IsClosed (scope : Scope) (c : Contents) (own : DeclarationSpace)
    (around : List DeclarationSpace) : Prop where
  /-- The spaces belong to the frames of the scope, from the inside out. -/
  kinds : (own :: around).map DeclarationSpace.kind = scope.frames.map Frame.kind
  /-- A use that stands for a variable is written in the space itself, and declared in the space of the
  frame that owns the name. It goes through `_outer` exactly if it stands inside a class and the
  outermost code owns the name. -/
  uses : ∀ u ∈ c.uses, ∀ r, (scope.meaning u).target? = some r → r ∈ own.references ∧
      r = ⟨scope.owner u.name == .program && scope.isWithinClass, identifier u.name.text⟩ ∧
      ∃ space ∈ own :: around, space.kind = scope.owner u.name ∧ identifier u.name.text ∈ space.declared
  /-- So is a variable that is declared or resized, used or not. -/
  declarations : ∀ v ∈ c.declared, ∀ r, (scope.resolve v.2).target? = some r →
    ∃ space ∈ own :: around, space.kind = scope.owner v.2 ∧ identifier v.2.text ∈ space.declared
  /-- All references of the space are declared where they are looked for. -/
  references : ∀ r ∈ own.references, ∃ space ∈ own :: around, r.name ∈ space.declared ∧
    (r.outer = true ↔ space.kind = .program ∧ scope.isWithinClass = true)

/-- The space declares all variables of the frame. -/
def FrameFits (f : Frame) (space : DeclarationSpace) : Prop :=
  space.kind = f.kind ∧ ∀ name, nameKey name ∈ f.declared.locals → identifier name ∈ space.declared

/-- The variables that blocks declare are known to the scope of the blocks. -/
def Contents.BelongTo (c : Contents) (scope : Scope) : Prop :=
  ∀ v ∈ c.declared, (v.1 = false → scope.declaresLocally v.2 = true) ∧ scope.hasVariable (nameKey v.2.text) = true

namespace Lower

variable {scope : Scope} {name : Token} {isReDim : Bool} {r : Reference}

theorem declaredVariable_of_local (known : isReDim = false ∨ scope.declaresLocally name = true) :
    declaredVariable scope isReDim name = (⟨false, identifier name.text⟩, true) := by
  unfold declaredVariable
  split
  · rcases known with rfl | known
    · simp
    · simp [known]
  · rfl

theorem declaredVariable_cases (scope : Scope) (isReDim : Bool) (name : Token) :
    (declaredVariable scope isReDim name).2 = true ∨
      scope.resolve name = .variable (declaredVariable scope isReDim name).1 := by
  unfold declaredVariable
  split
  · next target resolved =>
    split
    · exact .inr resolved
    · exact .inl rfl
  · exact .inl rfl

/-- The array that a declaration makes is the variable that its name resolves to. -/
theorem declaredVariable_of_resolve (proper : scope.IsProper)
    (known : isReDim = false → scope.declaresLocally name = true)
    (resolved : scope.resolve name = .variable r) : (declaredVariable scope isReDim name).1 = r := by
  by_cases own : scope.declaresLocally name = true
  · rw [declaredVariable_of_local (.inr own)]
    have written := reference_of_target? proper (by rw [resolved]; rfl :
      (scope.resolve name).target? = some r)
    rw [written, owner_of_declaresLocally own]
    cases kind : scope.kind with
    | program => simp [proper.apart kind]
    | classBody | routine => rfl
  · have resizes : isReDim = true := by
      cases isReDim with
      | true => rfl
      | false => exact absurd (known rfl) own
    simp [declaredVariable, resolved, resizes, own]

end Lower

namespace Scope

end Scope

/-! ### A space that fits is closed -/

section Closing

variable {scope : Scope} {c : Contents} {notes : List Note} {own : DeclarationSpace}
  {around : List DeclarationSpace}

theorem kinds_of_frames {frames : List Frame} (fit : Forall₂ FrameFits frames spaces) :
    spaces.map DeclarationSpace.kind = frames.map Frame.kind := by
  induction fit with
  | nil => rfl
  | cons fits _ ih => rw [map_cons, map_cons, fits.1, ih]

theorem exists_space_of_frame {frames : List Frame} (fit : Forall₂ FrameFits frames spaces) {f : Frame}
    (member : f ∈ frames) {name : String} (known : nameKey name ∈ f.declared.locals) :
    ∃ space ∈ spaces, space.kind = f.kind ∧ identifier name ∈ space.declared := by
  induction fit with
  | nil => cases member
  | @cons g space frames spaces fits _ ih =>
    rcases mem_cons.mp member with rfl | later
    · exact ⟨space, mem_cons_self, fits.1, fits.2 name known⟩
    · obtain ⟨found, listed, same⟩ := ih later
      exact ⟨found, mem_cons_of_mem space listed, same⟩

/-- What resolution says about a variable holds of the spaces that fit its frames. -/
theorem declared_of_resolve (proper : scope.IsProper) (frames : Forall₂ FrameFits scope.frames (own :: around))
    {name : Token} {r : Reference} (resolved : (scope.resolve name).target? = some r)
    (outermost : scope.resolve name = .undeclared r →
      ∃ space ∈ own :: around, space.kind = .program ∧ identifier name.text ∈ space.declared) :
    r = ⟨scope.owner name == .program && scope.isWithinClass, identifier name.text⟩ ∧
      ∃ space ∈ own :: around, space.kind = scope.owner name ∧ identifier name.text ∈ space.declared := by
  refine ⟨reference_of_target? proper resolved, ?_⟩
  rcases Meaning.target?_eq_some_iff.mp resolved with declared | undeclared
  · obtain ⟨f, member, known, owned, _⟩ := variable_of_resolve declared
    rw [owned]
    exact exists_space_of_frame frames member known
  · rw [(undeclared_of_resolve proper undeclared).2.1]
    exact outermost undeclared

/-- What is written for a use is the variable that it stands for. -/
theorem written?_of_meaning (proper : scope.IsProper) (belong : c.BelongTo scope)
    (arrays : ∀ u ∈ c.uses, ∀ resized, u.role = .array resized → (resized, u.name) ∈ c.declared) (member : u ∈ c.uses)
    {r : Reference} (meaning : (scope.meaning u).target? = some r) :
    scope.written? u = some r ∧ (u.isArray = true → scope.resolve u.name ≠ .undeclared r) := by
  match u, meaning with
  | ⟨name, .value⟩, meaning | ⟨name, .target⟩, meaning => exact ⟨meaning, by simp [Use.isArray]⟩
  | ⟨name, .array isReDim⟩, meaning =>
    obtain ⟨own, visible⟩ := belong _ (arrays _ member isReDim rfl)
    have declared : scope.resolve name ≠ .undeclared r := by
      intro undeclared
      simp [(undeclared_of_resolve proper undeclared).1] at visible
    have resolved : scope.resolve name = .variable r :=
      (Meaning.target?_eq_some_iff.mp meaning).resolve_right declared
    refine ⟨?_, fun _ => declared⟩
    rw [written?_array, Lower.declaredVariable_of_resolve proper own resolved]

section Fitting

variable (proper : scope.IsProper) (frames : Forall₂ FrameFits scope.frames (own :: around))
  (fits : Lower.SpaceFits scope c notes own) (belong : c.BelongTo scope)
  (arrays : ∀ u ∈ c.uses, ∀ resized, u.role = .array resized → (resized, u.name) ∈ c.declared)

include frames fits arrays in
/-- A reference of the space is a variable that some use stands for, or a new array of the space. -/
theorem references_of_fits {r : Reference} (written : r ∈ own.references) :
    (∃ u ∈ c.uses, (scope.meaning u).target? = some r) ∨
      r.outer = false ∧ r.name ∈ own.declared ∧ own.kind = scope.kind := by
  obtain ⟨u, member, found⟩ := (fits.covers.written r).mp written
  match u, found with
  | ⟨name, .value⟩, found | ⟨name, .target⟩, found => exact .inl ⟨_, member, found⟩
  | ⟨name, .array isReDim⟩, found =>
    rw [written?_array, Option.some.injEq] at found
    rcases Lower.declaredVariable_cases scope isReDim name with isNew | resolved
    · have declared := fits.declared _ (arrays _ member isReDim rfl) isNew
      rw [Lower.declaredVariable_of_isNew isNew] at found
      subst found
      exact .inr ⟨rfl, declared, (forall₂_cons.mp frames).1.1⟩
    · refine .inl ⟨_, member, ?_⟩
      change (scope.resolve name).target? = some r
      rw [resolved, found, Meaning.target?]

include proper frames belong

theorem declarations_of_fits {v : Bool × Token} (member : v ∈ c.declared) {r : Reference}
    (resolved : (scope.resolve v.2).target? = some r) :
    ∃ space ∈ own :: around, space.kind = scope.owner v.2 ∧ identifier v.2.text ∈ space.declared := by
  refine (declared_of_resolve proper frames resolved fun unknown => ?_).2
  -- some frame has the variable, so its name is not unknown
  have visible := (belong v member).2
  rw [(undeclared_of_resolve proper unknown).1] at visible
  cases visible

include fits arrays

section

variable (undeclared : ∀ name, .undeclared name ∈ notes → ∃ space ∈ own :: around, space.kind = .program ∧ identifier name.text ∈ space.declared)
include undeclared

/-- A use that stands for a variable is written as that variable, and declared where it belongs. -/
theorem uses_of_fits (member : u ∈ c.uses) {r : Reference} (meaning : (scope.meaning u).target? = some r) :
    r ∈ own.references ∧ r = ⟨scope.owner u.name == .program && scope.isWithinClass, identifier u.name.text⟩ ∧
      ∃ space ∈ own :: around, space.kind = scope.owner u.name ∧ identifier u.name.text ∈ space.declared := by
  have same := Scope.resolve_of_meaning meaning
  obtain ⟨written, declared⟩ := written?_of_meaning proper belong arrays member meaning
  refine ⟨(fits.covers.written r).mpr ⟨u, member, written⟩,
    declared_of_resolve proper frames (by rw [← same, meaning]) fun unknown => ?_⟩
  cases array : u.isArray with
  | true => exact absurd unknown (declared array)
  | false => exact undeclared u.name (fits.covers.noted u member array r (same.trans unknown))

/-- A space that fits its scope is closed if the spaces around it fit the frames around it. -/
theorem isClosed_of_fits :
    IsClosed scope c own around where
  kinds := kinds_of_frames frames
  uses := fun _ member _ meaning =>
    uses_of_fits proper frames fits belong arrays undeclared member meaning
  declarations := fun _ member _ resolved =>
    declarations_of_fits proper frames belong member resolved
  references := by
    intro r written
    rcases references_of_fits frames fits arrays written with
      ⟨u, member, meaning⟩ | ⟨plain, declared, kind⟩
    · obtain ⟨_, rfl, space, listed, owned, declared⟩ :=
        uses_of_fits proper frames fits belong arrays undeclared member meaning
      exact ⟨space, listed, declared, by simp [owned]⟩
    · refine ⟨own, mem_cons_self, declared, by simp [plain], fun ⟨isProgram, within⟩ => ?_⟩
      rw [proper.apart (kind.symm.trans isProgram)] at within
      cases within

end

end Fitting
end Closing

/-! ### The frames of a program -/

theorem Contents.mem_keys {c : Contents} {key : String} :
    key ∈ c.keys resized ↔ ∃ name, (resized, name) ∈ c.declared ∧ nameKey name.text = key := by
  simp only [Contents.keys, mem_map, mem_filter, beq_iff_eq]
  constructor
  · rintro ⟨v, ⟨member, rfl⟩, rfl⟩
    exact ⟨v.2, member, rfl⟩
  · rintro ⟨name, member, rfl⟩
    exact ⟨(resized, name), ⟨member, rfl⟩, rfl⟩

/-- A space that fits declares the variables of its frame: those that are declared outright, and the
resized ones that the frame has. -/
theorem Lower.SpaceFits.declares {scope : Scope} {c : Contents} {notes : List Note} {space : DeclarationSpace}
    (fits : Lower.SpaceFits scope c notes space) {name : String} (known : nameKey name ∈ c.keys resized)
    (own : resized = false ∨ nameKey name ∈ scope.frame.declared.locals) : identifier name ∈ space.declared := by
  obtain ⟨spelling, member, same⟩ := Contents.mem_keys.mp known
  have isNew : (declaredVariable scope resized spelling).2 = true := by
    rw [declaredVariable_of_local (own.imp id fun own => ?_)]
    simpa [declaresLocally, same] using own
  rw [← identifier_eq_of_nameKey_eq same]
  exact fits.declared (resized, spelling) member isNew

section Frames

variable {c : Contents} {notes : List Note} {space : DeclarationSpace}

theorem frameFits_of_all {scope : Scope} (fits : Lower.SpaceFits scope c notes space) (kind : space.kind = scope.kind)
    (locals : scope.frame.declared.locals = c.keys false ++ c.keys true) : FrameFits scope.frame space := by
  refine ⟨kind, fun name known => ?_⟩
  rcases mem_append.mp (locals ▸ known) with outright | resized
  · exact fits.declares outright (.inl rfl)
  · exact fits.declares resized (.inr known)

theorem belongTo_of_all {scope : Scope}
    (locals : scope.frame.declared.locals = c.keys false ++ c.keys true) : c.BelongTo scope := by
  rintro ⟨resized, name⟩ member
  have own : nameKey name.text ∈ scope.frame.declared.locals := by
    rw [locals, mem_append, Contents.mem_keys, Contents.mem_keys]
    cases resized with
    | false => exact .inl ⟨name, member, rfl⟩
    | true => exact .inr ⟨name, member, rfl⟩
  exact ⟨fun _ => by simpa [declaresLocally] using own,
    by simp [hasVariable, Scope.frames, own]⟩

theorem locals_ofProgram (blocks : List Block) (externals : List String) :
    (Scope.ofProgram blocks externals).frame.declared.locals =
      (Contents.ofBlocks blocks).keys false ++ (Contents.ofBlocks blocks).keys true := by
  have agrees := Contents.agrees_ofBlocks blocks
  rw [← agrees.locals, ← agrees.resized]
  rfl

theorem locals_ofClass (scope : Scope) (body : List Block) :
    (scope.ofClass body).frame.declared.locals =
      (Contents.ofBlocks body).keys false ++ (Contents.ofBlocks body).keys true := by
  have agrees := Contents.agrees_ofBlocks body
  rw [← agrees.locals, ← agrees.resized]
  rfl

theorem locals_ofRoutine (scope : Scope) (header : Header) (body : List Block) (result : Option String) :
    (scope.ofRoutine header body result).frame.declared.locals =
      (Contents.ofBlocks body).keys false ++ header.parameters.map (nameKey ·.name.text) ++
        ((Contents.ofBlocks body).keys true).filter (!scope.hasVariable ·) := by
  have agrees := Contents.agrees_ofBlocks body
  rw [← agrees.locals, ← agrees.resized]
  rfl

theorem frameFits_ofRoutine {scope : Scope} {header : Header} {body : List Block} {result : Option String}
    (fits : Lower.SpaceFits (scope.ofRoutine header body result) (.ofBlocks body) notes space)
    (kind : space.kind = .routine) (parameters : ∀ p ∈ header.parameters, identifier p.name.text ∈ space.declared) :
    FrameFits (scope.ofRoutine header body result).frame space := by
  refine ⟨kind, fun name known => ?_⟩
  have listed := known
  simp only [locals_ofRoutine, mem_append, mem_filter] at listed
  rcases listed with (outright | parameter) | ⟨resized, _⟩
  · exact fits.declares outright (.inl rfl)
  · obtain ⟨p, member, same⟩ := mem_map.mp parameter
    rw [← identifier_eq_of_nameKey_eq same]
    exact parameters p member
  · exact fits.declares resized (.inr known)

theorem belongTo_ofRoutine (scope : Scope) (header : Header) (body : List Block) (result : Option String) :
    (Contents.ofBlocks body).BelongTo (scope.ofRoutine header body result) := by
  rintro ⟨resized, name⟩ member
  have key : nameKey name.text ∈ (Contents.ofBlocks body).keys resized :=
    Contents.mem_keys.mpr ⟨name, member, rfl⟩
  have visible : ∀ known : nameKey name.text ∈ (scope.ofRoutine header body result).frame.declared.locals,
      (scope.ofRoutine header body result).hasVariable (nameKey name.text) = true := by
    intro known
    simp [hasVariable, Scope.frames, known]
  cases resized with
  | false =>
    have own : nameKey name.text ∈ (scope.ofRoutine header body result).frame.declared.locals := by
      simp [locals_ofRoutine, key]
    exact ⟨fun _ => by simpa [declaresLocally] using own, visible own⟩
  | true =>
    refine ⟨by simp, ?_⟩
    cases outside : scope.hasVariable (nameKey name.text) with
    | true =>
      -- an enclosing frame has the array, so it is no variable of the routine
      change (_ || scope.hasVariable (nameKey name.text)) = true
      rw [outside, Bool.or_true]
    | false =>
      refine visible ?_
      simp [locals_ofRoutine, key, outside]

end Frames
end VbSharp
