import Mathlib
import VbSharp.Scope

/-!
# Where a variable belongs

A name that means a variable belongs to one frame around it: the innermost one that knows it, or the
outermost one if nobody declares it. How the variable is written follows from that frame alone.
-/
namespace VbSharp

open List
open CSharp (Reference)

variable {meaning : Meaning} {s : Scope} {name : Token} {f : Frame}

/-! ### Keys and identifiers -/

theorem identifierChar_toLower (c : Char) : identifierChar c.toLower = identifierChar c := by
  by_cases upper : c.isUpper
  · have alpha : c.isAlpha = true := by simp [Char.isAlpha, upper]
    simp [identifierChar, Char.isAlphanum, alpha]
  · rw [Char.toLower_eq_of_not_isUpper upper]

theorem identifier_eq_of_nameKey_eq {a b : String} (same : nameKey a = nameKey b) : identifier a = identifier b := by
  have keys : (bareName a.toList).map Char.toLower = (bareName b.toList).map Char.toLower :=
    String.ofList_injective same
  have letters := congrArg (map identifierChar) keys
  simp only [map_map, Function.comp_def, identifierChar_toLower] at letters
  simp only [identifier, letters]

/-! ### Frames -/

/-- The variable that a name stands for, declared or not. -/
def Meaning.target? : Meaning → Option Reference
  | .variable target | .undeclared target => some target
  | _ => none

theorem Meaning.target?_eq_some_iff {target : Reference} :
    meaning.target? = some target ↔ meaning = .variable target ∨ meaning = .undeclared target := by
  cases meaning <;> simp [Meaning.target?]

namespace Scope

variable {target : Reference}

/-- The kind of the frame that a name belongs to: the innermost one that knows it. A name that no frame
knows belongs to the outermost code. -/
def owner (s : Scope) (name : Token) : FrameKind :=
  ((s.frames.find? fun f => (s.lookup name f).isSome).map Frame.kind).getD .program

/-- The outermost frame is that of the program, and no class is around the program. -/
structure IsProper (s : Scope) : Prop where
  root : s.frames.getLast?.map Frame.kind = some .program
  apart : s.kind = .program → s.isWithinClass = false

theorem isProper_ofProgram (blocks : List Block) (externals : List String) : (ofProgram blocks externals).IsProper := by
  constructor <;> simp [ofProgram, frames, isWithinClass]

theorem IsProper.ofClass (proper : s.IsProper) (body : List Block) : (s.ofClass body).IsProper := by
  refine ⟨?_, fun isProgram => ?_⟩
  · simpa [Scope.ofClass, frames, getLast?_cons_cons] using proper.root
  · simp [Scope.ofClass, kind] at isProgram

theorem IsProper.ofRoutine (proper : s.IsProper) (header : Header) (body : List Block) (result : Option String) :
    (s.ofRoutine header body result).IsProper := by
  refine ⟨?_, fun isProgram => ?_⟩
  · simpa [Scope.ofRoutine, frames, getLast?_cons_cons] using proper.root
  · simp [Scope.ofRoutine, kind] at isProgram

/-! ### What a resolved name says -/

theorem local_of_lookup (found : s.lookup name f = some (.variable target)) :
    nameKey name.text ∈ f.declared.locals ∧ target = s.reference f.kind name := by
  simp only [lookup] at found
  split at found
  · next known =>
    cases found
    exact ⟨by simpa using known, rfl⟩
  · split at found
    · cases found
    · split_ifs at found <;> cases found

theorem lookup_of_local (known : nameKey name.text ∈ f.declared.locals) :
    s.lookup name f = some (.variable (s.reference f.kind name)) := by
  simp [lookup, known]

theorem hasVariable_of_silent (silent : s.frames.findSome? (s.lookup name) = none) :
    s.hasVariable (nameKey name.text) = false := by
  simp only [hasVariable, any_eq_false, contains_iff_mem]
  intro f member known
  simpa [lookup_of_local known] using findSome?_eq_none_iff.mp silent f member

/-- What is found for a name is what the frame that owns it says. -/
theorem owner_of_findSome? (found : s.frames.findSome? (s.lookup name) = some meaning) :
    ∃ f ∈ s.frames, s.lookup name f = some meaning ∧ s.owner name = f.kind := by
  obtain ⟨inside, f, outside, split, said, silent⟩ := findSome?_eq_some_iff.mp found
  -- the frames further inside say nothing, so this one is the innermost that knows the name
  have first : s.frames.find? (fun f => (s.lookup name f).isSome) = some f := by
    rw [split, find?_append, find?_eq_none.mpr]
    · simp [said]
    · intro g member
      simp [silent g member]
  exact ⟨f, by simp [split], said, by simp [owner, first]⟩

/-- What a name can mean in a scope, and what the frames or the language say about it then. -/
inductive Means (s : Scope) (name : Token) : Meaning → Prop where
  | this : Means s name .this
  | «variable» {f : Frame} (member : f ∈ s.frames) (known : nameKey name.text ∈ f.declared.locals)
      (owned : s.owner name = f.kind)
      (found : s.frames.findSome? (s.lookup name) = some (.variable (s.reference f.kind name))) :
      Means s name (.variable (s.reference f.kind name))
  | routine {f : Frame} {byRef : List Bool} (member : f ∈ s.frames)
      (known : f.declared.routine? (nameKey name.text) = some byRef) :
      Means s name (.routine (s.reference f.kind name) byRef)
  | property : Means s name .property
  | classType : Means s name (.classType (identifier name.text))
  | external : Means s name (.external (identifier name.text))
  | builtInFunction {function : String} (known : builtInFunction? (nameKey name.text) = some function) :
      Means s name (.builtInFunction function)
  | builtInConstant {constant : String} (known : builtInConstant? (nameKey name.text) = some constant) :
      Means s name (.builtInConstant constant)
  | errorObject : Means s name .errorObject
  | undeclared (silent : s.frames.findSome? (s.lookup name) = none) :
      Means s name (.undeclared (s.reference ((s.frames.getLast?.map Frame.kind).getD s.kind) name))

theorem means_resolve (s : Scope) (name : Token) : s.Means name (s.resolve name) := by
  unfold resolve
  split
  · exact .this
  · cases found : s.frames.findSome? (s.lookup name) with
    | none =>
      simp only [Option.getD_none, unknown]
      split
      · next known => exact .builtInFunction known
      · split
        · next known => exact .builtInConstant known
        · split_ifs
          · exact .errorObject
          · exact .undeclared found
    | some meaning =>
      obtain ⟨f, member, said, owned⟩ := owner_of_findSome? found
      simp only [lookup] at said
      split at said
      · next known =>
        cases said
        exact .variable member (by simpa using known) owned found
      · split at said
        · next known =>
          cases said
          exact .routine member known
        · split_ifs at said
          · cases said
            exact .property
          · cases said
            exact .classType
          · cases said
            exact .external

/-- The result of a routine has no name that is looked up. -/
theorem resolve_ne_result (s : Scope) (name : Token) (result : String) : s.resolve name ≠ .result result := by
  intro same
  cases same ▸ s.means_resolve name

/-- A name that is assigned to means what it means elsewhere, or it is the result of the routine around. -/
theorem resolveTarget_cases (s : Scope) (name : Token) : s.resolveTarget name = s.resolve name ∨
    ∃ key result, s.result? = some (key, result) ∧ s.resolveTarget name = .result result := by
  unfold resolveTarget
  split
  · next key result held =>
    split
    · exact .inr ⟨key, result, held, rfl⟩
    · exact .inl rfl
  · exact .inl rfl

/-- A name that means a declared variable is declared in the frame that owns it. -/
theorem variable_of_resolve (resolved : s.resolve name = .variable target) :
    ∃ f ∈ s.frames, nameKey name.text ∈ f.declared.locals ∧ s.owner name = f.kind ∧
      target = s.reference (s.owner name) name := by
  cases resolved ▸ s.means_resolve name with
  | «variable» member known owned => exact ⟨_, member, known, owned, by rw [owned]⟩

/-- A name that means an undeclared variable is known to no frame. -/
theorem undeclared_of_resolve (proper : s.IsProper) (resolved : s.resolve name = .undeclared target) :
    s.hasVariable (nameKey name.text) = false ∧ s.owner name = .program ∧ target = s.reference (s.owner name) name := by
  cases resolved ▸ s.means_resolve name with
  | undeclared missed =>
    have silent := findSome?_eq_none_iff.mp missed
    have owned : s.owner name = .program := by
      have nobody : s.frames.find? (fun f => (s.lookup name f).isSome) = none :=
        find?_eq_none.mpr fun f member => by simp [silent f member]
      simp [owner, nobody]
    exact ⟨hasVariable_of_silent missed, owned, by rw [owned, proper.root, Option.getD_some]⟩

/-- How a variable is written: its identifier, reached from inside a class if the outermost code owns
it. -/
theorem reference_of_target? (proper : s.IsProper) (resolved : (s.resolve name).target? = some target) :
    target = ⟨s.owner name == .program && s.isWithinClass, identifier name.text⟩ := by
  rcases Meaning.target?_eq_some_iff.mp resolved with declared | undeclared
  · obtain ⟨_, _, _, _, written⟩ := variable_of_resolve declared
    exact written
  · obtain ⟨_, _, written⟩ := undeclared_of_resolve proper undeclared
    exact written

theorem owner_of_declaresLocally (known : s.declaresLocally name = true) : s.owner name = s.kind := by
  have said := lookup_of_local (s := s) (f := s.frame) (by simpa [declaresLocally] using known)
  simp [owner, frames, kind, said]

end Scope
end VbSharp
