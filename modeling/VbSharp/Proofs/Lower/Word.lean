import VbSharp.Proofs.Name
import VbSharp.Proofs.Owner

/-!
# Words of the generated code

Whatever characters a script puts into a name, the generated code calls what the name stands for by a word: letters,
digits and underscores, with a mark if it would be a reserved word. The same holds for the built-in functions and
constants and for the variables that hold results.
-/
namespace VbSharp

open List Meaning

variable {function key constant : String} {s : Scope} {name : Token} {f : Frame}

/-! ### Words -/

/-- Whether a text is a word of the generated code. -/
def isCodeWord (text : String) : Bool :=
  !text.toList.isEmpty && text.toList.all fun c => isWordChar c || c == '@'

theorem isCodeWord_identifier (name : String) : isCodeWord (identifier name) = true := by
  have stemmed : (stemChars name.toList).all (fun c => isWordChar c || c == '@') = true := by
    rw [all_eq_true]
    intro c member
    rw [(stemChars_spec name.toList c member).1, Bool.true_or]
  rw [identifier_eq]
  split
  · simpa [isCodeWord] using stemmed
  · obtain ⟨c, rest, first, -⟩ := head?_stemChars name.toList
    rw [stem, isCodeWord, String.toList_ofList, stemmed, first]
    rfl

theorem isCodeWord_resultName (n : Nat) : isCodeWord (resultName n) = true := by
  have chars : (resultName n).toList = "retVal".toList ++ Nat.toDigits 10 n := by
    rw [resultName, String.toList_append]
    exact congrArg _ Nat.toList_repr
  have digits : (Nat.toDigits 10 n).all (fun c => isWordChar c || c == '@') = true := by
    rw [all_eq_true]
    intro c member
    have digit := Nat.isDigit_of_mem_toDigits (by decide) (by decide) member
    simp [isWordChar, Char.isAlphanum, digit]
  rw [isCodeWord, chars, all_append, digits]
  rfl

theorem isCodeWord_builtInFunction (found : builtInFunction? key = some function) :
    isCodeWord (raiseCase function) = true := by
  have all : ∀ f ∈ builtInFunctions, isCodeWord (raiseCase f) = true := by decide +kernel
  exact all function (mem_of_find?_eq_some found)

theorem isCodeWord_builtInConstant (found : builtInConstant? key = some constant) : isCodeWord constant = true := by
  have all : ∀ c ∈ builtInConstants, isCodeWord c = true := by decide +kernel
  exact all constant (mem_of_find?_eq_some found)

/-! ### What names mean -/

/-- The word that the generated code has for what a name means. -/
def Meaning.word? : Meaning → Option String
  | .variable target | .routine target _ | .undeclared target => some target.name
  | .result name | .classType name | .external name | .builtInConstant name => some name
  | .builtInFunction name => some (raiseCase name)
  | .this | .property | .errorObject => none

namespace Scope

/-- Whatever a name means, there is a word for it. -/
theorem word_resolve (s : Scope) (name : Token) : ∀ w ∈ (s.resolve name).word?, isCodeWord w = true := by
  have named : isCodeWord (identifier name.text) = true := isCodeWord_identifier name.text
  have means := s.means_resolve name
  generalize s.resolve name = meaning at means
  intro w same
  cases means with
  | this | property | errorObject => cases same
  | «variable» | routine | classType | external | undeclared =>
    cases same
    exact named
  | builtInFunction known =>
    cases same
    exact isCodeWord_builtInFunction known
  | builtInConstant known =>
    cases same
    exact isCodeWord_builtInConstant known

/-- The variables that hold results have words for names. -/
def HasResultWords (s : Scope) : Prop :=
  ∀ f ∈ s.frames, ∀ result ∈ f.result, isCodeWord result.2 = true

theorem HasResultWords.ofClass (words : s.HasResultWords) (body : List Block) : (s.ofClass body).HasResultWords := by
  refine forall_mem_cons.mpr ⟨?_, words⟩
  intro result held
  cases held

theorem HasResultWords.ofRoutine (words : s.HasResultWords) (header : Header) (body : List Block)
    {result : Option String} (issued : ∀ name ∈ result, ∃ n, name = resultName n) :
    (s.ofRoutine header body result).HasResultWords := by
  refine forall_mem_cons.mpr ⟨?_, words⟩
  intro held isHeld
  obtain ⟨name, isResult, rfl⟩ := Option.map_eq_some_iff.mp isHeld
  obtain ⟨n, rfl⟩ := issued name isResult
  exact isCodeWord_resultName n

theorem HasResultWords.result? (words : s.HasResultWords) : ∀ result ∈ s.result?, isCodeWord result.2 = true := by
  intro result held
  obtain ⟨f, found, inFrame⟩ := Option.bind_eq_some_iff.mp held
  exact words f (mem_of_find?_eq_some found) result inFrame

end Scope

/-- A name means a built-in function only if the language has it. -/
theorem Scope.mem_builtInFunctions (resolved : s.resolve name = .builtInFunction function) :
    function ∈ builtInFunctions := by
  cases resolved ▸ s.means_resolve name with
  | builtInFunction known => exact mem_of_find?_eq_some known

theorem ne_dateCheck_of_mem (known : function ∈ builtInFunctions) :
    (raiseCase function != "VALIDATEDATELITERALS") = true := by
  have all : ∀ f ∈ builtInFunctions, (raiseCase f != "VALIDATEDATELITERALS") = true := by decide +kernel
  exact all function known

end VbSharp
