import VbSharp.Proofs.Text.LetterCase

/-!
# Identifiers of names

A name and its identifier are compared through the stem of the name: the identifier without the mark that a
reserved word gets. Names have the same identifier exactly if they have the same stem. The stem of a plain name is
its key, so plain names with different keys have different identifiers. Any other name shares its identifier with
the plain name that is its stem.
-/
namespace VbSharp

open List

variable {c : Char} {name a b runtime : String}

/-- The characters that an identifier takes over from a name. -/
def isWordChar (c : Char) : Bool :=
  c.isAlphanum || c == '_'

/-- The characters of the identifier of a name, without the mark of a reserved word. -/
def stemChars (name : List Char) : List Char :=
  let letters := (bareName name).map identifierChar
  if letters.head?.all Char.isDigit then '_' :: letters else letters

/-- The identifier of a name without the mark of a reserved word. -/
def stem (name : String) : String :=
  String.ofList (stemChars name.toList)

/-- Whether a name is made of letters, digits and underscores and does not start with a digit. -/
def isPlain (name : String) : Bool :=
  (bareName name.toList).head?.any (!·.isDigit) && (bareName name.toList).all isWordChar

/-- The names that the generated code keeps for the support library, what the host provides, and the outermost
code. -/
def runtimeNames : List String :=
  ["_", "_env", "_outer"]

/-! ### Characters of identifiers -/

theorem identifierChar_of_isWordChar (word : isWordChar c = true) : identifierChar c = c.toLower :=
  if_pos word

theorem identifierChar_of_not_isWordChar (other : ¬ isWordChar c = true) : identifierChar c = '_' :=
  if_neg other

theorem caseless_isWordChar : Caseless isWordChar := by
  intro c
  have underscore : (c.toLower == '_') = (c == '_') := caseless_beq (by decide) c
  rw [isWordChar, isWordChar, Char.isAlphanum, Char.isAlphanum, caseless_isAlpha c, caseless_isDigit c, underscore]

/-- An identifier has no capital letters and no characters that a name may not have without brackets. -/
theorem identifierChar_spec (c : Char) : isWordChar (identifierChar c) = true ∧ (identifierChar c).isUpper = false := by
  by_cases word : isWordChar c = true
  · rw [identifierChar_of_isWordChar word]
    constructor
    · rw [caseless_isWordChar c, word]
    · exact Char.isUpper_toLower_eq_false c
  · rw [identifierChar_of_not_isWordChar word]
    decide

/-- A character of a name is its own letter in the identifier exactly if identifiers may have it. -/
theorem identifierChar_eq_toLower_iff : identifierChar c = c.toLower ↔ isWordChar c = true := by
  constructor
  · intro same
    by_contra other
    rw [identifierChar_of_not_isWordChar other] at same
    have underscore : c = '_' := (toLower_eq_iff (by decide)).mp same.symm
    rw [underscore] at other
    exact other rfl
  · exact identifierChar_of_isWordChar

theorem stemChars_spec (name : List Char) : ∀ c ∈ stemChars name, isWordChar c = true ∧ c.isUpper = false := by
  have letters : ∀ c ∈ (bareName name).map identifierChar, isWordChar c = true ∧ c.isUpper = false := by
    intro c member
    obtain ⟨d, -, rfl⟩ := mem_map.mp member
    exact identifierChar_spec d
  intro c member
  unfold stemChars at member
  simp only at member
  split at member
  · rcases mem_cons.mp member with rfl | later
    · decide
    · exact letters c later
  · exact letters c member

theorem head?_stemChars (name : List Char) : ∃ c rest, stemChars name = c :: rest ∧ c.isDigit = false := by
  unfold stemChars
  cases first : (bareName name).map identifierChar with
  | nil => exact ⟨'_', [], rfl, by decide⟩
  | cons c rest =>
    cases digit : c.isDigit with
    | true => exact ⟨'_', c :: rest, by simp [digit], by decide⟩
    | false => exact ⟨c, rest, by simp [digit], digit⟩

/-! ### Stems and identifiers -/

theorem identifier_eq (name : String) :
    identifier name =
      if reservedWords.contains (stem name) then String.ofList ('@' :: stemChars name.toList) else stem name :=
  rfl

/-- The mark of a reserved word cannot be taken for the start of a stem. -/
theorem marked_ne_stem (a b : String) : String.ofList ('@' :: stemChars a.toList) ≠ stem b := by
  intro same
  have marked := String.ofList_injective same
  have spec := stemChars_spec b.toList '@' (by rw [← marked]; exact mem_cons_self)
  revert spec
  decide

/-- Names have one identifier exactly if they have one stem. -/
theorem identifier_eq_iff : identifier a = identifier b ↔ stem a = stem b := by
  constructor
  · intro same
    rw [identifier_eq, identifier_eq] at same
    by_cases reservedA : reservedWords.contains (stem a) = true
    · by_cases reservedB : reservedWords.contains (stem b) = true
      · rw [if_pos reservedA, if_pos reservedB] at same
        exact congrArg String.ofList (cons.inj (String.ofList_injective same)).2
      · rw [if_pos reservedA, if_neg reservedB] at same
        exact absurd same (marked_ne_stem a b)
    · by_cases reservedB : reservedWords.contains (stem b) = true
      · rw [if_neg reservedA, if_pos reservedB] at same
        exact absurd same.symm (marked_ne_stem b a)
      · rw [if_neg reservedA, if_neg reservedB] at same
        exact same
  · intro same
    rw [identifier_eq, identifier_eq, same, String.ofList_injective same]

/-- The stem of a name is its key exactly if the name is plain. -/
theorem stem_eq_nameKey_iff : stem name = nameKey name ↔ isPlain name = true := by
  rw [stem, nameKey, String.ofList_inj, stemChars, isPlain]
  generalize bareName name.toList = bare
  have all : bare.map identifierChar = bare.map Char.toLower ↔ bare.all isWordChar = true := by
    simp only [map_inj_left, identifierChar_eq_toLower_iff, all_eq_true]
  cases bare with
  | nil => simp
  | cons c rest =>
    simp only [map_cons, head?_cons, Option.all_some, Option.any_some] at all ⊢
    by_cases word : isWordChar c = true
    · have digit : (identifierChar c).isDigit = c.isDigit := by
        rw [identifierChar_of_isWordChar word, caseless_isDigit c]
      rw [digit]
      cases first : c.isDigit with
      | true =>
        -- the underscore in front makes the stem longer than the key
        apply iff_of_false
        · intro same
          simpa using congrArg length same
        · simp
      | false => simpa using all
    · have other : ¬ (c :: rest).all isWordChar = true := by simp [word]
      constructor
      · intro same
        -- a character that is no word character becomes an underscore, which is no digit
        rw [identifierChar_of_not_isWordChar word, if_neg (by decide), ← identifierChar_of_not_isWordChar word] at same
        exact absurd (all.mp same) other
      · intro plain
        exact absurd (Bool.and_eq_true_iff.mp plain).2 other

theorem identifierChar_of_spec (word : isWordChar c = true) (small : c.isUpper = false) : identifierChar c = c := by
  rw [identifierChar_of_isWordChar word]
  exact Char.toLower_eq_of_not_isUpper (by simp [small])

theorem isPlain_stem (name : String) : isPlain (stem name) = true ∧ stem (stem name) = stem name := by
  obtain ⟨c, rest, split, digit⟩ := head?_stemChars name.toList
  have spec := stemChars_spec name.toList
  have bare : bareName (stem name).toList = stemChars name.toList := by
    rw [stem, String.toList_ofList]
    apply bareName_of_head
    rw [split, head?_cons, ne_eq, Option.some.injEq]
    rintro rfl
    have bracket := spec '[' (by rw [split]; exact mem_cons_self)
    revert bracket
    decide
  have kept : (stemChars name.toList).map identifierChar = stemChars name.toList := by
    have same : ∀ d ∈ stemChars name.toList, identifierChar d = id d :=
      fun d member => identifierChar_of_spec (spec d member).1 (spec d member).2
    rw [map_congr_left same, map_id]
  constructor
  · rw [isPlain, bare]
    rw [Bool.and_eq_true, all_eq_true]
    exact ⟨by rw [split]; simp [digit], fun d member => (spec d member).1⟩
  · rw [stem, stemChars, bare, kept, split]
    simp [stem, split, digit]

theorem nameKey_stem_eq_iff : nameKey (stem name) = nameKey name ↔ isPlain name = true := by
  rw [← stem_eq_nameKey_iff.mpr (isPlain_stem name).1, (isPlain_stem name).2, stem_eq_nameKey_iff]

theorem nameKey_eq_of_isPlain (plainA : isPlain a = true) (plainB : isPlain b = true)
    (same : identifier a = identifier b) : nameKey a = nameKey b := by
  rw [← stem_eq_nameKey_iff.mpr plainA, ← stem_eq_nameKey_iff.mpr plainB, identifier_eq_iff.mp same]

/-! ### Identifiers that the generated code has for itself -/

/-- The mark of reserved words does not keep identifiers apart from the names of the runtime. -/
theorem identifier_eq_runtimeName_iff (isRuntime : runtime ∈ runtimeNames) :
    identifier name = runtime ↔ stem name = runtime := by
  have own : ∀ r ∈ runtimeNames, identifier r = r ∧ stem r = r := by decide +kernel
  obtain ⟨unmarked, short⟩ := own runtime isRuntime
  calc identifier name = runtime
    _ ↔ identifier name = identifier runtime := by rw [unmarked]
    _ ↔ stem name = stem runtime := identifier_eq_iff
    _ ↔ stem name = runtime := by rw [short]

theorem capital_mem_resultName (n : Nat) : 'V' ∈ (resultName n).toList := by
  rw [resultName, String.toList_append]
  exact mem_append_left _ (by decide)

theorem resultName_not_mem_runtimeNames (n : Nat) : resultName n ∉ runtimeNames := by
  intro member
  have small : ∀ runtime ∈ runtimeNames, 'V' ∉ runtime.toList := by decide
  exact small _ member (capital_mem_resultName n)

theorem resultName_injective : Function.Injective resultName := by
  intro a b same
  have digits := congrArg String.toList same
  rw [resultName, resultName, String.toList_append, String.toList_append, append_cancel_left_eq, String.toList_inj] at digits
  exact Nat.repr_inj.mp digits

/-- The capital letter in the name of a result variable keeps it apart from all identifiers. -/
theorem identifier_ne_resultName (name : String) (n : Nat) : identifier name ≠ resultName n := by
  intro same
  have capital := capital_mem_resultName n
  rw [← same, identifier_eq] at capital
  have small : 'V' ∉ stemChars name.toList := by
    intro member
    have spec := (stemChars_spec name.toList 'V' member).2
    revert spec
    decide
  split at capital
  · rw [String.toList_ofList] at capital
    rcases mem_cons.mp capital with mark | later
    · revert mark
      decide
    · exact small later
  · rw [stem, String.toList_ofList] at capital
    exact small capital

end VbSharp
