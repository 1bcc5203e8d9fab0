import VbSharp.Proofs.Lower.Hoisting
import VbSharp.Proofs.Warnings

/-!
# Levels of lookup

A variable is looked for level by level: in the routine, in the class around it, and in the outermost code. The
source is searched for a name of the same key, and the generated code for a declaration of the same identifier. The
two searches end at the same level if the names that can be seen have different identifiers wherever they have
different keys.
-/
namespace VbSharp

open List Scope Contents Lower
open CSharp (Declaration Reference Signature Stmt)
open Lower (Context Emission Ends KeysTold blocks keyOf)

variable {c : Contents} {lowered : Lowered}

variable {s : Scope} {frames inner : List Frame} {isReDim asClass : Bool} {source body : List Block}
  {result : Option String} {settings : Settings}

/-- One level at which variables are looked for. -/
structure Level where
  kind : FrameKind
  /-- The variables that the source has at the level. -/
  vars : List Token
  /-- The names that the generated code declares there. -/
  names : List String
  /-- The variables that the generated code refers to there. -/
  references : List Reference

namespace Level

/-- Whether the source has a variable of that name at the level. -/
def holds (level : Level) (name : Token) : Bool :=
  level.vars.any (keyOf · == keyOf name)

/-- Whether a reference can mean a variable of the level. One through `_outer` means the outermost code. -/
def offers (level : Level) (r : Reference) : Bool :=
  (!r.outer || level.kind == .program) && level.names.contains r.name

theorem holds_iff {level : Level} {name : Token} :
    level.holds name = true ↔ ∃ v ∈ level.vars, keyOf v = keyOf name := by
  simp [holds]

/-- The level of a routine, whose scope is given: its parameters, and the new variables of its body. -/
def ofRoutine (scope : Scope) (source : Header × List Block) (method : Signature × List Stmt) : Level :=
  ⟨.routine, source.1.parameters.map Parameter.name ++ (Contents.ofBlocks source.2).newVariables scope,
    method.1.parameters.map Prod.snd ++ Stmt.listDeclaredNames method.2, Stmt.listReferences method.2⟩

/-- The level of a class: its fields. -/
def ofClass (source : Token × List Block) (members : List Stmt) : Level :=
  ⟨.classBody, (Contents.ofBlocks source.2).declared.map Prod.snd, Stmt.listDeclaredNames members,
    Stmt.listReferences members⟩

/-- The level of the outermost code: its variables, and the names that nobody declares. -/
def ofProgram (settings : Settings) (source : List Block) (lowered : Lowered) : Level :=
  ⟨.program, undeclaredUses settings source ++ outermostVariables source,
    Stmt.listDeclaredNames lowered.outermost, Stmt.listReferences lowered.outermost⟩

end Level

/-- The source and the generated code have a variable at the same place, counted from the inside. -/
def SamePlace (levels : List Level) (name : Token) (r : Reference) : Prop :=
  ∃ place, levels.findIdx? (·.holds name) = some place ∧ levels.findIdx? (·.offers r) = some place

namespace SamePlace

variable {level : Level} {levels : List Level} {name : Token} {r : Reference}

theorem here (holds : level.holds name = true) (offers : level.offers r = true) : SamePlace (level :: levels) name r :=
  ⟨0, by rw [findIdx?_cons, holds]; rfl, by rw [findIdx?_cons, offers]; rfl⟩

theorem behind (holds : level.holds name = false) (offers : level.offers r = false)
    (same : SamePlace levels name r) : SamePlace (level :: levels) name r := by
  obtain ⟨place, source, generated⟩ := same
  exact ⟨place + 1, by rw [findIdx?_cons, holds, source]; rfl, by rw [findIdx?_cons, offers, generated]; rfl⟩

/-- A variable that has a place has a variable of the source at it. -/
theorem exists_variable (same : SamePlace levels name r) : ∃ v ∈ levels.flatMap Level.vars, keyOf v = keyOf name := by
  obtain ⟨place, source, -⟩ := same
  obtain ⟨bound, holds, -⟩ := findIdx?_eq_some_iff_getElem.mp source
  obtain ⟨v, listed, key⟩ := Level.holds_iff.mp holds
  exact ⟨v, mem_flatMap.mpr ⟨_, getElem_mem bound, listed⟩, key⟩

end SamePlace

/-! ### Names of one key -/

theorem Scope.resolve_of_key {a b : Token} (same : keyOf a = keyOf b) : s.resolve a = s.resolve b := by
  have key : nameKey a.text = nameKey b.text := same
  have written : identifier a.text = identifier b.text := identifier_eq_of_nameKey_eq key
  have looked : s.lookup a = s.lookup b := by
    funext f
    simp only [lookup, reference, key, written]
  simp only [resolve, Scope.unknown, reference, key, written, looked]

/-- An identifier is a small letter or an underscore with small letters, digits and underscores behind it, and is marked
exactly if that is a reserved word. All spellings of one name have one identifier, and mean the same in every scope. -/
theorem identifier_legal_by_key :
    (∀ name, ∃ first rest, (first.isLower || first == '_') = true ∧
      (∀ c ∈ rest, (c.isLower || c.isDigit || c == '_') = true) ∧
      identifier name = String.ofList (if reservedWords.contains (String.ofList (first :: rest)) then '@' :: first :: rest
        else first :: rest)) ∧
    (∀ a b, nameKey a = nameKey b → identifier a = identifier b) ∧
    ∀ (s : Scope) (a b : Token), nameKey a.text = nameKey b.text → s.resolve a = s.resolve b := by
  refine ⟨fun name => ?_, fun a b => identifier_eq_of_nameKey_eq, fun s a b => resolve_of_key⟩
  obtain ⟨first, rest, split, noDigit⟩ := head?_stemChars name.toList
  have small : ∀ c ∈ first :: rest, (c.isLower || c.isDigit || c == '_') = true := by
    intro c member
    obtain ⟨word, noCapital⟩ := stemChars_spec name.toList c (split ▸ member)
    simpa [isWordChar, Char.isAlphanum, Char.isAlpha, noCapital] using word
  obtain ⟨starts, later⟩ := forall_mem_cons.mp small
  refine ⟨first, rest, by simpa [noDigit] using starts, later, ?_⟩
  rw [identifier_eq, stem, split]
  exact (apply_ite String.ofList _ _ _).symm

theorem identifier_legal_by_key_reserved :
    nameKey "[Class]" = nameKey "CLASS" ∧ identifier "[Class]" = identifier "CLASS" ∧ identifier "CLASS" = "@class" :=
  have same : nameKey "[Class]" = nameKey "CLASS" := by decide +kernel
  ⟨same, identifier_legal_by_key.2.1 _ _ same, by decide +kernel⟩

/-! ### Levels that fit -/

/-- A level inside the outermost code fits a frame of the scope. A variable of the level that the frame does not
know stands for no variable anywhere in the scope: it is an array that has the name of something else. -/
structure LevelFits (scope : Scope) (f : Frame) (level : Level) : Prop where
  kind : level.kind = f.kind
  inner : f.kind ≠ .program
  known : ∀ name : Token, keyOf name ∈ f.declared.locals → level.holds name = true
  strays : ∀ v ∈ level.vars, keyOf v ∈ f.declared.locals ∨ (scope.resolve v).target? = none
  declared : ∀ v ∈ level.vars, identifier v.text ∈ level.names
  only : ∀ name ∈ level.names, (∃ n, name = resultName n) ∨ ∃ v ∈ level.vars, identifier v.text = name

/-- The level of the outermost code fits the outermost frame. -/
structure TopFits (f : Frame) (level : Level) : Prop where
  kind : level.kind = .program
  known : ∀ name : Token, keyOf name ∈ f.declared.locals → level.holds name = true
  declared : ∀ v ∈ level.vars, identifier v.text ∈ level.names
  only : ∀ name ∈ level.names, ∃ v ∈ level.vars, identifier v.text = name

/-- What the two lookups find at a level is what the frame answer. -/
structure Reads (scope : Scope) (name : Token) (r : Reference) (f : Frame) (level : Level) : Prop where
  silent : scope.lookup name f = none → level.holds name = false ∧ level.offers r = false
  found : scope.lookup name f = some (.variable r) → level.holds name = true ∧ level.offers r = true

section Lookup

variable {scope : Scope} {name : Token} {r : Reference} {f : Frame} {level top : Level}

theorem offers_of_holds (declared : ∀ v ∈ level.vars, identifier v.text ∈ level.names)
    (written : r.name = identifier name.text) (inside : r.outer = false ∨ level.kind = .program)
    (holds : level.holds name = true) : level.offers r = true := by
  obtain ⟨v, listed, key⟩ := Level.holds_iff.mp holds
  have named : r.name ∈ level.names := by
    rw [written, ← identifier_eq_of_nameKey_eq key]
    exact declared v listed
  rcases inside with plain | outermost
  · simp [Level.offers, plain, named]
  · simp [Level.offers, outermost, named]

theorem LevelFits.reads (fits : LevelFits scope f level) (resolved : (scope.resolve name).target? = some r)
    (written : r.name = identifier name.text)
    (told : ∀ v ∈ level.vars, identifier v.text = identifier name.text → keyOf v = keyOf name) :
    Reads scope name r f level := by
  constructor
  · intro silent
    -- a variable of that key would be known to the frame, or stand for nothing
    have absent : ∀ v ∈ level.vars, keyOf v ≠ keyOf name := by
      intro v listed key
      rcases fits.strays v listed with known | stray
      · rw [key] at known
        rw [lookup_of_local known] at silent
        cases silent
      · rw [resolve_of_key key, resolved] at stray
        cases stray
    constructor
    · rw [Bool.eq_false_iff, ne_eq, Level.holds_iff]
      rintro ⟨v, listed, key⟩
      exact absent v listed key
    · rw [Bool.eq_false_iff]
      intro offers
      have named : r.name ∈ level.names := by simpa using (Bool.and_eq_true_iff.mp offers).2
      rcases fits.only r.name named with ⟨n, isResult⟩ | ⟨v, listed, same⟩
      · exact identifier_ne_resultName name.text n (written.symm.trans isResult)
      · exact absent v listed (told v listed (same.trans written))
  · intro answer
    obtain ⟨known, target⟩ := local_of_lookup answer
    -- only the outermost code is reached through `_outer`
    have holds := fits.known name known
    have plain : r.outer = false := by
      rw [target, reference]
      simp [fits.inner]
    exact ⟨holds, offers_of_holds fits.declared written (.inl plain) holds⟩

/-- The lookups go on from level to level as long as the frames say nothing. -/
theorem samePlace_of_frames {levels : List Level} (fit : Forall₂ (LevelFits scope) frames levels)
    (resolved : (scope.resolve name).target? = some r) (written : r.name = identifier name.text)
    (told : ∀ v ∈ levels.flatMap Level.vars, identifier v.text = identifier name.text → keyOf v = keyOf name)
    (found : frames.findSome? (scope.lookup name) = some (.variable r) ∨
      frames.findSome? (scope.lookup name) = none ∧ top.holds name = true ∧ top.offers r = true) :
    SamePlace (levels ++ [top]) name r := by
  induction fit with
  | nil =>
    rcases found with impossible | ⟨-, holds, offers⟩
    · cases impossible
    · exact .here holds offers
  | @cons f level frames levels first _ ih =>
    rw [flatMap_cons, forall_mem_append] at told
    have reads := first.reads resolved written told.1
    rw [findSome?_cons] at found
    cases answer : scope.lookup name f with
    | none =>
      -- neither lookup finds anything here, and both go on
      obtain ⟨holds, offers⟩ := reads.silent answer
      rw [answer] at found
      exact .behind holds offers (ih told.2 found)
    | some meaning =>
      rw [answer] at found
      rcases found with same | ⟨impossible, -⟩
      · cases same
        obtain ⟨holds, offers⟩ := reads.found answer
        exact .here holds offers
      · cases impossible

theorem exists_var_of_frame {levels : List Level} (fit : Forall₂ (LevelFits scope) frames levels)
    (member : f ∈ frames) (known : keyOf name ∈ f.declared.locals) :
    ∃ w ∈ levels.flatMap Level.vars, keyOf w = keyOf name := by
  induction fit with
  | nil => cases member
  | @cons g level frames levels first _ ih =>
    rcases mem_cons.mp member with rfl | later
    · obtain ⟨w, listed, key⟩ := Level.holds_iff.mp (first.known name known)
      exact ⟨w, mem_append_left _ listed, key⟩
    · obtain ⟨w, listed, key⟩ := ih later
      exact ⟨w, mem_append_right _ listed, key⟩

/-- A name that means a variable is found at the same place in the source and in the generated code. -/
theorem samePlace_of_resolve {outermost : Frame} {levels : List Level} (proper : scope.IsProper)
    (frames : scope.frames = inner ++ [outermost]) (fit : Forall₂ (LevelFits scope) inner levels)
    (topFits : TopFits outermost top) (told : KeysTold ((levels ++ [top]).flatMap Level.vars))
    (resolved : (scope.resolve name).target? = some r)
    (undeclared : scope.resolve name = .undeclared r → top.holds name = true) : SamePlace (levels ++ [top]) name r := by
  have written : r.name = identifier name.text := by rw [reference_of_target? proper resolved]
  have topOffers : top.holds name = true → top.offers r = true :=
    offers_of_holds topFits.declared written (.inr topFits.kind)
  -- some level has a variable of that key, which stands for the name where identifiers are compared
  obtain ⟨w, listed, key⟩ : ∃ w ∈ (levels ++ [top]).flatMap Level.vars, keyOf w = keyOf name := by
    simp only [flatMap_append, flatMap_singleton, mem_append, or_and_right, exists_or]
    rcases Meaning.target?_eq_some_iff.mp resolved with declared | unknown
    · obtain ⟨f, member, known, -⟩ := variable_of_resolve declared
      rw [frames, mem_append, mem_singleton] at member
      rcases member with inside | rfl
      · exact .inl (exists_var_of_frame fit inside known)
      · exact .inr (Level.holds_iff.mp (topFits.known name known))
    · exact .inr (Level.holds_iff.mp (undeclared unknown))
  have toldHere : ∀ v ∈ levels.flatMap Level.vars, identifier v.text = identifier name.text → keyOf v = keyOf name := by
    intro v among same
    rw [← key]
    apply told v _ w listed
    · rw [same, identifier_eq_of_nameKey_eq key]
    · rw [flatMap_append]
      exact mem_append_left _ among
  apply samePlace_of_frames fit resolved written toldHere
  rcases Meaning.target?_eq_some_iff.mp resolved with declared | unknown
  · -- the answer comes from a frame inside, or all of them are silent and the outermost one answers
    have found : scope.frames.findSome? (scope.lookup name) = some (.variable r) := by
      cases declared ▸ scope.means_resolve name with
      | «variable» _ _ _ found => exact found
    rw [frames, findSome?_append, Option.or_eq_some_iff] at found
    rcases found with inside | ⟨silent, outside⟩
    · exact .inl inside
    · rw [findSome?_singleton] at outside
      have holds := topFits.known name (local_of_lookup outside).1
      exact .inr ⟨silent, holds, topOffers holds⟩
  · -- nobody declares the name, so the outermost code does
    have silent : scope.frames.findSome? (scope.lookup name) = none := by
      cases unknown ▸ scope.means_resolve name with
      | undeclared silent => exact silent
    rw [frames, findSome?_append, Option.or_eq_none_iff] at silent
    have holds := undeclared unknown
    exact .inr ⟨silent.1, holds, topOffers holds⟩

end Lookup

/-! ### The levels of a program -/

theorem Scope.declaresLocally_iff {name : Token} :
    s.declaresLocally name = true ↔ keyOf name ∈ s.frame.declared.locals := by
  simp [declaresLocally, keyOf]

theorem Contents.mem_newVariables_of_local {scope : Scope} {name : Token} (declared : (isReDim, name) ∈ c.declared)
    (own : isReDim = false ∨ keyOf name ∈ scope.frame.declared.locals) : name ∈ c.newVariables scope := by
  apply mem_newVariables.mpr
  refine ⟨isReDim, declared, ?_⟩
  rw [declaredVariable_of_local (own.imp id declaresLocally_iff.mpr)]

/-- If a frame has all variables of its blocks, each of them is new and known to the frame. -/
theorem Contents.newVariables_of_all {scope : Scope}
    (locals : scope.frame.declared.locals = c.keys false ++ c.keys true) :
    c.newVariables scope = c.declared.map Prod.snd ∧ ∀ name : Token, keyOf name ∈ scope.frame.declared.locals ↔
        ∃ v ∈ c.declared.map Prod.snd, keyOf v = keyOf name := by
  have known : ∀ name : Token, keyOf name ∈ scope.frame.declared.locals ↔
      ∃ v ∈ c.declared.map Prod.snd, keyOf v = keyOf name := by
    intro name
    rw [locals, mem_append, mem_keys, mem_keys]
    constructor
    · rintro (⟨v, declared, key⟩ | ⟨v, declared, key⟩)
      · exact ⟨v, mem_map.mpr ⟨_, declared, rfl⟩, key⟩
      · exact ⟨v, mem_map.mpr ⟨_, declared, rfl⟩, key⟩
    · rintro ⟨v, listed, key⟩
      obtain ⟨⟨isReDim, v⟩, declared, rfl⟩ := mem_map.mp listed
      cases isReDim with
      | false => exact .inl ⟨v, declared, key⟩
      | true => exact .inr ⟨v, declared, key⟩
  refine ⟨?_, known⟩
  rw [newVariables, filter_eq_self.mpr]
  rintro ⟨isReDim, v⟩ declared
  have own := (known v).mpr ⟨v, mem_map.mpr ⟨_, declared, rfl⟩, rfl⟩
  rw [declaredVariable_of_local (.inr (declaresLocally_iff.mpr own))]

/-- An array that a routine resizes and does not have itself, but that is new in it, has the name of something that
is no variable. -/
theorem target?_of_stray {scope : Scope} {header : Header} {name : Token}
    (declared : (true, name) ∈ (Contents.ofBlocks body).declared)
    (foreign : (scope.ofRoutine header body result).declaresLocally name = false)
    (isNew : (declaredVariable (scope.ofRoutine header body result) true name).2 = true)
    (proper : scope.IsProper) : ((scope.ofRoutine header body result).resolve name).target? = none := by
  by_contra some
  obtain ⟨r, meant⟩ := Option.ne_none_iff_exists'.mp some
  rcases Meaning.target?_eq_some_iff.mp meant with resolved | undeclared
  · simp [declaredVariable, resolved, foreign] at isNew
  · -- the routine or a frame around it has every variable that is resized
    have visible := (belongTo_ofRoutine scope header body result _ declared).2
    rw [(undeclared_of_resolve (proper.ofRoutine _ _ _) undeclared).1] at visible
    cases visible

theorem levelFits_ofRoutine {scope : Scope} {source : Header × List Block} {method : Signature × List Stmt}
    (proper : scope.IsProper) (issued : ∀ name ∈ result, ∃ n, name = resultName n)
    (hoisted : IsHoisted (scope.ofRoutine source.1 source.2 result) source result method) :
    LevelFits (scope.ofRoutine source.1 source.2 result) (scope.ofRoutine source.1 source.2 result).frame
      (.ofRoutine (scope.ofRoutine source.1 source.2 result) source method) where
  kind := rfl
  inner := by
    change FrameKind.routine ≠ .program
    decide
  known name known := by
    have own := known
    simp only [locals_ofRoutine, mem_append, mem_filter] at known
    apply Level.holds_iff.mpr
    rcases known with (outright | parameter) | ⟨resized, -⟩
    · obtain ⟨v, declared, key⟩ := mem_keys.mp outright
      exact ⟨v, mem_append_right _ (mem_newVariables_of_local declared (.inl rfl)), key⟩
    · obtain ⟨p, listed, key⟩ := mem_map.mp parameter
      exact ⟨p.name, mem_append_left _ (mem_map_of_mem listed), key⟩
    · obtain ⟨v, declared, key⟩ := mem_keys.mp resized
      have ownKey : keyOf v ∈ (scope.ofRoutine source.1 source.2 result).frame.declared.locals := by
        rw [show keyOf v = keyOf name from key]
        exact own
      exact ⟨v, mem_append_right _ (mem_newVariables_of_local declared (.inr ownKey)), key⟩
  strays v listed := by
    rcases mem_append.mp listed with parameter | isNew
    · obtain ⟨p, given, rfl⟩ := mem_map.mp parameter
      left
      exact mem_append_left _ (mem_append_right _ (mem_map_of_mem given))
    · -- an array that is resized may be new without being known to the frame
      obtain ⟨isReDim, declared, isNew⟩ := mem_newVariables.mp isNew
      cases own : (scope.ofRoutine source.1 source.2 result).declaresLocally v with
      | true =>
        left
        exact declaresLocally_iff.mp own
      | false =>
        right
        cases isReDim with
        | true => exact target?_of_stray declared own isNew proper
        | false =>
          rw [(belongTo_ofRoutine scope source.1 source.2 result _ declared).1 rfl] at own
          cases own
  declared v listed := by
    rcases mem_append.mp listed with parameter | isNew
    · obtain ⟨p, given, rfl⟩ := mem_map.mp parameter
      apply mem_append_left
      rw [hoisted.parameters]
      exact mem_map_of_mem given
    · apply mem_append_right
      exact (hoisted.declares _).mpr (.inr ⟨v, isNew, rfl⟩)
  only name listed := by
    rcases mem_append.mp listed with parameter | declared
    · rw [hoisted.parameters] at parameter
      obtain ⟨p, given, rfl⟩ := mem_map.mp parameter
      exact .inr ⟨p.name, mem_append_left _ (mem_map_of_mem given), rfl⟩
    · rcases (hoisted.declares name).mp declared with isResult | ⟨v, isNew, same⟩
      · exact .inl (issued name isResult)
      · exact .inr ⟨v, mem_append_right _ isNew, same⟩

theorem levelFits_ofClass (scope : Scope) {inner : Scope} {source : Token × List Block} {members : List Stmt}
    (names : ∀ name, name ∈ Stmt.listDeclaredNames members ↔
      ∃ v ∈ (Contents.ofBlocks source.2).declared.map Prod.snd, identifier v.text = name) :
    LevelFits inner (scope.ofClass source.2).frame (.ofClass source members) where
  kind := rfl
  inner := by
    change FrameKind.classBody ≠ .program
    decide
  known name known := by
    apply Level.holds_iff.mpr
    exact ((newVariables_of_all (locals_ofClass scope source.2)).2 name).mp known
  strays v listed := .inl (((newVariables_of_all (locals_ofClass scope source.2)).2 v).mpr ⟨v, listed, rfl⟩)
  declared v listed := (names _).mpr ⟨v, listed, rfl⟩
  only name listed := .inr ((names name).mp listed)

/-- The names that a program declares in its outermost code are the identifiers of its level's variables. -/
theorem mem_names_ofProgram {ctx : Lower.Context} {out : Emission} (program : ProgramMade source lowered ctx
      (.ofProgram (dropSuperseded source) settings.externalReferences) out) (name : String) :
    name ∈ (Level.ofProgram settings source lowered).names ↔
      ∃ v ∈ (Level.ofProgram settings source lowered).vars, identifier v.text = name := by
  have hoists := blocks_hoist program.ends
  have all := newVariables_of_all
    (locals_ofProgram (dropSuperseded source) settings.externalReferences)
  have explicit : name ∈ (Declaration.merge out.declared).map Declaration.name ↔
      ∃ v ∈ outermostVariables source, identifier v.text = name := by
    rw [hoists.mem_merge, all.1]
    rfl
  rw [Level.ofProgram, program.listDeclaredNames_outermost, mem_append, explicit]
  simp only [mem_append, or_and_right, exists_or]
  rw [or_comm]
  constructor
  · rintro (implicit | declared)
    · obtain ⟨v, listed, same⟩ := mem_map.mp implicit
      exact .inl ⟨v, mem_undeclaredNames program.ends (mem_filter.mp listed).1, same⟩
    · exact .inr declared
  · rintro (⟨v, used, rfl⟩ | declared)
    · -- the first spelling stands for the others, unless a declared variable takes its place
      obtain ⟨first, listed, key⟩ := exists_mem_undeclaredNames program.ends used
      rw [← identifier_eq_of_nameKey_eq key]
      by_cases taken : (Declaration.merge out.declared).any (·.name == identifier first.text) = true
      · obtain ⟨d, merged, named⟩ := any_eq_true.mp taken
        right
        rw [← identifier_eq_of_nameKey_eq key] at explicit
        exact explicit.mp (mem_map.mpr ⟨d, merged, by simpa using named⟩)
      · left
        exact mem_map.mpr ⟨first, mem_filter.mpr ⟨listed, by simpa using taken⟩, rfl⟩
    · exact .inr declared

theorem topFits_ofProgram (names : ∀ name, name ∈ (Level.ofProgram settings source lowered).names ↔
      ∃ v ∈ (Level.ofProgram settings source lowered).vars, identifier v.text = name) :
    TopFits (Scope.ofProgram (dropSuperseded source) settings.externalReferences).frame
      (.ofProgram settings source lowered) where
  kind := rfl
  known name known := by
    have all := newVariables_of_all
      (locals_ofProgram (dropSuperseded source) settings.externalReferences)
    obtain ⟨v, declared, key⟩ := (all.2 name).mp known
    exact Level.holds_iff.mpr ⟨v, mem_append_right _ declared, key⟩
  declared v listed := (names _).mpr ⟨v, listed, rfl⟩
  only name listed := (names name).mp listed

end VbSharp
