import VbSharp.Proofs.Block.Budget
import VbSharp.Proofs.Block.Definition
import VbSharp.Proofs.Lower.Signatures

/-!
# The methods of an accepted class

A class is accepted if no member has a spelling that an earlier one has taken, and its members become methods
whose names are made from the identifiers of theirs. Two members of an accepted class become methods of one name
in two ways only: they are spelled differently but have the same stem, as `F` and `[F]` have, or a function or sub
is spelled as the method of an accessor, as `get_x` is beside the property `x`.
-/
namespace VbSharp

open List Contents
open Lower CSharp

variable {name x y : String} {out : Emission} {pending members : List Stmt}

variable {a b : RoutineKind} {c : Contents}

/-- What stands in front of the identifier in the name of a method. -/
def RoutineKind.mark : RoutineKind → String
  | .propertyGet => "get_"
  | .propertyLet => "let_"
  | .propertySet => "set_"
  | _ => ""

/-- Members of one sort with different spellings of one stem. -/
def Header.IsAlias (a b : Header) : Prop :=
  a.kind.mark = b.kind.mark ∧ sameWord a.name.text b.name.text = false ∧ stem a.name.text = stem b.name.text

/-- A function or sub that is spelled as the method of an accessor. -/
def Header.PosesAs (a b : Header) : Prop :=
  a.kind.isProperty = false ∧ b.kind.isProperty = true ∧ identifier a.name.text = b.kind.mark ++ identifier b.name.text

/-- The names of the methods that stand among the members of a class. -/
def methodNames (members : List Stmt) : List String :=
  (Stmt.listMethods members).map (·.1.name)

theorem methodName_eq (header : Header) : methodName header = header.kind.mark ++ identifier header.name.text := by
  rcases header with ⟨kind, name, -, -, -⟩
  cases kind <;> simp [methodName, RoutineKind.mark]

theorem RoutineKind.mark_eq_iff : a.mark = b.mark ↔ a.isProperty = b.isProperty ∧ (a.isProperty = true → a = b) := by
  cases a <;> cases b <;> decide

/-- Among accessors, and among functions and subs, the mark and the rest of a name can be told apart. -/
theorem RoutineKind.mark_append_eq_iff (sort : a.isProperty = b.isProperty) :
    a.mark ++ x = b.mark ++ y ↔ a.mark = b.mark ∧ x = y := by
  constructor
  · intro same
    have lengths : a.mark.toList.length = b.mark.toList.length := by
      revert sort
      cases a <;> cases b <;> decide
    have parts := congrArg String.toList same
    rw [String.toList_append, String.toList_append] at parts
    obtain ⟨marks, rest⟩ := append_inj parts lengths
    exact ⟨String.toList_inj.mp marks, String.toList_inj.mp rest⟩
  · rintro ⟨marks, rfl⟩
    rw [marks]

/-- Members that do not clash become methods of one name in two ways only. -/
theorem methodName_eq_iff {a b : Header} (apart : a.clashes b = false) :
    methodName a = methodName b ↔ a.IsAlias b ∨ a.PosesAs b ∨ b.PosesAs a := by
  rw [methodName_eq, methodName_eq]
  by_cases sort : a.kind.isProperty = b.kind.isProperty
  · have noPose : ¬ a.PosesAs b ∧ ¬ b.PosesAs a :=
      ⟨fun poses => by simp [poses.1, poses.2.1] at sort, fun poses => by simp [poses.1, poses.2.1] at sort⟩
    have spelled : a.kind.mark = b.kind.mark → sameWord a.name.text b.name.text = false := by
      intro marks
      have kinds := (RoutineKind.mark_eq_iff.mp marks).2
      simp only [Header.clashes, Bool.and_eq_false_iff, Bool.not_eq_false'] at apart
      grind
    rw [RoutineKind.mark_append_eq_iff sort, identifier_eq_iff, Header.IsAlias]
    grind
  · have noAlias : ¬ a.IsAlias b := fun twin => sort (RoutineKind.mark_eq_iff.mp twin.1).1
    have plain (kind : RoutineKind) (property : kind.isProperty = false) : kind.mark = "" := by
      cases kind <;> first | rfl | cases property
    cases first : a.kind.isProperty <;> cases second : b.kind.isProperty <;> simp [first, second] at sort
    · simp [Header.PosesAs, noAlias, first, second, plain _ first]
    · simp [Header.PosesAs, noAlias, first, second, plain _ second, eq_comm]

theorem nodup_methodName_iff {headers : List Header} (apart : headers.Pairwise fun a b => a.clashes b = false) :
    (headers.map methodName).Nodup ↔ headers.Pairwise fun a b => ¬ (a.IsAlias b ∨ a.PosesAs b ∨ b.PosesAs a) := by
  rw [Nodup, pairwise_map]
  constructor <;> intro differ
  · exact (apart.and differ).imp fun ⟨apart, differ⟩ => differ ∘ (methodName_eq_iff apart).mpr
  · exact (apart.and differ).imp fun ⟨apart, differ⟩ => differ ∘ (methodName_eq_iff apart).mp

/-- Whether a name is plain and stands in no brackets. -/
def isWordName (name : String) : Bool :=
  isPlain name && name.toList.head? != some '['

theorem stem_of_isWordName (word : isWordName name = true) : stem name = foldCase name := by
  obtain ⟨plain, bare⟩ := Bool.and_eq_true_iff.mp word
  rw [stem_eq_nameKey_iff.mpr plain, nameKey, bareName_of_head (by simpa using bare), foldCase]

theorem not_isAlias_of_isWordName {a b : Header} (first : isWordName a.name.text = true)
    (second : isWordName b.name.text = true) : ¬ a.IsAlias b := by
  rintro ⟨-, differ, stems⟩
  rw [stem_of_isWordName first, stem_of_isWordName second] at stems
  simp [sameWord, stems] at differ

/-! ### Classes that were accepted -/

section Checked

variable {L : Likeness}

/-- Every class of some contents has passed the check of its members. -/
def Contents.Checked (c : Contents) : Prop :=
  ∀ source ∈ c.classes, Parser.checkMembers source.1 {} source.2 = .ok ()

theorem Contents.Checked.append {d : Contents} (first : c.Checked) (second : d.Checked) : (c ++ d).Checked :=
  fun source member => (mem_append.mp member).elim (first source) (second source)

theorem Contents.checked_of_nil (none : c.classes = []) : c.Checked := by
  simp [Contents.Checked, none]

mutual

/-- Blocks that are alike to others were parsed, so their classes were checked. -/
theorem Block.Alike.checked : ∀ {b c : Block}, b.Alike L c → (Contents.ofBlock b).Checked
  | _, _, .blankLine | _, _, .comment _ _ _ | _, _, .optionExplicit | _, _, .call _ | _, _, .assignment _ _
  | _, _, .exit _ | _, _, .randomize _ _ | _, _, .onError _ | _, _, .declaration _ _ | _, _, .routine _ _ =>
    checked_of_nil rfl
  | .classDefinition _ _, _, .classDefinition _ _ checked => by
    simpa [Contents.Checked, Contents.ofBlock] using checked
  | .branch _ _ _, _, .branch _ bodies others =>
    .append (.append (checked_of_nil rfl) (checked_ofBlocks bodies)) (Alternative.Alike.checked others)
  | .doLoop _ _ _, _, .doLoop _ bodies _ | .whileLoop _ _ _, _, .whileLoop _ bodies _
  | .forLoop _ _ _ _ _, _, .forLoop _ _ _ _ bodies | .forEach _ _ _, _, .forEach _ _ bodies
  | .withTarget _ _ _, _, .withTarget _ bodies _ =>
    .append (checked_of_nil rfl) (checked_ofBlocks bodies)
  | .select _ _ _, _, .select _ listed _ => .append (checked_of_nil rfl) (Cases.Alike.checked listed)

theorem checked_ofBlocks : ∀ {bs cs : List Block}, Forall₂ (Block.Alike L) bs cs → (Contents.ofBlocks bs).Checked
  | [], _, .nil => checked_of_nil rfl
  | _ :: _, _, .cons first later => .append (Block.Alike.checked first) (checked_ofBlocks later)

theorem Alternative.Alike.checked : ∀ {x y : Alternative}, x.Alike L y → (Contents.ofAlternative x).Checked
  | _, _, .none => checked_of_nil rfl
  | .elseIf _ _ _, _, .elseIf _ bodies others =>
    .append (.append (checked_of_nil rfl) (checked_ofBlocks bodies)) (Alternative.Alike.checked others)
  | .otherwise _, _, .otherwise bodies => checked_ofBlocks bodies

theorem Cases.Alike.checked : ∀ {x y : Cases}, x.Alike L y → (Contents.ofCases x).Checked
  | _, _, .none => checked_of_nil rfl
  | .case _ _ _, _, .case _ bodies later =>
    .append (.append (checked_of_nil rfl) (checked_ofBlocks bodies)) (Cases.Alike.checked later)

end

end Checked

theorem checked_of_parseBlocks {tokens : List Token} {source : List Block}
    (parsed : parseBlocks tokens = .ok source) : (Contents.ofBlocks source).Checked := by
  have alike := parseBlocks_alike (L := .same) (.of_alike (forall₂_same.mpr fun t (_ : t ∈ tokens) => t.alike_same))
  rw [parsed] at alike
  cases alike with
  | ok same => exact checked_ofBlocks same

/-! ### Members of a class that is emitted -/

variable {ctx : Context} {scope : Scope}

theorem isMember_of_ends {b : Block} (inClass : scope.kind = .classBody) (ends : Ends (block ctx scope b) out) :
    isMember b = true := by
  rw [block.eq_def] at ends
  simpa [inClass] using ends.of_guard.1

theorem routines_of_class {body : List Block} (inClass : scope.kind = .classBody)
    (ends : Ends (blocks ctx scope pending body) out) :
    (Contents.ofBlocks body).routines.map Prod.fst = memberHeaders body := by
  induction body generalizing pending out with
  | nil => rfl
  | cons b rest ih =>
    rcases ends.of_blocks_cons with ⟨text, remarked, more, rfl, -, ends, -⟩ | ⟨made, more, first, ends, -⟩
    · exact ih ends
    · have member := isMember_of_ends inClass first
      have later := ih ends
      cases b with
      | routine header body => simp [Contents.ofBlocks, Contents.ofBlock, memberHeaders, later]
      | blankLine | comment | declaration => simp [Contents.ofBlocks, Contents.ofBlock, memberHeaders, later]
      | _ => cases member

theorem methodNames_of_made {notes : List Note} {source : Token × List Block}
    (made : MembersMade ctx scope notes source members) :
    methodNames members = (memberHeaders source.2).map methodName := by
  obtain ⟨inner, ends, -⟩ := id made
  have named : (Contents.ofBlocks source.2).routines.map (methodName ·.1) = methodNames members :=
    forall₂_map_eq made.routines fun ⟨_, _, _, _, same⟩ => by rw [same]; rfl
  rw [← named, ← routines_of_class rfl ends, map_map]
  rfl

/-- The methods of a class are named after its members, and their names are pairwise different exactly if no
member is an alias of another or poses as an accessor. Members that are plain words are no aliases. -/
theorem accepted_class_methods (settings : Settings) (tokens : List Token) (source : List Block) (lowered : Lowered)
    (parsed : parseBlocks tokens = .ok source) (success : lowerBlocks settings source = .ok lowered) :
    Forall₂ (fun (definition : Token × List Block) members =>
        let headers := memberHeaders definition.2
        methodNames members = headers.map methodName ∧
        ((methodNames members).Nodup ↔
          headers.Pairwise fun a b => ¬ (a.IsAlias b ∨ a.PosesAs b ∨ b.PosesAs a)) ∧
        ∀ a ∈ headers, ∀ b ∈ headers, isWordName a.name.text = true → isWordName b.name.text = true → ¬ a.IsAlias b)
      (Contents.ofBlocks source).classes (lowered.scriptClasses.filterMap Stmt.classMembers?) := by
  obtain ⟨out, program⟩ := made_of_lowerBlocks success
  have classes := program.members
  rw [classes_dropSuperseded] at classes
  have checked := checked_of_parseBlocks parsed
  refine ((forall₂_and_left ..).mpr ⟨checked, classes⟩).imp fun definition members ⟨passed, made⟩ => ?_
  have apart := ((Parser.checkMembers_ok_iff ..).mp passed).2
  refine ⟨methodNames_of_made made, ?_, fun a _ b _ => not_isAlias_of_isWordName⟩
  rw [methodNames_of_made made]
  exact nodup_methodName_iff apart

/-- A class of routines without parameters and bodies. -/
def bareClass (members : List (RoutineKind × String)) : List Token :=
  PrintStyle.blocks ⟨0, false, false, false⟩ [.classDefinition ⟨.name, "C", 0⟩ <| members.map fun (kind, name) =>
    .routine ⟨kind, ⟨.name, name, 0⟩, true, false, []⟩ []]

theorem exists_of_methodNames (tokens : List Token) (names : List (List String))
    (run : ((parseBlocks tokens).toOption.map fun source => (lowerBlocks {} source).toOption.map fun lowered =>
      (lowered.scriptClasses.filterMap Stmt.classMembers?).map methodNames) = some (some names)) :
    ∃ source lowered, parseBlocks tokens = .ok source ∧ lowerBlocks {} source = .ok lowered ∧
      (lowered.scriptClasses.filterMap Stmt.classMembers?).map methodNames = names := by
  obtain ⟨source, parsed, run⟩ := exists_of_toOption_map run
  obtain ⟨lowered, success, same⟩ := exists_of_toOption_map run
  exact ⟨source, lowered, parsed, success, same⟩

theorem accepted_class_methods_property : ∃ source lowered,
    parseBlocks (bareClass [(.propertyGet, "x"), (.propertySet, "X"), (.function, "gets_x")]) = .ok source ∧
      lowerBlocks {} source = .ok lowered ∧ ∃ definition ∈ (Contents.ofBlocks source).classes,
        (memberHeaders definition.2).map methodName = ["get_x", "set_x", "gets_x"] ∧
        (memberHeaders definition.2).Pairwise fun a b => ¬ (a.IsAlias b ∨ a.PosesAs b ∨ b.PosesAs a) := by
  obtain ⟨source, lowered, parsed, success, same⟩ := exists_of_methodNames
    (bareClass [(.propertyGet, "x"), (.propertySet, "X"), (.function, "gets_x")]) [["get_x", "set_x", "gets_x"]]
    (by decide +kernel)
  have all := accepted_class_methods {} _ source lowered parsed success
  obtain ⟨members, one, same⟩ := map_eq_singleton_iff.mp same
  rw [one, forall₂_cons_right_iff] at all
  obtain ⟨definition, rest, ⟨named, apart, -⟩, -, listed⟩ := all
  refine ⟨source, lowered, parsed, success, definition, by simp [listed], named.symm.trans same, apart.mp ?_⟩
  rw [same]
  decide

/-- Brackets get a second function of one name past the check, and the class has two methods of one name. -/
theorem bracketed_twin_becomes_same_method : ∃ source lowered,
    parseBlocks (bareClass [(.function, "F"), (.function, "[F]")]) = .ok source ∧ lowerBlocks {} source = .ok lowered ∧
      (lowered.scriptClasses.filterMap Stmt.classMembers?).map methodNames = [["f", "f"]] :=
  exists_of_methodNames _ _ (by decide +kernel)

end VbSharp
