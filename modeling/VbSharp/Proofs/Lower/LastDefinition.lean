import VbSharp.Lower.Program

/-!
# The last definition counts

A function or sub of the outermost code that is defined again later is dropped before anything else
looks at the program. What such a definition says besides its name (its parameters and its body) reaches
neither the scope, nor the numbering of the results, nor the notes, the faults or the log: two programs
that differ there alone are lowered in one and the same way.
-/
namespace VbSharp

open Block
variable {source other later more : List Block}

/-- The key of a function or sub. -/
def Block.routineKey? : Block → Option String
  | .routine header _ => if header.kind.isProperty then none else some (nameKey header.name.text)
  | _ => none

/-- Whether a block counts before the blocks behind it: none of them has its key. -/
def Block.countsBefore (b : Block) (later : List Block) : Bool :=
  b.routineKey?.all fun key => later.all fun other => other.routineKey? != some key

/-- Programs that differ in the parameters and bodies of functions and subs that are defined again. -/
inductive DifferInSuperseded : List Block → List Block → Prop
  | nil : DifferInSuperseded [] []
  | same (b : Block) {rest more : List Block} : DifferInSuperseded rest more →
      DifferInSuperseded (b :: rest) (b :: more)
  | superseded (header : Header) (parameters : List Parameter) (body other : List Block)
      {rest more : List Block} : (Block.routine header body).countsBefore rest = false → DifferInSuperseded rest more →
      DifferInSuperseded (.routine header body :: rest) (.routine { header with parameters } other :: more)

namespace Lower

theorem definesRoutine_eq (key : String) (b : Block) : definesRoutine key b = (b.routineKey? == some key) := by
  cases b with
  | routine header body =>
    cases property : header.kind.isProperty <;> simp [definesRoutine, routineKey?, property]
  | _ => rfl

theorem superseded?_routine (header : Header) (body later : List Block) :
    superseded? (.routine header body) later =
      if (Block.routine header body).countsBefore later then none else some header := by
  cases property : header.kind.isProperty with
  | true => simp [superseded?, countsBefore, routineKey?, property]
  | false =>
    have again : (later.any fun b => definesRoutine (nameKey header.name.text) b) =
        !(Block.routine header body).countsBefore later := by
      simp only [countsBefore, routineKey?, property, definesRoutine_eq]
      simp [List.not_all_eq_any_not, bne]
    cases counts : (Block.routine header body).countsBefore later <;>
      simp [superseded?, property, again, counts]

theorem superseded?_isSome (b : Block) (later : List Block) : (superseded? b later).isSome = !b.countsBefore later := by
  cases b with
  | routine header body =>
    rw [superseded?_routine]
    cases (Block.routine header body).countsBefore later <;> rfl
  | _ => rfl

/-- The blocks that are kept are those that count where they stand, in their order. -/
theorem dropSuperseded_eq (source : List Block) : dropSuperseded source =
    (source.zipIdx.filter fun p => p.1.countsBefore (source.drop (p.2 + 1))).map Prod.fst := by
  induction source with
  | nil => rfl
  | cons b rest ih =>
    rw [dropSuperseded, superseded?_isSome, List.zipIdx_cons, Nat.zero_add, List.zipIdx_succ]
    cases counts : b.countsBefore rest <;> simp [counts, ih, List.filter_map, Function.comp_def]

/-- A definition counts by its key and by the keys of the blocks behind it. -/
theorem countsBefore_congr {b other : Block} (key : b.routineKey? = other.routineKey?)
    (keys : later.map routineKey? = more.map routineKey?) : b.countsBefore later = other.countsBefore more := by
  have all (key : String) : (later.all fun b => b.routineKey? != some key) =
      more.all fun b => b.routineKey? != some key := by
    simpa [List.all_map, Function.comp_def] using congrArg (List.all · (· != some key)) keys
  simp only [countsBefore, key, all]

end Lower

namespace DifferInSuperseded

theorem keys (differ : DifferInSuperseded source other) : source.map routineKey? = other.map routineKey? := by
  induction differ with
  | nil => rfl
  | same b _ ih => simp [ih]
  | superseded header parameters body other _ _ ih => simp [ih, routineKey?]

/-- The same blocks are kept, and the dropped ones have the same names. -/
theorem kept (differ : DifferInSuperseded source other) :
    Lower.dropSuperseded source = Lower.dropSuperseded other ∧
      (Lower.supersededHeaders source).map (·.name) = (Lower.supersededHeaders other).map (·.name) := by
  induction differ with
  | nil => exact ⟨rfl, rfl⟩
  | @same b rest more differ ih =>
    have again : Lower.superseded? b rest = Lower.superseded? b more := by
      cases b with
      | routine header body =>
        rw [Lower.superseded?_routine, Lower.superseded?_routine, Lower.countsBefore_congr rfl differ.keys]
      | _ => rfl
    simp [Lower.dropSuperseded, Lower.supersededHeaders, again, ih]
  | @superseded header parameters body other rest more again differ ih =>
    have key : (Block.routine header body).routineKey? =
      (Block.routine { header with parameters } other).routineKey? := rfl
    have also := (Lower.countsBefore_congr key differ.keys).symm.trans again
    simp [Lower.dropSuperseded, Lower.supersededHeaders, Lower.superseded?_routine, again, also, ih]

end DifferInSuperseded

theorem Lower.program_congr (kept : dropSuperseded source = dropSuperseded other)
    (names : (supersededHeaders source).map (·.name) = (supersededHeaders other).map (·.name)) (settings : Settings) :
    program settings source = program settings other := by
  have reports (headers : List Header) : (headers.forM fun header =>
      report (.definitionSuperseded header.name.text header.name.lineNumber)) =
        (headers.map (·.name)).forM fun name => report (.definitionSuperseded name.text name.lineNumber) := by
    simp
  simp only [program, reports, kept, names]

/-- All blocks but functions and subs are kept, and of the functions and subs with one key the last; the
others have no say in what becomes of the program, be it code, a fault or a line of the log. -/
theorem last_definition_counts : (∀ source : List Block, Lower.dropSuperseded source =
      (source.zipIdx.filter fun p => p.1.countsBefore (source.drop (p.2 + 1))).map Prod.fst) ∧
    ∀ (settings : Settings) (source other : List Block), DifferInSuperseded source other →
      Lower.program settings source = Lower.program settings other ∧
        lowerBlocks settings source = lowerBlocks settings other := by
  refine ⟨Lower.dropSuperseded_eq, fun settings source other differ => ?_⟩
  have same := Lower.program_congr differ.kept.1 differ.kept.2 settings
  exact ⟨same, by rw [lowerBlocks, lowerBlocks, same]⟩

theorem last_definition_counts_sub :
    let early : Header := ⟨.function, ⟨.name, "Total", 0⟩, true, false, []⟩
    let last : Block := .routine ⟨.sub, ⟨.name, "[TOTAL]", 3⟩, true, false, []⟩ []
    let source := [.routine early [.exit .sub 1], .blankLine, last]
    let other := [.routine { early with parameters := [⟨.byRef, ⟨.name, "x", 0⟩, false⟩] } [], .blankLine, last]
    DifferInSuperseded source other ∧ (Lower.dropSuperseded source).length = 2 ∧
      lowerBlocks {} source = lowerBlocks {} other := by
  intro early last source other
  have differ : DifferInSuperseded source other :=
    .superseded early _ _ _ (by decide) (.same _ (.same _ .nil))
  exact ⟨differ, by decide, (last_definition_counts.2 {} source other differ).2⟩

end VbSharp
