import VbSharp.Proofs.Lower.AlikeBlocks

/-!
# Lowering alike programs

The same routines are superseded in alike programs, the same dates are checked, and the names that nobody declares are
alike one by one. So the whole of both programs is put together alike.
-/
namespace VbSharp

open List

variable {b c : Block} {source later : List Block} {others notes : List Note}

variable {L : Likeness}

namespace Lower

open CSharp (Stmt)

variable (asClass : Bool)

theorem definesRoutine_alike (key : String) (alike : b.Alike L c) : definesRoutine key b = definesRoutine key c := by
  cases alike with
  | routine header _ => simp only [definesRoutine, header.kind, header.name.nameKey]
  | _ => rfl

theorem superseded?_alike {others : List Block} (alike : b.Alike L c) (rest : Forall₂ (Block.Alike L) later others) :
    (superseded? b later).isSome = (superseded? c others).isSome := by
  cases alike with
  | @routine h k _ _ header _ =>
    have again : later.any (definesRoutine (nameKey h.name.text)) = others.any (definesRoutine (nameKey k.name.text)) := by
      rw [header.name.nameKey]
      exact forall₂_any rest (definesRoutine_alike _)
    simp only [superseded?, header.kind, again]
    split <;> rfl
  | _ => rfl

theorem dropSuperseded_alike {other : List Block} (alike : Forall₂ (Block.Alike L) source other) :
    Forall₂ (Block.Alike L) (dropSuperseded source) (dropSuperseded other) := by
  induction alike with
  | nil => exact .nil
  | cons same rest ih =>
    rw [dropSuperseded, dropSuperseded, superseded?_alike same rest]
    split
    · exact ih
    · exact .cons same ih

theorem allows_dropSuperseded (allowed : L.Allows (Block.listOptionInClass false source)) :
    L.Allows (Block.listOptionInClass false (dropSuperseded source)) := by
  induction source with
  | nil => exact allowed
  | cons b rest ih =>
    rw [Lower.dropSuperseded]
    split
    · exact ih allowed.right
    · intro found
      rcases Bool.or_eq_true_iff.mp found with here | later
      · exact allowed.left here
      · exact ih allowed.right later

theorem firstNames_alike {names others : List Token} (alike : Forall₂ (Token.Alike L) names others) :
    Forall₂ (Token.Alike L) (firstNames names) (firstNames others) := by
  refine rel_foldl ?_ .nil alike
  intro found known seen t u same
  have again : (found.any fun v => nameKey v.text == nameKey t.text) = known.any fun v => nameKey v.text == nameKey u.text :=
    forall₂_any seen fun listed => by rw [listed.nameKey, same.nameKey]
  simp only [again]
  split
  · exact seen
  · exact rel_append seen (.cons same .nil)

theorem undeclaredNames_alike (alike : Forall₂ (Note.Alike L) notes others) :
    Forall₂ (Token.Alike L) (undeclaredNames notes) (undeclaredNames others) := by
  refine firstNames_alike (rel_filterMap ?_ alike)
  intro x y same
  cases same with
  | undeclared name => exact .some name
  | date => exact .none

theorem datesToCheck_alike (alike : Forall₂ (Note.Alike L) notes others) :
    datesToCheck notes = datesToCheck others := by
  unfold datesToCheck
  refine congrArg firstTexts ?_
  induction alike with
  | nil => rfl
  | cons same _ ih =>
    cases same with
    | undeclared => exact ih
    | date text => exact congrArg (text :: ·) ih

variable {out other : Emission}

theorem implicitNames_alike (alike : out.Alike L other) :
    Forall₂ (Token.Alike L) (implicitNames out) (implicitNames other) := by
  unfold implicitNames
  rw [alike.declared]
  refine rel_filter ?_ (undeclaredNames_alike alike.notes)
  intro t u same
  simp only [same.identifier]

theorem outermostDeclarations_alike (alike : out.Alike L other) :
    outermostDeclarations asClass out = outermostDeclarations asClass other := by
  unfold outermostDeclarations
  rw [alike.declared]
  refine congrArg _ (forall₂_map_eq (implicitNames_alike alike) fun same => ?_)
  rw [same.identifier]

theorem outerClassStmt_alike (fields : List Stmt) (alike : out.Alike L other) :
    (outerClassStmt fields out.stmts out.methods).Alike L (outerClassStmt fields other.stmts other.methods) := by
  unfold outerClassStmt
  rw [forall₂_isEmpty alike.methods]
  refine Stmt.alike_ofBlock (.same _) (rel_append (rel_append (Stmt.alike_refls _) ?_) ?_)
  · exact .cons .blank (.cons (Stmt.alike_ofBlock (.same _) (Stmt.trim_alike alike.stmts)) .nil)
  · split
    · exact .nil
    · exact .cons .blank (Stmt.spaced_alike alike.methods)

theorem arrange_alike (dates : List String) (declarations : List Stmt) (alike : out.Alike L other) :
    Forall₂ (Stmt.Alike L) (arrange asClass dates declarations out).1 (arrange asClass dates declarations other).1 ∧
    Forall₂ (Stmt.Alike L) (arrange asClass dates declarations out).2
      (arrange asClass dates declarations other).2 := by
  have classes : Forall₂ (Stmt.Alike L) (Stmt.spaced (out.classes.map ([·])))
      (Stmt.spaced (other.classes.map ([·]))) :=
    Stmt.spaced_alike (rel_map (fun _ _ same => .cons same .nil) alike.classes)
  cases asClass with
  | true =>
    refine ⟨Stmt.alike_refls _, .cons (outerClassStmt_alike declarations alike) ?_⟩
    rw [forall₂_isEmpty classes]
    split
    · exact .nil
    · exact .cons .blank classes
  | false =>
    refine ⟨rel_append ?_ alike.stmts, classes⟩
    rw [forall₂_isEmpty alike.stmts]
    exact Stmt.alike_refls _

/-- Lowered programs that are alike. Their warnings are about alike names. -/
structure Lowered.Alike (L : Likeness) (x y : Lowered) : Prop where
  body : Forall₂ (Stmt.Alike L) x.body y.body
  classes : Forall₂ (Stmt.Alike L) x.classes y.classes
  dates : x.dates = y.dates
  warnings : ∃ names others, Forall₂ (Token.Alike L) names others ∧
    x.warnings = names.map undeclaredWarning ∧ y.warnings = others.map undeclaredWarning

/-- The program that the outermost code makes. -/
def assembled (asClass : Bool) (out : Emission) : Lowered :=
  let arranged := arrange asClass (datesToCheck out.notes) (outermostDeclarations asClass out) out
  ⟨arranged.1, arranged.2, datesToCheck out.notes, (implicitNames out).map undeclaredWarning⟩

theorem assembled_alike (alike : out.Alike L other) : (assembled asClass out).Alike L (assembled asClass other) := by
  unfold assembled
  rw [datesToCheck_alike alike.notes, outermostDeclarations_alike asClass alike]
  obtain ⟨body, classes⟩ :=
    arrange_alike asClass (datesToCheck other.notes) (outermostDeclarations asClass other) alike
  exact ⟨body, classes, rfl, _, _, implicitNames_alike alike, rfl, rfl⟩

theorem program_alike (settings : Settings) {other : List Block} (alike : Forall₂ (Block.Alike L) source other)
    (allowed : L.Allows (Block.listOptionInClass false source)) :
    Lowering.Alike L (Lowered.Alike L) (program settings source) (program settings other) := by
  have kept := dropSuperseded_alike alike
  unfold program
  refine (alike_reports _ _).bind fun _ => ?_
  simp only [Scope.ofProgram, Declared.ofBlocks_alike kept]
  refine (blocks_alike _ (Scope.ofProgram _ _) kept .nil (allows_dropSuperseded allowed)).bind fun made => ?_
  refine (alike_reports _ _).bind fun _ => (alike_report _ _).bind fun _ => ?_
  exact .done (assembled_alike _ made)

end Lower

theorem lowerBlocks_alike (settings : Settings) {other : List Block} (alike : Forall₂ (Block.Alike L) source other)
    (allowed : L.Allows (Block.listOptionInClass false source)) :
    L.Results (Lower.Lowered.Alike L) (lowerBlocks settings source) (lowerBlocks settings other) := by
  have ended := Lower.program_alike settings alike allowed {} {} rfl
  unfold lowerBlocks EStateM.run
  generalize Lower.program settings source {} = one at ended ⊢
  generalize Lower.program settings other {} = two at ended ⊢
  cases ended with
  | ok related _ => exact .ok related
  | error alike => exact .error alike

end VbSharp
