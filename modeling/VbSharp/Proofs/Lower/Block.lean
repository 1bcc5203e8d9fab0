import VbSharp.Proofs.Lower.Covering
import VbSharp.Proofs.Lower.Induction
import VbSharp.Proofs.Lower.Making

/-!
# Blocks fit what they become

What the blocks of a frame hold is compared with what they become: their uses are written and noted, and the
variables they declare are declared. Routines and classes are declaration spaces of their own.
-/
namespace VbSharp.Lower

open List Lower.Emission
open CSharp (Reference Stmt Declaration DeclarationSpace Head)

variable {bs : List Block} {name : Token} {ctx : Context} {scope : Scope} {out : Emission} {c d : Contents}
  {notes : List Note}

variable {head : Head} {uses : List Use}

/-- What an emission declares and refers to. -/
structure Footprint where
  references : List Reference := []
  declared : List String := []
  notes : List Note := []

instance : Append Footprint where
  append a b := ⟨a.references ++ b.references, a.declared ++ b.declared, a.notes ++ b.notes⟩

def Emission.footprint (out : Emission) : Footprint :=
  ⟨Stmt.listReferences out.stmts, out.declared.map Declaration.name, out.notes⟩

theorem footprint_append (a b : Emission) : (a ++ b).footprint = a.footprint ++ b.footprint := by
  change Footprint.mk _ _ _ = Footprint.mk _ _ _
  rw [append_def, Stmt.listReferences_append, map_append]
  rfl

/-- Braces that open no space add what their first line refers to. -/
theorem footprint_braces (out : Emission) (plain : head.opensSpace = false) :
    ({ out with stmts := [.ofBlock head out.stmts] } : Emission).footprint =
      ({ references := head.references } : Footprint) ++ out.footprint := by
  change Footprint.mk _ _ _ = Footprint.mk _ _ _
  simp [Stmt.ofBlock, Stmt.references, plain, footprint]

/-- A space writes what some blocks use and declares what they declare. -/
structure SpaceFits (scope : Scope) (c : Contents) (notes : List Note) (space : DeclarationSpace) :
    Prop where
  covers : Covers scope c.uses space.references notes
  declared : ∀ v ∈ c.declared, (declaredVariable scope v.1 v.2).2 = true → identifier v.2.text ∈ space.declared

/-- A footprint fits the blocks that it was made from. -/
def Fits (scope : Scope) (c : Contents) (f : Footprint) : Prop :=
  SpaceFits scope c f.notes ⟨scope.kind, f.declared, f.references⟩

variable {f g : Footprint}

theorem Fits.append (first : Fits scope c f) (second : Fits scope d g) : Fits scope (c ++ d) (f ++ g) where
  covers := first.covers.append second.covers
  declared := by
    intro v member isNew
    rcases mem_append.mp member with left | right
    · exact mem_append_left _ (first.declared v left isNew)
    · exact mem_append_right _ (second.declared v right isNew)

/-- Statements fit if what they use is written. -/
theorem Fits.simple {references : List Reference} (covers : Covers scope uses references notes) :
    Fits scope { uses := uses } { references := references, notes := notes } :=
  ⟨covers, forall_mem_nil _⟩

theorem Fits.empty : Fits scope {} {} :=
  .simple .nil

theorem fits_single {content : CSharp.Simple} (covers : Covers scope uses content.references notes) :
    Fits scope { uses := uses } ({ stmts := [.ofSimple content], notes := notes } : Emission).footprint := by
  simpa [footprint] using Fits.simple covers

@[simp]
theorem Context.scope_site (ctx : Context) (scope : Scope) : (ctx.site scope).scope = scope := rfl

theorem declaredVariable_of_isNew {isReDim : Bool} (isNew : (declaredVariable scope isReDim name).2 = true) :
    (declaredVariable scope isReDim name).1 = ⟨false, identifier name.text⟩ := by
  unfold declaredVariable at isNew ⊢
  simp only at isNew ⊢
  split
  · next target resolved =>
    rw [resolved] at isNew
    simp only at isNew
    split at isNew
    · cases isNew
    · next own => rw [if_neg own]
  · rfl

theorem Ends.fits_variableEmission {kind : DeclarationKind} {visibility : CSharp.Visibility}
    {v : Variable} (ends : Ends (variableEmission ctx scope kind visibility v) out) :
    Fits scope { uses := v.uses kind.isReDim, declared := [(kind.isReDim, v.name)] } out.footprint := by
  obtain ⟨declared, -, -, code⟩ := ends.of_variableEmission
  constructor
  · change Covers scope (v.uses kind.isReDim) (Stmt.listReferences out.stmts) out.notes
    rcases code with ⟨unsized, stmts, notes⟩ | ⟨content, bound, bounds, sized, given, stmts⟩
    · have none : v.uses kind.isReDim = [] := by
        unfold Variable.uses
        split <;> simp_all
      rw [none, stmts, notes]
      exact .nil
    · have array : Covers (ctx.site scope).scope _ content.references out.notes :=
        (accounts_sizeArray given).covers
      rw [stmts, Variable.uses, sized]
      simpa using array
  · refine forall_mem_singleton.mpr fun isNew => ?_
    simp [footprint, declared, isNew, declaredVariable_of_isNew isNew]

theorem outside_references : IsOutside Stmt.references :=
  ⟨⟨rfl, Stmt.listReferences_eq_flatMap, rfl⟩, fun _ _ => rfl, fun _ => rfl, rfl⟩

theorem fits_clause {test : Expr} {term : CSharp.Term} {inner : Emission}
    (given : (condition (ctx.site scope) test).Gives term notes)
    (opens : head = .branch term ∨ head = .elseBranch term) (fits : Fits scope c inner.footprint) :
    Fits scope ({ uses := Expr.uses test } ++ c)
      (({ notes := notes } : Emission) ++ { inner with stmts := [.ofBlock head inner.stmts] }).footprint := by
  have covers : Covers scope (Expr.uses test) term.references notes := (accounts_condition given).covers
  have braces := (Fits.simple covers).append fits
  rw [footprint_append]
  rcases opens with rfl | rfl
  · rw [footprint_braces inner rfl]
    exact braces
  · rw [footprint_braces inner rfl]
    exact braces

/-- Footprints fit the blocks they were made from if those of the blocks inside do. -/
theorem fits_inherited (ctx : Context) : Inherited ctx footprint Fits where
  view_append := footprint_append
  view_remark added := by rw [footprint, footprint, (Stmt.listReferences_addRemark? added).1]
  append := Fits.append
  empty _ := .empty
  blank _ := .empty
  comment _ _ := .empty
  leave _ _ := .empty
  call given := fits_single (accounts_callStatement given).covers
  assignment given := fits_single (accounts_assignment given).covers
  randomize given := fits_single (accounts_randomize given).covers
  variableEmission ends := ends.fits_variableEmission
  routine _ _ := by
    refine ⟨?_, ?_⟩
    · rw [footprint, Stmt.listReferences_eq_flatMap, outside_references.routineEmission]
      exact Covers.nil.mono (nil_subset _)
    · exact forall_mem_nil _
  classDefinition _ _ _ := ⟨Covers.nil.mono (nil_subset _), forall_mem_nil _⟩
  clause given opens fits := fits_clause given opens fits
  otherwise fits := by
    rw [footprint_braces _ rfl]
    exact fits

theorem blocks_fit (ends : Ends (blocks ctx scope [] bs) out) : Fits scope (Contents.ofBlocks bs) out.footprint :=
  (fits_inherited ctx).ofBlocks ends

theorem ProgramMade.listReferences_outermost {source : List Block} {lowered : Lowered}
    (program : ProgramMade source lowered ctx scope out) :
    Stmt.listReferences lowered.outermost = Stmt.listReferences out.stmts := by
  rw [Stmt.listReferences_eq_flatMap, program.flatMap_outermost_outside outside_references]
  simp only [← Stmt.listReferences_eq_flatMap, (Stmt.silent_of_isLeading isLeading_first).1, nil_append]

end VbSharp.Lower
