import VbSharp.Proofs.Lower.Block
import VbSharp.Proofs.Lower.Called

/-!
# Call sites agree with signatures

A call is lowered by what the frames say about routines, and frames are made from the source beforehand; the
first line of a method is made from the routine itself. Here the two are shown to agree.
-/
namespace VbSharp

open List
open CSharp (Call Reference Signature Stmt Head)

variable {body bs : List Block} {name : Token} {notes : List Note}

variable (header : Header) (result : Option String)

namespace Lower

/-! ### Calls that fit -/

/-- The call that the constructor of a class with a sub `Class_Initialize` makes. -/
def initialization : Call :=
  ⟨⟨false, "class_initialize"⟩, []⟩

/-- A class calls what is offered in it, apart from its initialization, and its methods are made from its
routines. -/
def ClassAnswers (scope : Scope) (source : Token × List Block) (s : Stmt) : Prop :=
  ∃ members, s.classMembers? = some members ∧ (∀ call ∈ s.calls, (scope.ofClass source.2).Offers call ∨
      call = initialization ∧ hasInitializer source.2 = true) ∧ (Stmt.listMethods members).map Prod.fst =
      (Contents.ofBlocks source.2).routines.map (signature ·.1 .classBody false)

variable {ctx : Context} {scope : Scope} {out : Emission} {c : Contents}

theorem listCalls_attributes : Stmt.listCalls (attributes header) = [] := by
  unfold attributes
  split_ifs <;> rfl

theorem listCalls_declare (declared : List CSharp.Declaration) :
    Stmt.listCalls (declared.map fun d => Stmt.ofSimple (.declare d)) = [] := by
  simp [Stmt.listCalls_eq_flatMap, CSharp.Simple.calls]

theorem listCalls_methodBody (declared : List CSharp.Declaration) (stmts : List Stmt) :
    Stmt.listCalls (methodBody result declared stmts) = Stmt.listCalls stmts := by
  cases result <;> simp only [methodBody] <;> split <;>
    simp [listCalls_declare, CSharp.Simple.calls]

theorem listCalls_routineStmts (inner : Emission) :
    Stmt.listCalls (routineStmts ctx scope header result inner) = Stmt.listCalls inner.stmts := by
  unfold routineStmts
  split_ifs <;> simp [listCalls_attributes, listCalls_methodBody, Head.calls]

theorem listCalls_classFrame (name : String) (takesOuter initializes : Bool) :
    Stmt.listCalls (classFrame name takesOuter initializes) =
      if initializes then [initialization] else [] := by
  cases takesOuter <;> cases initializes <;> rfl

/-- A class calls what its members call, and its constructor makes one more call if it initializes. -/
theorem calls_classStmt (name : Token) (body : List Block) (members : Emission) :
    (classStmt name body members).calls =
      (if hasInitializer body then [initialization] else []) ++ Stmt.listCalls members.stmts := by
  have calls := @flatMap_members _ name body members Stmt.calls rfl _ rfl
  simp only [← Stmt.listCalls_eq_flatMap, listCalls_declare, listCalls_classFrame, nil_append] at calls
  exact calls

/-- A routine has no routines of its own, so what is offered in it is offered around it. -/
theorem RoutineEnds.offers {header : Header} {body : List Block} {result : Option String} {inner : Emission}
    (ends : RoutineEnds ctx scope header body result inner)
    (offered : ∀ call ∈ Stmt.listCalls inner.stmts, (scope.ofRoutine header body result).Offers call) :
    ∀ call ∈ Stmt.listCalls (routineStmts ctx scope header result inner), scope.Offers call := by
  have none : (Declared.ofBlocks body).routines = [] := by
    have inside : (Contents.ofBlocks body).routines = [] :=
      eq_nil_iff_forall_not_mem.mpr fun r member => ((blocks_made ends.ends).admitted r member).1 rfl
    rw [(Contents.agrees_ofBlocks body).routines, Contents.functions, inside]
    rfl
  rw [listCalls_routineStmts]
  exact fun call member => (offered call member).of_ofRoutine none

/-! ### All blocks -/

theorem offers_clause {test : Expr} {term : CSharp.Term} {head : Head} {inner : Emission}
    (given : (condition (ctx.site scope) test).Gives term notes) (opens : head = .branch term ∨ head = .elseBranch term)
    (offered : ∀ call ∈ Stmt.listCalls inner.stmts, scope.Offers call) :
    ∀ call ∈ Stmt.listCalls [.ofBlock head inner.stmts], scope.Offers call := by
  have tested : ∀ call ∈ term.calls, scope.Offers call := by
    rw [term.calls_eq]
    exact (told_condition given).offers
  rw [Stmt.listCalls_cons, Stmt.listCalls_nil, append_nil, Stmt.calls_ofBlock]
  rcases opens with rfl | rfl
  · exact forall_mem_append.mpr ⟨tested, offered⟩
  · exact forall_mem_append.mpr ⟨tested, offered⟩

theorem offers_single {content : CSharp.Simple} (offered : ContentOffered scope content) :
    ∀ call ∈ Stmt.listCalls [.ofSimple content], scope.Offers call := by
  rw [Stmt.listCalls_cons, Stmt.listCalls_nil, append_nil, Stmt.calls_ofSimple]
  exact offered

/-- Blocks call what their scope offers if the blocks inside do. -/
theorem offers_inherited (ctx : Context) : Inherited ctx (fun out => Stmt.listCalls out.stmts)
    (fun scope _ calls => ∀ call ∈ calls, scope.Offers call) where
  view_append _ _ := Stmt.listCalls_append _ _
  view_remark := Stmt.listCalls_addRemark?
  append first second := forall_mem_append.mpr ⟨first, second⟩
  empty _ := forall_mem_nil _
  blank _ := forall_mem_nil _
  comment _ _ := forall_mem_nil _
  leave _ _ := forall_mem_nil _
  call given := offers_single (contentOffered_of_tells (told_callStatement given).tells)
  assignment given := offers_single (contentOffered_of_tells (told_assignment given).2.tells)
  randomize given := offers_single (contentOffered_of_tells (told_randomize given).tells)
  variableEmission ends := by
    obtain ⟨-, -, -, ⟨-, stmts, -⟩ | ⟨content, _, _, -, given, stmts⟩⟩ := ends.of_variableEmission
    · rw [stmts]
      exact forall_mem_nil _
    · rw [stmts]
      exact offers_single (contentOffered_of_tells (told_sizeArray given).2.tells)
  routine ends held := by
    unfold routineEmission
    split
    · exact forall_mem_nil _
    · exact ends.offers held
  classDefinition _ _ _ := forall_mem_nil _
  clause given opens offered := offers_clause given opens offered
  otherwise offered := by
    rw [Stmt.listCalls_cons, Stmt.listCalls_nil, append_nil]
    exact offered

/-- What the blocks of one frame become calls what their scope offers. -/
theorem blocks_offer (ends : Ends (blocks ctx scope [] bs) out) : ∀ call ∈ Stmt.listCalls out.stmts, scope.Offers call :=
  (offers_inherited ctx).ofBlocks ends

theorem Made.offers_methods (made : Made ctx scope c out) :
    ∀ call ∈ Stmt.listCalls out.methods.flatten, scope.Offers call := by
  intro call member
  rw [Stmt.listCalls_eq_flatMap] at member
  obtain ⟨s, listed, called⟩ := mem_flatMap.mp member
  obtain ⟨group, inMethods, inGroup⟩ := mem_flatten.mp listed
  obtain ⟨header, body, result, inner, ends, rfl⟩ := made.methods group inMethods
  refine ends.offers (blocks_offer ends.ends) call ?_
  rw [Stmt.listCalls_eq_flatMap]
  exact mem_flatMap.mpr ⟨s, inGroup, called⟩

/-- The first lines of methods are made from the routines. -/
theorem signatures_of_made {sources : List (Header × List Block)} {methods : List (CSharp.Signature × List Stmt)}
    (made : Forall₂ (RoutineMade ctx scope notes) sources methods) :
    methods.map Prod.fst = sources.map (signature ·.1 scope.kind (ctx.setsApart scope)) := by
  induction made with
  | nil => rfl
  | cons first _ ih =>
    obtain ⟨result, inner, -, -, rfl⟩ := first
    rw [map_cons, map_cons, ih]

theorem ClassMade.answers {source : Token × List Block} {s : Stmt} (made : ClassMade ctx scope notes source s) :
    ClassAnswers scope source s := by
  obtain ⟨inner, ends, -, rfl⟩ := made
  have members : MembersMade ctx scope inner.notes source _ := ⟨inner, ends, Subset.refl _, rfl⟩
  refine ⟨_, rfl, fun call member => ?_, signatures_of_made members.routines⟩
  rw [calls_classStmt, mem_append] at member
  -- the constructor may make one call that no member makes
  rcases member with initializes | inside
  · right
    split at initializes
    · next has => exact ⟨mem_singleton.mp initializes, has⟩
    · cases initializes
  · exact .inl (blocks_offer ends call inside)

end Lower
end VbSharp
