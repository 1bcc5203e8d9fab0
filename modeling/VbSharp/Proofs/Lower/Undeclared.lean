import VbSharp.Proofs.Lower.Covering
import VbSharp.Proofs.Lower.Within

/-!
# The names that nobody declares

The names that a program uses and nobody declares are listed by a walk over its blocks, each read in the scope
where it stands. What lowering notes on its way is shown to be exactly what the walk finds, so the outermost
code declares each of these names once and nothing else.
-/
namespace VbSharp

open List Scope
open CSharp (Stmt Declaration)

variable {notes second first : List Note} {kind : DeclarationKind} {vars : List Variable} {name : Token}
  {s inner : Scope} {declared a b : List (Bool × Token)}

variable (names : List Token)

/-! ### The walk -/

namespace Block

mutual

/-- The names in a block that nobody declares. Bodies of routines and classes have scopes of their own; how the
variable for the result of a routine is called does not matter there. -/
def undeclared (scope : Scope) : Block → List Token
  | .classDefinition _ body => listUndeclared (scope.ofClass body) body
  | .routine header body =>
    listUndeclared (scope.ofRoutine header body (if header.kind.returnsValue then some "" else none)) body
  | .branch test body rest =>
    scope.undeclaredAmong (Expr.uses test) ++ listUndeclared scope body ++ undeclaredAlternative scope rest
  | b => scope.undeclaredAmong (Contents.ofBlock b).uses

def listUndeclared (scope : Scope) : List Block → List Token
  | [] => []
  | b :: rest => b.undeclared scope ++ listUndeclared scope rest

def undeclaredAlternative (scope : Scope) : Alternative → List Token
  | .none => []
  | .elseIf test body rest =>
    scope.undeclaredAmong (Expr.uses test) ++ listUndeclared scope body ++ undeclaredAlternative scope rest
  | .otherwise body => listUndeclared scope body

end

theorem listUndeclared_append (scope : Scope) (a b : List Block) :
    listUndeclared scope (a ++ b) = listUndeclared scope a ++ listUndeclared scope b := by
  induction a with
  | nil => rfl
  | cons first rest ih => rw [cons_append, listUndeclared, listUndeclared, ih, append_assoc]

theorem listUndeclared_singleton (scope : Scope) (b : Block) : listUndeclared scope [b] = b.undeclared scope :=
  append_nil _

end Block

/-! ### Scopes without the names of results -/

/-- The frame with the variable for its result left unnamed. -/
def Frame.unnamed (f : Frame) : Frame :=
  { f with result := f.result.map fun result => (result.1, "") }

namespace Scope

/-- The scope with the variables for results left unnamed. -/
def unnamed (s : Scope) : Scope :=
  ⟨s.frame.unnamed, s.around.map Frame.unnamed⟩

theorem frames_unnamed (s : Scope) : s.unnamed.frames = s.frames.map Frame.unnamed := rfl

theorem isWithinClass_unnamed (s : Scope) : s.unnamed.isWithinClass = s.isWithinClass := by
  rw [isWithinClass, frames_unnamed, any_map]
  rfl

theorem resolve_unnamed (s : Scope) (name : Token) : s.unnamed.resolve name = s.resolve name := by
  have found : s.unnamed.frames.findSome? (s.unnamed.lookup name) = s.frames.findSome? (s.lookup name) := by
    rw [frames_unnamed, findSome?_map]
    congr 1
    funext f
    simp only [Function.comp_apply, lookup, reference, isWithinClass_unnamed]
    rfl
  have last : (s.unnamed.frames.getLast?.map Frame.kind).getD s.unnamed.kind =
      (s.frames.getLast?.map Frame.kind).getD s.kind := by
    rw [frames_unnamed, getLast?_map, Option.map_map]
    rfl
  rw [resolve, resolve, found, unknown, unknown, last]
  simp only [reference, isWithinClass_unnamed]

/-- How the variables for results are called decides nothing about undeclared names. -/
theorem isUndeclared_unnamed (s : Scope) (u : Use) :
    (s.unnamed.meaning u).isUndeclared = (s.meaning u).isUndeclared := by
  unfold meaning
  split
  · have result : s.unnamed.result? = s.result?.map fun result => (result.1, "") := by
      rw [result?, result?, frames_unnamed, find?_map]
      change ((s.frames.find? (·.kind == .routine)).map Frame.unnamed).bind Frame.result = _
      cases s.frames.find? (·.kind == .routine) with
      | none => rfl
      | some f => rfl
    unfold resolveTarget
    rw [result]
    cases s.result? with
    | none => rw [Option.map_none, resolve_unnamed]
    | some pair =>
      simp only [Option.map_some]
      split
      · rfl
      · rw [resolve_unnamed]
  · rw [resolve_unnamed]

theorem undeclaredAmong_unnamed (s : Scope) (uses : List Use) :
    s.unnamed.undeclaredAmong uses = s.undeclaredAmong uses := by
  simp only [undeclaredAmong, isUndeclared_unnamed]

theorem hasVariable_unnamed (s : Scope) (key : String) : s.unnamed.hasVariable key = s.hasVariable key := by
  rw [hasVariable, frames_unnamed, any_map]
  rfl

theorem unnamed_ofRoutine (s : Scope) (header : Header) (body : List Block) {result : Option String}
    (returns : result.isSome = header.kind.returnsValue) :
    (s.ofRoutine header body result).unnamed =
      s.unnamed.ofRoutine header body (if header.kind.returnsValue then some "" else none) := by
  rw [← returns, ofRoutine, ofRoutine]
  simp only [hasVariable_unnamed]
  cases result with
  | none => rfl
  | some name => rfl

end Scope

/-! ### Notes of blocks -/

namespace NotesExactly

variable {scope : Scope}

theorem nil : NotesExactly scope [] [] := by
  intro name
  exact iff_of_false not_mem_nil not_mem_nil

theorem append {a b : List Use} (early : NotesExactly scope a first) (late : NotesExactly scope b second) :
    NotesExactly scope (a ++ b) (first ++ second) := by
  intro name
  simp [early name, late name, undeclaredAmong]

end NotesExactly

namespace Lower

variable {ctx : Context} {scope : Scope} {out : Emission}

theorem Ends.notes_of_variableEmissions {visibility : CSharp.Visibility}
    (ends : Ends (variableEmissions ctx scope kind visibility vars) out) :
    NotesExactly scope (vars.flatMap (Variable.uses kind.isReDim)) out.notes := by
  refine ends.of_variableEmissions (motive := fun vars out =>
    NotesExactly scope (vars.flatMap (Variable.uses kind.isReDim)) out.notes) NotesExactly.nil fun {v} _ _ _ madeEnds rest => ?_
  obtain ⟨-, -, -, made⟩ := madeEnds.of_variableEmission
  refine NotesExactly.append ?_ rest
  rcases made with ⟨unbounded, -, notes⟩ | ⟨content, bound, bounds, sized, given, -⟩
  · have unused : v.uses kind.isReDim = [] := by
      unfold Variable.uses
      split
      · rfl
      · rfl
      · next bounds some found =>
        rw [found] at unbounded
        exact absurd unbounded some
    rw [unused, notes]
    exact NotesExactly.nil
  · have used : v.uses kind.isReDim = ⟨v.name, .array kind.isReDim⟩ :: Expr.listUses (bound :: bounds) := by
      rw [Variable.uses, sized]
    rw [used]
    exact (accounts_sizeArray given).exactly

/-- The notes of a clause are those of its test, its body and the clauses behind it. -/
theorem mem_notes_clause {test : Expr} {term : CSharp.Term} {inner others : Emission} {within later : List Token}
    (given : condition (ctx.site scope) test = Except.ok (term, notes))
    (held : .undeclared name ∈ inner.notes ↔ name ∈ within)
    (followed : .undeclared name ∈ others.notes ↔ name ∈ later) :
    .undeclared name ∈ notes ++ inner.notes ++ others.notes ↔
      name ∈ scope.unnamed.undeclaredAmong (Expr.uses test) ++ within ++ later := by
  have tested : .undeclared name ∈ notes ↔ name ∈ scope.undeclaredAmong (Expr.uses test) :=
    (accounts_condition given).exactly name
  rw [Scope.undeclaredAmong_unnamed, mem_append, mem_append, mem_append, mem_append, tested, held, followed]

theorem noted_single {b : Block} {uses : List Use} (exactly : NotesExactly scope uses notes)
    (own : b.undeclared scope.unnamed = scope.unnamed.undeclaredAmong uses) :
    ∀ name, .undeclared name ∈ notes ↔ name ∈ Block.listUndeclared scope.unnamed [b] := by
  rw [Block.listUndeclared_singleton, own, Scope.undeclaredAmong_unnamed]
  exact exactly

theorem followed_undeclared : Followed ctx
    (fun scope bs out => ∀ name, .undeclared name ∈ out.notes ↔ name ∈ Block.listUndeclared scope.unnamed bs)
    (fun scope rest out =>
      ∀ name, .undeclared name ∈ out.notes ↔ name ∈ Block.undeclaredAlternative scope.unnamed rest) where
  nil _ _ := iff_of_false not_mem_nil not_mem_nil
  append first second := by
    intro name
    rw [Block.listUndeclared_append, mem_append, ← first name, ← second name, ← mem_append]
    rfl
  remark held _ _ := by
    intro name
    rw [Block.listUndeclared_append, mem_append, ← held name]
    exact (or_iff_left not_mem_nil).symm
  blank _ _ := iff_of_false not_mem_nil not_mem_nil
  comment _ _ _ _ := iff_of_false not_mem_nil not_mem_nil
  optionExplicit _ _ := iff_of_false not_mem_nil not_mem_nil
  declaration _ ends := noted_single ends.notes_of_variableEmissions rfl
  call given := noted_single (accounts_callStatement given).exactly rfl
  assignment given := noted_single (accounts_assignment given).exactly rfl
  randomize given := noted_single (accounts_randomize given).exactly rfl
  exit _ _ := iff_of_false not_mem_nil not_mem_nil
  routine made held := by
    intro name
    rw [Block.listUndeclared_singleton, Block.undeclared, ← Scope.unnamed_ofRoutine _ _ _ made.returns, ← held name]
    unfold routineEmission
    split
    · rfl
    · rfl
  classDefinition _ _ held := by
    intro name
    rw [Block.listUndeclared_singleton]
    exact held name
  branch given inner others := by
    intro name
    rw [Block.listUndeclared_singleton]
    exact mem_notes_clause given (inner name) (others name)
  none _ _ := iff_of_false not_mem_nil not_mem_nil
  elseIf given inner others := by
    intro name
    exact mem_notes_clause given (inner name) (others name)
  otherwise held := held

end Lower

/-! ### Undeclared names have no variable -/

theorem Scope.hasVariable_of_isUndeclared {u : Use} (missing : (s.meaning u).isUndeclared = true) :
    s.hasVariable (nameKey u.name.text) = false := by
  obtain ⟨r, meant⟩ : ∃ r, s.meaning u = .undeclared r := by
    cases meant : s.meaning u with
    | undeclared r => exact ⟨r, rfl⟩
    | _ =>
      rw [meant] at missing
      cases missing
  rw [resolve_of_meaning (by rw [meant]; rfl : (s.meaning u).target? = some r)] at meant
  cases meant ▸ s.means_resolve u.name with
  | undeclared silent => exact hasVariable_of_silent silent

theorem Scope.hasVariable_of_mem {uses : List Use} (missing : name ∈ s.undeclaredAmong uses) :
    s.hasVariable (nameKey name.text) = false := by
  obtain ⟨u, -, -, undeclared, rfl⟩ := mem_undeclaredAmong.mp missing
  exact hasVariable_of_isUndeclared undeclared

theorem Scope.hasVariable_of_inner {key : String} (around : inner.around = s.frames)
    (missing : inner.hasVariable key = false) : s.hasVariable key = false := by
  rw [hasVariable, frames, any_cons, Bool.or_eq_false_iff, around] at missing
  exact missing.2

namespace Block

mutual

/-- No frame around a name that nobody declares has a variable of its key. -/
theorem hasVariable_of_undeclared (scope : Scope) : (b : Block) →
    ∀ name ∈ b.undeclared scope, scope.hasVariable (nameKey name.text) = false
  | .classDefinition _ body => fun name member =>
    hasVariable_of_inner rfl (hasVariable_of_listUndeclared _ body name member)
  | .routine _ body => fun name member =>
    hasVariable_of_inner rfl (hasVariable_of_listUndeclared _ body name member)
  | .branch _ body rest => by
    intro name member
    rcases mem_append.mp member with early | later
    · rcases mem_append.mp early with tested | inner
      · exact hasVariable_of_mem tested
      · exact hasVariable_of_listUndeclared scope body name inner
    · exact hasVariable_of_undeclaredAlternative scope rest name later
  | .blankLine | .comment _ _ | .optionExplicit | .declaration _ _ _ | .call _ _ | .assignment _ _ _
  | .exit _ _ | .randomize _ _ | .doLoop _ _ _ | .whileLoop _ _ _ | .forLoop _ _ _ _ _ | .forEach _ _ _
  | .select _ _ _ | .onError _ _ | .withTarget _ _ _ => fun _ member => hasVariable_of_mem member

theorem hasVariable_of_listUndeclared (scope : Scope) : (bs : List Block) →
    ∀ name ∈ listUndeclared scope bs, scope.hasVariable (nameKey name.text) = false
  | [] => fun _ member => absurd member not_mem_nil
  | b :: rest => by
    intro name member
    rcases mem_append.mp member with first | later
    · exact hasVariable_of_undeclared scope b name first
    · exact hasVariable_of_listUndeclared scope rest name later

theorem hasVariable_of_undeclaredAlternative (scope : Scope) : (rest : Alternative) →
    ∀ name ∈ undeclaredAlternative scope rest, scope.hasVariable (nameKey name.text) = false
  | .none => fun _ member => absurd member not_mem_nil
  | .elseIf _ body rest => by
    intro name member
    rcases mem_append.mp member with early | later
    · rcases mem_append.mp early with tested | inner
      · exact hasVariable_of_mem tested
      · exact hasVariable_of_listUndeclared scope body name inner
    · exact hasVariable_of_undeclaredAlternative scope rest name later
  | .otherwise body => hasVariable_of_listUndeclared scope body

end

end Block

/-! ### One name of each key -/

namespace Lower

theorem firstNames_subset : firstNames names ⊆ names := by
  refine foldlRecOn (motive := (· ⊆ names)) names _ (nil_subset _) fun found kept t listed => ?_
  split
  · exact kept
  · exact append_subset.mpr ⟨kept, by simpa using listed⟩

end Lower
end VbSharp
