import VbSharp.Proofs.Lower.Within

/-!
# The parts of a scope

What a scope does is a list of parts: lines, and clauses with parts inside. The parts of blocks are the statements
of the script and the clauses of its branches. The parts of generated code are the lines that call, store or
leave, and the braces of `if` and `else`. Lowering keeps the parts: each line is what its statement becomes in its
scope, and it stands inside the braces of the clauses around that statement.
-/
namespace VbSharp

open List
open CSharp (Simple Head Stmt Signature)

variable {content : Simple} {members : List Stmt}

/-- A part of what a scope does. -/
inductive Part (α κ : Type) where
  | line (a : α)
  | clause (head : κ) (body : List (Part α κ))

/-! ### The parts of blocks -/

/-- What a clause of a branch starts with. -/
inductive Clause where
  | first (test : Expr)
  | next (test : Expr)
  | otherwise

namespace Block

mutual

/-- The statements and clauses of a block. Declarations and comments do nothing; routines and classes are scopes of
their own, and loops are never lowered. -/
def parts : Block → List (Part Block Clause)
  | .call e spelled => [.line (.call e spelled)]
  | .assignment kind target value => [.line (.assignment kind target value)]
  | .randomize seed line => [.line (.randomize seed line)]
  | .exit kind line => [.line (.exit kind line)]
  | .branch test body rest => .clause (.first test) (listParts body) :: partsOfAlternative rest
  | _ => []

def listParts : List Block → List (Part Block Clause)
  | [] => []
  | b :: rest => b.parts ++ listParts rest

def partsOfAlternative : Alternative → List (Part Block Clause)
  | .none => []
  | .elseIf test body rest => .clause (.next test) (listParts body) :: partsOfAlternative rest
  | .otherwise body => [.clause .otherwise (listParts body)]

end

theorem listParts_append (a b : List Block) : listParts (a ++ b) = listParts a ++ listParts b := by
  induction a with
  | nil => rfl
  | cons first rest ih => rw [cons_append, listParts, listParts, ih, append_assoc]

theorem listParts_singleton (b : Block) : listParts [b] = b.parts :=
  append_nil _

end Block

/-! ### The parts of generated code -/

namespace CSharp.Stmt

mutual

/-- The actions and clauses of a statement. Methods, classes and constructors are scopes of their own. -/
def parts : Stmt → List (Part Simple Head)
  | .blank => []
  | .line content _ => if content.isAction then [.line content] else []
  | .block (.branch test) body _ => [.clause (.branch test) (listParts body)]
  | .block (.elseBranch test) body _ => [.clause (.elseBranch test) (listParts body)]
  | .block .otherwise body _ => [.clause .otherwise (listParts body)]
  | .block .run body _ => listParts body
  | .block _ _ _ => []

def listParts : List Stmt → List (Part Simple Head)
  | [] => []
  | s :: rest => s.parts ++ listParts rest

end

theorem listParts_eq_flatMap (stmts : List Stmt) : listParts stmts = stmts.flatMap parts := by
  induction stmts with
  | nil => rfl
  | cons s rest ih => rw [listParts, ih, flatMap_cons]

theorem listParts_append (a b : List Stmt) : listParts (a ++ b) = listParts a ++ listParts b := by
  simp only [listParts_eq_flatMap, flatMap_append]

theorem listParts_singleton (s : Stmt) : listParts [s] = s.parts :=
  append_nil _

theorem listParts_addRemark? {text : String} {stmts remarked : List Stmt}
    (added : Lower.addRemark? text stmts = some remarked) : listParts remarked = listParts stmts := by
  rw [listParts_eq_flatMap, listParts_eq_flatMap]
  exact flatMap_addRemark? added (fun _ _ _ => rfl) fun head _ _ _ => by cases head <;> rfl

theorem listParts_lines {α : Type} (items : List α) (content : α → Simple)
    (idle : ∀ a ∈ items, (content a).isAction = false) : listParts (items.map fun a => ofSimple (content a)) = [] := by
  rw [listParts_eq_flatMap, flatMap_eq_nil_iff]
  intro s listed
  obtain ⟨a, member, rfl⟩ := mem_map.mp listed
  have none : (ofSimple (content a)).parts = if (content a).isAction then [.line (content a)] else [] := rfl
  rw [none, idle a member]
  rfl

end CSharp.Stmt

/-! ### Parts that match -/

namespace Lower

/-- The line is what the statement becomes at that site. -/
def IsWritten (site : Site) : Block → Simple → Prop
  | .call e _, content => ∃ notes, callStatement site e = Except.ok (content, notes)
  | .assignment kind target value, content =>
    ∃ notes, assignment site kind target value = Except.ok (content, notes)
  | .randomize seed _, content => ∃ notes, randomize site seed = Except.ok (content, notes)
  | .exit kind line, content => exit site.scope kind line = .ok content
  | _, _ => False

/-- The line before the braces is what the clause becomes at that site. -/
def IsOpened (site : Site) : Clause → Head → Prop
  | .first test, .branch term => ∃ notes, condition site test = Except.ok (term, notes)
  | .next test, .elseBranch term => ∃ notes, condition site test = Except.ok (term, notes)
  | .otherwise, .otherwise => True
  | _, _ => False

/-- The parts of the code are those of the blocks, one for one and in order, clause within clause. -/
inductive Matches (site : Site) : List (Part Block Clause) → List (Part Simple Head) → Prop where
  | nil : Matches site [] []
  | line {b content rest others} : IsWritten site b content → Matches site rest others →
      Matches site (.line b :: rest) (.line content :: others)
  | clause {clause head inner body rest others} : IsOpened site clause head → Matches site inner body →
      Matches site rest others → Matches site (.clause clause inner :: rest) (.clause head body :: others)

theorem Matches.append {site : Site} : ∀ {as bs cs ds}, Matches site as bs → Matches site cs ds →
    Matches site (as ++ cs) (bs ++ ds)
  | _, _, _, _, .nil, later => later
  | _, _, _, _, .line written rest, later => .line written (rest.append later)
  | _, _, _, _, .clause opened inner rest, later => .clause opened inner (rest.append later)

/-- The code of a routine matches its body. A function ends by returning its result. -/
structure RoutineMatches (ctx : Context) (scope : Scope) (source : Header × List Block)
    (method : Signature × List Stmt) : Prop where
  signature : method.1 = signature source.1 scope.kind (ctx.setsApart scope)
  body : ∃ (result : Option String) (main : List (Part Simple Head)), result.isSome = source.1.kind.returnsValue ∧
    Stmt.listParts method.2 = main ++ result.toList.map (fun name => .line (.leave (some name))) ∧
    Matches (ctx.site (scope.ofRoutine source.1 source.2 result)) (Block.listParts source.2) main
  noRoutines : (Contents.ofBlocks source.2).routines = []
  noClasses : (Contents.ofBlocks source.2).classes = []

/-- The members of a class match its body, and its methods match the routines in it. -/
structure ClassMatches (ctx : Context) (scope : Scope) (source : Token × List Block) (members : List Stmt) : Prop where
  body : Matches (ctx.site (scope.ofClass source.2)) (Block.listParts source.2) (Stmt.listParts members)
  routines : Forall₂ (RoutineMatches ctx (scope.ofClass source.2)) (Contents.ofBlocks source.2).routines
    (Stmt.listMethods members)
  noClasses : (Contents.ofBlocks source.2).classes = []

variable {ctx : Context} {scope : Scope} {out : Emission} {notes : List Note}

theorem matches_single {b : Block} (acts : content.isAction = true) (written : IsWritten (ctx.site scope) b content) :
    Matches (ctx.site scope) [.line b] (Stmt.listParts [.ofSimple content]) := by
  rw [Stmt.listParts_singleton, Stmt.ofSimple, Stmt.parts, if_pos acts]
  exact .line written .nil

theorem matches_clause {parts : List (Part Block Clause)} {inner : List Stmt} {start : Clause} {head : Head}
    (opened : IsOpened (ctx.site scope) start head) (held : Matches (ctx.site scope) parts (Stmt.listParts inner)) :
    Matches (ctx.site scope) [.clause start parts] (Stmt.listParts [.ofBlock head inner]) := by
  have own : (Stmt.ofBlock head inner).parts = [.clause head (Stmt.listParts inner)] := by
    cases start <;> cases head <;> first | rfl | exact absurd opened id
  rw [Stmt.listParts_singleton, own]
  exact .clause opened held .nil

theorem listParts_methodBody (result : Option String) (declared : List CSharp.Declaration) (stmts : List Stmt) :
    Stmt.listParts (methodBody result declared stmts) =
      Stmt.listParts stmts ++ result.toList.map fun name => .line (.leave (some name)) := by
  have declarations : (declared.flatMap fun d => (Stmt.ofSimple (.declare d)).parts) = [] :=
    flatMap_eq_nil_iff.mpr fun _ _ => rfl
  rw [Stmt.listParts_eq_flatMap, flatMap_methodBody rfl, declarations, ← Stmt.listParts_eq_flatMap]
  cases result with
  | none => rfl
  | some name => rfl

theorem outside_parts : IsOutside Stmt.parts :=
  ⟨⟨rfl, Stmt.listParts_eq_flatMap, rfl⟩, fun _ _ => rfl, fun _ => rfl, rfl⟩

theorem listParts_members {name : Token} {body : List Block} {inner : Emission}
    (found : (classStmt name body inner).classMembers? = some members) :
    Stmt.listParts members = Stmt.listParts inner.stmts := by
  have fields := Stmt.listParts_lines (CSharp.Declaration.merge inner.declared) .declare (fun _ _ => rfl)
  have frame : Stmt.listParts (classFrame (identifier name.text) true (hasInitializer body)) = [] := rfl
  rw [Stmt.listParts_eq_flatMap, flatMap_members rfl found]
  simp only [← Stmt.listParts_eq_flatMap, fields, frame, nil_append]

theorem idle_of_isSizing (sizes : content.isSizing = true) : content.isAction = false := by
  unfold Simple.isSizing at sizes
  split at sizes
  · next function _ =>
    rcases Bool.or_eq_true_iff.mp sizes with same | same
    · rw [beq_iff_eq.mp same]
      rfl
    · rw [beq_iff_eq.mp same]
      rfl
  · cases sizes

theorem followed_matches (ctx : Context) : Followed ctx
    (fun scope bs out => Matches (ctx.site scope) (Block.listParts bs) (Stmt.listParts out.stmts))
    (fun scope rest out =>
      Matches (ctx.site scope) (Block.partsOfAlternative rest) (Stmt.listParts out.stmts)) where
  nil _ := .nil
  append first second := by
    rw [Block.listParts_append, Emission.append_def, Stmt.listParts_append]
    exact first.append second
  remark held _ added := by
    rw [Block.listParts_append, Stmt.listParts_addRemark? added]
    exact (append_nil _).symm ▸ held
  blank _ := .nil
  comment _ _ _ := .nil
  optionExplicit _ := .nil
  declaration _ ends := by
    obtain ⟨-, -, contents, stmts, sizes⟩ := ends.lines_of_variableEmissions
    have idle := Stmt.listParts_lines contents id fun c member => by
      obtain ⟨_, _, _, given⟩ := sizes c member
      exact idle_of_isSizing (told_sizeArray given).1
    rw [stmts]
    exact idle.symm ▸ .nil
  call given := matches_single (told_callStatement given).acts ⟨_, given⟩
  assignment given := matches_single (told_assignment given).2.acts ⟨_, given⟩
  randomize given := matches_single (told_randomize given).acts ⟨_, given⟩
  exit left := by
    obtain ⟨-, rfl⟩ := exit_ok left
    exact matches_single rfl left
  routine _ _ := by
    rw [Stmt.listParts_eq_flatMap, outside_parts.routineEmission]
    exact .nil
  classDefinition _ _ _ := .nil
  branch given inner others := by
    have opened : IsOpened (ctx.site _) (.first _) (.branch _) := ⟨_, given⟩
    rw [Block.listParts_singleton]
    exact (matches_clause opened inner).append others
  none _ := .nil
  elseIf given inner others := by
    have opened : IsOpened (ctx.site _) (.next _) (.elseBranch _) := ⟨_, given⟩
    exact (matches_clause opened inner).append others
  otherwise held := matches_clause trivial held

theorem blocks_match {bs : List Block} (ends : Ends (blocks ctx scope [] bs) out) :
    Matches (ctx.site scope) (Block.listParts bs) (Stmt.listParts out.stmts) :=
  (followed_matches ctx).ofBlocks bs scope out ends

theorem RoutineMade.matches {source : Header × List Block} {method : Signature × List Stmt}
    (made : RoutineMade ctx scope notes source method) : RoutineMatches ctx scope source method := by
  obtain ⟨result, inner, ends, -, rfl⟩ := made
  have held := blocks_made ends.ends
  obtain ⟨-, -, noClasses, -⟩ := held.nested (show FrameKind.routine ≠ .program by decide)
  exact ⟨rfl, ⟨result, _, ends.returns, listParts_methodBody _ _ _, blocks_match ends.ends⟩,
    eq_nil_iff_forall_not_mem.mpr fun r member => (held.admitted r member).1 rfl, noClasses⟩

theorem MembersMade.matches {source : Token × List Block} (made : MembersMade ctx scope notes source members) :
    ClassMatches ctx scope source members := by
  obtain ⟨inner, ends, -, found⟩ := id made
  obtain ⟨-, -, noClasses, -⟩ := (blocks_made ends).nested (show FrameKind.classBody ≠ .program by decide)
  refine ⟨?_, made.routines.imp fun _ _ => RoutineMade.matches, noClasses⟩
  rw [listParts_members found]
  exact blocks_match ends

/-- What the outermost code does. Without a class around it the dates are checked before. -/
theorem ProgramMade.listParts_outermost {source : List Block} {lowered : Lowered}
    (program : ProgramMade source lowered ctx scope out) : Stmt.listParts lowered.outermost =
      Stmt.listParts (if ctx.asClass then [] else dateCheck lowered.dates) ++ Stmt.listParts out.stmts := by
  have declarations : Stmt.listParts (outermostDeclarations ctx.asClass out) = [] := by
    rw [outermostDeclarations, Stmt.listParts_append, Stmt.listParts_lines _ .declare (fun _ _ => rfl),
      Stmt.listParts_lines _ _ (fun _ _ => rfl), append_nil]
  rw [Stmt.listParts_eq_flatMap, program.flatMap_outermost_outside outside_parts]
  simp only [← Stmt.listParts_eq_flatMap, Stmt.listParts_append, declarations, append_nil]

end Lower
end VbSharp
