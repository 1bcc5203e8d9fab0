import Mathlib.Algebra.Order.Group.Multiset
import Mathlib.Tactic.Abel
import VbSharp.Proofs.Lower.Following
import VbSharp.Proofs.Lower.Program

/-!
# Statements at any depth

What is seen of a program by looking at its statements one by one, at whatever depth they stand. Lowering adds
statements of its own around the code of a script: declarations, fields, constructors, blank lines. For what
is seen of comments, of undeclared variables and of results these do not matter, so a program shows what its outermost
declarations show and what its blocks became.
-/
namespace VbSharp

open List Lower.Emission

variable {e right left : Expr} {kind : AssignKind} {preserve asClass : Bool} {text : String}

namespace Block

mutual

/-- A block and the blocks inside it. -/
def within : Block → List Block
  | .classDefinition name body => .classDefinition name body :: listWithin body
  | .routine header body => .routine header body :: listWithin body
  | .branch test body rest => .branch test body rest :: (listWithin body ++ withinAlternative rest)
  | .doLoop test body line => .doLoop test body line :: listWithin body
  | .whileLoop test body line => .whileLoop test body line :: listWithin body
  | .forLoop counter first last step body => .forLoop counter first last step body :: listWithin body
  | .forEach item collection body => .forEach item collection body :: listWithin body
  | .select subject cases line => .select subject cases line :: withinCases cases
  | .withTarget target body line => .withTarget target body line :: listWithin body
  | b => [b]

def listWithin : List Block → List Block
  | [] => []
  | b :: rest => b.within ++ listWithin rest

def withinAlternative : Alternative → List Block
  | .none => []
  | .elseIf _ body rest => listWithin body ++ withinAlternative rest
  | .otherwise body => listWithin body

def withinCases : Cases → List Block
  | .none => []
  | .case _ body rest => listWithin body ++ withinCases rest

end

theorem listWithin_append (a b : List Block) : listWithin (a ++ b) = listWithin a ++ listWithin b := by
  induction a with
  | nil => rfl
  | cons first rest ih => rw [cons_append, listWithin, listWithin, ih, append_assoc]

theorem listWithin_singleton (b : Block) : listWithin [b] = b.within :=
  append_nil _

/-- The text of a comment. -/
def comment? : Block → Option String
  | .comment text _ => some text
  | _ => none

end Block

/-- Whether a line is no comment and declares neither a result nor a variable that nobody declares. -/
def CSharp.Simple.isOrdinary : Simple → Bool
  | .comment _ | .declareImplicit _ | .declareResult _ => false
  | _ => true

namespace CSharp.Stmt

mutual

/-- A statement and the statements inside it. -/
def within : Stmt → List Stmt
  | .blank => [.blank]
  | .line content remark => [.line content remark]
  | .block head body remark => .block head body remark :: listWithin body

def listWithin : List Stmt → List Stmt
  | [] => []
  | s :: rest => s.within ++ listWithin rest

end

theorem listWithin_eq_flatMap (stmts : List Stmt) : listWithin stmts = stmts.flatMap within := by
  induction stmts with
  | nil => rfl
  | cons s rest ih => rw [listWithin, ih, flatMap_cons]

variable {β : Type} (seen : Stmt → List β)

/-- What is seen in a statement at any depth, given what is seen in each statement for itself. -/
def deep (s : Stmt) : List β :=
  s.within.flatMap seen

@[simp]
theorem deep_blank : deep seen .blank = seen .blank :=
  flatMap_singleton _ _

@[simp]
theorem deep_line (content : Simple) (remark : Option String) :
    deep seen (.line content remark) = seen (.line content remark) :=
  flatMap_singleton _ _

theorem deep_block (head : Head) (body : List Stmt) (remark : Option String) :
    deep seen (.block head body remark) = seen (.block head body remark) ++ body.flatMap (deep seen) := by
  rw [deep, within, flatMap_cons, listWithin_eq_flatMap, flatMap_assoc]
  rfl

/-- Only comments, results, and variables that nobody declares are seen. -/
structure IsSparse (seen : Stmt → List β) : Prop where
  blank : seen .blank = []
  block : ∀ head body, seen (.ofBlock head body) = []
  line : ∀ content, content.isOrdinary = true → seen (.ofSimple content) = []

namespace IsSparse

variable {seen}

theorem deep_blank (sparse : IsSparse seen) : deep seen .blank = [] := by
  rw [Stmt.deep_blank, sparse.blank]

theorem deep_ofBlock (sparse : IsSparse seen) (head : Head) (body : List Stmt) :
    deep seen (.ofBlock head body) = body.flatMap (deep seen) := by
  have silent : seen (.block head body none) = [] := sparse.block head body
  rw [ofBlock, deep_block, silent, nil_append]

theorem flatMap_lines (sparse : IsSparse seen) {α : Type} (items : List α) (content : α → Simple)
    (ordinary : ∀ a, (content a).isOrdinary = true) :
    (items.map fun a => ofSimple (content a)).flatMap (deep seen) = [] := by
  rw [flatMap_eq_nil_iff]
  intro s listed
  obtain ⟨a, -, rfl⟩ := mem_map.mp listed
  exact (deep_line seen _ none).trans (sparse.line (content a) (ordinary a))

end IsSparse
end CSharp.Stmt

namespace Lower

open CSharp (Stmt Declaration Simple)
open CSharp.Stmt (deep IsSparse)

variable {β : Type} {seen : Stmt → List β}

section

variable (sparse : IsSparse seen)
include sparse

theorem deep_single (content : Simple) (ordinary : content.isOrdinary = true) :
    [Stmt.ofSimple content].flatMap (deep seen) = [] :=
  sparse.flatMap_lines [()] (fun _ => content) fun _ => ordinary

theorem deep_methodBody (result : Option String) (declared : List Declaration) (stmts : List Stmt) :
    (methodBody result declared stmts).flatMap (deep seen) =
      (result.toList.flatMap fun name => seen (.ofSimple (.declareResult name))) ++ stmts.flatMap (deep seen) := by
  have ordinary := fun content isOrdinary => sparse.line content isOrdinary
  simp only [Stmt.ofSimple] at ordinary
  simp only [flatMap_methodBody sparse.deep_blank, Stmt.ofSimple, Stmt.deep_line]
  rw [flatMap_eq_nil_iff.mpr fun d _ => ordinary (.declare d) rfl,
    flatMap_eq_nil_iff.mpr fun name _ => ordinary (.leave (some name)) rfl, nil_append, append_nil]

theorem deep_attributes (header : Header) : (attributes header).flatMap (deep seen) = [] := by
  have property := deep_single sparse (.propertyAttribute header.name.text) rfl
  have default := deep_single sparse .defaultAttribute rfl
  rw [attributes, flatMap_append]
  split <;> split <;> simp only [property, default, flatMap_nil, append_nil]

theorem deep_routineStmts (ctx : Context) (scope : Scope) (header : Header) (result : Option String)
    (inner : Emission) :
    (routineStmts ctx scope header result inner).flatMap (deep seen) =
      (result.toList.flatMap fun name => seen (.ofSimple (.declareResult name))) ++
        inner.stmts.flatMap (deep seen) := by
  rw [routineStmts, flatMap_append, flatMap_singleton, sparse.deep_ofBlock, deep_methodBody sparse]
  split
  · rw [deep_attributes sparse, nil_append]
  · rfl

theorem deep_classFrame (name : String) (takesOuter initializes : Bool) :
    (classFrame name takesOuter initializes).flatMap (deep seen) = [] := by
  have field := fun type name => deep_single sparse (.readOnlyField type name) rfl
  have stored := fun field parameter => deep_single sparse (.storeField field parameter) rfl
  have setUp := fun term => deep_single sparse (.expression term) rfl
  simp only [flatMap_singleton] at field stored setUp
  cases takesOuter <;> cases initializes <;>
    simp [classFrame, field, stored, setUp, sparse.deep_blank, sparse.deep_ofBlock]

theorem deep_classStmt (name : Token) (body : List Block) (members : Emission) :
    deep seen (classStmt name body members) = members.stmts.flatMap (deep seen) := by
  have fields := sparse.flatMap_lines (Declaration.merge members.declared) .declare fun _ => rfl
  have whole := @flatMap_members _ name body members (deep seen) sparse.deep_blank _ rfl
  rw [fields, deep_classFrame sparse] at whole
  exact (sparse.deep_ofBlock _ _).trans whole

end

/-! ### Single statements -/

section Single

variable {site : Site} {content : Simple} {notes : List Note}

theorem deep_action (sparse : IsSparse seen) (acts : content.isAction = true) :
    [Stmt.ofSimple content].flatMap (deep seen) = [] := by
  apply deep_single sparse
  cases content with
  | comment | declareImplicit | declareResult => cases acts
  | _ => rfl

theorem deep_sizing (sparse : IsSparse seen) (sizes : content.isSizing = true) :
    [Stmt.ofSimple content].flatMap (deep seen) = [] := by
  apply deep_single sparse
  cases content with
  | comment | declareImplicit | declareResult => cases sizes
  | _ => rfl

end Single

/-! ### What is seen of blocks -/

variable {ctx : Context} {scope : Scope} {out : Emission}

/-- What is seen of comments, whether they have a line of their own or stand behind another. -/
structure Shows (seen : Stmt → List β) (shown : String → List β) : Prop extends IsSparse seen where
  comment : ∀ text, seen (.ofSimple (.comment text)) = shown text
  remark : ∀ {s text marked}, s.remark? = none → s.addRemark? text = some marked →
    (seen marked : Multiset β) = seen s + shown text

/-- All that is seen in what blocks become. -/
def Emission.sight (seen : Stmt → List β) (out : Emission) : Multiset β :=
  out.stmts.flatMap (deep seen) + out.methods.flatten.flatMap (deep seen) + out.classes.flatMap (deep seen)

theorem Emission.sight_append (a b : Emission) : (a ++ b).sight seen = a.sight seen + b.sight seen := by
  simp only [sight, append_def, flatten_append, flatMap_append, ← Multiset.coe_add]
  abel

theorem Emission.sight_stmts (stmts : List Stmt) (notes : List Note) :
    ({ stmts := stmts, notes := notes } : Emission).sight seen = stmts.flatMap (deep seen) := by
  simp [sight]

theorem Emission.sight_notes (notes : List Note) : ({ notes := notes } : Emission).sight seen = 0 := rfl

theorem Emission.sight_ofBlock (sparse : IsSparse seen) (head : CSharp.Head) (inner : Emission) :
    ({ inner with stmts := [.ofBlock head inner.stmts] } : Emission).sight seen = inner.sight seen := by
  simp [sight, sparse.deep_ofBlock]

theorem IsSparse.isTransparent (sparse : IsSparse seen) : IsTransparent (deep seen) :=
  ⟨sparse.deep_blank, sparse.deep_ofBlock .run, deep_classFrame sparse _ _ _⟩

/-- A program shows what its outermost declarations show, and what its blocks became. -/
theorem ProgramMade.deep_eq {source : List Block} {lowered : Lowered}
    (program : ProgramMade source lowered ctx scope out) (sparse : IsSparse seen) :
    ((lowered.body ++ lowered.classes).flatMap (deep seen) : Multiset β) =
      (outermostDeclarations ctx.asClass out).flatMap (deep seen) + out.sight seen := by
  have check : (dateCheck lowered.dates).flatMap (deep seen) = [] := by
    unfold dateCheck
    split
    · rfl
    · exact deep_single sparse _ rfl
  have run := deep_single sparse .runOuter rfl
  have outermost := program.flatMap_outermost (IsSparse.isTransparent sparse)
  have placed := program.placed
  cases asClass : ctx.asClass with
  | true =>
    rw [asClass] at placed outermost
    obtain ⟨members, rest, classes, -, others⟩ := exists_outerClass placed
    have found : lowered.outermost = members := by simp [Lowered.outermost, Lowered.outerClass?, classes]
    have outer : deep seen (.block (.classDefinition CSharp.outerClass false) members none) =
        lowered.outermost.flatMap (deep seen) := by
      rw [← Stmt.ofBlock, sparse.deep_ofBlock, found]
    simp only [arrange, if_true, Prod.mk.injEq] at placed
    rw [placed.1, classes, flatMap_append, flatMap_append, check, run, flatMap_cons, outer, outermost,
      others _ sparse.deep_blank]
    simp only [sight, if_true, nil_append, ← Multiset.coe_add]
    abel
  | false =>
    have flat := program.held.trans asClass
    have found : lowered.outermost = lowered.body := by
      rw [Lowered.outermost, Option.isNone_iff_eq_none.mp (Option.isSome_eq_false_iff.mp flat)]
      rfl
    rw [asClass] at placed outermost
    simp only [arrange, Bool.false_eq_true, if_false, Prod.mk.injEq] at placed
    rw [flatMap_append, ← found, outermost, placed.2, flatMap_spacedClasses _ sparse.deep_blank]
    simp only [sight, Bool.false_eq_true, if_false, flatMap_append, check, nil_append, ← Multiset.coe_add]
    abel

/-- What is shown by the comments of some blocks. -/
def shownBy (shown : String → List β) (bs : List Block) : Multiset β :=
  (bs.filterMap Block.comment?).flatMap shown

theorem shownBy_append (shown : String → List β) (a b : List Block) :
    shownBy shown (a ++ b) = shownBy shown a + shownBy shown b := by
  simp [shownBy]

namespace Shows

variable {shown : String → List β}

section

variable (shows : Shows seen shown)
include shows

theorem deep_addRemark? {s marked : Stmt} (fresh : s.remark? = none) (added : s.addRemark? text = some marked) :
    (deep seen marked : Multiset β) = deep seen s + shown text := by
  have own := shows.remark fresh added
  cases s with
  | blank => cases added
  | line content remark =>
    cases added
    simpa using own
  | block head body remark =>
    cases added
    simp only [Stmt.deep_block, ← Multiset.coe_add, own]
    abel

theorem sight_remark {made : Emission} {remarked : List Stmt} (fresh : AreFresh made.stmts)
    (added : addRemark? text made.stmts = some remarked) :
    ({ made with stmts := remarked } : Emission).sight seen = made.sight seen + shown text := by
  obtain ⟨before, last, marked, split, markedLast, rfl⟩ := CSharp.Stmt.exists_of_addRemark? added
  have lastFresh : last.remark? = none := fresh last (by simp [split])
  simp only [sight, split, flatMap_append, flatMap_singleton, ← Multiset.coe_add,
    shows.deep_addRemark? lastFresh markedLast]
  abel

theorem sight_routine (header : Header) (result : Option String) (inner : Emission) :
    (routineEmission ctx scope header result inner).sight seen =
      (result.toList.flatMap fun name => seen (.ofSimple (.declareResult name)) : Multiset β) + inner.sight seen := by
  have body := deep_routineStmts shows.toIsSparse ctx scope header result inner
  unfold routineEmission
  split
  · simp only [sight, flatten_append, flatMap_append, flatten_singleton, body,
      flatMap_nil, ← Multiset.coe_add, Multiset.coe_nil]
    abel
  · simp only [sight, body, ← Multiset.coe_add]
    abel

theorem sight_class (name : Token) (body : List Block) (members : Emission) :
    ({ notes := members.notes, methods := members.methods,
       classes := members.classes ++ [classStmt name body members] } : Emission).sight seen = members.sight seen := by
  simp only [sight, flatMap_append, flatMap_singleton, flatMap_nil,
    deep_classStmt shows.toIsSparse, ← Multiset.coe_add, Multiset.coe_nil]
  abel

/-- Where results are not seen, blocks show what their comments show. -/
theorem followed (unseen : ∀ name, seen (.ofSimple (.declareResult name)) = []) : Followed ctx
    (fun _ bs out => out.sight seen = shownBy shown (Block.listWithin bs))
    (fun _ rest out => out.sight seen = shownBy shown (Block.withinAlternative rest)) where
  nil _ := rfl
  append first second := by rw [sight_append, first, second, Block.listWithin_append, shownBy_append]
  remark held fresh added := by
    rw [shows.sight_remark fresh added, held, Block.listWithin_append, shownBy_append]
    simp [shownBy, Block.listWithin, Block.within, Block.comment?]
  blank _ := by
    rw [sight_stmts, flatMap_singleton, shows.deep_blank]
    rfl
  comment _ text sharesLine := by
    have alone : deep seen (.ofSimple (.comment text)) = shown text :=
      (Stmt.deep_line seen _ none).trans (shows.comment text)
    rw [sight_stmts, flatMap_singleton, alone]
    simp [shownBy, Block.listWithin, Block.within, Block.comment?]
  optionExplicit _ := rfl
  declaration _ ends := by
    obtain ⟨methods, classes, contents, stmts, sizes⟩ := ends.lines_of_variableEmissions
    have silent : (contents.map Stmt.ofSimple).flatMap (deep seen) = [] := by
      rw [flatMap_eq_nil_iff]
      intro s listed
      obtain ⟨content, member, rfl⟩ := mem_map.mp listed
      obtain ⟨_, _, _, given⟩ := sizes content member
      simpa using deep_sizing shows.toIsSparse (told_sizeArray given).1
    rw [sight, methods, classes, stmts, silent]
    rfl
  call given := by
    rw [sight_stmts, deep_action shows.toIsSparse (told_callStatement given).acts]
    rfl
  assignment given := by
    rw [sight_stmts, deep_action shows.toIsSparse (told_assignment given).2.acts]
    rfl
  randomize given := by
    rw [sight_stmts, deep_action shows.toIsSparse (told_randomize given).acts]
    rfl
  exit left := by
    obtain ⟨-, rfl⟩ := exit_ok left
    rw [sight_stmts, deep_action shows.toIsSparse rfl]
    rfl
  routine _ held := by
    rw [shows.sight_routine, flatMap_eq_nil_iff.mpr fun name _ => unseen name, Multiset.coe_nil, zero_add, held,
      Block.listWithin_singleton]
    rfl
  classDefinition _ _ held := by
    rw [shows.sight_class, held, Block.listWithin_singleton]
    rfl
  branch _ inner others := by
    rw [clauseEmission, sight_append, sight_append, sight_notes,
      sight_ofBlock shows.toIsSparse, zero_add, inner, others, ← shownBy_append, Block.listWithin_singleton]
    rfl
  none _ := rfl
  elseIf _ inner others := by
    rw [clauseEmission, sight_append, sight_append, sight_notes,
      sight_ofBlock shows.toIsSparse, zero_add, inner, others, ← shownBy_append]
    rfl
  otherwise held := by
    rw [sight_ofBlock shows.toIsSparse, held]
    rfl

end

end Shows
end Lower

end VbSharp
