import VbSharp.Proofs.Lower.Ending
import VbSharp.Proofs.Lower.Uses

/-!
# Following blocks through lowering

Blocks wait for the comment that may go behind them before they are written out. A property of blocks and what
they become is shown here to follow from what holds for each kind of block, for a comment behind a line, and
for two parts put together. Unlike the induction over what one frame holds, this one sees every block.
-/
namespace VbSharp

open List

variable (header : Header)

/-- The comment behind the last line of a statement. -/
def CSharp.Stmt.remark? : CSharp.Stmt → Option String
  | .blank => none
  | .line _ remark => remark
  | .block _ _ remark => remark

/-! ### What parts of a frame hold -/

namespace Contents

theorem append_assoc (a b c : Contents) : a ++ b ++ c = a ++ (b ++ c) := by
  change Contents.mk _ _ _ _ = Contents.mk _ _ _ _
  simp only [uses_append, declared_append, routines_append, classes_append, List.append_assoc]

theorem append_empty (a : Contents) : a ++ ({} : Contents) = a := by
  change Contents.mk _ _ _ _ = a
  simp only [append_nil]

theorem ofBlocks_append (a b : List Block) : ofBlocks (a ++ b) = ofBlocks a ++ ofBlocks b := by
  induction a with
  | nil => rfl
  | cons first rest ih => rw [cons_append, ofBlocks, ofBlocks, ih, append_assoc]

theorem ofBlocks_singleton (b : Block) : ofBlocks [b] = ofBlock b :=
  append_empty _

end Contents

namespace Lower

open CSharp (Stmt Head Declaration)

variable {ctx : Context} {scope : Scope} {out : Emission}

/-- What `Exit` becomes leaves the routine with its result. -/
theorem exit_ok {scope : Scope} {kind : ExitKind} {line : Nat} {content : CSharp.Simple}
    (left : exit scope kind line = .ok content) :
    scope.kind = .routine ∧ content = .leave (scope.result?.map Prod.snd) := by
  unfold exit at left
  split at left
  · cases left
  · cases left
  · split_ifs at left with inside
    cases left
    exact ⟨by simpa using inside, rfl⟩

/-! ### Fresh statements -/

/-- No comment stands behind any of the statements. -/
def AreFresh (stmts : List Stmt) : Prop :=
  ∀ s ∈ stmts, s.remark? = none

theorem areFresh_nil : AreFresh [] :=
  forall_mem_nil _

theorem areFresh_single {s : Stmt} (fresh : s.remark? = none) : AreFresh [s] := by
  intro t member
  rw [mem_singleton.mp member]
  exact fresh

theorem AreFresh.append {a b : List Stmt} (first : AreFresh a) (second : AreFresh b) : AreFresh (a ++ b) :=
  forall_mem_append.mpr ⟨first, second⟩

theorem areFresh_attributes : AreFresh (attributes header) := by
  unfold attributes
  split_ifs
  · exact (areFresh_single rfl).append (areFresh_single rfl)
  · exact (areFresh_single rfl).append areFresh_nil
  · exact areFresh_nil.append (areFresh_single rfl)
  · exact areFresh_nil

theorem areFresh_routineEmission (result : Option String) (inner : Emission) :
    AreFresh (routineEmission ctx scope header result inner).stmts := by
  unfold routineEmission
  split
  · exact areFresh_nil
  · unfold routineStmts
    split_ifs
    · exact (areFresh_attributes header).append (areFresh_single rfl)
    · exact areFresh_nil.append (areFresh_single rfl)

theorem areFresh_clauseEmission {notes : List Note} {head : Head} {inner others : Emission}
    (fresh : AreFresh others.stmts) : AreFresh (clauseEmission notes head inner others).stmts :=
  (areFresh_nil.append (areFresh_single rfl)).append fresh

theorem Ends.areFresh_variableEmissions {kind : DeclarationKind} {visibility : CSharp.Visibility} {vars : List Variable}
    (ends : Ends (variableEmissions ctx scope kind visibility vars) out) : AreFresh out.stmts := by
  obtain ⟨-, -, contents, stmts, -⟩ := ends.lines_of_variableEmissions
  rw [stmts]
  exact forall_mem_map.mpr fun _ _ => rfl

/-! ### The induction -/

/-- A property `P` of blocks and what they become, and a property `A` of what follows a clause. They hold for
all blocks if they hold for each kind of block, given that they hold for the blocks inside. -/
structure Followed (ctx : Context) (P : Scope → List Block → Emission → Prop)
    (A : Scope → Alternative → Emission → Prop) : Prop where
  nil : ∀ scope, P scope [] {}
  append : ∀ {scope as bs made more}, P scope as made → P scope bs more → P scope (as ++ bs) (made ++ more)
  /-- A comment goes behind the last line of the blocks before it. -/
  remark : ∀ {scope bs made text remarked}, P scope bs made → AreFresh made.stmts →
    addRemark? text made.stmts = some remarked → P scope (bs ++ [.comment text true]) { made with stmts := remarked }
  blank : ∀ scope, P scope [.blankLine] { stmts := [.blank] }
  comment : ∀ scope text sharesLine, P scope [.comment text sharesLine] { stmts := [.ofSimple (.comment text)] }
  optionExplicit : ∀ scope, P scope [.optionExplicit] {}
  declaration : ∀ {scope kind vars line visibility out}, Lower.visibility ctx scope.kind kind line = .ok visibility →
    Ends (variableEmissions ctx scope kind visibility vars) out → P scope [.declaration kind vars line] out
  call : ∀ {scope e spelled content notes}, callStatement (ctx.site scope) e = Except.ok (content, notes) →
    P scope [.call e spelled] { stmts := [.ofSimple content], notes := notes }
  assignment : ∀ {scope kind target value content notes},
    assignment (ctx.site scope) kind target value = Except.ok (content, notes) →
    P scope [.assignment kind target value] { stmts := [.ofSimple content], notes := notes }
  randomize : ∀ {scope seed line content notes}, randomize (ctx.site scope) seed = Except.ok (content, notes) →
    P scope [.randomize seed line] { stmts := [.ofSimple content], notes := notes }
  exit : ∀ {scope kind line content}, exit scope kind line = .ok content →
    P scope [.exit kind line] { stmts := [.ofSimple content] }
  routine : ∀ {scope header body result inner}, RoutineEnds ctx scope header body result inner →
    P (scope.ofRoutine header body result) body inner →
    P scope [.routine header body] (routineEmission ctx scope header result inner)
  classDefinition : ∀ {scope name body members}, scope.kind = .program →
    Ends (blocks ctx (scope.ofClass body) [] body) members → P (scope.ofClass body) body members →
    P scope [.classDefinition name body]
      { notes := members.notes, methods := members.methods,
        classes := members.classes ++ [classStmt name body members] }
  branch : ∀ {scope test body rest term notes inner others},
    condition (ctx.site scope) test = Except.ok (term, notes) → P scope body inner → A scope rest others →
    P scope [.branch test body rest] (clauseEmission notes (.branch term) inner others)
  none : ∀ scope, A scope .none {}
  elseIf : ∀ {scope test body rest term notes inner others},
    condition (ctx.site scope) test = Except.ok (term, notes) → P scope body inner → A scope rest others →
    A scope (.elseIf test body rest) (clauseEmission notes (.elseBranch term) inner others)
  otherwise : ∀ {scope body inner}, P scope body inner →
    A scope (.otherwise body) { inner with stmts := [.ofBlock .otherwise inner.stmts] }

namespace Followed

variable {P : Scope → List Block → Emission → Prop} {A : Scope → Alternative → Emission → Prop}

mutual

/-- The property holds for a block, and no comment stands behind what it becomes yet. -/
theorem ofBlock (followed : Followed ctx P A) : (b : Block) → ∀ (scope : Scope) (out : Emission),
    Ends (block ctx scope b) out → P scope [b] out ∧ AreFresh out.stmts
  | .blankLine => by
    intro scope out ends
    rw [← ends.of_guard.2.eq_of_pure]
    exact ⟨followed.blank scope, areFresh_single rfl⟩
  | .comment text sharesLine => by
    intro scope out ends
    rw [← ends.of_guard.2.eq_of_pure]
    exact ⟨followed.comment scope text sharesLine, areFresh_single rfl⟩
  | .optionExplicit => by
    intro scope out ends
    rw [← ends.of_guard.2.eq_of_pure]
    exact ⟨followed.optionExplicit scope, areFresh_nil⟩
  | .declaration _ _ _ => by
    intro scope out ends
    obtain ⟨visibility, seen, made⟩ := ends.of_declaration
    exact ⟨followed.declaration seen made, made.areFresh_variableEmissions⟩
  | .classDefinition name body => by
    intro scope out ends
    obtain ⟨isProgram, members, membersEnd, rfl⟩ := ends.of_classDefinition
    exact ⟨followed.classDefinition isProgram membersEnd (ofBlocks followed body _ _ membersEnd), areFresh_nil⟩
  | .routine header body => by
    intro scope out ends
    obtain ⟨result, inner, routine, rfl⟩ := ends.of_routine
    exact ⟨followed.routine routine (ofBlocks followed body _ _ routine.ends), areFresh_routineEmission _ _ _⟩
  | .branch test body rest => by
    intro scope out ends
    obtain ⟨term, notes, inner, others, clause, rfl⟩ := ends.of_guard.2.of_clause
    obtain ⟨later, fresh⟩ := ofAlternative followed rest _ _ clause.rest
    exact ⟨followed.branch clause.given (ofBlocks followed body _ _ clause.body) later, areFresh_clauseEmission fresh⟩
  | .call e spelled => by
    intro scope out ends
    obtain ⟨content, notes, given, rfl⟩ := ends.of_guard.2.of_single
    exact ⟨followed.call given, areFresh_single rfl⟩
  | .assignment kind target value => by
    intro scope out ends
    obtain ⟨content, notes, given, rfl⟩ := ends.of_guard.2.of_single
    exact ⟨followed.assignment given, areFresh_single rfl⟩
  | .exit kind line => by
    intro scope out ends
    have made := ends.of_guard.2
    cases left : Lower.exit scope kind line with
    | error fault =>
      rw [left] at made
      exact absurd made not_ends_throw
    | ok content =>
      rw [left] at made
      rw [← made.eq_of_pure]
      exact ⟨followed.exit left, areFresh_single rfl⟩
  | .randomize seed line => by
    intro scope out ends
    obtain ⟨content, notes, given, rfl⟩ := ends.of_guard.2.of_single
    exact ⟨followed.randomize given, areFresh_single rfl⟩
  | .doLoop _ _ _ | .whileLoop _ _ _ | .forLoop _ _ _ _ _ | .forEach _ _ _ | .select _ _ _
  | .onError _ _ | .withTarget _ _ _ => by
    -- these are refused wherever they stand
    intro scope out ends
    exact absurd ends.of_guard.2 not_ends_throw

/-- The property holds for blocks behind others that wait for a comment. -/
theorem ofBlocks_behind (followed : Followed ctx P A) : (bs : List Block) →
    ∀ (scope : Scope) (as : List Block) (made out : Emission), P scope as made → AreFresh made.stmts →
      Ends (blocks ctx scope made.stmts bs) out → P scope (as ++ bs) ({ made with stmts := [] } ++ out)
  | [] => by
    intro scope as made out holds _ ends
    rw [← ends.eq_of_pure, append_nil]
    simpa [Emission.append_def] using holds
  | b :: rest => by
    intro scope as made out holds fresh ends
    rcases ends.of_blocks_cons with
      ⟨text, remarked, more, rfl, added, moreEnds, rfl⟩ | ⟨next, more, nextEnds, moreEnds, rfl⟩
    · have later := ofBlocks followed rest scope more moreEnds
      have whole := followed.append (followed.remark holds fresh added) later
      simpa [Emission.append_def, append_assoc] using whole
    · obtain ⟨here, freshNext⟩ := ofBlock followed b scope next nextEnds
      have later := ofBlocks_behind followed rest scope [b] next more here freshNext moreEnds
      have whole := followed.append holds later
      simpa [Emission.append_def, append_assoc] using whole

theorem ofBlocks (followed : Followed ctx P A) (bs : List Block) (scope : Scope) (out : Emission)
    (ends : Ends (blocks ctx scope [] bs) out) : P scope bs out := by
  have holds := ofBlocks_behind followed bs scope [] {} out (followed.nil scope) areFresh_nil ends
  simpa [Emission.append_def] using holds

theorem ofAlternative (followed : Followed ctx P A) : (rest : Alternative) →
    ∀ (scope : Scope) (out : Emission), Ends (alternative ctx scope rest) out → A scope rest out ∧ AreFresh out.stmts
  | .none => by
    intro scope out ends
    rw [← ends.eq_of_pure]
    exact ⟨followed.none scope, areFresh_nil⟩
  | .elseIf test body rest => by
    intro scope out ends
    obtain ⟨term, notes, inner, others, clause, rfl⟩ := ends.of_clause
    obtain ⟨later, fresh⟩ := ofAlternative followed rest _ _ clause.rest
    exact ⟨followed.elseIf clause.given (ofBlocks followed body _ _ clause.body) later, areFresh_clauseEmission fresh⟩
  | .otherwise body => by
    intro scope out ends
    obtain ⟨inner, innerEnds, rfl⟩ := ends.of_otherwise
    exact ⟨followed.otherwise (ofBlocks followed body _ _ innerEnds), areFresh_single rfl⟩

end

end Followed
end Lower
end VbSharp
