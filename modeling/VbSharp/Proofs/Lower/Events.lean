import VbSharp.Proofs.Lower.Within

/-!
# What lowering reports

Lowering adds events to a log and never looks at what is there. So it comes to the same result whatever has been
logged before, and the events of a program can be read off: routines report what they declare, and only the
outermost code warns, once for each name that it declares without being told to.
-/
namespace VbSharp.Lower

open List Event
open CSharp (Stmt Declaration)
open CSharp.Stmt (deep)

variable {fault second first : Fault} {settings : Settings} {source : List Block} {lowered : Lowered}

variable {α β : Type}

variable (kind : DeclarationKind) (items : List α) (event : α → Event)

variable {c : Lowering α} {next : α → Lowering β} {p : Prop} {q : Progress}

/-- The end of a computation with a result or a fault. -/
def ending (result : Except Fault α) (p : Progress) : EStateM.Result Fault Progress α :=
  match result with
  | .ok a => .ok a p
  | .error fault => .error fault p

/-- The computation adds events of a kind to the log, and does not look at the log. From where `issued` results have been
handed out it goes to a result that `made` holds for, with how many have been handed out then, or to a fault. -/
def Logs (allowed : Event → Prop) (made : α → Nat → Prop) (c : Lowering α) (issued : Nat) : Prop :=
  ∃ (result : Except Fault α) (later : Nat) (events : List Event), (∀ e ∈ events, allowed e) ∧
    (∀ a, result = .ok a → made a later) ∧ ∀ before, c ⟨issued, before⟩ = ending result ⟨later, events ++ before⟩

variable {allowed : Event → Prop} {made : α → Nat → Prop} {last : β → Nat → Prop} {issued : Nat}

theorem logs_pure {a : α} (held : made a issued) : Logs allowed made (pure a) issued := by
  refine ⟨.ok a, issued, [], forall_mem_nil _, fun b same => ?_, fun _ => rfl⟩
  cases same
  exact held

theorem logs_throw : Logs allowed made (throw fault) issued :=
  ⟨.error fault, issued, [], forall_mem_nil _, by simp, fun _ => rfl⟩

theorem Logs.bind (first : Logs allowed made c issued)
    (second : ∀ a between, made a between → Logs allowed last (next a) between) :
    Logs allowed last (c >>= next) issued := by
  obtain ⟨result, between, events, fit, held, ran⟩ := first
  cases result with
  | error fault =>
    refine ⟨.error fault, between, events, fit, by simp, fun before => ?_⟩
    change EStateM.bind c next _ = _
    rw [EStateM.bind, ran before]
    rfl
  | ok a =>
    obtain ⟨result, later, more, moreFit, ends, went⟩ := second a between (held a rfl)
    refine ⟨result, later, more ++ events, forall_mem_append.mpr ⟨moreFit, fit⟩, ends, fun before => ?_⟩
    change EStateM.bind c next _ = _
    rw [EStateM.bind, ran before, append_assoc, ← went (events ++ before)]
    rfl

theorem Logs.mono {more : Event → Prop} {other : α → Nat → Prop} (logs : Logs allowed made c issued)
    (wider : ∀ e, allowed e → more e) (weaker : ∀ a later, made a later → Ends c a → other a later) :
    Logs more other c issued := by
  obtain ⟨result, later, events, fit, held, ran⟩ := logs
  refine ⟨result, later, events, fun e listed => wider e (fit e listed), fun a same => ?_, ran⟩
  subst same
  exact weaker a later (held a rfl) ⟨_, _, ran []⟩

/-- What a computation has done if it ends with a result. -/
theorem Logs.of_ends {a : α} {made : Nat → α → Nat → Prop} (logs : ∀ issued, Logs allowed (made issued) c issued)
    (ends : Ends c a) : ∃ issued later, made issued a later := by
  obtain ⟨⟨issued, before⟩, after, ran⟩ := ends
  obtain ⟨result, later, events, -, held, went⟩ := logs issued
  rw [went before] at ran
  cases result with
  | error fault => cases ran
  | ok _ =>
    cases ran
    exact ⟨issued, later, held a rfl⟩

/-- The computation hands out no result. -/
abbrev Keeps (allowed : Event → Prop) (c : Lowering α) (issued : Nat) : Prop :=
  Logs allowed (fun _ later => later = issued) c issued

theorem keeps_report {e : Event} (fit : allowed e) : Keeps allowed (report e) issued :=
  ⟨.ok (), issued, [e], forall_mem_singleton.mpr fit, fun _ _ => rfl, fun _ => rfl⟩

theorem keeps_noting (c : Noting α) : Keeps allowed (noting c) issued := by
  unfold noting
  split
  · exact logs_pure rfl
  · exact logs_throw

theorem keeps_single (c : Noting CSharp.Simple) : Keeps allowed (single c) issued :=
  (keeps_noting c).bind fun _ _ same => logs_pure same

theorem Logs.guard [Decidable p] {next : β → Lowering α} {rest : Lowering α} (passed : Logs allowed made rest issued) :
    Logs allowed made (if p then throw fault >>= next else rest) issued := by
  split
  · exact ⟨.error fault, issued, [], forall_mem_nil _, by simp, fun _ => rfl⟩
  · exact passed

theorem Logs.checks {q r : Prop} [Decidable p] [Decidable q] [Decidable r] {next : PUnit → Lowering α}
    (passed : Logs allowed made (next ()) issued) :
    Logs allowed made (if p then (if q then throw first >>= next else next ())
      else (if r then throw second >>= next else next ())) issued := by
  split
  · exact passed.guard
  · exact passed.guard

/-- A result is handed out if one is wanted. -/
theorem Logs.optional {wanted : Bool} {next : Option String → Lowering α}
    (some : Logs allowed made (next (some (resultName (issued + 1)))) (issued + 1))
    (none : Logs allowed made (next none) issued) :
    Logs allowed made (if wanted = true then Option.some <$> freshResult >>= next else pure Option.none >>= next) issued := by
  split
  · exact some
  · exact none

/-! ### Blocks -/

variable {ctx : Context} {scope : Scope}

theorem keeps_variableEmission (visibility : CSharp.Visibility) (v : Variable) :
    Keeps allowed (variableEmission ctx scope kind visibility v) issued := by
  unfold variableEmission
  simp only
  split
  · exact logs_pure rfl
  · exact logs_pure rfl
  · exact ((keeps_single _).bind fun _ _ same => logs_pure same).guard

theorem keeps_variableEmissions (visibility : CSharp.Visibility) (vars : List Variable) :
    Keeps allowed (variableEmissions ctx scope kind visibility vars) issued := by
  induction vars with
  | nil => exact logs_pure rfl
  | cons v rest ih =>
    refine (keeps_variableEmission kind visibility v).bind fun _ _ same => ?_
    rw [same]
    exact ih.bind fun _ _ same => logs_pure same

theorem keeps_declaration (vars : List Variable) (line : Nat) :
    Keeps allowed (declaration ctx scope kind vars line) issued := by
  unfold declaration
  split
  · exact logs_throw
  · exact keeps_variableEmissions kind _ vars

/-- Blocks report the routines among them and nothing else. -/
def IsRoutineEvent (e : Event) : Prop :=
  ∃ name count, e = .routineDeclared name count

/-! ### Results -/

/-- The result that a line declares. -/
def heldResult : Stmt → List String
  | .line (.declareResult name) _ => [name]
  | _ => []

theorem shows_heldResult : Shows heldResult (fun _ => []) where
  blank := rfl
  block _ _ := rfl
  line content ordinary := by
    cases content with
    | declareResult => cases ordinary
    | _ => rfl
  comment _ := rfl
  remark := by
    intro s text marked _ added
    cases s with
    | blank => cases added
    | line content remark =>
      cases added
      cases content <;> rfl
    | block head body remark =>
      cases added
      rfl

/-- The variables for results that are handed out next. -/
def nextResults (issued count : Nat) : Multiset String :=
  (range' (issued + 1) count).map resultName

theorem nextResults_add (issued n m : Nat) :
    nextResults issued (n + m) = nextResults issued n + nextResults (issued + n) m := by
  rw [nextResults, ← range'_append_1, map_append, ← Multiset.coe_add, Nat.add_right_comm]
  rfl

/-- Behind statements that wait, an emission declares the results that are handed out meanwhile. -/
def Issues (pending : List Stmt) (issued : Nat) (out : Emission) (later : Nat) : Prop :=
  ∃ count, later = issued + count ∧
    out.sight heldResult = pending.flatMap (deep heldResult) + nextResults issued count

variable {pending : List Stmt} {out more : Emission} {between later : Nat} {content : CSharp.Simple} {notes : List Note}

theorem issues_silent (silent : out.sight heldResult = 0) : Issues [] issued out issued :=
  ⟨0, rfl, silent⟩

theorem issues_action (acts : content.isAction = true) :
    Issues [] issued { stmts := [.ofSimple content], notes := notes } issued := by
  refine issues_silent ?_
  rw [Emission.sight_stmts, deep_action shows_heldResult.toIsSparse acts]
  rfl

theorem logs_action {c : Noting CSharp.Simple}
    (acts : ∀ content notes, c = Except.ok (content, notes) → content.isAction = true) :
    Logs allowed (Issues [] issued) (single c) issued := by
  refine (keeps_single c).mono (fun _ => id) fun out later same ends => ?_
  obtain ⟨content, notes, given, rfl⟩ := ends.of_single
  rw [same]
  exact issues_action (acts content notes given)

theorem issues_declaration {kind : DeclarationKind} {vars : List Variable} {line : Nat}
    (ends : Ends (declaration ctx scope kind vars line) out) : Issues [] issued out issued := by
  unfold declaration at ends
  split at ends
  · exact absurd ends not_ends_throw
  · obtain ⟨methods, classes, contents, stmts, sizes⟩ := ends.lines_of_variableEmissions
    have silent : (contents.map Stmt.ofSimple).flatMap (deep heldResult) = [] := by
      rw [flatMap_eq_nil_iff]
      intro s listed
      obtain ⟨content, member, rfl⟩ := mem_map.mp listed
      obtain ⟨_, _, _, given⟩ := sizes content member
      simpa using deep_sizing shows_heldResult.toIsSparse (told_sizeArray given).1
    refine issues_silent ?_
    rw [Emission.sight, methods, classes, stmts, silent]
    rfl

theorem Issues.append (first : Issues pending issued out between) (second : Issues [] between more later) :
    Issues pending issued (out ++ more) later := by
  obtain ⟨n, rfl, here⟩ := first
  obtain ⟨m, rfl, there⟩ := second
  refine ⟨n + m, Nat.add_assoc .., ?_⟩
  rw [Emission.sight_append, here, there, nextResults_add, flatMap_nil, Multiset.coe_nil, zero_add, add_assoc]

/-- What waits stands before what has been issued since. -/
theorem Issues.behind (first : Issues [] issued out between) (second : Issues out.stmts between more later) :
    Issues pending issued ({ out with stmts := pending } ++ more) later := by
  obtain ⟨n, rfl, here⟩ := first
  obtain ⟨m, rfl, there⟩ := second
  have moved : ({ out with stmts := pending } : Emission).sight heldResult + out.stmts.flatMap (deep heldResult) =
      pending.flatMap (deep heldResult) + out.sight heldResult := by
    simp only [Emission.sight]
    abel
  refine ⟨n + m, Nat.add_assoc .., ?_⟩
  rw [Emission.sight_append, there, ← add_assoc, moved, here, nextResults_add, flatMap_nil, Multiset.coe_nil, zero_add,
    add_assoc]

theorem Issues.braces (head : CSharp.Head) (inner : Issues [] issued out later) :
    Issues [] issued { out with stmts := [.ofBlock head out.stmts] } later := by
  obtain ⟨count, same, seen⟩ := inner
  exact ⟨count, same, (Emission.sight_ofBlock shows_heldResult.toIsSparse head out).trans seen⟩

theorem Issues.clause (notes : List Note) (head : CSharp.Head) (inner : Issues [] issued out between)
    (others : Issues [] between more later) : Issues [] issued (clauseEmission notes head out more) later :=
  ((issues_silent rfl).append (inner.braces head)).append others

theorem Issues.classDefinition (name : Token) (body : List Block) (members : Issues [] issued out later) :
    Issues [] issued (Emission.mk [] [] out.notes out.methods (out.classes ++ [classStmt name body out])) later := by
  obtain ⟨count, same, seen⟩ := members
  exact ⟨count, same, (shows_heldResult.sight_class name body out).trans seen⟩

theorem Issues.function (header : Header) (inner : Issues [] (issued + 1) out later) :
    Issues [] issued (routineEmission ctx scope header (some (resultName (issued + 1))) out) later := by
  obtain ⟨count, same, seen⟩ := inner
  refine ⟨1 + count, by omega, ?_⟩
  rw [shows_heldResult.sight_routine, seen, nextResults_add]
  rfl

theorem Issues.sub (header : Header) (inner : Issues [] issued out later) :
    Issues [] issued (routineEmission ctx scope header none out) later := by
  obtain ⟨count, same, seen⟩ := inner
  refine ⟨count, same, ?_⟩
  rw [shows_heldResult.sight_routine, seen]
  exact zero_add _

/-- A routine reports what it declares, and becomes a method. -/
theorem logs_routine {header : Header} {result : Option String} {e : Event} (event : IsRoutineEvent e)
    (made : Issues [] issued (routineEmission ctx scope header result out) later) :
    Logs IsRoutineEvent (Issues [] issued) (do
      report e
      if ctx.asClass && scope.kind == .program then
        return { notes := out.notes, methods := out.methods ++ [routineStmts ctx scope header result out],
                 classes := out.classes }
      return { stmts := routineStmts ctx scope header result out, notes := out.notes, methods := out.methods,
               classes := out.classes }) later := by
  refine (keeps_report event).bind fun _ _ same => ?_
  rw [same]
  unfold routineEmission Context.setsApart at made
  split
  · next apart =>
    rw [if_pos apart] at made
    exact logs_pure made
  · next together =>
    rw [if_neg together] at made
    exact logs_pure made

mutual

theorem logs_block (ctx : Context) (scope : Scope) (issued : Nat) : (b : Block) →
    Logs IsRoutineEvent (Issues [] issued) (block ctx scope b) issued
  | .blankLine | .comment _ _ | .optionExplicit => by
    exact (logs_pure (issues_silent rfl)).guard
  | .declaration kind vars line => by
    refine Logs.guard ((keeps_declaration kind vars line).mono (fun _ => id) fun out later same ends => ?_)
    rw [same]
    exact issues_declaration ends
  | .classDefinition name body => by
    exact ((logs_blocks ctx _ [] issued body).bind fun _ _ made => logs_pure (made.classDefinition name body)).guard.guard
  | .routine header body => by
    refine Logs.guard (Logs.checks (Logs.optional ?_ ?_))
    · refine (logs_blocks ctx _ [] _ body).bind fun inner later made => ?_
      exact logs_routine ⟨_, _, rfl⟩ (made.function header)
    · refine (logs_blocks ctx _ [] _ body).bind fun inner later made => ?_
      exact logs_routine ⟨_, _, rfl⟩ (made.sub header)
  | .branch test body rest => by
    refine Logs.guard ((keeps_noting _).bind fun _ _ same => ?_)
    rw [same]
    refine (logs_blocks ctx scope [] issued body).bind fun _ between inner => ?_
    exact (logs_alternative ctx scope between rest).bind fun _ _ others => logs_pure (inner.clause _ _ others)
  | .call e spelled => by
    exact (logs_action fun _ _ given => (told_callStatement given).acts).guard
  | .assignment kind target value => by
    exact (logs_action fun _ _ given => (told_assignment given).2.acts).guard
  | .randomize seed line => by
    exact (logs_action fun _ _ given => (told_randomize given).acts).guard
  | .exit kind line => by
    refine Logs.guard ?_
    split
    · next content left =>
      obtain ⟨-, rfl⟩ := exit_ok left
      exact logs_pure (issues_action rfl)
    · exact logs_throw
  | .doLoop _ _ _ | .whileLoop _ _ _ | .forLoop _ _ _ _ _ | .forEach _ _ _ | .select _ _ _
  | .onError _ _ | .withTarget _ _ _ => by
    exact logs_throw.guard

theorem logs_blocks (ctx : Context) (scope : Scope) (pending : List Stmt) (issued : Nat) : (bs : List Block) →
    Logs IsRoutineEvent (Issues pending issued) (blocks ctx scope pending bs) issued
  | [] => by
    exact logs_pure ⟨0, rfl, (Emission.sight_stmts pending []).trans (add_zero _).symm⟩
  | b :: rest => by
    rw [blocks.eq_def]
    split
    · next impossible => cases impossible
    · next text later same =>
      cases same
      split
      · next remarked added =>
        have kept : remarked.flatMap (deep heldResult) = pending.flatMap (deep heldResult) :=
          Stmt.flatMap_addRemark? added (fun content _ _ => by cases content <;> rfl) fun _ _ _ _ => by
            rw [Stmt.deep_block, Stmt.deep_block]
            rfl
        refine (logs_blocks ctx scope [] issued rest).bind fun more _ made => logs_pure ?_
        rw [Issues, ← kept]
        exact (show Issues [] issued {} issued from issues_silent rfl).behind made
      · refine (logs_blocks ctx scope [.ofSimple (.comment text)] issued rest).bind fun more _ made => logs_pure ?_
        exact (show Issues [] issued { stmts := [.ofSimple (.comment text)] } issued from issues_silent rfl).behind made
    · next first later _ same =>
      cases same
      refine (logs_block ctx scope issued b).bind fun out between made => ?_
      exact (logs_blocks ctx scope out.stmts between rest).bind fun _ _ more => logs_pure (made.behind more)

theorem logs_alternative (ctx : Context) (scope : Scope) (issued : Nat) : (rest : Alternative) →
    Logs IsRoutineEvent (Issues [] issued) (alternative ctx scope rest) issued
  | .none => by
    exact logs_pure (issues_silent rfl)
  | .elseIf test body rest => by
    refine (keeps_noting _).bind fun _ _ same => ?_
    rw [same]
    refine (logs_blocks ctx scope [] issued body).bind fun _ between inner => ?_
    exact (logs_alternative ctx scope between rest).bind fun _ _ others => logs_pure (inner.clause _ _ others)
  | .otherwise body => by
    exact (logs_blocks ctx scope [] issued body).bind fun _ _ inner => logs_pure (inner.braces _)

end

/-! ### Programs -/

theorem bind_ok {b : β} {p : Progress} (ran : (c >>= next) p = .ok b q) :
    ∃ a m, c p = .ok a m ∧ next a m = .ok b q := by
  change EStateM.bind c next p = _ at ran
  unfold EStateM.bind at ran
  split at ran
  · next a m first => exact ⟨a, m, first, ran⟩
  · cases ran

/-- Events that are reported one after the other stand in the log with the last one first. -/
theorem forM_report (p : Progress) :
    (items.forM fun a => report (event a)) p = .ok () { p with events := (items.map event).reverse ++ p.events } := by
  induction items generalizing p with
  | nil => rfl
  | cons a rest ih =>
    change EStateM.bind (report (event a)) (fun _ => rest.forM fun a => report (event a)) p = _
    change (rest.forM fun a => report (event a)) { p with events := event a :: p.events } = _
    rw [ih]
    simp

theorem logs_forM : Keeps (fun _ => True) (items.forM fun a => report (event a)) issued :=
  ⟨.ok (), issued, (items.map event).reverse, fun _ _ => trivial, fun _ _ => rfl, fun _ => forM_report items event _⟩

theorem logs_program (settings : Settings) (source : List Block) (issued : Nat) :
    Logs (fun _ => True) (fun _ _ => True) (program settings source) issued := by
  refine (logs_forM _ _).bind fun _ _ _ => ?_
  refine ((logs_blocks _ _ [] _ _).mono (fun _ _ => trivial) fun _ _ _ _ => trivial).bind fun _ _ _ => ?_
  refine (logs_forM _ _).bind fun _ _ _ => ?_
  exact (keeps_report trivial).bind fun _ _ _ => logs_pure trivial

/-- Whatever has been logged before, a program is lowered in the same way. -/
theorem program_apply (settings : Settings) (source : List Block) (before : List Event) :
    ∃ later events, program settings source ⟨0, before⟩ =
      ending (lowerBlocks settings source) ⟨later, events ++ before⟩ := by
  obtain ⟨result, later, events, -, -, ran⟩ := logs_program settings source 0
  have same : lowerBlocks settings source = result := by
    have alone : (program settings source).run {} = ending result ⟨later, events ++ []⟩ := ran []
    unfold lowerBlocks
    rw [alone]
    cases result with
    | ok lowered => rfl
    | error fault => rfl
  exact ⟨later, events, by rw [same, ran before]⟩

/-- A program adds its warnings to the log. -/
theorem warnings_of_program {p : Progress} (ran : program settings source p = .ok lowered q) :
    q.events.filterMap warning? = lowered.warnings.reverse ++ p.events.filterMap warning? := by
  obtain ⟨_, first, reported, ran⟩ := bind_ok ran
  rw [forM_report] at reported
  cases reported
  obtain ⟨out, second, lowers, ran⟩ := bind_ok ran
  obtain ⟨_, third, warned, ran⟩ := bind_ok ran
  rw [forM_report] at warned
  cases warned
  obtain ⟨_, fourth, declared, ran⟩ := bind_ok ran
  cases declared
  cases ran
  -- before the warnings come only routines, and before these only definitions that are superseded
  obtain ⟨result, later, events, fit, -, same⟩ :=
    logs_blocks _ (Scope.ofProgram (dropSuperseded source) settings.externalReferences) [] p.issued
      (dropSuperseded source)
  have silent : events.filterMap warning? = [] := by
    rw [filterMap_eq_nil_iff]
    intro e listed
    obtain ⟨name, count, rfl⟩ := fit e listed
    rfl
  rw [same] at lowers
  cases result with
  | error fault => cases lowers
  | ok _ =>
    cases lowers
    have superseded : ((supersededHeaders source).map fun header =>
        definitionSuperseded header.name.text header.name.lineNumber).reverse.filterMap warning? = [] := by
      rw [filterMap_eq_nil_iff]
      intro e listed
      obtain ⟨header, -, rfl⟩ := mem_map.mp (mem_reverse.mp listed)
      rfl
    have warned : ((implicitNames out).map fun name =>
        warning (undeclaredWarning name)).reverse.filterMap warning? =
          ((implicitNames out).map undeclaredWarning).reverse := by
      rw [filterMap_reverse, filterMap_map, ← filterMap_eq_map]
      rfl
    change (_ :: (((implicitNames out).map fun name => warning (undeclaredWarning name)).reverse ++
      (events ++ (_ ++ p.events)))).filterMap warning? = ((implicitNames out).map undeclaredWarning).reverse ++ _
    rw [filterMap_cons_none rfl, filterMap_append, filterMap_append, filterMap_append, warned, silent, superseded]
    rfl

end VbSharp.Lower
