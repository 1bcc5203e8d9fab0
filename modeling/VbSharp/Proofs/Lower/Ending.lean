import VbSharp.Lower.Program

/-!
# How lowering ends

What a computation that lowers blocks has done if it ends with a result: one lemma for each step, and
one for each block that holds others.
-/
namespace VbSharp.Lower

open CSharp
open CSharp (Stmt Declaration)

variable {fault second first : Fault} {body source : List Block} {vars : List Variable} {settings : Settings}
  {lowered : Lowered}

variable {α β : Type}

variable {c : Lowering α} {pending : List Stmt}

/-- The computation can end with that result. -/
def Ends (c : Lowering α) (a : α) : Prop :=
  ∃ before after, c before = .ok a after

theorem Ends.eq_of_pure {a b : α} (ends : Ends (pure a) b) : a = b := by
  obtain ⟨before, after, same⟩ := ends
  exact (EStateM.Result.ok.inj same).1

variable {a : α} {b : β}

theorem Ends.of_bind {next : α → Lowering β} (ends : Ends (c >>= next) b) : ∃ a, Ends c a ∧ Ends (next a) b := by
  obtain ⟨before, after, same⟩ := ends
  change EStateM.bind c next before = .ok b after at same
  unfold EStateM.bind at same
  split at same
  · next a between ran => exact ⟨a, ⟨before, between, ran⟩, ⟨between, after, same⟩⟩
  · cases same

theorem Ends.of_map {f : α → β} (ends : Ends (f <$> c) b) : ∃ a, Ends c a ∧ f a = b := by
  obtain ⟨before, after, same⟩ := ends
  change EStateM.map f c before = .ok b after at same
  unfold EStateM.map at same
  split at same
  · next a between ran => exact ⟨a, ⟨before, between, ran⟩, (EStateM.Result.ok.inj same).1⟩
  · cases same

theorem not_ends_throw : ¬ Ends (throw fault) a := by
  rintro ⟨before, after, same⟩
  cases same

/-- What is done behind a check is done only if the check passes. -/
theorem Ends.of_guard {c : Prop} [Decidable c] {next : β → Lowering α} {rest : Lowering α}
    (ends : Ends (if c then throw fault >>= next else rest) a) : ¬ c ∧ Ends rest a := by
  split at ends
  · obtain ⟨_, thrown, _⟩ := ends.of_bind
    exact absurd thrown not_ends_throw
  · next passed => exact ⟨passed, ends⟩

theorem Ends.of_checks {p q r : Prop} [Decidable p] [Decidable q] [Decidable r] {next : PUnit → Lowering α}
    (ends : Ends (if p then (if q then throw first >>= next else next ()) else (if r then throw second >>= next else next ())) a) :
    Ends (next ()) a := by
  split at ends
  · exact ends.of_guard.2
  · exact ends.of_guard.2

theorem Ends.of_optional {wanted : Bool} {c : Lowering β} {next : Option β → Lowering α}
    (ends : Ends (if wanted = true then some <$> c >>= next else pure none >>= next) a) :
    ∃ result, result.isSome = wanted ∧ (∀ b ∈ result, Ends c b) ∧ Ends (next result) a := by
  split at ends
  · next isWanted =>
    obtain ⟨result, made, ends⟩ := ends.of_bind
    obtain ⟨b, bEnds, rfl⟩ := made.of_map
    exact ⟨some b, isWanted.symm, fun _ same => Option.some.inj same ▸ bEnds, ends⟩
  · next unwanted =>
    obtain ⟨result, made, ends⟩ := ends.of_bind
    rw [← made.eq_of_pure] at ends
    exact ⟨none, by simpa using unwanted, nofun, ends⟩

theorem Ends.of_freshResult {name : String} (ends : Ends freshResult name) : ∃ n, name = resultName n := by
  obtain ⟨before, after, same⟩ := ends
  exact ⟨before.issued + 1, (EStateM.Result.ok.inj same).1.symm⟩

theorem Ends.of_noting {c : Noting α} {notes : List Note} (ends : Ends (noting c) (a, notes)) :
    c = Except.ok (a, notes) := by
  unfold noting at ends
  split at ends
  · rw [ends.eq_of_pure]
  · exact absurd ends not_ends_throw

theorem Ends.of_single {c : Noting Simple} {out : Emission} (ends : Ends (single c) out) :
    ∃ content notes, c = Except.ok (content, notes) ∧ out = { stmts := [.ofSimple content], notes := notes } := by
  obtain ⟨⟨content, notes⟩, given, made⟩ := ends.of_bind
  exact ⟨content, notes, given.of_noting, made.eq_of_pure.symm⟩

/-! ### Blocks -/

theorem Emission.append_def (a b : Emission) :
    a ++ b = ⟨a.stmts ++ b.stmts, a.declared ++ b.declared, a.notes ++ b.notes, a.methods ++ b.methods,
      a.classes ++ b.classes⟩ := rfl

variable {ctx : Context} {scope : Scope} {out : Emission}

/-- What a clause becomes, with what follows it. -/
def clauseEmission (notes : List Note) (head : Head) (inner others : Emission) : Emission :=
  { notes := notes } ++ { inner with stmts := [.ofBlock head inner.stmts] } ++ others

/-- What the parts of a clause become. -/
structure ClauseEnds (ctx : Context) (scope : Scope) (test : Expr) (body : List Block) (rest : Alternative)
    (term : Term) (notes : List Note) (inner others : Emission) : Prop where
  given : condition (ctx.site scope) test = Except.ok (term, notes)
  body : Ends (blocks ctx scope [] body) inner
  rest : Ends (alternative ctx scope rest) others

/-- The computation of a clause, whatever opens it. -/
theorem Ends.of_clause {test : Expr} {rest : Alternative} {head : Term → Head} (ends : Ends (do
      let (term, notes) ← noting (condition (ctx.site scope) test)
      let inner ← blocks ctx scope [] body
      let others ← alternative ctx scope rest
      return clauseEmission notes (head term) inner others) out) :
    ∃ term notes inner others, ClauseEnds ctx scope test body rest term notes inner others ∧
      out = clauseEmission notes (head term) inner others := by
  obtain ⟨⟨term, notes⟩, tested, ends⟩ := ends.of_bind
  obtain ⟨inner, innerEnds, ends⟩ := ends.of_bind
  obtain ⟨others, othersEnd, ends⟩ := ends.of_bind
  exact ⟨term, notes, inner, others, ⟨tested.of_noting, innerEnds, othersEnd⟩, ends.eq_of_pure.symm⟩

theorem Ends.of_otherwise (ends : Ends (alternative ctx scope (.otherwise body)) out) :
    ∃ inner, Ends (blocks ctx scope [] body) inner ∧
      out = { inner with stmts := [.ofBlock .otherwise inner.stmts] } := by
  obtain ⟨inner, innerEnds, ends⟩ := ends.of_bind
  exact ⟨inner, innerEnds, ends.eq_of_pure.symm⟩

theorem Ends.of_classDefinition {name : Token} (ends : Ends (block ctx scope (.classDefinition name body)) out) :
    scope.kind = .program ∧ ∃ members, Ends (blocks ctx (scope.ofClass body) [] body) members ∧
      out = { notes := members.notes, methods := members.methods,
              classes := members.classes ++ [classStmt name body members] } := by
  obtain ⟨outermost, ends⟩ := ends.of_guard.2.of_guard
  obtain ⟨members, membersEnd, ends⟩ := ends.of_bind
  exact ⟨by simpa using outermost, members, membersEnd, ends.eq_of_pure.symm⟩

/-- Whether the routines of a scope become methods that stand apart from its code. -/
def Context.setsApart (ctx : Context) (scope : Scope) : Bool :=
  ctx.asClass && scope.kind == .program

/-- The method of a routine, with its attributes if it is a member of a class. -/
def routineStmts (ctx : Context) (scope : Scope) (header : Header) (result : Option String)
    (inner : Emission) : List Stmt :=
  (if scope.kind == .classBody then attributes header else []) ++
    [.ofBlock (.method (signature header scope.kind (ctx.setsApart scope)))
      (methodBody result (Declaration.merge inner.declared) inner.stmts)]

/-- What a routine becomes, given what its body becomes. -/
def routineEmission (ctx : Context) (scope : Scope) (header : Header) (result : Option String)
    (inner : Emission) : Emission :=
  if ctx.setsApart scope then
    { notes := inner.notes, classes := inner.classes,
      methods := inner.methods ++ [routineStmts ctx scope header result inner] }
  else
    { notes := inner.notes, classes := inner.classes, methods := inner.methods,
      stmts := routineStmts ctx scope header result inner }

/-- Routines stand in no other routine, and properties stand in classes only. -/
def Admits (kind : FrameKind) (header : Header) : Prop :=
  kind ≠ .routine ∧ (header.kind.isProperty = true → kind = .classBody)

/-- What a routine is lowered with: a variable for its result, if it returns a value, and what its body becomes. -/
structure RoutineEnds (ctx : Context) (scope : Scope) (header : Header) (body : List Block)
    (result : Option String) (inner : Emission) : Prop where
  admits : Admits scope.kind header
  returns : result.isSome = header.kind.returnsValue
  issued : ∀ name ∈ result, ∃ n, name = resultName n
  ends : Ends (blocks ctx (scope.ofRoutine header body result) [] body) inner

theorem Ends.of_routine {header : Header} (ends : Ends (block ctx scope (.routine header body)) out) :
    ∃ result inner, RoutineEnds ctx scope header body result inner ∧
      out = routineEmission ctx scope header result inner := by
  have checked := ends.of_guard.2
  have admits : Admits scope.kind header := by
    by_cases property : header.kind.isProperty = true
    · simp only [property, if_true] at checked
      have inClass : scope.kind = .classBody := by simpa using checked.of_guard.1
      exact ⟨by simp [inClass], fun _ => inClass⟩
    · simp only [property] at checked
      exact ⟨by simpa using checked.of_guard.1, fun isProperty => absurd isProperty property⟩
  obtain ⟨result, wanted, issued, ends⟩ := checked.of_checks.of_optional
  obtain ⟨inner, innerEnds, ends⟩ := ends.of_bind
  obtain ⟨_, _, ends⟩ := ends.of_bind
  refine ⟨result, inner, ⟨admits, wanted, fun name made => (issued name made).of_freshResult, innerEnds⟩, ?_⟩
  unfold routineEmission
  simp only at ends
  split at ends
  · next apart =>
    rw [if_pos (by simpa [Context.setsApart] using apart)]
    exact ends.eq_of_pure.symm
  · next together =>
    rw [if_neg (by simpa [Context.setsApart] using together)]
    exact ends.eq_of_pure.symm

/-- Statements that wait for a comment come first; a comment behind them adds a remark at most. -/
theorem Ends.of_blocks_cons {b : Block} {rest : List Block} (ends : Ends (blocks ctx scope pending (b :: rest)) out) :
    (∃ text remarked more, b = .comment text true ∧ addRemark? text pending = some remarked ∧
      Ends (blocks ctx scope [] rest) more ∧ out = { stmts := remarked } ++ more) ∨
    ∃ made more, Ends (block ctx scope b) made ∧ Ends (blocks ctx scope made.stmts rest) more ∧
      out = { made with stmts := pending } ++ more := by
  rw [blocks.eq_def] at ends
  split at ends
  · next impossible => cases impossible
  · next text later same =>
    cases same
    split at ends
    · next remarked added =>
      obtain ⟨more, moreEnds, ends⟩ := ends.of_bind
      exact .inl ⟨text, remarked, more, rfl, added, moreEnds, ends.eq_of_pure.symm⟩
    · -- the comment stands alone, as any other block would
      obtain ⟨more, moreEnds, ends⟩ := ends.of_bind
      have alone : Ends (block ctx scope (.comment text true)) { stmts := [.ofSimple (.comment text)] } :=
        ⟨{}, {}, by simp [block, isMember]; rfl⟩
      exact .inr ⟨_, more, alone, moreEnds, ends.eq_of_pure.symm⟩
  · next same =>
    cases same
    obtain ⟨made, madeEnds, ends⟩ := ends.of_bind
    obtain ⟨more, moreEnds, ends⟩ := ends.of_bind
    exact .inr ⟨made, more, madeEnds, moreEnds, ends.eq_of_pure.symm⟩

/-! ### Declarations -/

variable {kind : DeclarationKind} {visibility : Visibility}

/-- What one variable of a declaration makes: its declaration if it is new, and its array if it has
bounds. -/
theorem Ends.of_variableEmission {v : Variable} (ends : Ends (variableEmission ctx scope kind visibility v) out) :
    let target := declaredVariable scope kind.isReDim v.name
    out.declared = (if target.2 then [⟨target.1.name, v.bounds.isSome, visibility⟩] else []) ∧
      out.methods = [] ∧ out.classes = [] ∧ ((v.bounds.getD [] = [] ∧ out.stmts = [] ∧ out.notes = []) ∨
        ∃ content bound bounds, v.bounds = some (bound :: bounds) ∧
          sizeArray (ctx.site scope) target.1 (kind == .reDim true) (bound :: bounds) =
            Except.ok (content, out.notes) ∧ out.stmts = [.ofSimple content]) := by
  unfold variableEmission at ends
  simp only at ends ⊢
  split at ends
  · next plain =>
    rw [← ends.eq_of_pure, plain]
    exact ⟨rfl, rfl, rfl, .inl ⟨rfl, rfl, rfl⟩⟩
  · next empty =>
    rw [← ends.eq_of_pure, empty]
    exact ⟨rfl, rfl, rfl, .inl ⟨rfl, rfl, rfl⟩⟩
  · next bounds _ sized =>
    obtain ⟨made, madeEnds, ends⟩ := ends.of_guard.2.of_bind
    obtain ⟨content, notes, given, rfl⟩ := madeEnds.of_single
    rw [← ends.eq_of_pure, sized]
    cases bounds with
    | nil => contradiction
    | cons bound bounds =>
      exact ⟨rfl, rfl, rfl, .inr ⟨content, bound, bounds, rfl, given, rfl⟩⟩

/-- What holds for no variables, and for one variable more, holds for what a declaration makes. -/
theorem Ends.of_variableEmissions {motive : List Variable → Emission → Prop} (nil : motive [] {})
    (cons : ∀ {v rest made more}, Ends (variableEmission ctx scope kind visibility v) made → motive rest more →
      motive (v :: rest) (made ++ more)) (ends : Ends (variableEmissions ctx scope kind visibility vars) out) :
    motive vars out := by
  induction vars generalizing out with
  | nil =>
    rw [← ends.eq_of_pure]
    exact nil
  | cons v rest ih =>
    obtain ⟨made, madeEnds, ends⟩ := ends.of_bind
    obtain ⟨more, moreEnds, ends⟩ := ends.of_bind
    rw [← ends.eq_of_pure]
    exact cons madeEnds (ih moreEnds)

/-- A declaration makes lines for its arrays only. -/
theorem Ends.lines_of_variableEmissions (ends : Ends (variableEmissions ctx scope kind visibility vars) out) :
    out.methods = [] ∧ out.classes = [] ∧
      ∃ contents : List Simple, out.stmts = contents.map Stmt.ofSimple ∧ ∀ c ∈ contents, ∃ name bounds notes,
        sizeArray (ctx.site scope) (declaredVariable scope kind.isReDim name).1 (kind == .reDim true) bounds =
          Except.ok (c, notes) := by
  refine ends.of_variableEmissions (motive := fun _ out => out.methods = [] ∧ out.classes = [] ∧
    ∃ contents : List Simple, out.stmts = contents.map Stmt.ofSimple ∧ ∀ c ∈ contents, ∃ name bounds notes,
      sizeArray (ctx.site scope) (declaredVariable scope kind.isReDim name).1 (kind == .reDim true) bounds =
        Except.ok (c, notes)) ⟨rfl, rfl, [], rfl, List.forall_mem_nil _⟩ fun {v} _ _ _ madeEnds rest => ?_
  obtain ⟨-, methods, classes, made⟩ := madeEnds.of_variableEmission
  obtain ⟨moreMethods, moreClasses, contents, moreStmts, sizes⟩ := rest
  refine ⟨by simp [Emission.append_def, methods, moreMethods],
    by simp [Emission.append_def, classes, moreClasses], ?_⟩
  rcases made with ⟨-, stmts, -⟩ | ⟨content, bound, bounds, -, given, stmts⟩
  · exact ⟨contents, by simp [Emission.append_def, stmts, moreStmts], sizes⟩
  · exact ⟨content :: contents, by simp [Emission.append_def, stmts, moreStmts],
      List.forall_mem_cons.mpr ⟨⟨v.name, bound :: bounds, _, given⟩, sizes⟩⟩

theorem Ends.of_declaration {line : Nat} (ends : Ends (block ctx scope (.declaration kind vars line)) out) :
    ∃ visibility, Lower.visibility ctx scope.kind kind line = .ok visibility ∧
      Ends (variableEmissions ctx scope kind visibility vars) out := by
  have made := ends.of_guard.2
  unfold declaration at made
  split at made
  · exact absurd made not_ends_throw
  · next visibility found => exact ⟨visibility, found, made⟩

/-! ### Programs -/

/-- The undeclared names that the outermost code declares. -/
def implicitNames (out : Emission) : List Token :=
  (undeclaredNames out.notes).filter fun name =>
    !(Declaration.merge out.declared).any (·.name == identifier name.text)

/-- The declarations of the outermost code. -/
def outermostDeclarations (asClass : Bool) (out : Emission) : List Stmt :=
  (Declaration.merge out.declared).map (fun d => Stmt.ofSimple (.declare d)) ++
    (implicitNames out).map fun name => Stmt.ofSimple (.declareImplicit
      ⟨identifier name.text, false, if asClass then .publicField else .localVariable⟩)

/-- What a lowered program is put together from. -/
theorem exists_emission (success : lowerBlocks settings source = .ok lowered) : let kept := dropSuperseded source
    let scope := Scope.ofProgram kept settings.externalReferences
    let asClass := !scope.frame.declared.classes.isEmpty
    ∃ out, Ends (blocks ⟨settings.culture, asClass⟩ scope [] kept) out ∧
      (lowered.body, lowered.classes) = arrange asClass lowered.dates (outermostDeclarations asClass out) out ∧
      lowered.dates = datesToCheck out.notes ∧ lowered.warnings = (implicitNames out).map undeclaredWarning := by
  have ends : Ends (program settings source) lowered := by
    unfold lowerBlocks at success
    split at success
    · next result after ran =>
      cases success
      exact ⟨{}, after, ran⟩
    · cases success
  obtain ⟨_, _, ends⟩ := ends.of_bind
  obtain ⟨out, outEnds, ends⟩ := ends.of_bind
  obtain ⟨_, _, ends⟩ := ends.of_bind
  obtain ⟨_, _, ends⟩ := ends.of_bind
  refine ⟨out, outEnds, ?_⟩
  rw [← ends.eq_of_pure]
  exact ⟨rfl, rfl, rfl⟩

end VbSharp.Lower
