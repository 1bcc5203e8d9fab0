import VbSharp.Proofs.Block.Alike
import VbSharp.Proofs.Lower.Alike
import VbSharp.Proofs.Lower.Events

/-!
# Lowering alike blocks

Alike blocks declare the same names, so names mean the same in both programs all along, and the blocks are lowered in
step. What comes out is alike: statements and notes one by one, and the declarations are even the same, since
identifiers do not keep the case of letters.
-/
namespace VbSharp

open List CSharp.Stmt

variable {others vars : List Variable} {t u : Token}

variable {L : Likeness}

variable (site : Site)

/-! ### Blocks without a line -/

mutual

/-- Whether `Option Explicit` stands in a class; the flag says that the block itself does. -/
def Block.optionInClass (inClass : Bool) : Block → Bool
  | .optionExplicit => inClass
  | .classDefinition _ body => Block.listOptionInClass true body
  | .routine _ body => Block.listOptionInClass false body
  | .branch _ body rest => Block.listOptionInClass inClass body || rest.optionInClass inClass
  | _ => false

def Block.listOptionInClass (inClass : Bool) : List Block → Bool
  | [] => false
  | b :: rest => b.optionInClass inClass || Block.listOptionInClass inClass rest

def Alternative.optionInClass (inClass : Bool) : Alternative → Bool
  | .none => false
  | .elseIf _ body rest => Block.listOptionInClass inClass body || rest.optionInClass inClass
  | .otherwise body => Block.listOptionInClass inClass body

end

/-- If `Option Explicit` is found in a class, both scripts start on the same line or the likeness says so. -/
def Likeness.Allows (L : Likeness) (found : Bool) : Prop :=
  found = true → L.shift = 0 ∨ L.optionInClass

theorem Likeness.Allows.left {x y : Bool} (allowed : L.Allows (x || y)) : L.Allows x :=
  fun found => allowed (by rw [found, Bool.true_or])

theorem Likeness.Allows.right {x y : Bool} (allowed : L.Allows (x || y)) : L.Allows y :=
  fun found => allowed (by rw [found, Bool.or_true])

/-! ### Declared names -/

namespace Declared

theorem ofVariables_alike (kind : DeclarationKind) (declared : Forall₂ (Variable.Alike L) vars others) :
    ofVariables kind vars = ofVariables kind others := by
  have keys : vars.map (fun v => nameKey v.name.text) = others.map fun v => nameKey v.name.text :=
    forall₂_map_eq declared fun same => same.name.nameKey
  simp only [ofVariables, keys]

theorem ofRoutine_alike {h k : Header} (header : h.Alike L k) : ofRoutine h = ofRoutine k := by
  have passed : h.parameters.map (·.passing.isByRef) = k.parameters.map (·.passing.isByRef) :=
    forall₂_map_eq header.parameters fun same => by rw [same.passing]
  simp only [ofRoutine, header.kind, header.name.nameKey, passed]

mutual

theorem ofBlock_alike : ∀ {b c : Block}, b.Alike L c → ofBlock b = ofBlock c
  | _, _, .blankLine | _, _, .comment _ _ _ | _, _, .optionExplicit | _, _, .call _ | _, _, .assignment _ _
  | _, _, .exit _ | _, _, .randomize _ _ | _, _, .onError _ => rfl
  | _, _, .declaration declared _ => ofVariables_alike _ declared
  | _, _, .routine header _ => ofRoutine_alike header
  | .classDefinition _ _, _, .classDefinition name _ _ => by
    simp only [ofBlock, name.nameKey]
  | .branch _ _ _, _, .branch _ bodies others => by
    simp only [ofBlock, ofBlocks_alike bodies, ofAlternative_alike others]
  | .doLoop _ _ _, _, .doLoop _ bodies _ => ofBlocks_alike bodies
  | .whileLoop _ _ _, _, .whileLoop _ bodies _ => ofBlocks_alike bodies
  | .forLoop _ _ _ _ _, _, .forLoop _ _ _ _ bodies => ofBlocks_alike bodies
  | .forEach _ _ _, _, .forEach _ _ bodies => ofBlocks_alike bodies
  | .withTarget _ _ _, _, .withTarget _ bodies _ => ofBlocks_alike bodies
  | .select _ _ _, _, .select _ listed _ => ofCases_alike listed

theorem ofBlocks_alike : ∀ {bs cs : List Block}, Forall₂ (Block.Alike L) bs cs → ofBlocks bs = ofBlocks cs
  | [], _, .nil => rfl
  | _ :: _, _, .cons first later => by
    simp only [ofBlocks, ofBlock_alike first, ofBlocks_alike later]

theorem ofAlternative_alike : ∀ {x y : Alternative}, x.Alike L y → ofAlternative x = ofAlternative y
  | _, _, .none => rfl
  | .elseIf _ _ _, _, .elseIf _ bodies others => by
    simp only [ofAlternative, ofBlocks_alike bodies, ofAlternative_alike others]
  | .otherwise _, _, .otherwise bodies => ofBlocks_alike bodies

theorem ofCases_alike : ∀ {x y : Cases}, x.Alike L y → ofCases x = ofCases y
  | _, _, .none => rfl
  | .case _ _ _, _, .case _ bodies later => by
    simp only [ofCases, ofBlocks_alike bodies, ofCases_alike later]

end

end Declared

namespace Scope

variable {body other : List Block} (s : Scope)

theorem ofRoutine_alike {h k : Header} (header : h.Alike L k) (bodies : Forall₂ (Block.Alike L) body other)
    (result : Option String) : s.ofRoutine h body result = s.ofRoutine k other result := by
  have keys : h.parameters.map (fun p => nameKey p.name.text) = k.parameters.map fun p => nameKey p.name.text :=
    forall₂_map_eq header.parameters fun same => same.name.nameKey
  simp only [ofRoutine, Declared.ofBlocks_alike bodies, keys, header.name.nameKey]

end Scope

namespace Lower

open CSharp (Term Simple Head Stmt Declaration)

variable {α β : Type} {R : α → β → Prop}

/-- The computations lower alike things in step. What has been reported does not count. -/
abbrev Lowering.Alike (L : Likeness) (R : α → β → Prop) (c : Lowering α) (d : Lowering β) : Prop :=
  L.InStep (fun p q : Progress => p.issued = q.issued) R c d

/-- What alike blocks become. -/
structure Emission.Alike (L : Likeness) (a b : Emission) : Prop where
  stmts : Forall₂ (Stmt.Alike L) a.stmts b.stmts
  declared : a.declared = b.declared
  notes : Forall₂ (Note.Alike L) a.notes b.notes
  methods : Forall₂ (Forall₂ (Stmt.Alike L)) a.methods b.methods
  classes : Forall₂ (Stmt.Alike L) a.classes b.classes

namespace Emission

variable {a b c d : Emission}

theorem alike_empty : Alike L {} {} :=
  ⟨.nil, rfl, .nil, .nil, .nil⟩

theorem alike_stmts {stmts others : List Stmt} (alike : Forall₂ (Stmt.Alike L) stmts others) :
    Alike L { stmts := stmts } { stmts := others } :=
  ⟨alike, rfl, .nil, .nil, .nil⟩

theorem alike_notes {notes others : List Note} (alike : Forall₂ (Note.Alike L) notes others) :
    Alike L { notes := notes } { notes := others } :=
  ⟨.nil, rfl, alike, .nil, .nil⟩

theorem Alike.withStmts {stmts others : List Stmt} (first : a.Alike L b)
    (alike : Forall₂ (Stmt.Alike L) stmts others) : Alike L { a with stmts := stmts } { b with stmts := others } :=
  ⟨alike, first.declared, first.notes, first.methods, first.classes⟩

theorem Alike.append (first : a.Alike L b) (second : c.Alike L d) : (a ++ c).Alike L (b ++ d) where
  stmts := rel_append first.stmts second.stmts
  declared := by
    change a.declared ++ c.declared = b.declared ++ d.declared
    rw [first.declared, second.declared]
  notes := rel_append first.notes second.notes
  methods := rel_append first.methods second.methods
  classes := rel_append first.classes second.classes

end Emission

theorem alike_report (e f : Event) : Lowering.Alike L (fun _ _ => True) (report e) (report f) :=
  fun _ _ issued => .ok trivial issued

theorem alike_reports {as : List α} {bs : List β} (f : α → Event) (g : β → Event) :
    Lowering.Alike L (fun _ _ => True) (as.forM fun a => report (f a)) (bs.forM fun b => report (g b)) := by
  intro p q issued
  rw [forM_report, forM_report]
  exact .ok trivial issued

theorem alike_freshResult : Lowering.Alike L Eq freshResult freshResult := by
  intro p q issued
  refine .ok ?_ ?_
  · exact congrArg (fun n => resultName (n + 1)) issued
  · exact congrArg (· + 1) issued

theorem alike_noting {x : Noting α} {y : Noting β} (alike : Noting.Alike L R x y) :
    Lowering.Alike L (fun p q => R p.1 q.1 ∧ Forall₂ (Note.Alike L) p.2 q.2) (noting x) (noting y) := by
  cases alike with
  | ok both => exact .done both
  | error alike => exact .failed alike

theorem alike_single {x y : Noting Simple} (alike : Noting.Alike L (Simple.Alike L) x y) :
    Lowering.Alike L (Emission.Alike L) (single x) (single y) :=
  (alike_noting alike).bind fun both =>
    .done ⟨.cons (alike_ofSimple both.1) .nil, rfl, both.2, .nil, .nil⟩

/-! ### Declarations -/

variable {ctx : Context} {scope : Scope} {m n : Nat}

theorem visibility_alike (ctx : Context) (kind : FrameKind) (declaration : DeclarationKind) (lines : n = m + L.shift) :
    L.Results Eq (visibility ctx kind declaration m) (visibility ctx kind declaration n) := by
  unfold visibility
  split
  · exact .ok rfl
  · exact .error (.malformed (by omega) rfl)
  · exact .ok rfl
  · exact .ok rfl
  · exact .ok rfl

theorem declaredVariable_alike (isReDim : Bool) (alike : t.Alike L u) :
    declaredVariable scope isReDim t = declaredVariable scope isReDim u := by
  have here : scope.declaresLocally t = scope.declaresLocally u := by
    simp only [Scope.declaresLocally, alike.nameKey]
  unfold declaredVariable
  rw [scope.resolve_alike alike, alike.identifier, here]

theorem sizeArray_alike {site : Site} (target : CSharp.Reference) (preserve : Bool) {es fs : List Expr}
    (bounds : Forall₂ (Expr.Alike L) es fs) :
    Noting.Alike L (Simple.Alike L) (sizeArray site target preserve es) (sizeArray site target preserve fs) := by
  refine (plainArguments_alike (arguments_alike site bounds)).bind fun terms => ?_
  cases preserve with
  | false => exact Noting.alike_pure (.assign (.same _) (.support (.cons (.objects terms) .nil)))
  | true => exact Noting.alike_pure (.assign (.same _) (.support (.cons (.same _) (.cons (.objects terms) .nil))))

theorem variableEmission_alike (kind : DeclarationKind) (visibility : CSharp.Visibility) {v w : Variable}
    (alike : v.Alike L w) : Lowering.Alike L (Emission.Alike L) (variableEmission ctx scope kind visibility v)
      (variableEmission ctx scope kind visibility w) := by
  obtain ⟨name, bounds⟩ := alike
  unfold variableEmission
  rw [declaredVariable_alike kind.isReDim name]
  generalize v.bounds = one at bounds ⊢
  generalize w.bounds = other at bounds ⊢
  cases bounds with
  | none => exact .done ⟨.nil, rfl, .nil, .nil, .nil⟩
  | some bounds =>
    cases bounds with
    | nil => exact .done ⟨.nil, rfl, .nil, .nil, .nil⟩
    | cons first later =>
      refine .check (.reported (.unsupported · .sizedField) name.lineNumber) ?_
      refine (alike_single (sizeArray_alike _ _ (.cons first later))).bind fun out => ?_
      exact .done ⟨out.stmts, rfl, out.notes, out.methods, out.classes⟩

theorem variableEmissions_alike (kind : DeclarationKind) (visibility : CSharp.Visibility)
    (alike : Forall₂ (Variable.Alike L) vars others) :
    Lowering.Alike L (Emission.Alike L) (variableEmissions ctx scope kind visibility vars)
      (variableEmissions ctx scope kind visibility others) := by
  induction alike with
  | nil => exact .done Emission.alike_empty
  | cons same _ ih =>
    exact (variableEmission_alike kind visibility same).bind fun out => ih.bind fun more => .done (out.append more)

theorem declaration_alike (kind : DeclarationKind) (alike : Forall₂ (Variable.Alike L) vars others)
    (lines : n = m + L.shift) :
    Lowering.Alike L (Emission.Alike L) (declaration ctx scope kind vars m) (declaration ctx scope kind others n) := by
  have seen := visibility_alike ctx scope.kind kind lines
  unfold declaration
  generalize Lower.visibility ctx scope.kind kind m = one at seen ⊢
  generalize Lower.visibility ctx scope.kind kind n = other at seen ⊢
  cases seen with
  | error alike => exact .failed alike
  | ok same =>
    subst same
    exact variableEmissions_alike kind _ alike

/-! ### Routines and classes -/

variable {h k : Header} {body other : List Block}

theorem signature_alike (header : h.Alike L k) (kind : FrameKind) (asMethod : Bool) :
    signature h kind asMethod = signature k kind asMethod := by
  have passed : h.parameters.map (fun p => (p.passing.isByRef, identifier p.name.text)) =
      k.parameters.map fun p => (p.passing.isByRef, identifier p.name.text) :=
    forall₂_map_eq header.parameters fun same => by rw [same.passing, same.name.identifier]
  simp only [signature, methodName, header.kind, header.isPublic, header.name.identifier, passed]

theorem attributes_alike (header : h.Alike L k) : Forall₂ (Stmt.Alike L) (attributes h) (attributes k) := by
  unfold attributes
  rw [header.kind, header.isDefault]
  refine rel_append ?_ (alike_refls _)
  split
  · exact .cons (alike_ofSimple (.propertyAttribute header.name.text)) .nil
  · exact .nil

theorem methodBody_alike (result : Option String) (declared : List Declaration) {stmts others : List Stmt}
    (alike : Forall₂ (Stmt.Alike L) stmts others) :
    Forall₂ (Stmt.Alike L) (methodBody result declared stmts) (methodBody result declared others) := by
  unfold methodBody
  rw [forall₂_isEmpty alike]
  exact rel_append (rel_append (alike_refls _) alike) (alike_refls _)

theorem hasIndexedProperty_alike (bodies : Forall₂ (Block.Alike L) body other) :
    hasIndexedProperty body = hasIndexedProperty other := by
  refine forall₂_any bodies fun {b c} same => ?_
  cases same with
  | routine header _ =>
    simp only [header.kind, header.isPublic, forall₂_isEmpty header.parameters, header.parameters.length_eq]
  | _ => rfl

theorem hasInitializer_alike (bodies : Forall₂ (Block.Alike L) body other) :
    hasInitializer body = hasInitializer other := by
  refine forall₂_any bodies fun {b c} same => ?_
  cases same with
  | routine header _ => simp only [header.kind, header.name.nameKey]
  | _ => rfl

theorem classStmt_alike {members others : Emission} (name : t.Alike L u)
    (bodies : Forall₂ (Block.Alike L) body other) (alike : members.Alike L others) :
    (classStmt t body members).Alike L (classStmt u other others) := by
  unfold classStmt
  rw [name.identifier, alike.declared, hasIndexedProperty_alike bodies, hasInitializer_alike bodies,
    forall₂_all alike.stmts isBlank_alike]
  refine alike_ofBlock (.same _) (rel_append (alike_refls _) ?_)
  split
  · exact .nil
  · exact .cons .blank (trim_alike alike.stmts)

theorem addRemark?_alike {a b : String} {stmts others : List Stmt} (looks : L.text a = L.text b)
    (alike : Forall₂ (Stmt.Alike L) stmts others) :
    Option.Rel (Forall₂ (Stmt.Alike L)) (addRemark? a stmts) (addRemark? b others) := by
  have reversed := rel_reverse alike
  unfold addRemark?
  generalize stmts.reverse = one at reversed ⊢
  generalize others.reverse = other at reversed ⊢
  cases reversed with
  | nil => exact .none
  | @cons last final before _ same earlier =>
    have remarked := Stmt.addRemark?_alike same looks
    simp only
    generalize last.addRemark? a = one at remarked ⊢
    generalize final.addRemark? b = other at remarked ⊢
    cases remarked with
    | none => exact .none
    | some made => exact .some (rel_append (rel_reverse earlier) (.cons made .nil))

/-! ### Blocks -/

/-- Whether it is not known on which line the block stands. -/
def isLineless : Block → Bool
  | .blankLine | .comment _ _ | .optionExplicit => true
  | _ => false

/-- A block that has no place in a class is reported on its first line, if it is known. -/
theorem stray_alike {b c : Block} (alike : b.Alike L c) (placed : isLineless b = false) :
    Fault.Alike L (.malformed (firstLineNumber b) .strayInClass) (.malformed (firstLineNumber c) .strayInClass) := by
  cases alike with
  | blankLine | comment | optionExplicit => cases placed
  | classDefinition token _ _ | forLoop token _ _ _ _ | forEach token _ _ => exact .malformed token.lineNumber rfl
  | routine header _ => exact .malformed header.name.lineNumber rfl
  | branch expression _ _ | call expression | assignment expression _ =>
    have lines := expression.line
    exact .malformed (by simp only [firstLineNumber]; omega) rfl
  | declaration _ lines | exit lines | randomize _ lines | doLoop _ _ lines | whileLoop _ _ lines | select _ _ lines
  | onError lines | withTarget _ _ lines =>
    exact .malformed (by simp only [firstLineNumber]; omega) rfl

/-- `Option Explicit` in a class is reported on the first line, wherever it stands. -/
theorem option_alike (allowed : L.shift = 0 ∨ L.optionInClass) :
    Fault.Alike L (.malformed 1 .strayInClass) (.malformed 1 .strayInClass) := by
  rcases allowed with level | known
  · exact .malformed (by omega) rfl
  · exact .optionInClass known

theorem exit_alike (scope : Scope) (kind : ExitKind) (lines : n = m + L.shift) :
    L.Results Eq (exit scope kind m) (exit scope kind n) := by
  unfold exit
  split
  · exact .error (.reported (.unsupported · .exitDo) (by omega))
  · exact .error (.reported (.unsupported · .exitFor) (by omega))
  · split
    · exact .ok rfl
    · exact .error (.malformed (by omega) rfl)

theorem condition_alike {e f : Expr} (alike : e.Alike L f) :
    Noting.Alike L (Term.Alike L) (condition site e) (condition site f) :=
  (expression_alike site alike).bind fun term => Noting.alike_pure (.support (.cons term .nil))

theorem randomize_alike {seed other : Option Expr} (seeds : Option.Rel (Expr.Alike L) seed other) :
    Noting.Alike L (Simple.Alike L) (randomize site seed) (randomize site other) := by
  cases seeds with
  | none => exact Noting.alike_pure (.same _)
  | some seed =>
    exact (expression_alike site seed).bind fun term =>
      Noting.alike_pure (.expression (.support (.cons term .nil)))

theorem alike_checks {p q r : Prop} [Decidable p] [Decidable q] [Decidable r] {f g first second : Fault}
    {next : PUnit → Lowering α} {last : PUnit → Lowering β} (firsts : f.Alike L first) (seconds : g.Alike L second)
    (passed : Lowering.Alike L R (next ()) (last ())) :
    Lowering.Alike L R
      (if p then (if q then throw f >>= next else next ()) else (if r then throw g >>= next else next ()))
      (if p then (if q then throw first >>= last else last ()) else (if r then throw second >>= last else last ())) := by
  split
  · exact .check firsts passed
  · exact .check seconds passed

theorem alike_optionalResult {wanted : Bool} {next : Option String → Lowering α} {last : Option String → Lowering β}
    (rest : ∀ result, Lowering.Alike L R (next result) (last result)) :
    Lowering.Alike L R (if wanted = true then some <$> freshResult >>= next else pure none >>= next)
      (if wanted = true then some <$> freshResult >>= last else pure none >>= last) := by
  split
  · rw [map_eq_pure_bind, bind_assoc, bind_assoc]
    refine alike_freshResult.bind fun {a b} same => ?_
    subst same
    exact rest (some a)
  · exact rest none

theorem routineStmts_alike (ctx : Context) (scope : Scope) (header : h.Alike L k) (result : Option String) {inner other : Emission}
    (alike : inner.Alike L other) :
    Forall₂ (Stmt.Alike L) (routineStmts ctx scope h result inner) (routineStmts ctx scope k result other) := by
  unfold routineStmts
  rw [signature_alike header, alike.declared]
  refine rel_append ?_ (.cons (alike_ofBlock (.same _) (methodBody_alike _ _ alike.stmts)) .nil)
  split
  · exact attributes_alike header
  · exact .nil

mutual

theorem block_alike (ctx : Context) (scope : Scope) : ∀ {b c : Block}, b.Alike L c →
    L.Allows (b.optionInClass (scope.kind == .classBody)) →
    Lowering.Alike L (Emission.Alike L) (block ctx scope b) (block ctx scope c)
  | _, _, .blankLine, _ => by
    -- a blank line and a comment may stand anywhere, so neither is ever reported
    simp only [block, isMember, Bool.not_true, Bool.and_false, Bool.false_eq_true, if_false]
    exact .done (Emission.alike_stmts (.cons .blank .nil))
  | _, _, .comment _ _ looks, _ => by
    simp only [block, isMember, Bool.not_true, Bool.and_false, Bool.false_eq_true, if_false]
    exact .done (Emission.alike_stmts (.cons (alike_ofSimple (.comment looks)) .nil))
  | _, _, .optionExplicit, allowed => by
    rw [block]
    cases inClass : scope.kind == .classBody with
    | false =>
      exact .done Emission.alike_empty
    | true => exact .check (option_alike (allowed inClass)) (.done Emission.alike_empty)
  | _, _, .declaration declared lines, _ => by
    exact .check (stray_alike (.declaration declared lines) rfl) (declaration_alike _ declared lines)
  | .classDefinition _ _, _, .classDefinition name bodies checked, allowed => by
    rw [block, block, Scope.ofClass, Scope.ofClass, Declared.ofBlocks_alike bodies]
    refine .check (stray_alike (.classDefinition name bodies checked) rfl) (.check (.malformed name.lineNumber rfl) ?_)
    refine (blocks_alike ctx (scope.ofClass _) bodies .nil allowed).bind fun members => .done ?_
    exact ⟨.nil, rfl, members.notes, members.methods,
      rel_append members.classes (.cons (classStmt_alike name bodies members) .nil)⟩
  | .routine _ _, _, .routine header bodies, allowed => by
    rw [block, block, header.kind]
    refine .check (stray_alike (.routine header bodies) rfl) ?_
    refine alike_checks (.reported (.unsupported · .propertyOutsideClass) header.name.lineNumber)
      (.malformed header.name.lineNumber rfl) (alike_optionalResult fun result => ?_)
    simp only [scope.ofRoutine_alike header bodies]
    refine (blocks_alike ctx (scope.ofRoutine _ _ _) bodies .nil allowed).bind fun inner => (alike_report _ _).bind fun _ => ?_
    have stmts := routineStmts_alike ctx scope header result inner
    split
    · exact .done ⟨.nil, rfl, inner.notes, rel_append inner.methods (.cons stmts .nil), inner.classes⟩
    · exact .done ⟨stmts, rfl, inner.notes, inner.methods, inner.classes⟩
  | .branch _ _ _, _, .branch test bodies others, allowed => by
    refine .check (stray_alike (.branch test bodies others) rfl) ?_
    refine (alike_noting (condition_alike _ test)).bind fun {x y} tested => ?_
    refine (blocks_alike ctx scope bodies .nil allowed.left).bind fun inner => ?_
    refine (alternative_alike ctx scope others allowed.right).bind fun more => .done ?_
    refine ((Emission.alike_notes tested.2).append (inner.withStmts ?_)).append more
    exact .cons (alike_ofBlock (.branch tested.1) inner.stmts) .nil
  | _, _, .call expression, _ => by
    exact .check (stray_alike (.call expression) rfl) (alike_single (callStatement_alike _ expression))
  | _, _, .assignment targets values, _ => by
    exact .check (stray_alike (.assignment targets values) rfl) (alike_single (assignment_alike _ _ targets values))
  | .exit kind m, .exit _ n, .exit lines, _ => by
    refine .check (stray_alike (.exit lines) rfl) ?_
    have left := exit_alike scope kind lines
    generalize exit scope kind m = one at left ⊢
    generalize exit scope kind n = other at left ⊢
    cases left with
    | error alike => exact .failed alike
    | ok same =>
      subst same
      exact .done (Emission.alike_stmts (alike_refls _))
  | _, _, .randomize seeds lines, _ => by
    exact .check (stray_alike (.randomize seeds lines) rfl) (alike_single (randomize_alike _ seeds))
  | _, _, .doLoop tests bodies lines, _ => by
    exact .check (stray_alike (.doLoop tests bodies lines) rfl)
      (.failed (by cases tests <;> exact .reported (.unsupported · _) (by omega)))
  | _, _, .whileLoop test bodies lines, _ => by
    exact .check (stray_alike (.whileLoop test bodies lines) rfl) (.failed (.reported (.unsupported · .whileLoop) (by omega)))
  | _, _, .forLoop counter starts limits steps bodies, _ => by
    exact .check (stray_alike (.forLoop counter starts limits steps bodies) rfl)
      (.failed (.reported (.unsupported · .forLoop) counter.lineNumber))
  | _, _, .forEach item collection bodies, _ => by
    exact .check (stray_alike (.forEach item collection bodies) rfl)
      (.failed (.reported (.unsupported · .forEachLoop) item.lineNumber))
  | _, _, .select subject listed lines, _ => by
    exact .check (stray_alike (.select subject listed lines) rfl)
      (.failed (.reported (.unsupported · .selectCase) (by omega)))
  | _, _, .onError lines, _ => by
    exact .check (stray_alike (.onError lines) rfl) (.failed (.reported (.unsupported · .onError) (by omega)))
  | _, _, .withTarget target bodies lines, _ => by
    exact .check (stray_alike (.withTarget target bodies lines) rfl)
      (.failed (.reported (.unsupported · .withBlock) (by omega)))

/-- Alike blocks are lowered alike, behind statements that are alike. -/
theorem blocks_alike (ctx : Context) (scope : Scope) : ∀ {bs cs : List Block} {pending others : List Stmt},
    Forall₂ (Block.Alike L) bs cs → Forall₂ (Stmt.Alike L) pending others →
    L.Allows (Block.listOptionInClass (scope.kind == .classBody) bs) →
    Lowering.Alike L (Emission.Alike L) (blocks ctx scope pending bs) (blocks ctx scope others cs)
  | [], _, _, _, .nil, waiting, _ => by
    exact .done (Emission.alike_stmts waiting)
  | b :: rest, c :: more, pending, others, .cons first later, waiting, allowed => by
    have made := block_alike ctx scope first allowed.left
    have goOn {stmts written : List Stmt} (alike : Forall₂ (Stmt.Alike L) stmts written) :=
      blocks_alike ctx scope later alike allowed.right
    have standsAlone : Lowering.Alike L (Emission.Alike L)
        (do let out ← block ctx scope b; let more ← blocks ctx scope out.stmts rest; return { out with stmts := pending } ++ more)
        (do let out ← block ctx scope c; let more ← blocks ctx scope out.stmts more; return { out with stmts := others } ++ more) :=
      made.bind fun out => (goOn out.stmts).bind fun last => .done ((out.withStmts waiting).append last)
    cases first with
    | @comment t u inline _ _ looks =>
      cases inline with
      | false =>
        exact standsAlone
      | true =>
        have remarked := addRemark?_alike looks waiting
        rw [blocks, blocks]
        generalize addRemark? t.text pending = one at remarked ⊢
        generalize addRemark? u.text others = other at remarked ⊢
        cases remarked with
        | some stmts => exact (goOn .nil).bind fun last => .done ((Emission.alike_stmts stmts).append last)
        | none =>
          refine (goOn (.cons (alike_ofSimple (.comment looks)) .nil)).bind fun last => .done ?_
          exact (Emission.alike_stmts waiting).append last
    | _ =>
      exact standsAlone

theorem alternative_alike (ctx : Context) (scope : Scope) : ∀ {x y : Alternative}, x.Alike L y →
    L.Allows (x.optionInClass (scope.kind == .classBody)) →
    Lowering.Alike L (Emission.Alike L) (alternative ctx scope x) (alternative ctx scope y)
  | _, _, .none, _ => by
    exact .done Emission.alike_empty
  | .elseIf _ _ _, _, .elseIf test bodies others, allowed => by
    refine (alike_noting (condition_alike _ test)).bind fun {x y} tested => ?_
    refine (blocks_alike ctx scope bodies .nil allowed.left).bind fun inner => ?_
    refine (alternative_alike ctx scope others allowed.right).bind fun more => .done ?_
    refine ((Emission.alike_notes tested.2).append (inner.withStmts ?_)).append more
    exact .cons (alike_ofBlock (.elseBranch tested.1) inner.stmts) .nil
  | .otherwise _, _, .otherwise bodies, allowed => by
    refine (blocks_alike ctx scope bodies .nil allowed).bind fun inner => .done (inner.withStmts ?_)
    exact .cons (alike_ofBlock (.same _) inner.stmts) .nil

end

end Lower
end VbSharp
