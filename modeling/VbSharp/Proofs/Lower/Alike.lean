import VbSharp.Lower.Statement
import VbSharp.Proofs.CSharp.Alike
import VbSharp.Proofs.Expr.Alike
import VbSharp.Proofs.Expr.AlikeTree

/-!
# Lowering alike expressions

A name means the same however its letters are spelled, so alike expressions are lowered in the same way: to terms
that are alike, with alike notes, or with faults that are alike. Dates are the one place where a spelling could change
what happens, and alike expressions spell them the same.
-/
namespace VbSharp

open List
open CSharp (Term Simple)

variable {L : Likeness} {t u : Token}

variable (s : Scope)

variable {a b : Argument} {f e : Expr} {other : Term}

/-! ### Names -/

namespace Scope

theorem lookup_alike (alike : t.Alike L u) : s.lookup t = s.lookup u := by
  funext f
  simp only [lookup, reference, alike.nameKey, alike.identifier]

theorem resolve_alike (alike : t.Alike L u) : s.resolve t = s.resolve u := by
  simp only [resolve, unknown, reference, s.lookup_alike alike, alike.nameKey, alike.identifier]

theorem resolveTarget_alike (alike : t.Alike L u) : s.resolveTarget t = s.resolveTarget u := by
  simp only [resolveTarget, s.resolve_alike alike, alike.nameKey]

end Scope

/-! ### Notes -/

/-- Notes of alike names, or of the same date. -/
inductive Note.Alike (L : Likeness) : Note → Note → Prop where
  | undeclared {t u : Token} (name : t.Alike L u) : Alike L (.undeclared t) (.undeclared u)
  | date (text : String) : Alike L (.date text) (.date text)

namespace Noting

variable {α β γ δ : Type} {R : α → β → Prop} {S : γ → δ → Prop} {x : Noting α} {y : Noting β}

/-- Both come to related results with alike notes, or both fail alike. -/
def Alike (L : Likeness) (R : α → β → Prop) (x : Noting α) (y : Noting β) : Prop :=
  L.Results (fun p q => R p.1 q.1 ∧ Forall₂ (Note.Alike L) p.2 q.2) x y

theorem alike_pure {a : α} {b : β} (related : R a b) : Alike L R (pure a) (pure b) :=
  .ok ⟨related, .nil⟩

theorem alike_fail {f g : Fault} (alike : f.Alike L g) : Alike L R (fail f) (fail g) :=
  .error alike

theorem alike_note {n m : Note} (alike : n.Alike L m) : Alike L (fun _ _ => True) (note n) (note m) :=
  .ok ⟨trivial, .cons alike .nil⟩

theorem alike_lift {x : Except Fault α} {y : Except Fault β} (results : L.Results R x y) :
    Alike L R (lift x) (lift y) := by
  cases results with
  | ok related => exact alike_pure related
  | error alike => exact alike_fail alike

theorem Alike.bind {f : α → Noting γ} {g : β → Noting δ} (first : Alike L R x y)
    (later : ∀ {a b}, R a b → Alike L S (f a) (g b)) : Alike L S (x >>= f) (y >>= g) := by
  change L.Results _ (andThen x f) (andThen y g)
  cases first with
  | error alike => exact .error alike
  | @ok p q both =>
    obtain ⟨related, notes⟩ := both
    have ended := later related
    simp only [andThen]
    generalize f p.1 = one at ended ⊢
    generalize g q.1 = other at ended ⊢
    cases ended with
    | error alike => exact .error alike
    | ok ends => exact .ok ⟨ends.1, rel_append notes ends.2⟩

end Noting

/-- Lowered arguments that are alike. -/
structure Argument.Alike (L : Likeness) (a b : Argument) : Prop where
  plainName : Option.Rel (Token.Alike L) a.plainName b.plainName
  term : Noting.Alike L (Term.Alike L) a.term b.term

structure Step.Alike (L : Likeness) (x y : Step) : Prop where
  name : x.name.Alike L y.name
  arguments : Forall₂ (Argument.Alike L) x.arguments y.arguments

namespace Lower

open Noting (alike_pure alike_fail alike_note alike_lift)

variable {as bs : List Argument} {names others : List Token} {steps more : List Step} (site : Site)

/-! ### Operands -/

theorem literal_alike (isLiteral : t.isLiteral = true) (alike : t.Alike L u) :
    Noting.Alike L (Term.Alike L) (literal site t) (literal site u) := by
  unfold literal
  rw [← alike.kind]
  split
  · exact alike_pure (.string alike.text)
  · exact alike_pure (.number alike.text)
  next date =>
    rw [← alike.date date]
    split
    · exact .error (.same (by simp only [Fault.shift, Fault.mapText, alike.lineNumber]))
    · exact (alike_note (.date t.text)).bind fun _ => alike_pure (.same _)
    · exact alike_pure (.same _)
  · simp only [Likeness.foldCase_eq alike.text]
    split_ifs <;> exact alike_pure (.same _)
  · simp_all [Token.isLiteral]

theorem newInstance_alike (alike : t.Alike L u) : (newInstance site t).Alike L (newInstance site u) := by
  unfold newInstance
  rw [site.scope.resolve_alike alike]
  split
  · exact .same _
  · exact .support (.cons (.string alike.text) .nil)

/-! ### Arguments -/

theorem plainArguments_alike (given : Forall₂ (Argument.Alike L) as bs) :
    Noting.Alike L (Forall₂ (Term.Alike L)) (plainArguments as) (plainArguments bs) := by
  induction given with
  | nil => exact alike_pure .nil
  | cons same _ ih => exact same.term.bind fun term => ih.bind fun terms => alike_pure (.cons term terms)

theorem boundArguments_alike (given : Forall₂ (Argument.Alike L) as bs) :
    Noting.Alike L (Term.Alike L) (boundArguments as) (boundArguments bs) :=
  (plainArguments_alike given).bind fun terms => alike_pure (.support terms)

theorem lateCall_alike {target : Term} (targets : target.Alike L other)
    (members : Forall₂ (Token.Alike L) names others) (given : Forall₂ (Argument.Alike L) as bs) :
    Noting.Alike L (Term.Alike L) (lateCall target names as) (lateCall other others bs) := by
  have texts : Forall₂ (fun a b => L.text a = L.text b) (names.map Token.text) (others.map Token.text) :=
    rel_map (fun _ _ same => same.text) members
  unfold lateCall
  rw [forall₂_isEmpty given]
  split
  · exact alike_pure (.support (.cons targets (.cons (.strings texts) .nil)))
  · refine (boundArguments_alike given).bind fun bound => alike_pure ?_
    exact .support (.cons targets (.cons (.strings texts) (.cons bound .nil)))

theorem variableArgument?_alike (given : a.Alike L b) :
    Noting.Alike L (Option.Rel (Term.Alike L)) (variableArgument? site a) (variableArgument? site b) := by
  have named := given.plainName
  unfold variableArgument?
  generalize a.plainName = one at named ⊢
  generalize b.plainName = other at named ⊢
  cases named with
  | none => exact alike_pure .none
  | some name =>
    simp only [site.scope.resolve_alike name]
    split
    · exact alike_pure (.some (.same _))
    · exact (alike_note (.undeclared name)).bind fun _ => alike_pure (.some (.same _))
    · exact alike_pure .none

theorem routineArgument_alike (given : a.Alike L b) (byRef : Bool) :
    Noting.Alike L (Term.Alike L) (routineArgument site a byRef) (routineArgument site b byRef) := by
  cases byRef with
  | false => exact given.term
  | true =>
    refine (variableArgument?_alike site given).bind fun found => ?_
    cases found with
    | some term => exact alike_pure (.byRef term)
    | none => exact given.term.bind fun term => alike_pure (.byRef (.support (.cons term .nil)))

theorem routineArguments_alike (given : Forall₂ (Argument.Alike L) as bs) (byRefs : List Bool) :
    Noting.Alike L (Forall₂ (Term.Alike L)) (routineArguments site (as.zip byRefs))
      (routineArguments site (bs.zip byRefs)) := by
  induction given generalizing byRefs with
  | nil => exact alike_pure .nil
  | cons same _ ih =>
    cases byRefs with
    | nil => exact alike_pure .nil
    | cons byRef rest =>
      refine (routineArgument_alike site same byRef).bind fun term => ?_
      exact (ih rest).bind fun terms => alike_pure (.cons term terms)

/-! ### Chains -/

theorem routineCall_alike {x y : Step} (alike : x.Alike L y) (target : CSharp.Reference) (byRef : List Bool) :
    Noting.Alike L (Term.Alike L) (routineCall site target byRef x) (routineCall site target byRef y) := by
  unfold routineCall
  rw [alike.arguments.length_eq]
  split
  · refine alike_fail (.malformed alike.name.lineNumber ?_)
    simp only [Problem.mapText, alike.name.text]
  · exact (routineArguments_alike site alike.arguments byRef).bind fun terms => alike_pure (.call terms)

theorem indexed_alike (target : Term) (given : Forall₂ (Argument.Alike L) as bs) :
    Noting.Alike L (Term.Alike L) (indexed target as) (indexed target bs) := by
  unfold indexed
  rw [forall₂_isEmpty given]
  split
  · exact alike_pure (.same target)
  · exact lateCall_alike (.same target) .nil given

theorem chainRoot_alike {x y : Step} (alike : x.Alike L y) :
    Noting.Alike L (Term.Alike L) (chainRoot site x) (chainRoot site y) := by
  obtain ⟨name, given⟩ := alike
  unfold chainRoot
  rw [site.scope.resolve_alike name, forall₂_isEmpty given]
  split
  next target byRef _ => exact routineCall_alike site ⟨name, given⟩ target byRef
  · exact (plainArguments_alike given).bind fun terms => alike_pure (.support terms)
  · exact lateCall_alike (.same _) (.cons name .nil) given
  · split
    · exact alike_pure (.same _)
    · exact alike_fail (.malformed name.lineNumber rfl)
  · exact alike_fail (.malformed name.lineNumber (by simp only [Problem.mapText, name.text]))
  · exact indexed_alike _ given
  · exact indexed_alike _ given
  · exact indexed_alike _ given
  · exact indexed_alike _ given
  · exact indexed_alike _ given
  · exact (alike_note (.undeclared name)).bind fun _ => indexed_alike _ given

theorem chainMembers_alike {target : Term} (targets : target.Alike L other)
    (pending : Forall₂ (Token.Alike L) names others) (alike : Forall₂ (Step.Alike L) steps more) :
    Noting.Alike L (Term.Alike L) (chainMembers target names steps) (chainMembers other others more) := by
  induction alike generalizing target other names others with
  | nil =>
    unfold chainMembers
    rw [forall₂_isEmpty pending]
    split
    · exact alike_pure targets
    · exact lateCall_alike targets pending .nil
  | cons same _ ih =>
    have gathered := rel_append pending (.cons same.name .nil)
    unfold chainMembers
    rw [forall₂_isEmpty same.arguments]
    split
    · exact ih targets gathered
    · exact (lateCall_alike targets gathered same.arguments).bind fun called => ih called .nil

theorem chain_alike (filled : steps ≠ []) (alike : Forall₂ (Step.Alike L) steps more) :
    Noting.Alike L (Term.Alike L) (chain site steps) (chain site more) := by
  cases alike with
  | nil => exact absurd rfl filled
  | cons root members => exact (chainRoot_alike site root).bind fun term => chainMembers_alike term .nil members

theorem stepsOfCall_alike (named : Forall₂ (Token.Alike L) names others) (given : Forall₂ (Argument.Alike L) as bs) :
    Forall₂ (Step.Alike L) (stepsOfCall names as) (stepsOfCall others bs) := by
  induction named with
  | nil => exact .nil
  | cons name later ih =>
    cases later with
    | nil => exact .cons ⟨name, given⟩ .nil
    | cons second last => exact .cons ⟨name, .nil⟩ ih

theorem stepsOfCall_ne_nil (filled : names ≠ []) (as : List Argument) : stepsOfCall names as ≠ [] := by
  obtain ⟨name, rest, rfl⟩ := exists_cons_of_ne_nil filled
  cases rest <;> simp [stepsOfCall]

theorem stepsOf_alike {calls others : List (List Token × List Argument)}
    (alike : Forall₂ (AlikeCalls L (Argument.Alike L)) calls others) :
    Forall₂ (Step.Alike L) (stepsOf calls) (stepsOf others) :=
  rel_flatMap alike fun _ _ same => stepsOfCall_alike same.named same.given

/-! ### Expressions -/

theorem operand_alike {x y : Operand Argument} (alike : x.Alike L (Argument.Alike L) y) :
    Noting.Alike L (Term.Alike L) (operand site x) (operand site y) := by
  cases alike with
  | chain first later =>
    refine chain_alike site ?_ (stepsOf_alike (.cons first later))
    exact append_ne_nil_of_left_ne_nil (stepsOfCall_ne_nil first.filled _) _
  | value literal token => exact literal_alike site literal token
  | bracketed inner => exact inner.term
  | new className => exact alike_pure (newInstance_alike site className)

theorem tree_alike {α : Type} {D : α → α → Prop} {operand : α → Noting Term} {x y : Tree α} (alike : x.Alike L D y)
    (operands : ∀ {a b}, D a b → Noting.Alike L (Term.Alike L) (operand a) (operand b)) :
    Noting.Alike L (Term.Alike L) (tree operand x) (tree operand y) := by
  induction alike with
  | operand related => exact operands related
  | unary _ ih => exact ih.bind fun term => alike_pure (.support (.cons term .nil))
  | binary _ _ left right =>
    exact left.bind fun first => right.bind fun second => alike_pure (.support (.cons first (.cons second .nil)))

theorem assemble_alike {m n : Nat} {pieces others : List (Piece Argument)} (lines : n = m + L.shift)
    (alike : Forall₂ (Piece.Alike L (Argument.Alike L)) pieces others) :
    Noting.Alike L (Term.Alike L) (assemble site m pieces) (assemble site n others) :=
  (alike_lift ((Tree.builds_alike lines (Piece.items_alike alike)).1 .nil)).bind fun tree =>
    tree_alike tree (operand_alike site)

theorem plainName?_alike (alike : e.Alike L f) : Option.Rel (Token.Alike L) (plainName? e) (plainName? f) := by
  cases alike with
  | mk first later =>
    cases first with
    | value | operator | bracketed | new => exact .none
    | call filled named given =>
      cases named with
      | nil => exact absurd rfl filled
      | cons name rest =>
        cases rest with
        | cons => exact .none
        | nil =>
          cases given with
          | cons => exact .none
          | nil =>
            cases later with
            | cons => exact .none
            | nil => exact .some name

mutual

theorem piece_alike : ∀ {s t : Segment}, s.Alike L t → (piece site s).Alike L (Argument.Alike L) (piece site t)
  | .call _ _, _, .call filled named given => .call ⟨filled, named, arguments_alike given⟩
  | .value _, _, .value literal alike => .value literal alike
  | .operator _, _, .operator alike => .operator alike
  | .bracketed _, _, .bracketed inner =>
    .bracketed ⟨plainName?_alike inner, assemble_alike site (Expr.Alike.line inner) (pieces_alike inner.segments)⟩
  | .new _, _, .new alike => .new alike

theorem pieces_alike : ∀ {e f : List Segment}, Forall₂ (Segment.Alike L) e f →
    Forall₂ (Piece.Alike L (Argument.Alike L)) (pieces site e) (pieces site f)
  | [], _, .nil => .nil
  | _ :: _, _, .cons first later => .cons (piece_alike first) (pieces_alike later)

theorem arguments_alike : ∀ {es fs : List (List Segment)}, Forall₂ (Expr.Alike L) es fs →
    Forall₂ (Argument.Alike L) (arguments site es) (arguments site fs)
  | [], _, .nil => .nil
  | _ :: _, _, .cons first later =>
    .cons ⟨plainName?_alike first, assemble_alike site first.line (pieces_alike first.segments)⟩ (arguments_alike later)

end

theorem expression_alike (alike : e.Alike L f) :
    Noting.Alike L (Term.Alike L) (expression site e) (expression site f) :=
  assemble_alike site alike.line (pieces_alike site alike.segments)

/-! ### Calls and assignments -/

theorem chainSteps_alike (alike : Forall₂ (Segment.Alike L) e f) :
    Forall₂ (Step.Alike L) (chainSteps site e) (chainSteps site f) := by
  induction alike with
  | nil => exact .nil
  | cons same _ ih =>
    cases same with
    | call _ named given => exact rel_append (stepsOfCall_alike named (arguments_alike site given)) ih
    | value | operator | bracketed | new => exact ih

theorem chainSteps_ne_nil (alike : e.Alike L f) (isChain : Expr.isChain e = true) : chainSteps site e ≠ [] := by
  cases alike with
  | mk first later =>
    cases first with
    | call filled _ _ => exact append_ne_nil_of_left_ne_nil (stepsOfCall_ne_nil filled _) _
    | value | operator | bracketed | new => cases isChain

theorem isBareValue_alike (alike : Forall₂ (Step.Alike L) steps more) :
    isBareValue site steps = isBareValue site more := by
  cases alike with
  | nil => rfl
  | cons same later =>
    cases later with
    | nil => simp only [isBareValue, forall₂_isEmpty same.arguments, site.scope.resolve_alike same.name]
    | cons => rfl

theorem callStatement_alike (alike : e.Alike L f) :
    Noting.Alike L (Simple.Alike L) (callStatement site e) (callStatement site f) := by
  have steps := chainSteps_alike site alike.segments
  have lines := alike.line
  unfold callStatement
  rw [← alike.isChain]
  split
  · exact alike_fail (.malformed (by omega) rfl)
  next isChain =>
    refine (chain_alike site (chainSteps_ne_nil site alike (by simpa using isChain)) steps).bind fun term => ?_
    rw [isBareValue_alike site steps]
    split
    · exact alike_pure (.expression (.support (.cons term (.cons (.strings .nil) .nil))))
    · exact alike_pure (.expression term)

inductive Target.Alike (L : Likeness) : Target → Target → Prop where
  | name {t u : Term} (alike : t.Alike L u) : Alike L (.name t) (.name u)
  | member {t u : Term} {a b : String} (object : t.Alike L u) (looks : L.text a = L.text b) :
    Alike L (.member t a) (.member u b)

variable {m n : Nat}

theorem rootTarget_alike (alike : t.Alike L u) (lines : n = m + L.shift) :
    Noting.Alike L (Target.Alike L) (rootTarget site t m) (rootTarget site u n) := by
  unfold rootTarget
  rw [site.scope.resolveTarget_alike alike]
  split
  · exact alike_pure (.name (.same _))
  · exact alike_pure (.name (.same _))
  · exact (alike_note (.undeclared alike)).bind fun _ => alike_pure (.name (.same _))
  · exact alike_pure (.member (.same _) alike.text)
  · exact alike_fail (.malformed lines (by simp only [Problem.mapText, alike.text]))

theorem target_alike {x y : Step} (leading : Forall₂ (Step.Alike L) steps more) (last : x.Alike L y)
    (lines : n = m + L.shift) : Noting.Alike L (Target.Alike L) (target site steps x m) (target site more y n) := by
  unfold target
  rw [← forall₂_isEmpty leading]
  split
  · exact rootTarget_alike site last.name lines
  next filled =>
    refine (chain_alike site (by simpa using filled) leading).bind fun object => ?_
    exact alike_pure (.member object last.name.text)

theorem store_alike {x y : Target} {value : Term} (targets : x.Alike L y) (given : Forall₂ (Argument.Alike L) as bs)
    (values : value.Alike L other) : Noting.Alike L (Simple.Alike L) (store x as value) (store y bs other) := by
  unfold store
  rw [forall₂_isEmpty given]
  cases targets with
  | name alike =>
    cases bs.isEmpty with
    | true => exact alike_pure (.assign alike values)
    | false =>
      refine (boundArguments_alike given).bind fun bound => alike_pure (.expression ?_)
      exact .support (.cons values (.cons alike (.cons (.same _) (.cons bound .nil))))
  | member object looks =>
    cases bs.isEmpty with
    | true => exact alike_pure (.expression (.support (.cons values (.cons object (.cons (.string looks) .nil)))))
    | false =>
      refine (boundArguments_alike given).bind fun bound => alike_pure (.expression ?_)
      exact .support (.cons values (.cons object (.cons (.string looks) (.cons bound .nil))))

theorem assignment_alike (kind : AssignKind) {left right target value : Expr} (targets : left.Alike L target)
    (values : right.Alike L value) :
    Noting.Alike L (Simple.Alike L) (assignment site kind left right) (assignment site kind target value) := by
  have steps := rel_reverse (chainSteps_alike site targets.segments)
  have lines := targets.line
  unfold assignment
  rw [targets.isChain]
  split
  · exact alike_fail (.malformed (by omega) rfl)
  · generalize (chainSteps site left).reverse = one at steps ⊢
    generalize (chainSteps site target).reverse = other at steps ⊢
    cases steps with
    | nil => exact alike_fail (.malformed (by omega) rfl)
    | cons last leading =>
      refine (target_alike site (rel_reverse leading) last (by omega)).bind fun target => ?_
      refine (expression_alike site values).bind fun value => ?_
      exact store_alike target last.arguments (.support (.cons value .nil))

end Lower
end VbSharp
