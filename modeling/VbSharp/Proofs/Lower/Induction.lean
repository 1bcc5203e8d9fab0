import VbSharp.Proofs.Lower.Following

/-!
# Induction over what frames hold

A property of what blocks become is proved for every kind of block, and for two emissions put together. That
it then holds for all blocks of a frame follows from following the blocks, whatever the property looks at.
-/
namespace VbSharp.Lower

open CSharp (Stmt Head)

/-- A property `P` of what is seen of emissions. It holds for every kind of block if it holds for the blocks
inside, and it holds for two emissions put together if it holds for each. What is seen does not change when a
statement gets a remark. -/
structure Inherited (ctx : Context) {V : Type} [Append V] (view : Emission → V)
    (P : Scope → Contents → V → Prop) : Prop where
  view_append : ∀ a b, view (a ++ b) = view a ++ view b
  view_remark : ∀ {text stmts remarked}, addRemark? text stmts = some remarked →
    view { stmts := remarked } = view { stmts := stmts }
  append : ∀ {scope c d f g}, P scope c f → P scope d g → P scope (c ++ d) (f ++ g)
  empty : ∀ scope, P scope {} (view {})
  blank : ∀ scope, P scope {} (view { stmts := [.blank] })
  comment : ∀ scope text, P scope {} (view { stmts := [.ofSimple (.comment text)] })
  leave : ∀ scope, scope.kind = .routine →
    P scope {} (view { stmts := [.ofSimple (.leave (scope.result?.map Prod.snd))] })
  call : ∀ {scope e content notes}, callStatement (ctx.site scope) e = Except.ok (content, notes) →
    P scope { uses := Expr.uses e } (view { stmts := [.ofSimple content], notes := notes })
  assignment : ∀ {scope kind target value content notes},
    assignment (ctx.site scope) kind target value = Except.ok (content, notes) →
    P scope (.ofBlock (.assignment kind target value)) (view { stmts := [.ofSimple content], notes := notes })
  randomize : ∀ {scope seed line content notes}, randomize (ctx.site scope) seed = Except.ok (content, notes) →
    P scope (.ofBlock (.randomize seed line)) (view { stmts := [.ofSimple content], notes := notes })
  variableEmission : ∀ {scope kind visibility v out}, Ends (variableEmission ctx scope kind visibility v) out →
    P scope { uses := v.uses kind.isReDim, declared := [(kind.isReDim, v.name)] } (view out)
  routine : ∀ {scope header body result inner}, RoutineEnds ctx scope header body result inner →
    P (scope.ofRoutine header body result) (.ofBlocks body) (view inner) →
    P scope (.ofBlock (.routine header body)) (view (routineEmission ctx scope header result inner))
  classDefinition : ∀ {scope name body members}, scope.kind = .program →
    Ends (blocks ctx (scope.ofClass body) [] body) members → P (scope.ofClass body) (.ofBlocks body) (view members) →
    P scope (.ofBlock (.classDefinition name body))
      (view { notes := members.notes, methods := members.methods,
              classes := members.classes ++ [classStmt name body members] })
  clause : ∀ {scope test term notes head c inner}, condition (ctx.site scope) test = Except.ok (term, notes) →
    head = .branch term ∨ head = .elseBranch term → P scope c (view inner) → P scope ({ uses := Expr.uses test } ++ c)
      (view ({ notes := notes } ++ { inner with stmts := [.ofBlock head inner.stmts] }))
  otherwise : ∀ {scope c inner}, P scope c (view inner) →
    P scope c (view { inner with stmts := [.ofBlock .otherwise inner.stmts] })

namespace Inherited

variable {ctx : Context} {V : Type} [Append V] {view : Emission → V} {P : Scope → Contents → V → Prop}
  {scope : Scope} {out : Emission}

omit [Append V] in
theorem of_block {b : Block} (held : P scope (.ofBlock b) (view out)) : P scope (.ofBlocks [b]) (view out) := by
  rw [Contents.ofBlocks_singleton]
  exact held

variable (inherited : Inherited ctx view P)
include inherited

theorem withOthers {c d : Contents} {notes : List Note} {head : Head} {inner others : Emission}
    (first : P scope c (view ({ notes := notes } ++ { inner with stmts := [.ofBlock head inner.stmts] })))
    (second : P scope d (view others)) : P scope (c ++ d) (view (clauseEmission notes head inner others)) := by
  rw [clauseEmission, inherited.view_append]
  exact inherited.append first second

theorem declaration {kind : DeclarationKind} {vars : List Variable} {line : Nat} {visibility : CSharp.Visibility}
    (ends : Ends (variableEmissions ctx scope kind visibility vars) out) :
    P scope (.ofBlock (.declaration kind vars line)) (view out) := by
  refine ends.of_variableEmissions (motive := fun vars out => P scope (.ofBlock (.declaration kind vars line)) (view out))
    (inherited.empty scope) fun first rest => ?_
  rw [inherited.view_append]
  exact inherited.append (inherited.variableEmission first) rest

theorem followed : Followed ctx
    (fun scope bs out => P scope (.ofBlocks bs) (view out))
    (fun scope rest out => P scope (.ofAlternative rest) (view out)) where
  nil := inherited.empty
  append first second := by
    rw [Contents.ofBlocks_append, inherited.view_append]
    exact inherited.append first second
  remark {_ _ made _ _} held _ added := by
    -- the remark stands in the first part of the emission, and nothing is seen of it
    have split (stmts : List Stmt) : { made with stmts := stmts } = { stmts := stmts } ++ { made with stmts := [] } := by
      simp [Emission.append_def]
    have same := inherited.view_append { stmts := made.stmts } { made with stmts := [] }
    rw [← inherited.view_remark added, ← inherited.view_append, ← split, ← split] at same
    rw [Contents.ofBlocks_append, ← same]
    exact (Contents.append_empty _).symm ▸ held
  blank := inherited.blank
  comment scope text _ := inherited.comment scope text
  optionExplicit := inherited.empty
  declaration _ ends := of_block (inherited.declaration ends)
  call given := of_block (inherited.call given)
  assignment given := of_block (inherited.assignment given)
  randomize given := of_block (inherited.randomize given)
  exit left := by
    obtain ⟨inside, rfl⟩ := exit_ok left
    exact inherited.leave _ inside
  routine made held := of_block (inherited.routine made held)
  classDefinition isProgram ends held := of_block (inherited.classDefinition isProgram ends held)
  branch given inner others := of_block (inherited.withOthers (inherited.clause given (.inl rfl) inner) others)
  none := inherited.empty
  elseIf given inner others := inherited.withOthers (inherited.clause given (.inr rfl) inner) others
  otherwise := inherited.otherwise

theorem ofBlocks {bs : List Block} (ends : Ends (blocks ctx scope [] bs) out) : P scope (.ofBlocks bs) (view out) :=
  inherited.followed.ofBlocks bs scope out ends

end Inherited
end VbSharp.Lower
