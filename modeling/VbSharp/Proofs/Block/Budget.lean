import VbSharp.Proofs.Block.AlikeParsing

/-!
# Enough turns

How blocks are parsed depends on their tokens alone. What has been recognised before does not matter, and neither does
the budget once it has a turn for every token. The two runs that are compared here stand before the same tokens, and
what they make of them is the same.
-/
namespace VbSharp

open List
open VbSharp.Parser

variable {α : Type} {tokens : List Token} {budget : Nat}

variable {R : α → α → Prop}

/-- Nothing is alike but the same. -/
def Likeness.same : Likeness :=
  .lower 0

theorem Fault.Alike.eq {f g : Fault} (alike : f.Alike .same g) : f = g := by
  cases alike with
  | optionInClass found => exact found.elim
  | same looks =>
    rw [Likeness.text_of_view rfl, mapText_id, mapText_id] at looks
    exact f.shift_zero.symm.trans looks

theorem Token.alike_same (t : Token) : t.Alike .same t :=
  ⟨⟨rfl, rfl, rfl⟩, fun _ => rfl, trivial⟩

theorem Token.Alike.eq {t u : Token} (alike : t.Alike .same u) : t = u := by
  obtain ⟨⟨kind, text, line⟩, -, -⟩ := alike
  rw [Likeness.text_of_view rfl] at text
  cases t
  cases u
  rw [Token.mk.injEq]
  exact ⟨kind, text, line.symm⟩

theorem eq_of_forall₂ {as bs : List α} (related : Forall₂ R as bs) (eq : ∀ a ∈ as, ∀ b, R a b → a = b) : as = bs := by
  induction related with
  | nil => rfl
  | cons same _ ih =>
    rw [eq _ mem_cons_self _ same, ih fun a member => eq a (mem_cons_of_mem _ member)]

theorem eq_of_rel {a b : Option α} (related : Option.Rel R a b) (eq : ∀ {a b}, R a b → a = b) : a = b := by
  cases related with
  | none => rfl
  | some same => rw [eq same]

mutual

theorem Segment.Alike.eq : ∀ {s t : Segment}, s.Alike .same t → s = t
  | .call _ _, _, .call _ named given => by
    rw [eq_of_forall₂ named fun _ _ _ => Token.Alike.eq, Expr.list_eq_of_alike given]
  | .value _, _, .value _ alike => by rw [alike.eq]
  | .operator _, _, .operator alike => by rw [alike.eq]
  | .bracketed _, _, .bracketed inner => by rw [Expr.Alike.eq inner]
  | .new _, _, .new alike => by rw [alike.eq]

theorem Expr.Alike.eq : ∀ {e f : List Segment}, Expr.Alike .same e f → e = f
  | _ :: _, _, .mk first later => by rw [Segment.Alike.eq first, Segment.list_eq_of_alike later]

theorem Segment.list_eq_of_alike : ∀ {e f : List Segment}, Forall₂ (Segment.Alike .same) e f → e = f
  | [], _, .nil => rfl
  | _ :: _, _, .cons first later => by rw [Segment.Alike.eq first, Segment.list_eq_of_alike later]

theorem Expr.list_eq_of_alike : ∀ {es fs : List (List Segment)}, Forall₂ (Expr.Alike .same) es fs → es = fs
  | [], _, .nil => rfl
  | _ :: _, _, .cons first later => by rw [Expr.Alike.eq first, Expr.list_eq_of_alike later]

end

theorem Variable.Alike.eq {v w : Variable} (alike : v.Alike .same w) : v = w := by
  obtain ⟨name, bounds⟩ := alike
  cases v
  cases w
  rw [Variable.mk.injEq]
  exact ⟨name.eq, eq_of_rel bounds Expr.list_eq_of_alike⟩

theorem Header.Alike.eq {h k : Header} (alike : h.Alike .same k) : h = k := by
  have parameter {p q : Parameter} (alike : p.Alike .same q) : p = q := by
    obtain ⟨passing, name, isArray⟩ := alike
    cases p
    cases q
    rw [Parameter.mk.injEq]
    exact ⟨passing, name.eq, isArray⟩
  obtain ⟨kind, name, isPublic, isDefault, parameters⟩ := alike
  cases h
  cases k
  rw [Header.mk.injEq]
  exact ⟨kind, name.eq, isPublic, isDefault, eq_of_forall₂ parameters fun _ _ _ => parameter⟩

mutual

theorem Block.Alike.eq : ∀ {b c : Block}, b.Alike .same c → b = c
  | _, _, .blankLine | _, _, .optionExplicit => rfl
  | _, _, .comment _ _ looks => by
    rw [Likeness.text_of_view rfl] at looks
    exact congrArg (Block.comment · _) looks
  | _, _, .declaration declared rfl => by rw [eq_of_forall₂ declared fun _ _ _ => Variable.Alike.eq]; rfl
  | .classDefinition _ _, _, .classDefinition name bodies _ => by rw [name.eq, Block.list_eq_of_alike bodies]
  | .routine _ _, _, .routine header bodies => by rw [header.eq, Block.list_eq_of_alike bodies]
  | .branch _ _ _, _, .branch condition bodies others => by
    rw [condition.eq, Block.list_eq_of_alike bodies, Alternative.Alike.eq others]
  | _, _, .call expression => by rw [expression.eq]
  | _, _, .assignment targets values => by rw [targets.eq, values.eq]
  | _, _, .exit rfl | _, _, .onError rfl => rfl
  | _, _, .randomize seeds rfl => by rw [eq_of_rel seeds Expr.Alike.eq]; rfl
  | .doLoop _ _ _, _, .doLoop tests bodies rfl => by
    rw [Block.list_eq_of_alike bodies]
    cases tests with
    | none => rfl
    | whileBefore alike | untilBefore alike | whileAfter alike | untilAfter alike => rw [alike.eq]; rfl
  | .whileLoop _ _ _, _, .whileLoop condition bodies rfl => by rw [condition.eq, Block.list_eq_of_alike bodies]; rfl
  | .forLoop _ _ _ _ _, _, .forLoop counter starts limits steps bodies => by
    rw [counter.eq, starts.eq, limits.eq, eq_of_rel steps Expr.Alike.eq, Block.list_eq_of_alike bodies]
  | .forEach _ _ _, _, .forEach item collection bodies => by
    rw [item.eq, collection.eq, Block.list_eq_of_alike bodies]
  | .select _ _ _, _, .select subject listed rfl => by rw [subject.eq, Cases.Alike.eq listed]; rfl
  | .withTarget _ _ _, _, .withTarget target bodies rfl => by rw [target.eq, Block.list_eq_of_alike bodies]; rfl

theorem Block.list_eq_of_alike : ∀ {bs cs : List Block}, Forall₂ (Block.Alike .same) bs cs → bs = cs
  | [], _, .nil => rfl
  | _ :: _, _, .cons first later => by rw [Block.Alike.eq first, Block.list_eq_of_alike later]

theorem Alternative.Alike.eq : ∀ {x y : Alternative}, x.Alike .same y → x = y
  | _, _, .none => rfl
  | .elseIf _ _ _, _, .elseIf condition bodies others => by
    rw [condition.eq, Block.list_eq_of_alike bodies, Alternative.Alike.eq others]
  | .otherwise _, _, .otherwise bodies => by rw [Block.list_eq_of_alike bodies]

theorem Cases.Alike.eq : ∀ {x y : Cases}, x.Alike .same y → x = y
  | _, _, .none => rfl
  | .case _ _ _, _, .case listed bodies later => by
    rw [Expr.list_eq_of_alike listed, Block.list_eq_of_alike bodies, Cases.Alike.eq later]

end

/-- A run over the tokens of a program makes the blocks of that program. -/
theorem blocksOf_blocksWithin (enough : tokens.length ≤ budget) (log : List Construct) :
    blocksOf (blocksWithin budget [] ⟨.ofTokens tokens, log⟩) = parseBlocks tokens := by
  have same := blocksWithin_alike enough (Nat.le_refl _) (.of_alike (forall₂_same.mpr fun t _ => t.alike_same)) log []
  rw [← parseBlocks_eq] at same
  generalize blocksOf (blocksWithin budget [] ⟨.ofTokens tokens, log⟩) = one at same ⊢
  generalize parseBlocks tokens = other at same ⊢
  cases same with
  | ok blocks => rw [Block.list_eq_of_alike blocks]
  | error alike => rw [alike.eq]

theorem blocksWithin_of_parseBlocks {blocks : List Block} (parsed : parseBlocks tokens = .ok blocks)
    (enough : tokens.length ≤ budget) (log : List Construct) :
    ∃ found r, blocksWithin budget [] ⟨.ofTokens tokens, log⟩ = .ok (blocks, found) r := by
  rw [← blocksOf_blocksWithin enough log] at parsed
  generalize blocksWithin budget [] ⟨.ofTokens tokens, log⟩ = ran at parsed ⊢
  cases ran with
  | error => cases parsed
  | ok answer r =>
    cases parsed
    exact ⟨_, _, rfl⟩

end VbSharp
