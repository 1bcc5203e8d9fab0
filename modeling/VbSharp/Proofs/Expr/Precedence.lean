import VbSharp.Expr.Tree
import Mathlib.Data.List.Chain

/-!
# Operator precedence, stated on trees

A tree is grouped if its operators bind as their strengths say. Only neighbours along a spine can
compete for an operand. The right spine of a left operand ends just before the operator that takes it,
so what stands there has to bind more tightly, or as tightly and further left. The left spine of a right
operand starts just behind the operator, and ends at an operator before an operand: nothing to the left
can take a part of what that one has taken.

The tree that is built from some items is grouped and has these items in this order, and there is no
other such tree. It is built whenever the items alternate as they should.
-/
namespace VbSharp

open List

variable {α : Type}

variable (t : Tree α) (next : BinaryOp) (line : Nat) (top : Waiting α) (source : List (Item α))

/-- An operator of either kind. -/
inductive AnyOp where
  | unary (op : UnaryOp)
  | binary (op : BinaryOp)
  deriving Repr, DecidableEq

/-- Whether an operator to the left keeps its operand against an operator that comes next. -/
def AnyOp.bindsBefore (next : BinaryOp) : AnyOp → Prop
  | .unary op => next.strength < op.strength
  | .binary op => next.strength ≤ op.strength

namespace Tree

/-- The operators between two operands that are met along left operands. -/
def leftSpine : Tree α → List BinaryOp
  | .binary op _ left _ => op :: left.leftSpine
  | _ => []

/-- The operators that are met along right operands. -/
def rightSpine : Tree α → List AnyOp
  | .operand _ => []
  | .unary op _ inner => .unary op :: inner.rightSpine
  | .binary op _ _ right => .binary op :: right.rightSpine

/-- Whether the operators are those of their tokens and bind as their strengths say. -/
def IsGrouped : Tree α → Prop
  | .operand _ => True
  | .unary op token inner =>
    UnaryOp.ofToken? token = some op ∧ inner.IsGrouped ∧ ∀ b ∈ inner.leftSpine, op.strength ≤ b.strength
  | .binary op token left right =>
    BinaryOp.ofToken? token = some op ∧ left.IsGrouped ∧ right.IsGrouped ∧
      (∀ a ∈ left.rightSpine, a.bindsBefore op) ∧ ∀ b ∈ right.leftSpine, op.strength < b.strength

end Tree

/-- Operators before an operand, and that operand. -/
inductive IsOperandPhrase : List (Item α) → Prop where
  | operand (a : α) : IsOperandPhrase [.operand a]
  | before {token : Token} {items : List (Item α)} (sign : token.text = "-" ∨ token.isWord "Not" = true)
    (rest : IsOperandPhrase items) : IsOperandPhrase (.operator token :: items)

/-- Operands, each perhaps with operators before it, and one operator between each two of them. -/
inductive IsPhrase : List (Item α) → Prop where
  | single {items : List (Item α)} (phrase : IsOperandPhrase items) : IsPhrase items
  | joined {first rest : List (Item α)} {token : Token} {op : BinaryOp} (phrase : IsOperandPhrase first)
    (infixed : BinaryOp.ofToken? token = some op) (others : IsPhrase rest) :
    IsPhrase (first ++ .operator token :: rest)

theorem UnaryOp.ofToken?_isSome_iff (token : Token) :
    (∃ op, UnaryOp.ofToken? token = some op) ↔ token.text = "-" ∨ token.isWord "Not" = true := by
  unfold UnaryOp.ofToken?
  by_cases minus : token.text = "-"
  · simp [minus]
  · by_cases word : token.isWord "Not" = true <;> simp [minus, word]

theorem IsPhrase.before {token : Token} {items : List (Item α)} {op : UnaryOp}
    (sign : UnaryOp.ofToken? token = some op) (phrase : IsPhrase items) : IsPhrase (.operator token :: items) := by
  have spelled := (UnaryOp.ofToken?_isSome_iff token).mp ⟨op, sign⟩
  cases phrase with
  | single phrase => exact .single (.before spelled phrase)
  | joined phrase infixed others => exact .joined (.before spelled phrase) infixed others

theorem IsPhrase.append {first rest : List (Item α)} {token : Token} {op : BinaryOp}
    (phrase : IsPhrase first) (infixed : BinaryOp.ofToken? token = some op) (others : IsPhrase rest) :
    IsPhrase (first ++ .operator token :: rest) := by
  induction phrase with
  | single phrase => exact .joined phrase infixed others
  | joined phrase first _ ih =>
    rw [append_assoc, cons_append]
    exact .joined phrase first ih

namespace Tree

theorem IsGrouped.isPhrase {t : Tree α} (grouped : t.IsGrouped) : IsPhrase t.items := by
  induction t with
  | operand a => exact .single (.operand a)
  | unary op token inner ih => exact (ih grouped.2.1).before grouped.1
  | binary op token left right ihLeft ihRight =>
    exact (ihLeft grouped.2.1).append grouped.1 (ihRight grouped.2.2.1)

/-! ### A grouped tree is built from its items -/

/-- The operators that wait for their right operand when the last operand of a tree has been read. -/
def waiting : Tree α → List (Waiting α)
  | .operand _ => []
  | .unary op token inner => inner.waiting ++ [.unary op token]
  | .binary op token left right => right.waiting ++ [.binary op token left]

/-- The last operand of a tree. -/
def lastOperand : Tree α → α
  | .operand a => a
  | .unary _ _ inner => inner.lastOperand
  | .binary _ _ _ right => right.lastOperand

/-- No operator that comes next takes the operand of the waiting operator at the top. -/
def IsKept (ops : List BinaryOp) (stack : List (Waiting α)) : Prop :=
  ∀ op ∈ ops, ∀ top ∈ stack.head?, yields op top = false

theorem foldl_apply_waiting : t.waiting.foldl apply (.operand t.lastOperand) = t := by
  induction t with
  | operand a => rfl
  | unary op token inner ih => simp [waiting, lastOperand, ih, apply]
  | binary op token left right _ ih => simp [waiting, lastOperand, ih, apply]

theorem yields_waiting (binds : ∀ a ∈ t.rightSpine, a.bindsBefore next) : ∀ w ∈ t.waiting, yields next w = true := by
  induction t with
  | operand a => simp [waiting]
  | unary op token inner ih | binary op token left right _ ih =>
    simp only [rightSpine, mem_cons, forall_eq_or_imp] at binds
    simp only [waiting, mem_append, mem_singleton]
    rintro w (inside | rfl)
    · exact ih binds.2 w inside
    · simpa [yields, AnyOp.bindsBefore] using binds.1

/-- The next operator takes in what yields to it and stops at what does not. -/
theorem reduce_append (right : Tree α) (taken stack : List (Waiting α)) (yielding : ∀ w ∈ taken, yields next w = true)
    (kept : ∀ top ∈ stack.head?, yields next top = false) :
    reduce next right (taken ++ stack) = (taken.foldl apply right, stack) := by
  induction taken generalizing right with
  | nil =>
    cases stack with
    | nil => rfl
    | cons top rest => simp [reduce, kept top (by simp)]
  | cons w taken ih =>
    have rest := ih (apply right w) fun v member => yielding v (by simp [member])
    simp [reduce, yielding w (by simp), rest]

/-- Reading a grouped tree leaves its waiting operators on the stack, on top of those that were there. -/
theorem buildOperand_items (t : Tree α) (grouped : t.IsGrouped) (stack : List (Waiting α))
    (kept : IsKept t.leftSpine stack) (rest : List (Item α)) :
    buildOperand line stack (t.items ++ rest) =
      buildOperator line (t.waiting ++ stack) (.operand t.lastOperand) rest := by
  induction t generalizing stack rest with
  | operand a => rfl
  | unary op token inner ih =>
    obtain ⟨sign, grouped, loose⟩ := grouped
    have inside : IsKept inner.leftSpine (.unary op token :: stack) := by
      intro b member top isTop
      obtain rfl : Waiting.unary op token = top := by simpa using isTop
      simpa [yields] using loose b member
    simp only [items, cons_append, buildOperand, sign]
    rw [ih grouped _ inside rest]
    simp [waiting, lastOperand]
  | binary op token left right ihLeft ihRight =>
    obtain ⟨infixed, groupedLeft, groupedRight, tight, loose⟩ := grouped
    have before : IsKept left.leftSpine stack := fun b member => kept b (by simp [leftSpine, member])
    have behind : IsKept right.leftSpine (.binary op token left :: stack) := by
      intro b member top isTop
      obtain rfl : Waiting.binary op token left = top := by simpa using isTop
      simpa [yields] using loose b member
    -- the operator finds the left operand complete, and nothing below it yields
    have reduced : reduce op (.operand left.lastOperand) (left.waiting ++ stack) = (left, stack) := by
      rw [reduce_append op _ _ _ (yields_waiting left op tight) (kept op (by simp [leftSpine])), foldl_apply_waiting]
    rw [items, append_assoc, ihLeft groupedLeft stack before, cons_append]
    simp only [buildOperator, infixed, reduced]
    rw [ihRight groupedRight _ behind rest]
    simp [waiting, lastOperand]

theorem build_items (t : Tree α) (grouped : t.IsGrouped) : build line t.items = .ok t := by
  have read := buildOperand_items line t grouped [] (by simp [IsKept]) []
  rw [append_nil, append_nil] at read
  rw [build, read, buildOperator, foldl_apply_waiting]

/-! ### What is built is a grouped tree -/

/-- Whether a stack can arise: the left operands of its operators are grouped, and no operator in them
could have been taken in by the operator below. -/
def StackFits : List (Waiting α) → Prop
  | [] => True
  | .unary op token :: rest => UnaryOp.ofToken? token = some op ∧ StackFits rest
  | .binary op token left :: rest =>
    BinaryOp.ofToken? token = some op ∧ left.IsGrouped ∧ (∀ a ∈ left.rightSpine, a.bindsBefore op) ∧
      IsKept (op :: left.leftSpine) rest ∧ StackFits rest

/-- The items from which a stack was made. -/
def stackItems : List (Waiting α) → List (Item α)
  | [] => []
  | .unary _ token :: rest => stackItems rest ++ [.operator token]
  | .binary _ token left :: rest => stackItems rest ++ (left.items ++ [.operator token])

theorem apply_fits (rest : List (Waiting α)) (right : Tree α) (fits : StackFits (top :: rest))
    (grouped : right.IsGrouped) (kept : IsKept right.leftSpine (top :: rest)) :
    (apply right top).IsGrouped ∧ IsKept (apply right top).leftSpine rest ∧ StackFits rest ∧
      stackItems rest ++ (apply right top).items = stackItems (top :: rest) ++ right.items := by
  have loose : ∀ b ∈ right.leftSpine, yields b top = false := fun b member => kept b member top rfl
  cases top with
  | unary op token =>
    obtain ⟨sign, fits⟩ := fits
    refine ⟨⟨sign, grouped, fun b member => ?_⟩, by simp [apply, leftSpine, IsKept], fits,
      by simp [apply, items, stackItems]⟩
    simpa [yields] using loose b member
  | binary op token left =>
    obtain ⟨infixed, groupedLeft, tight, keptLeft, fits⟩ := fits
    refine ⟨⟨infixed, groupedLeft, grouped, tight, fun b member => ?_⟩, keptLeft, fits,
      by simp [apply, items, stackItems]⟩
    simpa [yields] using loose b member

theorem bindsBefore_apply (right : Tree α) (yielding : yields next top = true)
    (tight : ∀ a ∈ right.rightSpine, a.bindsBefore next) : ∀ a ∈ (apply right top).rightSpine, a.bindsBefore next := by
  cases top with
  | unary op token =>
    refine forall_mem_cons.mpr ⟨?_, tight⟩
    simpa [yields, AnyOp.bindsBefore] using yielding
  | binary op token left =>
    refine forall_mem_cons.mpr ⟨?_, tight⟩
    simpa [yields, AnyOp.bindsBefore] using yielding

/-- When the next operator has taken in what yields to it, it can wait on the stack that is left. -/
theorem reduce_fits (token : Token) (infixed : BinaryOp.ofToken? token = some next) (right : Tree α)
    (stack : List (Waiting α)) (fits : StackFits stack) (grouped : right.IsGrouped)
    (kept : IsKept right.leftSpine stack) (tight : ∀ a ∈ right.rightSpine, a.bindsBefore next) :
    StackFits (.binary next token (reduce next right stack).1 :: (reduce next right stack).2) ∧
      stackItems (.binary next token (reduce next right stack).1 :: (reduce next right stack).2) =
        stackItems stack ++ right.items ++ [.operator token] := by
  induction stack generalizing right with
  | nil =>
    exact ⟨⟨infixed, grouped, tight, by simp [reduce, IsKept], trivial⟩, by simp [reduce, stackItems]⟩
  | cons top rest ih =>
    rw [reduce]
    split
    next yielding =>
      obtain ⟨groupedTop, keptRest, fitsRest, same⟩ := apply_fits top rest right fits grouped kept
      have tightTop := bindsBefore_apply next top right yielding tight
      rw [← same]
      exact ih (apply right top) fitsRest groupedTop keptRest tightTop
    next stays =>
      have keptNext : IsKept (next :: right.leftSpine) (top :: rest) := by
        intro op member v isTop
        rcases mem_cons.mp member with rfl | member
        · obtain rfl : top = v := by simpa using isTop
          simpa using stays
        · exact kept op member v isTop
      exact ⟨⟨infixed, grouped, tight, keptNext, fits⟩, by simp [stackItems]⟩

theorem foldl_apply_fits (stack : List (Waiting α)) (right : Tree α) (fits : StackFits stack)
    (grouped : right.IsGrouped) (kept : IsKept right.leftSpine stack) :
    (stack.foldl apply right).IsGrouped ∧ (stack.foldl apply right).items = stackItems stack ++ right.items := by
  induction stack generalizing right with
  | nil => exact ⟨grouped, rfl⟩
  | cons top rest ih =>
    obtain ⟨groupedTop, keptRest, fitsRest, same⟩ := apply_fits top rest right fits grouped kept
    rw [← same]
    exact ih (apply right top) fitsRest groupedTop keptRest

/-- Every run of the builder keeps the stack fit and uses the items in order. -/
theorem grouped_of_build_ok (rest : List (Item α)) :
    (∀ (stack : List (Waiting α)) (t : Tree α), StackFits stack →
      buildOperand line stack rest = .ok t → t.IsGrouped ∧ t.items = stackItems stack ++ rest) ∧
    ∀ (stack : List (Waiting α)) (a : α) (t : Tree α), StackFits stack →
      buildOperator line stack (.operand a) rest = .ok t →
        t.IsGrouped ∧ t.items = stackItems stack ++ .operand a :: rest := by
  induction rest with
  | nil =>
    constructor
    · intro stack t _ built
      simp [buildOperand] at built
    · intro stack a t fits built
      simp only [buildOperator, Except.ok.injEq] at built
      subst built
      exact foldl_apply_fits stack (.operand a) fits trivial (by simp [leftSpine, IsKept])
  | cons item rest ih =>
    constructor
    · intro stack t fits built
      cases item with
      | operand a => exact ih.2 stack a t fits built
      | operator token =>
        cases sign : UnaryOp.ofToken? token with
        | none => simp [buildOperand, sign] at built
        | some op =>
          simp only [buildOperand, sign] at built
          obtain ⟨grouped, same⟩ := ih.1 (.unary op token :: stack) t ⟨sign, fits⟩ built
          exact ⟨grouped, by simp [same, stackItems]⟩
    · intro stack a t fits built
      cases item with
      | operand b => simp [buildOperator] at built
      | operator token =>
        cases infixed : BinaryOp.ofToken? token with
        | none => simp [buildOperator, infixed] at built
        | some op =>
          simp only [buildOperator, infixed] at built
          obtain ⟨fitsNext, sameStack⟩ := reduce_fits op token infixed (.operand a) stack fits trivial
            (by simp [leftSpine, IsKept]) (by simp [rightSpine])
          obtain ⟨grouped, same⟩ := ih.1 _ t fitsNext built
          exact ⟨grouped, by simp [same, sameStack, items]⟩

theorem build_ok_iff (t : Tree α) : build line source = .ok t ↔ t.items = source ∧ t.IsGrouped := by
  constructor
  · intro built
    obtain ⟨grouped, same⟩ := (grouped_of_build_ok line source).1 [] t trivial built
    exact ⟨same, grouped⟩
  · rintro ⟨rfl, grouped⟩
    exact build_items line t grouped

/-! ### When a tree is built -/

/-- The operators before an operand and the operand itself never stop the builder. -/
theorem buildOperand_of_phrase (phrase rest : List (Item α)) (operand : IsOperandPhrase phrase)
    (stack : List (Waiting α)) :
    ∃ more a, buildOperand line stack (phrase ++ rest) = buildOperator line more (.operand a) rest := by
  induction operand generalizing stack with
  | operand a => exact ⟨stack, a, rfl⟩
  | @before token items sign _ ih =>
    obtain ⟨op, sign⟩ := (UnaryOp.ofToken?_isSome_iff token).mpr sign
    obtain ⟨more, a, read⟩ := ih (.unary op token :: stack)
    exact ⟨more, a, by simp [buildOperand, sign, read]⟩

theorem exists_buildOperand_ok (phrase : IsPhrase source) (stack : List (Waiting α)) :
    ∃ t, buildOperand line stack source = .ok t := by
  induction phrase generalizing stack with
  | @single items phrase =>
    obtain ⟨more, a, read⟩ := buildOperand_of_phrase line items [] phrase stack
    rw [append_nil] at read
    exact ⟨_, by rw [read, buildOperator]⟩
  | @joined first rest token op phrase infixed _ ih =>
    obtain ⟨more, a, read⟩ := buildOperand_of_phrase line first (.operator token :: rest) phrase stack
    obtain ⟨t, built⟩ := ih (.binary op token (reduce op (.operand a) more).1 ::
      (reduce op (.operand a) more).2)
    exact ⟨t, by simp [read, buildOperator, infixed, built]⟩

theorem exists_build_ok_iff : (∃ t, build line source = .ok t) ↔ IsPhrase source := by
  constructor
  · rintro ⟨t, built⟩
    obtain ⟨rfl, grouped⟩ := (build_ok_iff line source t).mp built
    exact grouped.isPhrase
  · intro phrase
    exact exists_buildOperand_ok line source phrase []

end Tree

/-! ### Items of an expression -/

/-- The items of an expression's tree. -/
def Expr.items (e : Expr) : List (Item (Operand Expr)) :=
  Piece.items (e.map Segment.piece)

/-- The segments that an item was made from. -/
def Item.segments : Item (Operand Expr) → List Segment
  | .operand (.chain calls) => calls.map fun call => .call call.1 call.2
  | .operand (.value token) => [.value token]
  | .operand (.bracketed inner) => [.bracketed inner]
  | .operand (.new className) => [.new className]
  | .operator token => [.operator token]

/-- Whether an item is a chain of calls. -/
def Item.isChain : Item (Operand Expr) → Bool
  | .operand (.chain _) => true
  | _ => false

/-- An expression's items: each run of calls is one operand, and any other segment is one item. -/
structure AreItemsOf (items : List (Item (Operand Expr))) (e : Expr) : Prop where
  /-- The items hold the segments in order. -/
  segments : items.flatMap Item.segments = e
  /-- No chain is empty. -/
  nonempty : ∀ item ∈ items, item.segments ≠ []
  /-- A chain is a longest run of calls: another chain never follows it. -/
  longest : items.IsChain fun item next => (item.isChain && next.isChain) = false

theorem AreItemsOf.cons {items : List (Item (Operand Expr))} {e : Expr} (areItems : AreItemsOf items e)
    (s : Segment) (item : Item (Operand Expr)) (single : item.segments = [s])
    (other : item.isChain = false) : AreItemsOf (item :: items) (s :: e) where
  segments := by simp [single, areItems.segments]
  nonempty := forall_mem_cons.mpr ⟨by simp [single], areItems.nonempty⟩
  longest := by
    refine isChain_cons.mpr ⟨fun next _ => ?_, areItems.longest⟩
    simp [other]

theorem areItemsOf_items (e : Expr) : AreItemsOf (Expr.items e) e := by
  induction e with
  | nil => exact ⟨rfl, by simp [Expr.items, Piece.items], .nil⟩
  | cons s rest ih =>
    cases s with
    | value token => exact ih.cons _ _ rfl rfl
    | operator token => exact ih.cons _ _ rfl rfl
    | bracketed inner => exact ih.cons _ _ rfl rfl
    | new className => exact ih.cons _ _ rfl rfl
    | call names arguments =>
      simp only [Expr.items, map_cons, Segment.piece, Piece.items] at ih ⊢
      split
      next calls others found =>
        -- the rest begins with a chain, and this call becomes its first
        rw [found] at ih
        refine ⟨?_, ?_, ?_⟩
        · simpa [Item.segments] using ih.segments
        · exact forall_mem_cons.mpr ⟨by simp [Item.segments], (forall_mem_cons.mp ih.nonempty).2⟩
        · have longest := isChain_cons.mp ih.longest
          exact isChain_cons.mpr longest
      next others bare =>
        refine ⟨?_, ?_, ?_⟩
        · simpa [Item.segments] using ih.segments
        · exact forall_mem_cons.mpr ⟨by simp [Item.segments], ih.nonempty⟩
        · refine isChain_cons.mpr ⟨fun next first => ?_, ih.longest⟩
          match next with
          | .operand (.chain calls) =>
            obtain ⟨others, found⟩ := head?_eq_some_iff.mp first
            exact absurd found (bare calls others)
          | .operand (.value _) | .operand (.bracketed _) | .operand (.new _) | .operator _ => rfl

/-- An expression has a tree exactly if its items alternate as they should. The tree then has these
items in this order, its operators bind as their strengths say, and it is the only tree of this kind. -/
theorem Expr.tree_follows_precedence (e : Expr) :
    AreItemsOf (Expr.items e) e ∧ ((∃ t, Expr.tree e = .ok t) ↔ IsPhrase (Expr.items e)) ∧
      ∀ t, Expr.tree e = .ok t → t.items = Expr.items e ∧ t.IsGrouped ∧
        ∀ other : Tree (Operand Expr), other.items = Expr.items e → other.IsGrouped → other = t := by
  refine ⟨areItemsOf_items e, Tree.exists_build_ok_iff _ _, ?_⟩
  intro t built
  obtain ⟨same, grouped⟩ := (Tree.build_ok_iff _ _ t).mp built
  refine ⟨same, grouped, fun other sameOther groupedOther => ?_⟩
  have rebuilt := (Tree.build_ok_iff (Expr.line e) _ other).mpr ⟨sameOther, groupedOther⟩
  exact Except.ok.inj (rebuilt.symm.trans built)

/-- The words `a * Not b = c` group as `a * (Not (b = c))`, and in no other way. -/
theorem Expr.tree_follows_precedence_not :
    ∃ t, Expr.tree [.call [⟨.name, "a", 0⟩] [], .operator ⟨.arithmetic, "*", 0⟩,
        .operator ⟨.logical, "Not", 0⟩, .call [⟨.name, "b", 0⟩] [], .operator ⟨.comparison, "=", 0⟩,
        .call [⟨.name, "c", 0⟩] []] = .ok t ∧
      t = .binary .multiply ⟨.arithmetic, "*", 0⟩ (.operand (.chain [([⟨.name, "a", 0⟩], [])]))
        (.unary .not ⟨.logical, "Not", 0⟩
          (.binary .equal ⟨.comparison, "=", 0⟩ (.operand (.chain [([⟨.name, "b", 0⟩], [])]))
            (.operand (.chain [([⟨.name, "c", 0⟩], [])])))) ∧
      t.IsGrouped ∧ ∀ other : Tree (Operand Expr), other.items = t.items → other.IsGrouped → other = t := by
  obtain ⟨-, -, ok⟩ := Expr.tree_follows_precedence [.call [⟨.name, "a", 0⟩] [],
    .operator ⟨.arithmetic, "*", 0⟩, .operator ⟨.logical, "Not", 0⟩, .call [⟨.name, "b", 0⟩] [],
    .operator ⟨.comparison, "=", 0⟩, .call [⟨.name, "c", 0⟩] []]
  obtain ⟨same, grouped, only⟩ := ok _ rfl
  refine ⟨_, rfl, rfl, grouped, ?_⟩
  exact only

end VbSharp
