import VbSharp.Proofs.Block.Constructs

/-!
# Parsing alike tokens

Alike tokens are parsed as alike blocks, or both runs fail alike, whatever has been recognised before and whatever the
budgets are, as long as each has a turn for every token. A list of tokens is alike to itself, so how blocks are parsed
depends on their tokens alone.
-/
namespace VbSharp

open List Cursor
open VbSharp.Parser

variable {budget budget' l' l : Nat} {r : Reader}

variable {L : Likeness} {n m : Nat} {c d : Cursor} {tokens others : List Token}

variable {P : Pace L} {ends : Ends}

/-- Cursors before alike tokens; `start` says whether a statement may start there. -/
structure Cursor.Alike (L : Likeness) (start : Bool) (c d : Cursor) : Prop where
  rest : AlikeLines L start c.rest d.rest
  endLine : d.endLine = c.endLine + L.shift

namespace Cursor.Alike

variable {start : Bool} {t : Token}

section

variable (alike : c.Alike L start d)
include alike

theorem line : d.line = c.line + L.shift := by
  have resembles := alike.rest.resembles
  have endLine := alike.endLine
  obtain ⟨tokens, last⟩ := c
  obtain ⟨others, final⟩ := d
  cases resembles with
  | nil => exact endLine
  | cons looks _ => exact looks.line

theorem weaken : c.Alike L true d :=
  ⟨alike.rest.weaken, alike.endLine⟩

theorem advance : (c.advance 1).Alike L true (d.advance 1) := by
  obtain ⟨rest, endLine⟩ := alike
  refine ⟨?_, endLine⟩
  obtain ⟨tokens, last⟩ := c
  obtain ⟨others, final⟩ := d
  match tokens, others, rest.resembles with
  | [], [], .nil => exact .nil
  | _ :: _, _ :: _, .cons _ _ => exact rest.tail

theorem expects : Expects L (Cursor.Alike L true) c d :=
  ⟨forall₂_head? alike.rest.resembles, alike.weaken, alike.advance⟩

theorem skipTerminator : c.skipTerminator.Alike L true d.skipTerminator := by
  have heads := alike.expects.heads
  cases next : c.peek? with
  | none =>
    rw [next] at heads
    generalize done : d.peek? = other at heads
    cases heads
    rw [Cursor.skipTerminator, rest_of_peek?_none next, Cursor.skipTerminator, rest_of_peek?_none done]
    exact alike.weaken
  | some t =>
    rw [next] at heads
    generalize next' : d.peek? = other at heads
    cases heads with
    | some looks =>
      rw [skipTerminator_of_peek? next, skipTerminator_of_peek? next', looks.isTerminator]
      split
      · exact alike.advance
      · exact alike.weaken

end

end Cursor.Alike

theorem Cursor.alike_ofTokens (filled : tokens ≠ []) (alike : AlikeLines L true tokens others) :
    (Cursor.ofTokens tokens).Alike L true (.ofTokens others) := by
  refine ⟨alike, ?_⟩
  have last := forall₂_getLast? alike.resembles
  obtain ⟨t, found⟩ := Option.ne_none_iff_exists'.mp (mt getLast?_eq_none_iff.mp filled)
  simp only [Cursor.ofTokens]
  rw [found] at last ⊢
  generalize others.getLast? = other at last ⊢
  cases last with
  | some looks => exact looks.line

namespace Pace

/-- Both runs stand before alike tokens. -/
def level (L : Likeness) : Pace L where
  inside := Cursor.Alike L false
  between := Cursor.Alike L true
  strict := True
  expects := Cursor.Alike.expects
  longer alike := alike.rest.resembles.length_eq.le
  line := Cursor.Alike.line
  inner := by
    rintro ⟨_, _⟩ ⟨_, _⟩ t u ⟨rest, endLine⟩ next next' stays
    obtain ⟨_, rfl⟩ := head?_eq_some_iff.mp next
    obtain ⟨_, rfl⟩ := head?_eq_some_iff.mp next'
    cases rest with
    | inner alike later => exact ⟨alike, later, endLine⟩
    | terminator isEnd => simp [isEnd] at stays
  onward alike _ _ := alike.advance.expects
  lineTokens alike := by
    have agree {t u : Token} (looks : t.Resembles L u) : (!t.isLineEnd) = !u.isLineEnd := congrArg not looks.isLineEnd
    refine ⟨alike.rest.weaken.takeWhile agree, ?_⟩
    exact Cursor.Alike.skipTerminator ⟨alike.rest.dropWhile agree, alike.endLine⟩
  turn := by
    rintro ⟨_, _⟩ ⟨_, _⟩ t ⟨rest, endLine⟩ next
    obtain ⟨_, rfl⟩ := head?_eq_some_iff.mp next
    cases rest with
    | inner alike later => exact ⟨_, rfl, alike.toResembles, .inl ⟨.inner alike later, endLine⟩⟩
    | terminator isEnd looks later => exact ⟨_, rfl, looks, .inl ⟨.terminator isEnd looks later, endLine⟩⟩
    | comment shown noted looks later =>
      have left : Cursor.Alike L true ⟨_, _⟩ ⟨_, _⟩ := ⟨later, endLine⟩
      exact ⟨_, rfl, looks, .inr ⟨shown, noted, left.skipTerminator⟩⟩

/-- What a run over blocks has come to. -/
structure Stops (P : Pace L) (ends : Ends) (n : Nat) (x y : List Block × Option Nat) (r s : Cursor) : Prop where
  answers : AlikeBody L x y
  left : P.Between n r s
  ended : ∀ found, x.2 = some found → P.EndsAt ends n found r s

theorem Stops.mono {x y : List Block × Option Nat} {r s : Cursor} (stops : P.Stops ends n x y r s) (fewer : n ≤ m) :
    P.Stops ends m x y r s where
  answers := stops.answers
  left := stops.left.mono fewer
  ended found same :=
    have stands := stops.ended found same
    { here := stands.here.mono fewer
      filled := stands.filled
      listed := stands.listed
      behind := fun words listed => (stands.behind words listed).mono (Nat.sub_le_sub_right fewer _) }

/-- Two parsers of bodies keep pace from at most `n` tokens on, up to any of the ends. -/
def Keeps (P : Pace L) (n : Nat) (body body' : Body) : Prop :=
  ∀ {ends : Ends} {c d : Cursor}, [] ∉ ends → P.Between n c d → P.Follows (body ends) (body' ends) c d (P.Stops ends n)

theorem Follows.bodyUntil {body body' : Body} (lines : l' = l + L.shift)
    (ran : P.Follows (body ends) (body' ends) c d (P.Stops ends n)) :
    P.Follows (bodyUntil body ends l) (bodyUntil body' ends l') c d fun x y r s =>
      AlikeBody L x y ∧ P.EndsAt ends n x.2 r s := by
  refine ran.bind ?_
  rintro ⟨blocks, _ | found⟩ ⟨others, _⟩ r s ⟨⟨alike, rfl⟩, -, ended⟩
  · exact follows_throw (.same (by simp only [Fault.shift, Fault.mapText, lines, Nat.add_right_comm]))
  · exact follows_pure ⟨⟨alike, rfl⟩, ended found rfl⟩

end Pace

/-! ### Turns -/

namespace Parser

/-- One turn of a run over blocks; `body` parses the body of a construct and whatever is left of the run. -/
def turn (body : Body) : Body := fun ends => do
  match ← view Cursor.peek? with
  | none => return ([], none)
  | some t =>
    match ← view (endAt? ends) with
    | some found => return ([], some found)
    | none =>
      let block ← blockAt body t
      let (blocks, found) ← body ends
      return (block.toList ++ blocks, found)

/-- The parser of bodies has a turn for each token, if there are at most `n` of them. -/
def HasTurns (n : Nat) (body : Body) : Prop :=
  ∀ c : Cursor, c.rest.length ≤ n → ∃ budget, c.rest.length ≤ budget ∧
    ∀ ends log, body ends ⟨c, log⟩ = blocksWithin budget ends ⟨c, log⟩

theorem hasTurns_blocksWithin (enough : n ≤ budget) : HasTurns n (blocksWithin budget) :=
  fun _ short => ⟨budget, Nat.le_trans short enough, fun _ _ => rfl⟩

theorem HasTurns.mono {body : Body} (turns : HasTurns n body) (fewer : m ≤ n) : HasTurns m body :=
  fun c short => turns c (Nat.le_trans short fewer)

theorem blocksWithin_nil (budget : Nat) (ends : Ends) (done : r.cursor.rest = []) :
    blocksWithin budget ends r = .ok ([], none) r := by
  obtain ⟨⟨rest, endLine⟩, log⟩ := r
  cases done
  cases budget <;> rfl

theorem HasTurns.idle {body : Body} (turns : HasTurns n body) (ends : Ends) (done : r.cursor.rest = []) :
    body ends r = .ok ([], none) r := by
  obtain ⟨budget, -, same⟩ := turns r.cursor (by simp [done])
  exact (same ends r.recognised).trans (blocksWithin_nil budget ends done)

end Parser

namespace Pace

variable {body body' : Body}

/-- A turn passes over a token, so whatever it calls has fewer tokens left. -/
theorem follows_turn {t : Token} (bodies : P.Bodies n body body') (keeps : P.Keeps n body body') (worded : [] ∉ ends)
    (here : P.Between (n + 1) c d) (next : c.peek? = some t) :
    P.Follows (Parser.turn body ends) (Parser.turn body' ends) c d (P.Stops ends (n + 1)) := by
  obtain ⟨u, next', -⟩ := P.turn here.stands next
  obtain ⟨same, inside⟩ := here.endAt? next worded
  have filled : 0 < c.rest.length := by simp [rest_of_peek? next]
  refine follows_view ?_
  rw [next, next']
  refine follows_ask same ?_
  cases seen : Parser.endAt? ends c with
  | some found => exact follows_pure ⟨⟨.nil, rfl⟩, here, fun _ same => (inside seen).endsAt filled (seen.trans same)⟩
  | none =>
    refine (follows_blockAt bodies here next next').bind fun {block other _ _} ⟨made, left⟩ => ?_
    refine (keeps worded left).bind ?_
    rintro ⟨blocks, found⟩ ⟨others, _⟩ r s ⟨⟨alike, rfl⟩, left, ended⟩
    refine follows_pure (Stops.mono ⟨⟨rel_append ?_ alike, rfl⟩, left, ended⟩ (Nat.le_succ n))
    cases made with
    | none => exact .nil
    | some made => exact .cons made .nil

/-- Any two parsers of bodies with a turn for every token keep pace, if both runs have as many tokens and their bodies
keep pace as soon as shorter runs do. -/
theorem keeps_of_turns (even : ∀ {c d}, P.between c d → d.rest.length = c.rest.length)
    (bodies : ∀ {n body body'}, HasTurns n body → HasTurns n body' → (∀ m ≤ n, P.Keeps m body body') → P.Bodies n body body')
    (turns : HasTurns n body) (turns' : HasTurns n body') : P.Keeps n body body' := by
  induction n using Nat.strongRecOn generalizing body body' with
  | ind n ih =>
    intro ends c d worded here
    have same := even here.stands
    cases next : c.peek? with
    | none =>
      have done : c.rest = [] := rest_of_peek?_none next
      have done' : d.rest = [] := length_eq_zero_iff.mp (by rw [same, done, length_nil])
      intro log log'
      rw [turns.idle ends done, turns'.idle ends done']
      exact .ok ⟨⟨.nil, rfl⟩, here, nofun⟩
    | some t =>
      obtain ⟨k, count⟩ : ∃ k, c.rest.length = k + 1 := ⟨_, by rw [rest_of_peek? next, length_cons]⟩
      have short := here.short
      obtain ⟨budget, enough, ran⟩ := turns c short
      obtain ⟨budget', enough', ran'⟩ := turns' d (same ▸ short)
      obtain ⟨budget, rfl⟩ := Nat.exists_eq_add_of_le' (by omega : 1 ≤ budget)
      obtain ⟨budget', rfl⟩ := Nat.exists_eq_add_of_le' (by omega : 1 ≤ budget')
      -- both budgets still have a turn for each token behind the first
      have left : HasTurns k (blocksWithin budget) := hasTurns_blocksWithin (by omega)
      have left' : HasTurns k (blocksWithin budget') := hasTurns_blocksWithin (by omega)
      have shorter (m : Nat) (fewer : m ≤ k) : P.Keeps m (blocksWithin budget) (blocksWithin budget') :=
        ih m (by omega) (left.mono fewer) (left'.mono fewer)
      have turned := follows_turn (bodies left left' shorter) (shorter k (Nat.le_refl k)) worded
        ⟨here.stands, Nat.le_of_eq count⟩ next
      intro log log'
      rw [ran, ran']
      exact turned.mono (fun stops => stops.mono (count ▸ short)) log log'

theorem keeps_level (turns : HasTurns n body) (turns' : HasTurns n body') : (level L).Keeps n body body' ∧
    (level L).Bodies n body body' := by
  have even {c d : Cursor} (alike : (level L).between c d) : d.rest.length = c.rest.length :=
    alike.rest.resembles.length_eq.symm
  have bodies {n : Nat} {body body' : Body} (turns : HasTurns n body) (turns' : HasTurns n body')
      (each : ∀ m ≤ n, (level L).Keeps m body body') : (level L).Bodies n body body' := by
    refine ⟨fun _ {_ _ _ _ _} lines short here worded => (each _ short worded here).bodyUntil lines, ?_⟩
    intro tokens others alike short c d log log'
    rw [inlineBlocks_apply, inlineBlocks_apply]
    by_cases empty : tokens = []
    · subst empty
      obtain rfl := forall₂_nil_left_iff.mp alike.resembles
      rw [turns.idle [] rfl, turns'.idle [] rfl]
      exact .ok ⟨.nil, rfl, rfl⟩
    · have ended := each _ short not_mem_nil ⟨alike_ofTokens empty alike, Nat.le_refl _⟩ log log'
      generalize body [] ⟨.ofTokens tokens, log⟩ = one at ended ⊢
      generalize body' [] ⟨.ofTokens others, log'⟩ = other at ended ⊢
      cases ended with
      | ok stops => exact .ok ⟨stops.answers.1, rfl, rfl⟩
      | error alike => exact .error alike
      | dropped lenient => exact absurd trivial lenient
  have each (m : Nat) (fewer : m ≤ n) : (level L).Keeps m body body' :=
    keeps_of_turns even bodies (turns.mono fewer) (turns'.mono fewer)
  exact ⟨each n (Nat.le_refl n), bodies turns turns' each⟩

end Pace

/-- The blocks of a run, if it ended well. -/
def Parser.blocksOf : EStateM.Result Fault Reader (List Block × Option Nat) → Except Fault (List Block)
  | .ok (blocks, _) _ => .ok blocks
  | .error fault _ => .error fault

theorem parseBlocks_eq (tokens : List Token) :
    parseBlocks tokens = blocksOf (blocksWithin tokens.length [] ⟨.ofTokens tokens, []⟩) :=
  rfl

/-- The same for any budget with a turn for every token, whatever has been recognised before. -/
theorem blocksWithin_alike (enough : tokens.length ≤ budget) (enough' : tokens.length ≤ budget')
    (alike : AlikeLines L true tokens others) (log log' : List Construct) :
    L.Results (Forall₂ (Block.Alike L)) (blocksOf (blocksWithin budget [] ⟨.ofTokens tokens, log⟩))
      (blocksOf (blocksWithin budget' [] ⟨.ofTokens others, log'⟩)) := by
  by_cases empty : tokens = []
  · subst empty
    obtain rfl := forall₂_nil_left_iff.mp alike.resembles
    rw [blocksWithin_nil budget [] rfl, blocksWithin_nil budget' [] rfl]
    exact .ok .nil
  · have start : (Pace.level L).Between tokens.length (.ofTokens tokens) (.ofTokens others) :=
      ⟨alike_ofTokens empty alike, Nat.le_refl _⟩
    have ended := (Pace.keeps_level (hasTurns_blocksWithin enough) (hasTurns_blocksWithin enough')).1 not_mem_nil
      start log log'
    generalize blocksWithin budget [] ⟨.ofTokens tokens, log⟩ = one at ended ⊢
    generalize blocksWithin budget' [] ⟨.ofTokens others, log'⟩ = other at ended ⊢
    cases ended with
    | ok stops => exact .ok stops.answers.1
    | error alike => exact .error alike
    | dropped lenient => exact absurd trivial lenient

theorem parseBlocks_alike (alike : AlikeLines L true tokens others) :
    L.Results (Forall₂ (Block.Alike L)) (parseBlocks tokens) (parseBlocks others) := by
  exact blocksWithin_alike (Nat.le_refl _) alike.resembles.length_eq.le alike [] []

end VbSharp
