import VbSharp.Proofs.Block.Budget

/-!
# More tokens behind

A parser that succeeds on tokens which end with a line does the same when more tokens follow: it never looks past the
line end of a construct that is complete. Its two runs keep pace, one over the tokens alone and one with more tokens
behind them, until the first run has come to the end of its tokens; from there on only the second one goes on.
-/
namespace VbSharp

open List Pace
open VbSharp.Parser

/-! ### Tokens that end with a line -/

/-- There is a last token, and it ends a line. -/
def LineAhead (tokens : List Token) : Prop :=
  tokens.getLast?.any Token.isLineEnd = true

/-- The last token ends a line, if there are any. -/
def WholeLines (tokens : List Token) : Prop :=
  tokens.getLast?.all Token.isLineEnd = true

variable {t : Token} {rest tokens more : List Token}

theorem LineAhead.wholeLines (ahead : LineAhead tokens) : WholeLines tokens := by
  unfold WholeLines
  cases last : tokens.getLast? with
  | none => rfl
  | some t => simpa [LineAhead, last] using ahead

theorem WholeLines.eq_nil_or (whole : WholeLines tokens) : tokens = [] ∨ LineAhead tokens := by
  unfold LineAhead
  cases last : tokens.getLast? with
  | none => exact .inl (getLast?_eq_none_iff.mp last)
  | some t => exact .inr (by simpa [WholeLines, last] using whole)

theorem LineAhead.exists_cons (ahead : LineAhead tokens) : ∃ t rest, tokens = t :: rest := by
  cases tokens with
  | nil => cases ahead
  | cons t rest => exact ⟨t, rest, rfl⟩

theorem LineAhead.tail (ahead : LineAhead (t :: rest)) : WholeLines rest := by
  unfold WholeLines
  cases last : rest.getLast? with
  | none => rfl
  | some u => simpa [LineAhead, getLast?_cons, last] using ahead

/-- A token that ends no line is not the last one. -/
theorem LineAhead.after (ahead : LineAhead (t :: rest)) (inside : t.isLineEnd = false) : LineAhead rest := by
  rcases ahead.tail.eq_nil_or with rfl | later
  · simp [LineAhead, inside] at ahead
  · exact later

/-- The first line is the same with more tokens behind, and whole lines follow it. -/
theorem LineAhead.afterLine (ahead : LineAhead tokens) (last line : Nat) :
    Cursor.lineTokens ⟨tokens ++ more, line⟩ = Cursor.lineTokens ⟨tokens, last⟩ ∧
      ∃ rest, WholeLines rest ∧ Cursor.afterLine ⟨tokens, last⟩ = ⟨rest, last⟩ ∧
        Cursor.afterLine ⟨tokens ++ more, line⟩ = ⟨rest ++ more, line⟩ := by
  induction tokens with
  | nil => cases ahead
  | cons t rest ih =>
    cases isEnd : t.isLineEnd with
    | true =>
      have passes := Token.isTerminator_of_isLineEnd isEnd
      refine ⟨by simp [Cursor.lineTokens, isEnd], rest, ahead.tail, ?_⟩
      simp [Cursor.afterLine, Cursor.skipTerminator, isEnd, passes]
    | false =>
      obtain ⟨taken, others, whole, left, left'⟩ := ih (ahead.after isEnd)
      simp only [Cursor.lineTokens, Cursor.afterLine] at taken left left' ⊢
      refine ⟨by simp [isEnd, taken], others, whole, ?_⟩
      simpa [isEnd] using ⟨left, left'⟩

/-- The second run has more tokens behind those of the first; `line` is the line of the last one. -/
def Pace.extended (more : List Token) (line : Nat) : Pace Likeness.same where
  inside c d := LineAhead c.rest ∧ d = ⟨c.rest ++ more, line⟩
  between c d := WholeLines c.rest ∧ d = ⟨c.rest ++ more, line⟩
  strict := False
  expects := by
    rintro ⟨tokens, _⟩ _ ⟨ahead, rfl⟩
    obtain ⟨t, rest, rfl⟩ := ahead.exists_cons
    exact ⟨.some t.alike_same.toResembles, ⟨ahead.wholeLines, rfl⟩, ⟨ahead.tail, rfl⟩⟩
  longer stands := by simp [stands.2]
  line := by
    rintro ⟨tokens, _⟩ _ ⟨ahead, rfl⟩
    obtain ⟨t, rest, rfl⟩ := ahead.exists_cons
    rfl
  inner := by
    rintro ⟨tokens, _⟩ _ t u ⟨ahead, rfl⟩ next next' stays
    obtain ⟨rest, rfl⟩ := head?_eq_some_iff.mp next
    cases next'
    exact ⟨t.alike_same, ahead.after (Token.isLineEnd_of_isTerminator stays), rfl⟩
  onward := by
    rintro ⟨tokens, _⟩ _ t ⟨ahead, rfl⟩ next stays
    obtain ⟨rest, rfl⟩ := head?_eq_some_iff.mp next
    obtain ⟨u, later, rfl⟩ := (ahead.after stays).exists_cons
    exact ⟨.some u.alike_same.toResembles, ⟨ahead.tail, rfl⟩, ⟨(ahead.after stays).tail, rfl⟩⟩
  lineTokens := by
    rintro ⟨tokens, last⟩ _ ⟨ahead, rfl⟩
    obtain ⟨taken, rest, whole, left, left'⟩ := ahead.afterLine last line
    rw [taken, left, left']
    exact ⟨.of_alike (forall₂_same.mpr fun t _ => t.alike_same), whole, rfl⟩
  turn := by
    rintro ⟨tokens, _⟩ _ t ⟨whole, rfl⟩ next
    obtain ⟨rest, rfl⟩ := head?_eq_some_iff.mp next
    exact ⟨t, rfl, t.alike_same.toResembles, .inl ⟨whole.eq_nil_or.resolve_left nofun, rfl⟩⟩

namespace Parser

/-! ### Blocks in front -/

/-- The blocks come first in what the parser of blocks answers. -/
def behind (blocks : List Block) (p : Parser (List Block × Option Nat)) : Parser (List Block × Option Nat) := do
  let (later, found) ← p
  return (blocks ++ later, found)

theorem behind_nil (p : Parser (List Block × Option Nat)) : behind [] p = p := by
  funext r
  show EStateM.bind p _ r = p r
  unfold EStateM.bind
  cases p r <;> rfl

theorem behind_behind (first second : List Block) (p : Parser (List Block × Option Nat)) :
    behind first (behind second p) = behind (first ++ second) p := by
  funext r
  show EStateM.bind (EStateM.bind p _) _ r = EStateM.bind p _ r
  unfold EStateM.bind
  cases p r with
  | error fault s => rfl
  | ok answer s => exact congrArg (EStateM.Result.ok · s) (by simp [append_assoc])

theorem behind_congr {p q : Parser (List Block × Option Nat)} {r s : Reader} {blocks : List Block} (same : p r = q s) :
    behind blocks p r = behind blocks q s := by
  show EStateM.bind p _ r = EStateM.bind q _ s
  rw [EStateM.bind, same, EStateM.bind]

theorem bind_behind {p : Parser (Option Block)} {q : Parser (List Block × Option Nat)} {r s : Reader}
    {block : Option Block} (turn : p r = .ok block s) :
    (p >>= fun block => behind block.toList q) r = behind block.toList q s := by
  show EStateM.bind _ _ _ = _
  rw [EStateM.bind, turn]

variable {ends : Ends} {budget budget' n : Nat} {blocks : List Block} {found : Option Nat} {log : List Construct}

theorem blocksWithin_cons {t : Token} {line : Nat} :
    blocksWithin (budget + 1) ends ⟨⟨t :: rest, line⟩, log⟩ =
      match endAt? ends ⟨t :: rest, line⟩ with
      | some found => .ok ([], some found) ⟨⟨t :: rest, line⟩, log⟩
      | none => (blockAt (blocksWithin budget) t >>= fun block => behind block.toList (blocksWithin budget ends))
          ⟨⟨t :: rest, line⟩, log⟩ := by
  have here : blocksWithin (budget + 1) ends ⟨⟨t :: rest, line⟩, log⟩ = (match endAt? ends ⟨t :: rest, line⟩ with
        | some found => pure ([], some found)
        | none => blockAt (blocksWithin budget) t >>= fun block => behind block.toList (blocksWithin budget ends) :
        Parser (List Block × Option Nat)) ⟨⟨t :: rest, line⟩, log⟩ := rfl
  rw [here]
  cases endAt? ends ⟨t :: rest, line⟩ <;> rfl

theorem behind_ended {line found : Nat} (short : tokens.length ≤ budget) (filled : tokens ≠ [])
    (here : endAt? ends ⟨tokens, line⟩ = some found) :
    behind blocks (blocksWithin budget ends) ⟨⟨tokens, line⟩, log⟩ = .ok (blocks, some found) ⟨⟨tokens, line⟩, log⟩ := by
  obtain ⟨t, rest, rfl⟩ := exists_cons_of_ne_nil filled
  obtain ⟨budget, rfl⟩ := Nat.exists_eq_add_of_le' (Nat.le_trans (Nat.le_add_left 1 rest.length) short)
  show EStateM.bind _ _ _ = _
  unfold EStateM.bind
  rw [blocksWithin_cons, here]
  exact congrArg (fun all => EStateM.Result.ok (all, some found) _) (append_nil blocks)

/-! ### Blocks with more tokens behind them -/

/-- What a run over blocks that stops has come to: the end of the tokens or one of the ends. -/
def Stops (ends : Ends) : Option Nat → Cursor → Prop
  | none, c => c.rest = []
  | some found, c => LineAhead c.rest ∧ endAt? ends c = some found

/-- The run over the tokens alone stops where `blocks` are read, and with more tokens behind them the run goes
on from there. -/
def GoesOn (more : List Token) (line : Nat) (ends : Ends) (n : Nat) (body body' : Body) : Prop :=
  ∀ {c d log blocks found r}, (extended more line).Between n c d → body ends ⟨c, log⟩ = .ok (blocks, found) r →
    r.cursor.rest.length ≤ n ∧ Stops ends found r.cursor ∧ ∀ log', ∃ others turns log'',
      Forall₂ (Block.Alike .same) blocks others ∧ r.cursor.rest.length + more.length ≤ turns ∧
        body' ends ⟨d, log'⟩ = behind others (blocksWithin turns ends) ⟨⟨r.cursor.rest ++ more, line⟩, log''⟩

variable {line : Nat}

theorem bodies_of_goesOn {body body' : Body} (alone : (level .same).Bodies n body body')
    (goesOn : ∀ m ≤ n, ∀ ends, GoesOn more line ends m body body') : (extended more line).Bodies n body body' where
  ended {ends _ _ m c d} _ short here _ := by
    refine follows_of_ok id fun {log log' answer r} ran => ?_
    obtain ⟨⟨blocks, found⟩, between, ranBody, answered⟩ := ok_bind_iff.mp ran
    cases found with
    | none => exact (not_ok_throw answered).elim
    | some found =>
      obtain ⟨rfl, rfl⟩ := ok_pure_iff.mp answered
      obtain ⟨left, ⟨ahead, seen⟩, later⟩ := goesOn m short ends here ranBody
      obtain ⟨others, turns, log'', alike, enough, same⟩ := later log'
      have inside : (extended more line).Inside m between.cursor ⟨between.cursor.rest ++ more, line⟩ :=
        ⟨⟨ahead, rfl⟩, left⟩
      obtain ⟨t, rest, stands⟩ := ahead.exists_cons
      have ended := same.trans (behind_ended (by simpa using enough) (by simp [stands])
        ((inside.endAt? ends).symm.trans seen))
      exact ⟨_, _, ok_bind_iff.mpr ⟨_, _, ended, rfl⟩, ⟨alike, rfl⟩, inside.endsAt (by simp [stands]) seen⟩
  inline alike short c d :=
    follows_of_ok id fun {_ log' _ _} ran => (alone.inline alike short c d).exists_ok ran log'

/-- Any two budgets with a turn for every token of theirs go on alike. -/
theorem goesOn_blocksWithin (enough : n ≤ budget) (enough' : n + more.length ≤ budget') (ends : Ends) :
    GoesOn more line ends n (blocksWithin budget) (blocksWithin budget') := by
  induction n using Nat.strongRecOn generalizing budget budget' ends with
  | ind n ih =>
    rintro ⟨tokens, endLine⟩ _ log blocks found r ⟨⟨whole, rfl⟩, short⟩ ran
    -- where the first run stops at once, the second one has all turns left
    have idle (log' : List Construct) : ∃ others turns log'',
        Forall₂ (Block.Alike .same) [] others ∧ tokens.length + more.length ≤ turns ∧
          blocksWithin budget' ends ⟨⟨tokens ++ more, line⟩, log'⟩ =
            behind others (blocksWithin turns ends) ⟨⟨tokens ++ more, line⟩, log''⟩ :=
      ⟨[], budget', log', .nil, Nat.le_trans (Nat.add_le_add_right short _) enough', by rw [behind_nil]⟩
    rcases whole.eq_nil_or with rfl | ahead
    · rw [blocksWithin_nil budget ends rfl] at ran
      cases ran
      exact ⟨short, rfl, idle⟩
    obtain ⟨t, rest, rfl⟩ := ahead.exists_cons
    obtain ⟨n, rfl⟩ : ∃ k, n = k + 1 := Nat.exists_eq_add_one.mpr (Nat.lt_of_lt_of_le (by simp) short)
    obtain ⟨budget, rfl⟩ := Nat.exists_eq_add_of_le' (Nat.le_trans (Nat.le_add_left 1 n) enough)
    have inside : (extended more line).Inside (n + 1) ⟨t :: rest, endLine⟩ ⟨t :: rest ++ more, line⟩ :=
      ⟨⟨ahead, rfl⟩, short⟩
    rw [blocksWithin_cons] at ran
    cases seen : endAt? ends ⟨t :: rest, endLine⟩ with
    | some found =>
      simp only [seen] at ran
      cases ran
      exact ⟨short, ⟨ahead, seen⟩, idle⟩
    | none =>
      obtain ⟨budget', rfl⟩ := Nat.exists_eq_add_of_le' (by omega : 1 ≤ budget')
      simp only [seen] at ran
      obtain ⟨block, between, turn, ranLater⟩ := ok_bind_iff.mp ran
      obtain ⟨⟨later, found'⟩, last, ranRest, answered⟩ := ok_bind_iff.mp ranLater
      obtain ⟨same, rfl⟩ := ok_pure_iff.mp answered
      cases same
      -- a turn passes over a token, and both budgets still have a turn for each token behind it
      have bodies : (extended more line).Bodies n (blocksWithin budget) (blocksWithin budget') :=
        bodies_of_goesOn (keeps_level (hasTurns_blocksWithin (by omega)) (hasTurns_blocksWithin (by omega))).2
          fun m short ends => ih m (by omega) (by omega) (by omega) ends
      have turned := (follows_blockAt bodies inside.settle rfl rfl).exists_ok turn
      have onward : GoesOn more line ends n (blocksWithin budget) (blocksWithin budget') :=
        ih n (Nat.lt_succ_self n) (by omega) (by omega) ends
      obtain ⟨_, _, _, _, left⟩ := turned []
      obtain ⟨short, stops, -⟩ := onward left ranRest
      refine ⟨Nat.le_succ_of_le short, stops, fun log' => ?_⟩
      obtain ⟨other, s, turn, made, left⟩ := turned log'
      obtain ⟨-, -, goesOn⟩ := onward left ranRest
      obtain ⟨others, turns, log'', alike, enough, same⟩ := goesOn s.recognised
      refine ⟨other.toList ++ others, turns, log'', rel_append ?_ alike, enough, ?_⟩
      · cases made with
        | none => exact .nil
        | some made => exact .cons made .nil
      · have unseen : endAt? ends ⟨t :: (rest ++ more), line⟩ = none := (inside.endAt? ends).symm.trans seen
        rw [cons_append, blocksWithin_cons, unseen, ← behind_behind]
        exact (bind_behind turn).trans (behind_congr same)

end Parser
end VbSharp
