import VbSharp.Proofs.Block.Alike
import VbSharp.Proofs.Block.Running

/-!
# Two runs that keep pace

The rules below follow a parser through two runs. A pace says when the cursors of the two stand alike, within a
statement or where one may start. What a parser asks of its cursor is settled by the tokens up to the end of the
statement, and none of its questions looks past that end, so both runs go the same way and what they pass on is alike.
-/
namespace VbSharp

open List
open VbSharp.Parser

/-! ### Tokens of statements -/

/-- Tokens that resemble each other one by one. Those of a statement are alike. Less is asked of a terminator, and of a
comment that stands where a statement may start; `start` says whether one may start with the first token. -/
inductive AlikeLines (L : Likeness) : Bool → List Token → List Token → Prop where
  | nil {start : Bool} : AlikeLines L start [] []
  | inner {start : Bool} {t u : Token} {rest more : List Token} (alike : t.Alike L u)
    (later : AlikeLines L false rest more) : AlikeLines L start (t :: rest) (u :: more)
  | terminator {start : Bool} {t u : Token} {rest more : List Token} (isEnd : t.isTerminator = true)
    (looks : t.Resembles L u) (later : AlikeLines L true rest more) : AlikeLines L start (t :: rest) (u :: more)
  | comment {t u : Token} {rest more : List Token} (shown : t.kind = .comment ∨ t.kind = .inlineComment)
    (noted : L.noted t) (looks : t.Resembles L u) (later : AlikeLines L true rest more) :
    AlikeLines L true (t :: rest) (u :: more)

namespace AlikeLines

variable {L : Likeness} {start : Bool} {t u : Token} {tokens others rest more : List Token} {p : Token → Bool}

theorem of_alike (alike : Forall₂ (Token.Alike L) tokens others) : AlikeLines L start tokens others := by
  induction alike generalizing start with
  | nil => exact .nil
  | cons same _ ih => exact .inner same ih

section

variable (lines : AlikeLines L start tokens others)
include lines

theorem weaken : AlikeLines L true tokens others := by
  cases lines with
  | nil => exact .nil
  | inner alike later => exact .inner alike later
  | terminator isEnd looks later => exact .terminator isEnd looks later
  | comment shown noted looks later => exact .comment shown noted looks later

omit lines in
theorem tail (lines : AlikeLines L start (t :: rest) (u :: more)) : AlikeLines L true rest more := by
  cases lines with
  | inner alike later => exact later.weaken
  | terminator isEnd looks later => exact later
  | comment shown noted looks later => exact later

theorem resembles : Forall₂ (Token.Resembles L) tokens others := by
  induction lines with
  | nil => exact .nil
  | inner alike _ ih => exact .cons alike.toResembles ih
  | terminator _ looks _ ih | comment _ _ looks _ ih => exact .cons looks ih

theorem takeWhile (agree : ∀ {t u : Token}, t.Resembles L u → p t = p u) :
    AlikeLines L start (tokens.takeWhile p) (others.takeWhile p) := by
  induction lines with
  | nil => exact .nil
  | @inner _ t u _ _ alike _ ih =>
    rw [takeWhile_cons, takeWhile_cons, agree alike.toResembles]
    split
    · exact .inner alike ih
    · exact .nil
  | terminator isEnd looks _ ih =>
    rw [takeWhile_cons, takeWhile_cons, agree looks]
    split
    · exact .terminator isEnd looks ih
    · exact .nil
  | comment shown noted looks _ ih =>
    rw [takeWhile_cons, takeWhile_cons, agree looks]
    split
    · exact .comment shown noted looks ih
    · exact .nil

theorem dropWhile (agree : ∀ {t u : Token}, t.Resembles L u → p t = p u) :
    AlikeLines L true (tokens.dropWhile p) (others.dropWhile p) := by
  induction tokens generalizing others start with
  | nil =>
    cases lines
    exact .nil
  | cons t rest ih =>
    obtain ⟨u, more, looks, -, rfl⟩ := forall₂_cons_left_iff.mp lines.resembles
    rw [dropWhile_cons, dropWhile_cons, agree looks]
    split
    · exact ih lines.tail
    · exact lines.weaken

end

end AlikeLines

/-! ### Cursors that stand alike -/

/-- Both cursors stand before tokens that resemble each other, or before none, and a statement may start there as well
as behind the token. -/
structure Expects (L : Likeness) (between : Cursor → Cursor → Prop) (c d : Cursor) : Prop where
  heads : Option.Rel (Token.Resembles L) c.peek? d.peek?
  settle : between c d
  leave : between (c.advance 1) (d.advance 1)

/-- When two cursors stand alike. -/
structure Pace (L : Likeness) where
  /-- The cursors stand alike within a statement. -/
  inside : Cursor → Cursor → Prop
  /-- The cursors stand alike where a statement may start. -/
  between : Cursor → Cursor → Prop
  /-- Whether the second run has to fail where the first one does. -/
  strict : Prop
  expects {c d : Cursor} : inside c d → Expects L between c d
  longer {c d : Cursor} : inside c d → c.rest.length ≤ d.rest.length
  line {c d : Cursor} : inside c d → d.line = c.line + L.shift
  inner {c d : Cursor} {t u : Token} : inside c d → c.peek? = some t → d.peek? = some u → t.isTerminator = false →
    t.Alike L u ∧ inside (c.advance 1) (d.advance 1)
  onward {c d : Cursor} {t : Token} : inside c d → c.peek? = some t → t.isLineEnd = false →
    Expects L between (c.advance 1) (d.advance 1)
  lineTokens {c d : Cursor} : inside c d → AlikeLines L true c.lineTokens d.lineTokens ∧ between c.afterLine d.afterLine
  /-- Where a statement may start, one does start or there is a comment. -/
  turn {c d : Cursor} {t : Token} : between c d → c.peek? = some t → ∃ u, d.peek? = some u ∧ t.Resembles L u ∧
    (inside c d ∨ (t.kind = .comment ∨ t.kind = .inlineComment) ∧ L.noted t ∧
      between (c.advance 1).skipTerminator (d.advance 1).skipTerminator)

namespace Cursor

variable {c : Cursor} {t : Token}

theorem advance_advance (c : Cursor) (k l : Nat) : (c.advance k).advance l = c.advance (k + l) := by
  simp [advance, drop_drop]

theorem holdsAt_eq (c : Cursor) (offset : Nat) (test : Token → Bool) :
    c.holdsAt offset test = (c.advance offset).peek?.any test := by
  simp [holdsAt, peekAt?, advance, peek?, head?_drop]

theorem rest_of_peek? (next : c.peek? = some t) : c.rest = t :: (c.advance 1).rest := by
  obtain ⟨rest, same⟩ := head?_eq_some_iff.mp next
  simp [advance, same]

theorem rest_of_peek?_none (done : c.peek? = none) : c.rest = [] :=
  head?_eq_none_iff.mp done

theorem skipTerminator_of_peek? (next : c.peek? = some t) :
    c.skipTerminator = if t.isTerminator then c.advance 1 else c := by
  rw [skipTerminator, rest_of_peek? next]
  rfl

theorem length_skipTerminator (c : Cursor) : c.skipTerminator.rest.length ≤ c.rest.length := by
  obtain ⟨_ | ⟨t, rest⟩, endLine⟩ := c
  · exact Nat.le_refl _
  · simp only [skipTerminator]
    split <;> simp

end Cursor

namespace Pace

variable {L : Likeness} {P : Pace L} {n m : Nat} {c d : Cursor}

/-- The cursors stand alike within a statement, the first one before at most `n` tokens. -/
structure Inside (P : Pace L) (n : Nat) (c d : Cursor) : Prop where
  stands : P.inside c d
  short : c.rest.length ≤ n

/-- The cursors stand alike where a statement may start, the first one before at most `n` tokens. -/
structure Between (P : Pace L) (n : Nat) (c d : Cursor) : Prop where
  stands : P.between c d
  short : c.rest.length ≤ n

theorem Between.mono (here : P.Between n c d) (fewer : n ≤ m) : P.Between m c d :=
  ⟨here.stands, Nat.le_trans here.short fewer⟩

namespace Inside

variable {t : Token} {k : Nat} {q : Token → Bool} {word : String}

theorem mono (here : P.Inside n c d) (fewer : n ≤ m) : P.Inside m c d :=
  ⟨here.stands, Nat.le_trans here.short fewer⟩

theorem settle (here : P.Inside n c d) : P.Between n c d :=
  ⟨(P.expects here.stands).settle, here.short⟩

theorem line (here : P.Inside n c d) : d.line = c.line + L.shift :=
  P.line here.stands

theorem length_advance (here : P.Inside n c d) (count : Nat) : (c.advance count).rest.length ≤ n - count := by
  have := here.short
  simp only [Cursor.advance, length_drop]
  omega

theorem pos (here : P.Inside n c d) (next : c.peek? = some t) : 0 < n := by
  have := here.short
  rw [Cursor.rest_of_peek? next, length_cons] at this
  omega

theorem leave (here : P.Inside n c d) : P.Between (n - 1) (c.advance 1) (d.advance 1) :=
  ⟨(P.expects here.stands).leave, here.length_advance 1⟩

/-- Both cursors stand before tokens that resemble each other, or before none. -/
theorem next (here : P.Inside n c d) :
    c.peek? = none ∧ d.peek? = none ∨ ∃ t u, c.peek? = some t ∧ d.peek? = some u ∧ t.Resembles L u := by
  have heads := (P.expects here.stands).heads
  generalize c.peek? = one at heads ⊢
  generalize d.peek? = other at heads ⊢
  cases heads with
  | none => exact .inl ⟨rfl, rfl⟩
  | some alike => exact .inr ⟨_, _, rfl, rfl, alike⟩

theorem alike (here : P.Inside n c d) {u : Token} (next : c.peek? = some t) (next' : d.peek? = some u)
    (stays : t.isTerminator = false) : t.Alike L u :=
  (P.inner here.stands next next' stays).1

theorem pass (here : P.Inside n c d) (next : c.peek? = some t) (stays : t.isTerminator = false) :
    P.Inside (n - 1) (c.advance 1) (d.advance 1) := by
  obtain ⟨done, -⟩ | ⟨t', u, found, found', -⟩ := here.next
  · cases next.symm.trans done
  · exact ⟨(P.inner here.stands next found' stays).2, here.length_advance 1⟩

theorem skipTerminator (here : P.Inside n c d) : P.Between n c.skipTerminator d.skipTerminator := by
  obtain ⟨done, done'⟩ | ⟨t, u, next, next', alike⟩ := here.next
  · rw [Cursor.skipTerminator, Cursor.rest_of_peek?_none done, Cursor.skipTerminator, Cursor.rest_of_peek?_none done']
    exact here.settle
  · rw [Cursor.skipTerminator_of_peek? next, Cursor.skipTerminator_of_peek? next', alike.isTerminator]
    split
    · exact here.leave.mono (Nat.sub_le ..)
    · exact here.settle

/-! ### What a cursor is asked -/

section

variable (here : P.Inside n (c.advance k) (d.advance k))
include here

theorem holdsAt (agree : ∀ {t u : Token}, t.Resembles L u → q t = q u) : c.holdsAt k q = d.holdsAt k q := by
  rw [Cursor.holdsAt_eq, Cursor.holdsAt_eq]
  exact rel_any (P.expects here.stands).heads agree

theorem behind (stays : ∀ t, q t = true → t.isTerminator = false) (holds : c.holdsAt k q = true) :
    P.Inside (n - 1) (c.advance (k + 1)) (d.advance (k + 1)) := by
  rw [Cursor.holdsAt_eq] at holds
  obtain ⟨t, next, passed⟩ := (Option.any_eq_true ..).mp holds
  rw [← Cursor.advance_advance, ← Cursor.advance_advance]
  exact here.pass next (stays t passed)

theorem isKeywordAt (word : String) : c.isKeywordAt k word = d.isKeywordAt k word :=
  here.holdsAt fun same => same.isKeyword word

theorem isKeywordLikeAt (word : String) : c.isKeywordLikeAt k word = d.isKeywordLikeAt k word :=
  here.holdsAt fun same => same.isKeywordLike word

omit here in
theorem isKeyword (here : P.Inside n c d) (word : String) : c.isKeyword word = d.isKeyword word :=
  isKeywordAt (k := 0) here word

theorem behindKeyword (holds : c.isKeywordAt k word = true) :
    P.Inside (n - 1) (c.advance (k + 1)) (d.advance (k + 1)) :=
  here.behind (fun _ => Token.isTerminator_of_isKeyword) holds

theorem behindKeywordLike (holds : c.isKeywordLikeAt k word = true) :
    P.Inside (n - 1) (c.advance (k + 1)) (d.advance (k + 1)) :=
  here.behind (fun _ => Token.isTerminator_of_isKeywordLike) holds

end

/-- Two tests of the next tokens, of which no terminator passes either. -/
theorem both (here : P.Inside n c d) (first second : Token → Bool)
    (agree : ∀ {t u : Token}, t.Resembles L u → first t = first u)
    (agree' : ∀ {t u : Token}, t.Resembles L u → second t = second u)
    (stays : ∀ t, first t = true → t.isTerminator = false) (stays' : ∀ t, second t = true → t.isTerminator = false) :
    let passes (c : Cursor) := c.holdsAt 0 first && c.holdsAt 1 second
    passes c = passes d ∧ (passes c = true → P.Inside (n - 1) (c.advance 2) (d.advance 2)) := by
  have same := holdsAt (k := 0) here agree
  cases found : c.holdsAt 0 first with
  | false => simp [found, ← same]
  | true =>
    have left := behind (k := 0) here stays found
    have same' := left.holdsAt agree'
    simp only [found, ← same, Bool.true_and]
    exact ⟨same', fun holds => (left.behind stays' holds).mono (Nat.sub_le ..)⟩

/-- Whether words stand at an offset is seen alike, and the statement goes on behind them. -/
theorem isKeywordLikeAll (words : List String) (here : P.Inside n (c.advance k) (d.advance k)) :
    let spells (c : Cursor) := (words.zipIdx k).all fun (word, i) => c.isKeywordLikeAt i word
    spells c = spells d ∧ (spells c = true →
      P.Inside (n - words.length) (c.advance (k + words.length)) (d.advance (k + words.length))) := by
  induction words generalizing n k with
  | nil => exact ⟨rfl, fun _ => here⟩
  | cons word words ih =>
    have same := here.isKeywordLikeAt word
    simp only [zipIdx_cons, all_cons, ← same]
    cases found : c.isKeywordLikeAt k word with
    | false => exact ⟨rfl, nofun⟩
    | true =>
      obtain ⟨agree, left⟩ := ih (here.behindKeywordLike found)
      refine ⟨agree, fun all => ?_⟩
      have left := left all
      rwa [Nat.sub_sub, Nat.add_comm 1, Nat.add_assoc, Nat.add_comm 1] at left

theorem startsWith (here : P.Inside n c d) (words : List String) :
    c.startsWith words = d.startsWith words ∧ (c.startsWith words = true →
      P.Inside (n - words.length) (c.advance words.length) (d.advance words.length)) := by
  cases words with
  | nil => exact ⟨rfl, fun _ => here⟩
  | cons first others =>
    have behindFirst (c : Cursor) : c.startsWith (first :: others) = (c.isKeyword first &&
        (others.zipIdx 1).all fun (word, i) => c.isKeywordLikeAt i word) := by
      simp [Cursor.startsWith, zipIdx_succ, Function.comp_def]
    rw [behindFirst, behindFirst, ← here.isKeyword first]
    cases found : c.isKeyword first with
    | false => exact ⟨rfl, nofun⟩
    | true =>
      obtain ⟨agree, left⟩ := (behindKeyword (k := 0) here found).isKeywordLikeAll others
      refine ⟨agree, fun all => ?_⟩
      have left := left all
      rwa [Nat.sub_sub, Nat.zero_add, Nat.add_comm 1] at left

theorem endAt? (here : P.Inside n c d) (ends : Ends) : endAt? ends c = endAt? ends d := by
  have same : c.startsWith = d.startsWith := funext fun words => (here.startsWith words).1
  rw [Parser.endAt?, same, Parser.endAt?]

/-! ### Statements and their ends -/

theorem statement (here : P.Inside n c d) :
    Forall₂ (Token.Alike L) c.statement d.statement ∧ P.Between (n - 1) c.afterStatement d.afterStatement := by
  unfold Cursor.statement Cursor.afterStatement
  induction tokens : c.rest generalizing n c d with
  | nil =>
    obtain ⟨-, done⟩ | ⟨t, -, next, -⟩ := here.next
    · rw [Cursor.rest_of_peek?_none done]
      refine ⟨.nil, ?_⟩
      have stays : P.Between (n - 1) c d := ⟨here.settle.stands, by simp [tokens]⟩
      rwa [show c = { c with rest := [] } from tokens ▸ rfl,
        show d = { d with rest := [] } from Cursor.rest_of_peek?_none done ▸ rfl] at stays
    · simp [Cursor.peek?, tokens] at next
  | cons t rest ih =>
    obtain ⟨done, -⟩ | ⟨t', u, next, next', looks⟩ := here.next
    · simp [Cursor.peek?, tokens] at done
    obtain rfl : t = t' := by simpa [Cursor.peek?, tokens] using next
    have left : (c.advance 1).rest = rest := by simp [Cursor.advance, tokens]
    rw [Cursor.rest_of_peek? next']
    cases found : t.isTerminator with
    | true =>
      have found' := looks.isTerminator.symm.trans found
      simp only [takeWhile_cons, dropWhile_cons, found, found', Bool.not_true, Bool.false_eq_true, if_false]
      refine ⟨.nil, ?_⟩
      have leaves := here.leave
      simpa only [Cursor.skipTerminator, found, found', if_true, Cursor.advance, left, tokens, drop_succ_cons,
        drop_zero] using leaves
    | false =>
      have found' := looks.isTerminator.symm.trans found
      simp only [takeWhile_cons, dropWhile_cons, found, found', Bool.not_false, if_true]
      obtain ⟨taken, leaves⟩ := ih (here.pass next found) left
      exact ⟨.cons (here.alike next next' found) taken, leaves.mono (Nat.sub_le ..)⟩

theorem lineTokens (here : P.Inside n c d) :
    AlikeLines L true c.lineTokens d.lineTokens ∧ P.Between n c.afterLine d.afterLine := by
  obtain ⟨taken, left⟩ := P.lineTokens here.stands
  have shorter : c.afterLine.rest.length ≤ c.rest.length :=
    Nat.le_trans (Cursor.length_skipTerminator _) (dropWhile_suffix _).length_le
  exact ⟨taken, left, Nat.le_trans shorter here.short⟩

theorem advance (here : P.Inside n c d) {count : Nat} (within : count ≤ c.statement.length) :
    P.Inside (n - count) (c.advance count) (d.advance count) := by
  induction count with
  | zero => exact here
  | succ count ih =>
    refine (ih (Nat.le_of_succ_le within)).behind (q := (!·.isTerminator)) (by simp) ?_
    · have member : c.statement[count] ∈ c.rest.takeWhile (!·.isTerminator) := getElem_mem _
      have found : c.rest[count]? = some c.statement[count] := by
        obtain ⟨later, same⟩ : c.statement <+: c.rest := takeWhile_prefix _
        rw [← same, getElem?_append_left (Nat.lt_of_succ_le within)]
        exact getElem?_eq_getElem _
      rw [Cursor.holdsAt, Cursor.peekAt?, found, Option.any_some]
      exact mem_takeWhile_imp (p := (!Token.isTerminator ·)) member

end Inside

/-! ### Parsers -/

variable {α β γ δ : Type}

/-- Both runs end with answers and cursors that are related, or both fail alike. If the pace is not strict, nothing is
said where the first run fails. -/
inductive Ended (P : Pace L) (Q : α → β → Cursor → Cursor → Prop) :
    EStateM.Result Fault Reader α → EStateM.Result Fault Reader β → Prop where
  | ok {a : α} {b : β} {r s : Reader} (related : Q a b r.cursor s.cursor) : Ended P Q (.ok a r) (.ok b s)
  | error {f g : Fault} {r s : Reader} (alike : f.Alike L g) : Ended P Q (.error f r) (.error g s)
  | dropped {f : Fault} {r : Reader} {other : EStateM.Result Fault Reader β} (lenient : ¬P.strict) :
    Ended P Q (.error f r) other

/-- The parsers keep pace from these cursors on, whatever has been recognised before. -/
def Follows (P : Pace L) (p : Parser α) (q : Parser β) (c d : Cursor) (Q : α → β → Cursor → Cursor → Prop) : Prop :=
  ∀ log log', P.Ended Q (p ⟨c, log⟩) (q ⟨d, log'⟩)

section Steps

variable {Q : α → β → Cursor → Cursor → Prop} {R : γ → δ → Cursor → Cursor → Prop} {p : Parser α} {q : Parser β}
  {next : α → Parser γ} {next' : β → Parser δ} {f g : Fault}

theorem follows_pure {a : α} {b : β} (related : Q a b c d) : P.Follows (pure a) (pure b) c d Q :=
  fun _ _ => .ok related

theorem follows_throw (alike : f.Alike L g) : P.Follows (throw f) (throw g) c d Q :=
  fun _ _ => .error alike

theorem Follows.bind (first : P.Follows p q c d Q)
    (later : ∀ {a b r s}, Q a b r s → P.Follows (next a) (next' b) r s R) :
    P.Follows (p >>= next) (q >>= next') c d R := by
  intro log log'
  have ended := first log log'
  show P.Ended R (EStateM.bind p next _) (EStateM.bind q next' _)
  unfold EStateM.bind
  generalize p ⟨c, log⟩ = one at ended ⊢
  generalize q ⟨d, log'⟩ = other at ended ⊢
  cases ended with
  | ok related => exact later related _ _
  | error alike => exact .error alike
  | dropped lenient => exact .dropped lenient

theorem Follows.mono {R : α → β → Cursor → Cursor → Prop} (first : P.Follows p q c d Q)
    (weaker : ∀ {a b r s}, Q a b r s → R a b r s) : P.Follows p q c d R := by
  intro log log'
  have ended := first log log'
  generalize p ⟨c, log⟩ = one at ended ⊢
  generalize q ⟨d, log'⟩ = other at ended ⊢
  cases ended with
  | ok related => exact .ok (weaker related)
  | error alike => exact .error alike
  | dropped lenient => exact .dropped lenient

theorem Follows.exists_ok (follows : P.Follows p q c d Q) {log : List Construct} {a : α} {r : Reader}
    (ran : p ⟨c, log⟩ = .ok a r) (log' : List Construct) : ∃ b s, q ⟨d, log'⟩ = .ok b s ∧ Q a b r.cursor s.cursor := by
  have ended := follows log log'
  rw [ran] at ended
  generalize q ⟨d, log'⟩ = other at ended ⊢
  cases ended with
  | ok related => exact ⟨_, _, rfl, related⟩

theorem follows_of_ok (lenient : ¬P.strict)
    (each : ∀ {log log' a r}, p ⟨c, log⟩ = .ok a r → ∃ b s, q ⟨d, log'⟩ = .ok b s ∧ Q a b r.cursor s.cursor) :
    P.Follows p q c d Q := by
  intro log log'
  cases ran : p ⟨c, log⟩ with
  | error => exact .dropped lenient
  | ok a r =>
    obtain ⟨b, s, other, related⟩ := each ran
    rw [other]
    exact .ok related

theorem follows_view {f : Cursor → α} {g : Cursor → β} (later : P.Follows (next (f c)) (next' (g d)) c d R) :
    P.Follows (view f >>= next) (view g >>= next') c d R :=
  later

theorem follows_ask {f : Cursor → α} {next' : α → Parser δ} (same : f c = f d)
    (later : P.Follows (next (f c)) (next' (f c)) c d R) : P.Follows (view f >>= next) (view f >>= next') c d R := by
  refine follows_view ?_
  rw [← same]
  exact later

theorem follows_move {f g : Cursor → Cursor} {next : Unit → Parser γ} {next' : Unit → Parser δ}
    (later : P.Follows (next ()) (next' ()) (f c) (g d) R) : P.Follows (move f >>= next) (move g >>= next') c d R :=
  later

theorem follows_lift {x : Except Fault α} {y : Except Fault β} {S : α → β → Prop} (results : L.Results S x y)
    (later : ∀ {a b}, S a b → P.Follows (next a) (next' b) c d R) :
    P.Follows (lift x >>= next) (lift y >>= next') c d R := by
  cases results with
  | ok related => exact later related
  | error alike => exact fun _ _ => .error alike

theorem follows_check {cond : Prop} [Decidable cond] {next : α → Parser γ} {next' : α → Parser δ} {p : Parser γ}
    {q : Parser δ} (alike : f.Alike L g) (passed : ¬cond → P.Follows p q c d R) :
    P.Follows (if cond then throw f >>= next else p) (if cond then throw g >>= next' else q) c d R := by
  split
  · exact fun _ _ => .error alike
  next holds => exact passed holds

theorem follows_guard {test : Cursor → Bool} {R : Option γ → Option δ → Cursor → Cursor → Prop}
    {p : Parser (Option γ)} {q : Parser (Option δ)} (same : test c = test d) (declined : R none none c d)
    (here : test c = true → P.Follows p q c d R) :
    P.Follows (view test >>= fun found => if !found then pure none else p)
      (view test >>= fun found => if !found then pure none else q) c d R := by
  refine follows_ask same ?_
  cases found : test c with
  | false => exact follows_pure declined
  | true => exact here found

theorem follows_takeStatement (here : P.Inside n c d) :
    P.Follows takeStatement takeStatement c d fun tokens others r s =>
      Forall₂ (Token.Alike L) tokens others ∧ P.Between (n - 1) r s :=
  follows_view (follows_move (follows_pure here.statement))

theorem follows_takeLine (here : P.Inside n c d) :
    P.Follows takeLine takeLine c d fun tokens others r s =>
      tokens.length ≤ n ∧ AlikeLines L true tokens others ∧ P.Between n r s :=
  follows_view <| follows_move <| follows_pure
    ⟨Nat.le_trans ( takeWhile_prefix _).length_le here.short, here.lineTokens⟩

theorem follows_next? (here : P.Inside n c d) :
    P.Follows next? next? c d fun x y r s =>
      Option.Rel (Token.Resembles L) x y ∧ x = c.peek? ∧ y = d.peek? ∧ r = c.advance 1 ∧ s = d.advance 1 :=
  follows_view (follows_move (follows_pure ⟨(P.expects here.stands).heads, rfl, rfl, rfl, rfl⟩))

theorem follows_expect {test : Token → Bool} (what : String) (here : P.Inside n c d)
    (agree : ∀ {t u : Token}, t.Resembles L u → test t = test u) (stays : ∀ t, test t = true → t.isTerminator = false) :
    P.Follows (expect test what) (expect test what) c d fun t u r s =>
      t.Alike L u ∧ 0 < n ∧ P.Inside (n - 1) r s := by
  refine follows_view ?_
  have line := here.line
  obtain ⟨done, done'⟩ | ⟨t, u, next, next', looks⟩ := here.next
  · rw [done, done']
    exact follows_view (follows_throw (.malformed (by omega) rfl))
  · simp only [next, next', agree looks]
    split
    next passes =>
      have goesOn := stays t ((agree looks).trans passes)
      exact follows_move (follows_pure ⟨here.alike next next' goesOn, here.pos next, here.pass next goesOn⟩)
    next =>
      exact follows_throw (.malformed looks.lineNumber (by simp only [Problem.mapText, Option.map_some, looks.text]))

theorem follows_expectName (here : P.Inside n c d) :
    P.Follows expectName expectName c d fun t u r s => t.Alike L u ∧ 0 < n ∧ P.Inside (n - 1) r s :=
  follows_expect _ here (fun alike => alike.isNameLike) fun _ => Token.isTerminator_of_isNameLike

theorem follows_expectTerminator_of (here : Expects L P.between c d) (short : c.rest.length ≤ n) :
    P.Follows expectTerminator expectTerminator c d fun _ _ r s => P.Between n r s := by
  obtain ⟨heads, settle, leave⟩ := here
  refine follows_view ?_
  generalize c.peek? = one at heads ⊢
  generalize d.peek? = other at heads ⊢
  cases heads with
  | none => exact follows_pure ⟨settle, short⟩
  | some looks =>
    simp only [looks.isTerminator]
    split
    · exact fun _ _ => .ok ⟨leave, Nat.le_trans (by simp [Cursor.advance]) short⟩
    · exact follows_throw (.malformed looks.lineNumber (by simp only [Problem.mapText, looks.text]))

theorem follows_expectTerminator (here : P.Inside n c d) :
    P.Follows expectTerminator expectTerminator c d fun _ _ r s => P.Between n r s :=
  follows_expectTerminator_of (P.expects here.stands) here.short

theorem follows_expression {tokens others : List Token} {l l' : Nat} {next : Expr → Parser γ} {next' : Expr → Parser δ}
    (alike : Forall₂ (Token.Alike L) tokens others) (lines : l' = l + L.shift)
    (later : ∀ {e f}, e.Alike L f → P.Follows (next e) (next' f) c d R) :
    P.Follows (expression tokens l >>= next) (expression others l' >>= next') c d R :=
  follows_lift (Expr.read_alike alike lines) later

end Steps

end Pace
end VbSharp
