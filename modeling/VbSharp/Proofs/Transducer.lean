import VbSharp.Transducer

/-!
# Runs in parts

A run over a list can be cut anywhere: the items before the cut take the machine to a state, and the run
goes on from there. The steps before the cut see the items behind it. Where they do not look that far, what
stands behind the cut does not matter to them, and the two parts can be run for themselves.
-/
namespace VbSharp.Transducer

open List

variable {σ α β ε : Type}

/-- What some items make of a state: the output so far and the state behind them. The machine also sees the
items of `rest`, which stand behind them. -/
def feed (m : Transducer σ α β ε) (rest : List α) (s : σ) : List α → Except ε (List β × σ)
  | [] => .ok ([], s)
  | a :: items => do
    let (out, next) ← m.step s a (items ++ rest)
    let (more, last) ← m.feed rest next items
    return (out ++ more, last)

variable {m : Transducer σ α β ε} {s next last : σ} {rest items : List α} {out : List β}

theorem feed_cons_ok_iff {a : α} : m.feed rest s (a :: items) = .ok (out, last) ↔
    ∃ first next more, m.step s a (items ++ rest) = .ok (first, next) ∧
      m.feed rest next items = .ok (more, last) ∧ out = first ++ more := by
  rw [feed]
  cases m.step s a (items ++ rest) with
  | error fault => simp [bind, Except.bind]
  | ok result =>
    obtain ⟨first, next⟩ := result
    simp only [bind, Except.bind, Except.ok.injEq, Prod.mk.injEq]
    cases fed : m.feed rest next items with
    | error fault =>
      constructor
      · rintro ⟨⟩
      · rintro ⟨_, _, more, ⟨rfl, rfl⟩, later, -⟩
        simp [fed] at later
    | ok result =>
      obtain ⟨more, final⟩ := result
      constructor
      · rintro ⟨rfl, rfl⟩
        exact ⟨first, next, more, ⟨rfl, rfl⟩, fed, rfl⟩
      · rintro ⟨_, _, _, ⟨rfl, rfl⟩, later, rfl⟩
        obtain ⟨rfl, rfl⟩ : more = _ ∧ final = last := by simpa [fed] using later
        rfl

/-- The run over all items goes on where the first of them have led. -/
theorem run_append (fed : m.feed rest s items = .ok (out, next)) :
    m.run s (items ++ rest) = (m.run next rest).map (out ++ ·) := by
  induction items generalizing s out with
  | nil =>
    obtain ⟨rfl, rfl⟩ : [] = out ∧ s = next := by simpa [feed] using fed
    rw [nil_append]
    cases m.run s rest <;> rfl
  | cons a items ih =>
    obtain ⟨first, between, more, stepped, later, rfl⟩ := feed_cons_ok_iff.mp fed
    rw [cons_append, run_cons, stepped]
    simp only [Except.bind, ih later]
    cases m.run next rest <;> simp [Except.map]

/-- A run that succeeds has passed over all items and then ended. -/
theorem run_ok_iff {written : List β} : m.run s items = .ok written ↔
    ∃ out next last, m.feed [] s items = .ok (out, next) ∧ m.finish next = .ok last ∧ written = out ++ last := by
  constructor
  · intro ok
    induction items generalizing s written with
    | nil => exact ⟨[], s, written, rfl, by rwa [run_nil] at ok, rfl⟩
    | cons a items ih =>
      rw [run_cons] at ok
      cases stepped : m.step s a items with
      | error fault => simp [stepped, Except.bind] at ok
      | ok result =>
        obtain ⟨first, next⟩ := result
        cases ran : m.run next items with
        | error fault => simp [stepped, Except.bind, Except.map, ran] at ok
        | ok later =>
          obtain rfl : first ++ later = written := by
            simpa [stepped, Except.bind, Except.map, ran] using ok
          obtain ⟨more, final, ending, fed, ended, rfl⟩ := ih ran
          refine ⟨first ++ more, final, ending, ?_, ended, by simp⟩
          exact feed_cons_ok_iff.mpr ⟨first, next, more, by simpa using stepped, fed, rfl⟩
  · rintro ⟨out, next, last, fed, ended, rfl⟩
    have ran := run_append fed
    rw [append_nil, run_nil, ended] at ran
    exact ran

/-- What holds at first and is kept by every step holds behind the items. The property may look at what has been
written and at what is still to be read. -/
theorem feed_invariant {P : List β → σ → List α → Prop} (keeps : ∀ {done s a ahead out next}, P done s (a :: ahead) →
    m.step s a ahead = .ok (out, next) → P (done ++ out) next ahead) (start : P [] s (items ++ rest))
    (fed : m.feed rest s items = .ok (out, next)) : P out next rest := by
  rw [← nil_append out]
  generalize ([] : List β) = done at start ⊢
  induction items generalizing s done out with
  | nil =>
    obtain ⟨rfl, rfl⟩ : [] = out ∧ s = next := by simpa [feed] using fed
    simpa using start
  | cons a items ih =>
    obtain ⟨first, between, more, stepped, later, rfl⟩ := feed_cons_ok_iff.mp fed
    rw [← append_assoc]
    exact ih later _ (keeps start stepped)

theorem feed_append_ok_iff {front back : List α} : m.feed rest s (front ++ back) = .ok (out, last) ↔
    ∃ first next more, m.feed (back ++ rest) s front = .ok (first, next) ∧
      m.feed rest next back = .ok (more, last) ∧ out = first ++ more := by
  induction front generalizing s out with
  | nil =>
    constructor
    · intro fed
      exact ⟨[], s, out, rfl, fed, rfl⟩
    · rintro ⟨_, _, more, ⟨⟩, fed, rfl⟩
      exact fed
  | cons a front ih =>
    rw [cons_append, feed_cons_ok_iff]
    simp only [append_assoc, ih, feed_cons_ok_iff]
    constructor
    · rintro ⟨first, between, _, stepped, ⟨second, next, more, fed, later, rfl⟩, rfl⟩
      exact ⟨first ++ second, next, more, ⟨first, between, second, stepped, fed, rfl⟩, later, by simp⟩
    · rintro ⟨_, next, more, ⟨first, between, second, stepped, fed, rfl⟩, later, rfl⟩
      exact ⟨first, between, second ++ more, stepped, ⟨second, next, more, fed, later, rfl⟩, by simp⟩

/-! ### Items that bound the view -/

/-- No step looks past the item, neither from before it nor from the item itself. -/
structure Bounds (m : Transducer σ α β ε) (stop : α) : Prop where
  before : ∀ s a items rest, m.step s a (items ++ stop :: rest) = m.step s a (items ++ [stop])
  here : ∀ s rest, m.step s stop rest = m.step s stop []

theorem Bounds.feed_eq {stop : α} (bounds : m.Bounds stop) (s : σ) (rest items : List α) :
    m.feed rest s (items ++ [stop]) = m.feed [] s (items ++ [stop]) := by
  induction items generalizing s with
  | nil => simp only [nil_append, feed, bounds.here s rest]
  | cons a items ih =>
    have same := bounds.before s a items rest
    simp only [cons_append, feed, append_assoc, nil_append, append_nil, same, ih]

end VbSharp.Transducer
