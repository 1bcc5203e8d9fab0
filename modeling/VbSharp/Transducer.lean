/-!
# Machines that read a list and write another

A machine takes one item at a time, with a view of the items after it, writes some output and passes to
its next state. At the end of the list it writes what is left. A fault stops it and its output is lost.
-/
namespace VbSharp

/-- A machine with states `σ` that reads items `α` and writes items `β`, or fails with `ε`. -/
structure Transducer (σ α β ε : Type) where
  /-- What one item does; the list holds the items after it. -/
  step : σ → α → List α → Except ε (List β × σ)
  /-- What the end of the list does. -/
  finish : σ → Except ε (List β)

namespace Transducer

variable {σ α β ε : Type}

/-- Runs the machine; `done` holds the output so far, the last item first. -/
def runFrom (m : Transducer σ α β ε) (done : List β) (s : σ) : List α → Except ε (List β)
  | [] =>
    match m.finish s with
    | .ok out => .ok (done.reverse ++ out)
    | .error fault => .error fault
  | a :: rest =>
    match m.step s a rest with
    | .ok (out, next) => m.runFrom (out.reverse ++ done) next rest
    | .error fault => .error fault

def run (m : Transducer σ α β ε) (s : σ) (items : List α) : Except ε (List β) :=
  m.runFrom [] s items

theorem runFrom_eq (m : Transducer σ α β ε) (done : List β) (s : σ) (items : List α) :
    m.runFrom done s items = (m.run s items).map (done.reverse ++ ·) := by
  induction items generalizing done s with
  | nil =>
    simp only [run, runFrom]
    cases m.finish s <;> simp [Except.map]
  | cons a rest ih =>
    simp only [run, runFrom]
    cases m.step s a rest with
    | error fault => rfl
    | ok result =>
      obtain ⟨out, next⟩ := result
      simp only []
      rw [ih, ih (out.reverse ++ [])]
      cases m.run next rest <;> simp [Except.map]

theorem run_nil (m : Transducer σ α β ε) (s : σ) : m.run s [] = m.finish s := by
  simp only [run, runFrom]
  cases m.finish s <;> simp

/-- The output of a list is that of its first item and then that of the others. -/
theorem run_cons (m : Transducer σ α β ε) (s : σ) (a : α) (rest : List α) :
    m.run s (a :: rest) =
      (m.step s a rest).bind fun (out, next) => (m.run next rest).map (out ++ ·) := by
  rw [run, runFrom]
  cases m.step s a rest with
  | error fault => rfl
  | ok result =>
    obtain ⟨out, next⟩ := result
    simp only [Except.bind]
    rw [runFrom_eq]
    simp

end Transducer
end VbSharp
