import VbSharp.Proofs.Token.NumeralSign
import VbSharp.Proofs.Token.SignRun

/-!
# The token passes at a line end

No numeral, no run of signs and no comparison operator reaches over the end of a statement. Behind it both
passes are where they started, so tokens that end with it and the tokens after them can be joined and combined
apart.
-/
namespace VbSharp

open List

/-! ### Numerals -/

namespace Numeral

variable {stop : Token} (isEnd : stop.isTerminator = true)
include isEnd

theorem idleStep_terminator (signed : Bool) : idleStep signed stop = ([stop], .idle true) := by
  have kind : stop.kind = .terminator := by simpa [Token.isTerminator] using isEnd
  simp [idleStep, isMinus, kind, Token.mayPrecedeSign, Kind.mayPrecedeSign, Kind.isOperator]

/-- Whatever numeral was open, none is behind the end of a statement. -/
theorem step_terminator {s next : State} {out : List Token} (ok : step s stop = .ok (out, next)) :
    next = .idle true := by
  have kind : stop.kind = .terminator := by simpa [Token.isTerminator] using isEnd
  have released {parts : List Token} (same : release parts stop = (out, next)) : next = .idle true := by
    rw [release_eq, idleStep_terminator isEnd] at same
    exact (Prod.mk.inj same).2.symm
  have closed {parts : List Token} (same : close parts stop = .ok (out, next)) : next = .idle true := by
    obtain ⟨number, -, -, rfl⟩ := close_ok_iff.mp same
    rw [idleStep_terminator isEnd]
  cases s with
  | idle signed =>
    rw [step, idleStep_terminator isEnd] at ok
    exact (Prod.mk.inj (Except.ok.inj ok)).2.symm
  | minus sign =>
    simp only [step, kind, reduceCtorEq, false_and, if_false] at ok
    exact released (Except.ok.inj ok)
  | whole parts =>
    simp only [step, kind, reduceCtorEq, if_false] at ok
    exact closed ok
  | fraction parts =>
    simp only [step, kind, reduceCtorEq, false_and, if_false] at ok
    split at ok
    · exact closed ok
    · exact released (Except.ok.inj ok)
  | exponentMark parts => simp [step, isSign, kind] at ok
  | exponentSign parts => simp [step, kind] at ok

/-- The tokens behind the end of a statement are joined as if they stood alone. -/
theorem run_terminator (rest : List Token) {s : State} {front written : List Token}
    (ran : machine.run s (front ++ [stop]) = .ok written) :
    machine.run s (front ++ stop :: rest) = (machine.run (.idle true) rest).map (written ++ ·) := by
  induction front generalizing s written with
  | nil =>
    obtain ⟨out, next, last, stepped, ended, rfl⟩ := (run_cons_iff _ _ _ _).mp ran
    obtain rfl := step_terminator isEnd stepped
    obtain rfl : [] = last := Except.ok.inj ((Transducer.run_nil machine (.idle true)).symm.trans ended)
    have stepped : machine.step s stop rest = .ok (out, .idle true) := stepped
    rw [nil_append, Transducer.run_cons, stepped, append_nil]
    rfl
  | cons t front ih =>
    obtain ⟨out, next, later, stepped, ended, rfl⟩ := (run_cons_iff _ _ _ _).mp ran
    have stepped : machine.step s t (front ++ stop :: rest) = .ok (out, next) := stepped
    rw [cons_append, Transducer.run_cons, stepped]
    simp only [Except.bind, ih ended]
    cases machine.run (.idle true) rest <;> simp [Except.map]

end Numeral

/-! ### Signs and comparisons -/

namespace Sign

/-- A token that is neither a sign nor a number comes out last if it comes last. -/
theorem combineRuns_last (leading : Bool) (run : Option Run) (front : List Token) {t : Token}
    (plain : Numeral.isSign t = false) (other : t.kind ≠ .number) :
    ∃ others, combineRuns leading run (front ++ [t]) = others ++ [t] := by
  induction front generalizing leading run with
  | nil =>
    cases run with
    | none => exact ⟨[], by simp [combineRuns, plain]⟩
    | some r =>
      exact ⟨if leading then r.prefixTokens else [r.infixToken], by simp [combineRuns, plain, other]⟩
  | cons u front ih =>
    obtain ⟨out, next, pending, step⟩ := combineRuns_cons leading run u
    obtain ⟨others, ends⟩ := ih next pending
    exact ⟨out ++ others, by rw [cons_append, step, ends, append_assoc]⟩

end Sign

/-! ### Both passes -/

section Passes

variable {stop : Token} (isEnd : stop.isTerminator = true) (front rest : List Token)
include isEnd

theorem joinNumerals_terminator {joined : List Token} (ok : joinNumerals (front ++ [stop]) = .ok joined) :
    joinNumerals (front ++ stop :: rest) = (joinNumerals rest).map (joined ++ ·) := by
  obtain ⟨written, ran, rfl⟩ := (joinNumerals_ok_iff _ _).mp ok
  rw [joinNumerals, Numeral.run_terminator isEnd rest ran, joinNumerals]
  cases Numeral.machine.run (.idle true) rest <;> simp [Except.map]

theorem combineOperators_terminator :
    (∃ others, combineOperators (front ++ [stop]) = others ++ [stop]) ∧ combineOperators (front ++ stop :: rest) =
        combineOperators (front ++ [stop]) ++ combineOperators rest := by
  have kind : stop.kind = .terminator := by simpa [Token.isTerminator] using isEnd
  have plain : Numeral.isSign stop = false := by simp [Numeral.isSign, kind]
  have due : stop.mayPrecedeSign = true := by
    simp [Token.mayPrecedeSign, Kind.mayPrecedeSign, kind]
  obtain ⟨others, ends⟩ := Sign.combineRuns_last true none front plain (by simp [kind])
  -- no comparison reaches over the terminator, neither from before it nor from the terminator itself
  have cut (later : List Token) : Sign.fuseComparisons (others ++ stop :: later) =
      Sign.fuseComparisons others ++ stop :: Sign.fuseComparisons later := by
    rw [Sign.fuseComparisons_append others later (by simp [kind])]
    exact congrArg _ (Sign.fuseComparisons_plain [stop] later (by simp [kind]))
  have alone : combineOperators (front ++ [stop]) = Sign.fuseComparisons others ++ [stop] := by
    rw [combineOperators, ends, cut]
    rfl
  refine ⟨⟨_, alone⟩, ?_⟩
  rw [alone, combineOperators, Sign.combineRuns_behind true none front rest plain (by simp [kind]), ends,
    due, append_assoc, singleton_append, cut, append_assoc]
  rfl

end Passes
end VbSharp
