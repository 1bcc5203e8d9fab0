import VbSharp.Token.Sign

/-!
# Runs of signs

What combining does to a run of signs, said for each place in which one can stand: between two operands it
becomes one operator, before a number it is folded in, and before any other operand a minus sign or nothing is
left of it. `Combines` says this of tokens that start where an operand is due and end behind one, whatever
follows them, so tokens can be put together from parts that were combined on their own.
-/
namespace VbSharp.Sign

open List

variable {t number start close : Token} {later out body left tokens inner a b right : List Token}

variable (leading : Bool) (r : Run) (first : Token) (run : Option Run)

/-- Whether an odd number of the signs is negative. -/
def negates : List Token → Bool
  | [] => false
  | t :: signs => isNegative t != negates signs

/-- The run that signs behind a first one make. -/
def runOf (first : Token) (signs : List Token) : Run :=
  signs.foldl Run.add (.ofSign first)

theorem foldl_add_negative (signs : List Token) (r : Run) :
    (signs.foldl Run.add r).negative = (r.negative != negates signs) := by
  induction signs generalizing r with
  | nil => simp [negates]
  | cons t signs ih => simp [ih, Run.add, negates]

theorem runOf_negative (signs : List Token) : (runOf first signs).negative = negates (first :: signs) :=
  foldl_add_negative signs _

theorem combineRuns_plain (plain : Numeral.isSign t = false) (rest : List Token) :
    combineRuns leading none (t :: rest) = t :: combineRuns t.mayPrecedeSign none rest := by
  simp [combineRuns, plain]

theorem combineRuns_signs (r : Run) (signs rest : List Token) (all : ∀ s ∈ signs, Numeral.isSign s = true) :
    combineRuns leading (some r) (signs ++ rest) = combineRuns leading (some (signs.foldl Run.add r)) rest := by
  induction signs generalizing r with
  | nil => rfl
  | cons s signs ih =>
    obtain ⟨first, others⟩ := forall_mem_cons.mp all
    simp [combineRuns, first, ih _ others]

theorem combineRuns_run (signs rest : List Token) (all : ∀ s ∈ first :: signs, Numeral.isSign s = true) :
    combineRuns leading none (first :: (signs ++ rest)) = combineRuns leading (some (runOf first signs)) rest := by
  obtain ⟨isSign, others⟩ := forall_mem_cons.mp all
  rw [runOf, ← combineRuns_signs leading _ signs rest others]
  simp [combineRuns, isSign]

/-! ### What is written for a run -/

/-- The digits of a number without its sign. -/
def magnitude (t : Token) : String :=
  String.ofList (t.text.toList.dropWhile (· == '-'))

/-- Whether a number has a sign of its own. -/
def isSigned (t : Token) : Bool :=
  t.text.toList.head? == some '-'

/-- A call of `CDbl` with the digits as its argument. -/
def converted (digits : String) (line : Nat) : List Token :=
  [.ofWord "CDbl" line, .ofWord "(" line, ⟨.number, digits, line⟩, .ofWord ")" line]

/-- What a number becomes behind a run: it is negative or not, and if not it may be wrapped in a call. -/
theorem applyTo_cases (t : Token) :
    (r.negative != isSigned t) = true ∧ r.applyTo t = [⟨.number, "-" ++ magnitude t, t.line⟩] ∨
    (r.negative != isSigned t) = false ∧ (r.applyTo t = converted (magnitude t) t.line ∨
      r.applyTo t = [⟨.number, magnitude t, t.line⟩]) := by
  cases negative : r.negative != isSigned t with
  | true =>
    left
    exact ⟨rfl, if_pos negative⟩
  | false =>
    right
    refine ⟨rfl, ?_⟩
    have nonnegative : ¬(r.negative != isSigned t) = true := by simp [negative]
    have positive : r.applyTo t = if 1 < (if isSigned t then r.count + 1 else r.count) then
        converted (magnitude t) t.line else [⟨.number, magnitude t, t.line⟩] := if_neg nonnegative
    rw [positive]
    by_cases several : 1 < (if isSigned t then r.count + 1 else r.count)
    · exact .inl (if_pos several)
    · exact .inr (if_neg several)

theorem leadsOperand_applyTo (t : Token) : leadsOperand true (r.applyTo t) = false := by
  rcases applyTo_cases r t with ⟨-, same⟩ | ⟨-, same | same⟩ <;> rw [same] <;> rfl

theorem combineRuns_number (number : t.kind = .number) (rest : List Token) :
    combineRuns true (some r) (t :: rest) = r.applyTo t ++ combineRuns false none rest := by
  have plain : Numeral.isSign t = false := by simp [Numeral.isSign, number]
  simp [combineRuns, plain, number, leadsOperand_applyTo]

/-! ### Behind other tokens -/

theorem combineRuns_cons (t : Token) : ∃ out next pending, ∀ rest,
    combineRuns leading run (t :: rest) = out ++ combineRuns next pending rest := by
  cases run with
  | none =>
    by_cases sign : Numeral.isSign t
    · exact ⟨[], leading, some (.ofSign t), fun rest => by simp [combineRuns, sign]⟩
    · exact ⟨[t], t.mayPrecedeSign, none, fun rest => by simp [combineRuns, sign]⟩
  | some r =>
    by_cases sign : Numeral.isSign t
    · exact ⟨[], leading, some (r.add t), fun rest => by simp [combineRuns, sign]⟩
    · by_cases number : (leading && t.kind == .number) = true
      · exact ⟨r.applyTo t, leadsOperand leading (r.applyTo t), none, fun rest => by simp [combineRuns, sign, number]⟩
      · exact ⟨(if leading then r.prefixTokens else [r.infixToken]) ++ [t], t.mayPrecedeSign, none,
          fun rest => by simp [combineRuns, sign, number]⟩

/-- A token that is neither a sign nor a number ends what came before it. -/
theorem exists_combineRuns (leading : Bool) (run : Option Run) (front : List Token) (plain : Numeral.isSign t = false)
    (other : t.kind ≠ .number) : ∃ before, ∀ rest,
      combineRuns leading run (front ++ t :: rest) = before ++ t :: combineRuns t.mayPrecedeSign none rest := by
  -- by induction on the tokens before it, over every state that they may leave
  induction front generalizing leading run with
  | nil =>
    cases run with
    | none => exact ⟨[], combineRuns_plain leading plain⟩
    | some r =>
      exact ⟨if leading then r.prefixTokens else [r.infixToken], fun rest => by simp [combineRuns, plain, other]⟩
  | cons u front ih =>
    obtain ⟨out, next, pending, step⟩ := combineRuns_cons leading run u
    obtain ⟨before, same⟩ := ih next pending
    exact ⟨out ++ before, fun rest => by simp only [cons_append, step, same, append_assoc]⟩

theorem combineRuns_behind (front rest : List Token) (plain : Numeral.isSign t = false) (other : t.kind ≠ .number) :
    combineRuns leading run (front ++ t :: rest) =
      combineRuns leading run (front ++ [t]) ++ combineRuns t.mayPrecedeSign none rest := by
  obtain ⟨before, same⟩ := exists_combineRuns leading run front plain other
  simp [same, combineRuns]

/-- What a number becomes behind a sign: the sign is an operator before it, or one of a run that is folded
in. -/
def IsFolded (number : Token) (folded : List Token) : Prop :=
  folded = [number] ∨ ∃ r : Run, 0 < r.count ∧ folded = r.applyTo number

theorem isFolded_of_run (positive : 0 < r.count) (kind : number.kind = .number) (rest : List Token) :
    ∃ written folded, IsFolded number folded ∧
      combineRuns leading (some r) (number :: rest) = written ++ (folded ++ combineRuns false none rest) := by
  cases leading with
  | true => exact ⟨[], r.applyTo number, .inr ⟨r, positive, rfl⟩, combineRuns_number r kind rest⟩
  | false =>
    have plain : Numeral.isSign number = false := by simp [Numeral.isSign, kind]
    have operand : number.mayPrecedeSign = false := by
      simp [Token.mayPrecedeSign, Kind.mayPrecedeSign, Kind.isOperator, kind]
    exact ⟨[r.infixToken], [number], .inl rfl, by simp [combineRuns, plain, operand]⟩

theorem combineRuns_behind_sign (leading : Bool) (run : Option Run) (front rest : List Token)
    (isSign : Numeral.isSign t = true) (kind : number.kind = .number) : ∃ written folded,
      IsFolded number folded ∧ combineRuns leading run (front ++ t :: number :: rest) =
        written ++ (folded ++ combineRuns false none rest) := by
  induction front generalizing leading run with
  | nil =>
    -- the sign opens a run or joins the one that is open; either way one is open at the number
    cases run with
    | none => simpa [combineRuns, isSign] using isFolded_of_run leading (.ofSign t) Nat.one_pos kind rest
    | some r => simpa [combineRuns, isSign] using isFolded_of_run leading (r.add t) (Nat.succ_pos _) kind rest
  | cons u front ih =>
    obtain ⟨out, next, pending, step⟩ := combineRuns_cons leading run u
    obtain ⟨written, folded, isFolded, same⟩ := ih next pending
    exact ⟨out ++ written, folded, isFolded, by rw [cons_append, step, same, append_assoc]⟩

/-! ### Combining part by part -/

/-- Tokens that start where an operand is due and end behind one are combined to other tokens. -/
def Combines (tokens out : List Token) : Prop :=
  ∀ rest, combineRuns true none (tokens ++ rest) = out ++ combineRuns false none rest

theorem combines_token (plain : Numeral.isSign t = false) (operand : t.mayPrecedeSign = false) : Combines [t] [t] := by
  intro rest
  rw [singleton_append, combineRuns_plain true plain, operand]
  rfl

theorem Combines.brackets (body : Combines inner out) (opens : start.kind = .openBracket)
    (closes : close.kind = .closeBracket) : Combines (start :: (inner ++ [close])) (start :: (out ++ [close])) := by
  intro rest
  have plainStart : Numeral.isSign start = false := by simp [Numeral.isSign, opens]
  have plainClose : Numeral.isSign close = false := by simp [Numeral.isSign, closes]
  have due : start.mayPrecedeSign = true := by simp [Token.mayPrecedeSign, Kind.mayPrecedeSign, opens]
  have done : close.mayPrecedeSign = false := by
    simp [Token.mayPrecedeSign, Kind.mayPrecedeSign, Kind.isOperator, closes]
  simp only [cons_append, append_assoc, nil_append]
  rw [combineRuns_plain true plainStart, due, body, combineRuns_plain false plainClose, done]

theorem Combines.join (first : Combines left a) (second : Combines right b) (operator : t.isOperator = true)
    (plain : Numeral.isSign t = false) : Combines (left ++ t :: right) (a ++ t :: b) := by
  intro rest
  have due : t.mayPrecedeSign = true := by
    simp [Token.mayPrecedeSign, Kind.mayPrecedeSign, show t.kind.isOperator = true from operator]
  simp only [append_assoc, cons_append]
  rw [first, combineRuns_plain false plain, due, second]

section Run

variable {sign : Token} {signs : List Token} (all : ∀ s ∈ sign :: signs, Numeral.isSign s = true)

include all

theorem Combines.joinRun (first : Combines left a) (second : Combines body b) (starts : body = t :: later)
    (plain : Numeral.isSign t = false) :
    Combines (left ++ sign :: (signs ++ body)) (a ++ (runOf sign signs).infixToken :: b) := by
  intro rest
  simp only [append_assoc, cons_append]
  rw [first, combineRuns_run false sign signs _ all, ← second, starts, cons_append]
  simp [combineRuns, plain]

/-- Before an operand that is no number a minus sign is left of a run, or nothing. -/
theorem Combines.underRun (operand : Combines body out) (starts : body = t :: later) (plain : Numeral.isSign t = false)
    (other : t.kind ≠ .number) : Combines (sign :: (signs ++ body)) ((runOf sign signs).prefixTokens ++ out) := by
  intro rest
  simp only [append_assoc, cons_append]
  rw [combineRuns_run true sign signs _ all, ← operand, starts, cons_append]
  simp [combineRuns, plain, other]

theorem combines_number (number : t.kind = .number) :
    Combines (sign :: (signs ++ [t])) ((runOf sign signs).applyTo t) := by
  intro rest
  simp only [append_assoc, cons_append, nil_append]
  rw [combineRuns_run true sign signs _ all, combineRuns_number _ number]

end Run

/-! ### Comparisons -/

theorem fused?_plain {a b : Token} (plain : a.kind ≠ .comparison ∨ b.kind ≠ .comparison) : fused? a b = none := by
  unfold fused?
  rw [if_neg (fun both => plain.elim (· both.1) (· both.2))]

theorem fuseComparisons_plain (tokens rest : List Token) (plain : ∀ t ∈ tokens, t.kind ≠ .comparison) :
    fuseComparisons (tokens ++ rest) = tokens ++ fuseComparisons rest := by
  induction tokens with
  | nil => rfl
  | cons a tokens ih =>
    obtain ⟨first, others⟩ := forall_mem_cons.mp plain
    rw [cons_append, cons_append, ← ih others]
    cases tokens ++ rest with
    | nil => rfl
    | cons b later => simp [fuseComparisons, fused?_plain (.inl first)]

theorem fuseComparisons_append (tokens rest : List Token) (plain : t.kind ≠ .comparison) :
    fuseComparisons (tokens ++ t :: rest) = fuseComparisons tokens ++ fuseComparisons (t :: rest) := by
  induction tokens using fuseComparisons.induct with
  | case1 a b others fused joined ih => simp [fuseComparisons, joined, ih]
  | case2 a b others apart ih =>
    simp only [cons_append] at ih ⊢
    simp [fuseComparisons, apart, ih]
  | case3 tokens short =>
    match tokens, short with
    | [], _ => rfl
    | [a], _ => simp [fuseComparisons, fused?_plain (.inr plain)]
    | a :: b :: others, short => exact absurd rfl (short a b others)

/-- Tokens without comparisons are combined to what their parts are. -/
theorem Combines.combineOperators (combines : Combines tokens out) (plain : ∀ t ∈ out, t.kind ≠ .comparison) :
    VbSharp.combineOperators tokens = out := by
  have whole := combines []
  simp only [append_nil, combineRuns] at whole
  have same := fuseComparisons_plain out [] plain
  rw [append_nil] at same
  rw [VbSharp.combineOperators, whole, same]
  exact append_nil out

end VbSharp.Sign
