import Mathlib.Data.List.Chain
import Mathlib.Tactic.SplitIfs
import VbSharp.Proofs.Token.Due
import VbSharp.Proofs.Token.SignRun

/-!
# The normal form of operators

Combined tokens have no two signs in a row, no plus sign where an operand is due, no sign there that a number could
take in, and no comparison operator in two pieces. These are exactly the tokens that combining leaves alone.

The two passes are looked at one after the other: what the first brings about for signs, the second keeps, since it
puts a comparison operator where two of them stood.
-/
namespace VbSharp.Sign

open List

variable {t b a joined : Token} {tokens rest : List Token} {leading : Bool}

def isPlus (t : Token) : Bool :=
  t.kind == .arithmetic && t.text == "+"

/-- The pairs of marks that are one comparison operator. -/
def splitMarks : List (String × String) :=
  [("<", ">"), ("<", "="), (">", "=")]

/-- Two comparison marks that are one operator. -/
def IsSplit (a b : Token) : Prop :=
  a.kind = .comparison ∧ b.kind = .comparison ∧ (a.text, b.text) ∈ splitMarks

/-- Tokens with nothing to combine. An operand is due at the start and behind a token that may precede a sign. -/
structure IsNormal (tokens : List Token) : Prop where
  single : ∀ front a b rest, tokens = front ++ a :: b :: rest → Numeral.isSign a = true → Numeral.isSign b = false
  needed : ∀ front t rest, tokens = front ++ t :: rest → leadsOperand true front = true → isPlus t = false
  folded : ∀ front t next rest, tokens = front ++ t :: next :: rest → leadsOperand true front = true →
    Numeral.isSign t = true → next.kind ≠ .number
  whole : ∀ front a b rest, tokens = front ++ a :: b :: rest → ¬ IsSplit a b

/-! ### Signs -/

theorem isSign_of_isPlus (plus : isPlus t = true) : Numeral.isSign t = true := by
  simp only [isPlus, Bool.and_eq_true, beq_iff_eq] at plus
  simp [Numeral.isSign, plus]

theorem isPlus_of_not_isSign (plain : Numeral.isSign t = false) : isPlus t = false := by
  by_contra plus
  rw [Bool.not_eq_false] at plus
  rw [isSign_of_isPlus plus] at plain
  cases plain

theorem isSign_of_kind (other : t.kind ≠ .arithmetic) : Numeral.isSign t = false := by
  simp [Numeral.isSign, other]

/-- Nothing is to be done with a token, as far as it is a sign, given the token behind it. -/
def Rests (leading : Bool) (t : Token) (next : Option Token) : Prop :=
  (leading = true → isPlus t = false) ∧
    (Numeral.isSign t = true → ∀ b ∈ next, Numeral.isSign b = false ∧ (leading = true → b.kind ≠ .number))

theorem rests_plain (plain : Numeral.isSign t = false) (leading : Bool) (next : Option Token) : Rests leading t next :=
  ⟨fun _ => isPlus_of_not_isSign plain, fun sign => absurd sign (by simp [plain])⟩

/-- Nothing is to be done with any of the tokens, as far as they are signs. -/
def SignsRest : Bool → List Token → Prop :=
  Each Rests

theorem signsRest_append_plain (leading : Bool) (tokens : List Token) (plain : ∀ t ∈ tokens, Numeral.isSign t = false)
    (later : SignsRest (leadsOperand leading tokens) rest) : SignsRest leading (tokens ++ rest) := by
  induction tokens generalizing leading with
  | nil => exact later
  | cons t tokens ih =>
    obtain ⟨first, others⟩ := forall_mem_cons.mp plain
    rw [leadsOperand_cons] at later
    exact ⟨rests_plain first _ _, ih _ others later⟩

theorem isSign_applyTo (r : Run) (number : Token) : ∀ t ∈ r.applyTo number, Numeral.isSign t = false := by
  rcases applyTo_cases r number with ⟨-, same⟩ | ⟨-, same | same⟩
  · rw [same, forall_mem_singleton]
    rfl
  · -- a call of `CDbl` is a name and a number in brackets
    have name : (Token.ofWord "CDbl" number.line).kind = .name := by
      show Kind.ofWord "CDbl" = .name
      decide +kernel
    have opening : (Token.ofWord "(" number.line).kind = .openBracket := by
      show Kind.ofWord "(" = .openBracket
      decide +kernel
    have closing : (Token.ofWord ")" number.line).kind = .closeBracket := by
      show Kind.ofWord ")" = .closeBracket
      decide +kernel
    rw [same, converted]
    simp only [forall_mem_cons, not_mem_nil, false_imp_iff, implies_true, and_true]
    exact ⟨isSign_of_kind (by simp [name]), isSign_of_kind (by simp [opening]), rfl, isSign_of_kind (by simp [closing])⟩
  · rw [same, forall_mem_singleton]
    rfl

/-- What is left of a run rests before a token that neither is a sign nor takes the run in. -/
theorem signsRest_run (leading : Bool) (r : Run)
    (plain : ∀ t ∈ tokens.head?, Numeral.isSign t = false ∧ (leading = true → t.kind ≠ .number))
    (later : SignsRest true tokens) :
    SignsRest leading ((if leading then r.prefixTokens else [r.infixToken]) ++ tokens) := by
  cases leading with
  | false =>
    exact ⟨⟨nofun, fun _ b behind => plain b behind⟩, later⟩
  | true =>
    rw [if_pos rfl, Run.prefixTokens]
    split
    · exact ⟨⟨fun _ => rfl, fun _ b behind => plain b behind⟩, later⟩
    · exact later

/-- The first pass leaves signs only where they are needed. The induction is on the tokens, over every run that may be
open before them. -/
theorem signsRest_combineRuns (leading : Bool) (run : Option Run) (tokens : List Token) :
    SignsRest leading (combineRuns leading run tokens) := by
  induction tokens generalizing leading run with
  | nil =>
    cases run with
    | none => trivial
    | some r =>
      have rest : SignsRest leading ((if leading then r.prefixTokens else [r.infixToken]) ++ []) :=
        signsRest_run leading r nofun trivial
      simpa [combineRuns] using rest
  | cons t tokens ih =>
    by_cases sign : Numeral.isSign t = true
    · -- the sign opens a run or joins the one that is open
      cases run with
      | none => simpa [combineRuns, sign] using ih leading _
      | some r => simpa [combineRuns, sign] using ih leading _
    · have plain : Numeral.isSign t = false := by simpa using sign
      cases run with
      | none =>
        rw [combineRuns_plain leading plain]
        exact ⟨rests_plain plain _ _, ih _ _⟩
      | some r =>
        by_cases number : (leading && t.kind == .number) = true
        · simp only [combineRuns, plain, number]
          exact signsRest_append_plain leading _ (isSign_applyTo r t) (ih _ _)
        · simp only [combineRuns, plain, number]
          refine signsRest_run leading r ?_ ⟨rests_plain plain _ _, ih _ _⟩
          rintro u ⟨⟩
          refine ⟨plain, fun due kind => number ?_⟩
          rw [due, kind]
          rfl

/-- A single sign is written as it stands, unless it is a plus sign where an operand is due. -/
theorem run_ofSign (sign : Numeral.isSign t = true) (needed : leading = true → isPlus t = false) :
    (if leading then (Run.ofSign t).prefixTokens else [(Run.ofSign t).infixToken]) = [t] := by
  obtain ⟨kind, text, line⟩ := t
  obtain ⟨rfl, rfl | rfl⟩ : kind = .arithmetic ∧ (text = "+" ∨ text = "-") := by simpa [Numeral.isSign] using sign
  · -- a plus sign stands between operands
    cases leading with
    | false => rfl
    | true => exact absurd (needed rfl) (by simp [isPlus])
  · cases leading <;> rfl

theorem combineRuns_of_signsRest (rests : SignsRest leading tokens) : combineRuns leading none tokens = tokens := by
  induction tokens generalizing leading with
  | nil => rfl
  | cons t tokens ih =>
    obtain ⟨⟨needed, apart⟩, later⟩ := rests
    by_cases sign : Numeral.isSign t = true
    · have single := run_ofSign sign needed
      cases tokens with
      | nil => simpa [combineRuns, sign] using single
      | cons b tokens =>
        obtain ⟨plain, other⟩ := apart sign b rfl
        -- the run ends before `b`, and `b` is passed on as it would be without the run
        have behind := ih later
        rw [combineRuns_plain _ plain] at behind
        have operand : (leading && b.kind == .number) = false := by
          cases leading with
          | false => rfl
          | true => simpa using other rfl
        simp only [combineRuns, sign, plain, operand, if_true, Bool.false_eq_true, if_false]
        rw [single, behind]
        rfl
    · rw [combineRuns_plain leading (by simpa using sign), ih later]

/-! ### Comparisons -/

theorem fused?_eq_none_iff : fused? a b = none ↔ ¬ IsSplit a b := by
  unfold fused? IsSplit splitMarks
  split_ifs <;> simp_all

/-- A comparison operator of two marks. -/
def IsFused (t : Token) : Prop :=
  t.kind = .comparison ∧ (t.text = "<>" ∨ t.text = "<=" ∨ t.text = ">=")

theorem isFused_of_fused? (fused : fused? a b = some t) : b.kind = .comparison ∧ IsFused t := by
  unfold fused? at fused
  split_ifs at fused with both
  all_goals
    obtain rfl := Option.some.inj fused
    exact ⟨both.2, rfl, by simp⟩

theorem not_isSplit_of_isFused (fused : IsFused a ∨ IsFused b) : ¬ IsSplit a b := by
  rintro ⟨-, -, marks⟩
  simp only [splitMarks, mem_cons, Prod.mk.injEq, not_mem_nil, or_false] at marks
  rcases fused with ⟨-, text⟩ | ⟨-, text⟩ <;> rcases text with text | text | text <;> simp [text] at marks

theorem fuseComparisons_some (fused : fused? a b = some joined) (rest : List Token) :
    fuseComparisons (a :: b :: rest) = joined :: fuseComparisons rest := by
  rw [fuseComparisons, fused]

theorem fuseComparisons_none (apart : fused? a b = none) (rest : List Token) :
    fuseComparisons (a :: b :: rest) = a :: fuseComparisons (b :: rest) := by
  rw [fuseComparisons, apart]

theorem fuseComparisons_short (short : ∀ a b rest, tokens = a :: b :: rest → False) :
    fuseComparisons tokens = tokens := by
  match tokens, short with
  | [], _ => rfl
  | [a], _ => rfl
  | a :: b :: rest, short => exact (short a b rest rfl).elim

/-- What comes first is the first token or an operator that it begins. -/
theorem head_fuseComparisons (first : t ∈ (fuseComparisons (b :: rest)).head?) : t = b ∨ IsFused t := by
  cases rest with
  | nil => exact .inl (Option.some.inj first).symm
  | cons c rest =>
    cases fused : fused? b c with
    | none =>
      rw [fuseComparisons_none fused] at first
      exact .inl (Option.some.inj first).symm
    | some joined =>
      rw [fuseComparisons_some fused] at first
      obtain rfl := Option.some.inj first
      exact .inr (isFused_of_fused? fused).2

theorem signsRest_fuseComparisons (rests : SignsRest leading tokens) : SignsRest leading (fuseComparisons tokens) := by
  have mayPrecede {t : Token} (kind : t.kind = .comparison) : t.mayPrecedeSign = true := by
    simp [Token.mayPrecedeSign, Kind.mayPrecedeSign, Kind.isOperator, kind]
  induction tokens using fuseComparisons.induct generalizing leading with
  | case1 a b rest joined fused ih =>
    rw [fuseComparisons_some fused]
    obtain ⟨-, -, later⟩ := rests
    obtain ⟨second, isFused⟩ := isFused_of_fused? fused
    -- the operand behind the second mark is now behind the operator
    rw [mayPrecede second, ← mayPrecede isFused.1] at later
    exact ⟨rests_plain (isSign_of_kind (by simp [isFused.1])) _ _, ih later⟩
  | case2 a b rest apart ih =>
    rw [fuseComparisons_none apart]
    obtain ⟨⟨needed, bare⟩, later⟩ := rests
    refine ⟨⟨needed, fun sign t first => ?_⟩, ih later⟩
    rcases head_fuseComparisons first with rfl | ⟨kind, -⟩
    · exact bare sign t rfl
    · exact ⟨isSign_of_kind (by simp [kind]), fun _ => by simp [kind]⟩
  | case3 tokens short => rwa [fuseComparisons_short short]

theorem isChain_fuseComparisons (tokens : List Token) : (fuseComparisons tokens).IsChain fun a b => ¬ IsSplit a b := by
  induction tokens using fuseComparisons.induct with
  | case1 a b rest joined fused ih =>
    rw [fuseComparisons_some fused]
    refine isChain_cons.mpr ⟨fun t _ => ?_, ih⟩
    exact not_isSplit_of_isFused (.inl (isFused_of_fused? fused).2)
  | case2 a b rest apart ih =>
    rw [fuseComparisons_none apart]
    refine isChain_cons.mpr ⟨fun t first => ?_, ih⟩
    rcases head_fuseComparisons first with rfl | isFused
    · exact fused?_eq_none_iff.mp apart
    · exact not_isSplit_of_isFused (.inr isFused)
  | case3 tokens short =>
    rcases tokens with _ | ⟨a, _ | ⟨b, rest⟩⟩
    · exact .nil
    · exact .singleton a
    · exact absurd rfl (short a b rest)

theorem fuseComparisons_of_isChain (apart : tokens.IsChain fun a b => ¬ IsSplit a b) :
    fuseComparisons tokens = tokens := by
  induction tokens using fuseComparisons.induct with
  | case1 a b rest joined fused ih =>
    have none := fused?_eq_none_iff.mpr (isChain_cons_cons.mp apart).1
    rw [none] at fused
    cases fused
  | case2 a b rest other ih => rw [fuseComparisons_none other, ih (isChain_cons_cons.mp apart).2]
  | case3 tokens short => exact fuseComparisons_short short

/-! ### Both passes -/

theorem isNormal_iff : IsNormal tokens ↔ SignsRest true tokens ∧ tokens.IsChain fun a b => ¬ IsSplit a b := by
  rw [SignsRest, each_iff, isChain_iff_forall_rel_of_append_cons_cons]
  constructor
  · rintro ⟨single, needed, folded, whole⟩
    refine ⟨fun front t rest same => ⟨needed front t rest same, fun sign b first => ?_⟩, ?_⟩
    · obtain ⟨later, rfl⟩ := head?_eq_some_iff.mp first
      exact ⟨single front t b later same sign, fun due => folded front t b later same due sign⟩
    · intro a b front rest same
      exact whole front a b rest same
  · rintro ⟨rests, apart⟩
    constructor
    · intro front a b rest same sign
      exact ((rests front a (b :: rest) same).2 sign b rfl).1
    · intro front t rest same due
      exact (rests front t rest same).1 due
    · intro front t next rest same due sign
      exact ((rests front t (next :: rest) same).2 sign next rfl).2 due
    · intro front a b rest same
      exact apart same

theorem isNormal_combineOperators (tokens : List Token) : IsNormal (combineOperators tokens) :=
  isNormal_iff.mpr
    ⟨signsRest_fuseComparisons (signsRest_combineRuns true none tokens), isChain_fuseComparisons _⟩

theorem combineOperators_of_isNormal (normal : IsNormal tokens) : combineOperators tokens = tokens := by
  obtain ⟨rests, apart⟩ := isNormal_iff.mp normal
  rw [combineOperators, combineRuns_of_signsRest rests, fuseComparisons_of_isChain apart]

end VbSharp.Sign

namespace VbSharp

/-- Combined operators are in normal form, the tokens in normal form are those that combining leaves alone, and so a
second time changes nothing. -/
theorem combineOperators_reaches_normal_form (tokens : List Token) :
    Sign.IsNormal (combineOperators tokens) ∧ (combineOperators tokens = tokens ↔ Sign.IsNormal tokens) ∧
      combineOperators (combineOperators tokens) = combineOperators tokens := by
  have normal := Sign.isNormal_combineOperators tokens
  refine ⟨normal, ⟨fun same => same ▸ normal, Sign.combineOperators_of_isNormal⟩, ?_⟩
  exact Sign.combineOperators_of_isNormal normal

end VbSharp
