import VbSharp.Expr.Bracket
import Mathlib.Data.List.Forall2

/-!
# Nesting of brackets

Counting brackets says exactly when a group is found and where a list of arguments is cut. The depth of
some tokens is the number of brackets they leave open; it is undefined once a bracket closes that none of
them opened. For the tokens of one argument it is also undefined at a comma outside all brackets.
-/
namespace VbSharp

open List

variable {a b tokens inner rest x y : List Token} {depth next : Nat}

variable (last : Nat)

/-- The depth after one token. -/
def depthStep (depth : Nat) (t : Token) : Option Nat :=
  match t.kind with
  | .openBracket => some (depth + 1)
  | .closeBracket => if depth = 0 then none else some (depth - 1)
  | _ => some depth

/-- The depth after one token of an argument: no comma may stand outside all brackets. -/
def argumentStep (depth : Nat) (t : Token) : Option Nat :=
  if t.kind = .comma ∧ depth = 0 then none else depthStep depth t

/-- The depth after some tokens that start at a depth. -/
def depthAfter (depth : Nat) (tokens : List Token) : Option Nat :=
  tokens.foldlM depthStep depth

/-- The depth after some tokens of one argument. -/
def argumentDepth (depth : Nat) (tokens : List Token) : Option Nat :=
  tokens.foldlM argumentStep depth

/-- Whether the tokens open and close their brackets in pairs. -/
def IsBalanced (tokens : List Token) : Prop :=
  depthAfter 0 tokens = some 0

/-- Whether the tokens can be one argument: balanced, with no comma outside brackets. -/
def IsOneArgument (tokens : List Token) : Prop :=
  argumentDepth 0 tokens = some 0

/-- The tokens are the parts with one comma between each two of them. -/
def JoinedByCommas : List (List Token) → List Token → Prop
  | [], tokens => tokens = []
  | [part], tokens => tokens = part
  | part :: others, tokens => ∃ comma later, comma.kind = .comma ∧ tokens = part ++ comma :: later ∧
      JoinedByCommas others later

@[simp] theorem depthAfter_nil (depth : Nat) : depthAfter depth [] = some depth := rfl

@[simp] theorem depthAfter_cons (depth : Nat) (t : Token) (rest : List Token) :
    depthAfter depth (t :: rest) = (depthStep depth t).bind (depthAfter · rest) := rfl

@[simp] theorem argumentDepth_nil (depth : Nat) : argumentDepth depth [] = some depth := rfl

@[simp] theorem argumentDepth_cons (depth : Nat) (t : Token) (rest : List Token) :
    argumentDepth depth (t :: rest) = (argumentStep depth t).bind (argumentDepth · rest) := rfl

theorem depthAfter_append (a b : List Token) (depth : Nat) :
    depthAfter depth (a ++ b) = (depthAfter depth a).bind (depthAfter · b) :=
  foldlM_append ..

theorem argumentDepth_append (a b : List Token) (depth : Nat) :
    argumentDepth depth (a ++ b) = (argumentDepth depth a).bind (argumentDepth · b) :=
  foldlM_append ..

theorem depthStep_succ (depth next : Nat) (t : Token) (step : depthStep depth t = some next) :
    depthStep (depth + 1) t = some (next + 1) := by
  unfold depthStep at step ⊢
  split at step <;> simp_all
  omega

theorem argumentDepth_succ (tokens : List Token) (depth final : Nat) (nested : depthAfter depth tokens = some final) :
    argumentDepth (depth + 1) tokens = some (final + 1) := by
  induction tokens generalizing depth with
  | nil => simpa using nested
  | cons t rest ih =>
    simp only [depthAfter_cons, Option.bind_eq_some_iff] at nested
    obtain ⟨next, step, later⟩ := nested
    simp [argumentStep, depthStep_succ depth next t step, ih next later]

theorem depthAfter_of_argumentDepth (tokens : List Token) (depth final : Nat)
    (nested : argumentDepth depth tokens = some final) : depthAfter depth tokens = some final := by
  induction tokens generalizing depth with
  | nil => simpa using nested
  | cons t rest ih =>
    simp only [argumentDepth_cons, Option.bind_eq_some_iff] at nested
    obtain ⟨next, step, later⟩ := nested
    have plain : depthStep depth t = some next := by
      unfold argumentStep at step
      split at step
      · cases step
      · exact step
    simp [plain, ih next later]

theorem IsOneArgument.isBalanced (one : IsOneArgument tokens) : IsBalanced tokens :=
  depthAfter_of_argumentDepth tokens 0 0 one

theorem IsOneArgument.append (left : IsOneArgument a) (right : IsOneArgument b) : IsOneArgument (a ++ b) := by
  unfold IsOneArgument at *
  rw [argumentDepth_append, left]
  exact right

theorem IsBalanced.append (left : IsBalanced a) (right : IsBalanced b) : IsBalanced (a ++ b) := by
  unfold IsBalanced at *
  rw [depthAfter_append, left]
  exact right

theorem isOneArgument_singleton (t : Token) (notOpen : t.kind ≠ .openBracket)
    (notClosed : t.kind ≠ .closeBracket) (notComma : t.kind ≠ .comma) : IsOneArgument [t] := by
  have step : depthStep 0 t = some 0 := by
    unfold depthStep
    split <;> simp_all
  simp [IsOneArgument, argumentStep, notComma, step]

/-- Brackets around balanced tokens make them an argument, whatever commas they hold. -/
theorem IsBalanced.isOneArgument_group (balanced : IsBalanced inner) (start close : Token)
    (opens : start.kind = .openBracket) (closes : close.kind = .closeBracket) :
    IsOneArgument (start :: inner ++ [close]) := by
  have deeper := argumentDepth_succ inner 0 0 balanced
  unfold IsOneArgument
  simp [argumentStep, depthStep, opens, closes, argumentDepth_append, deeper]

/-! ### Groups -/

/-- Inside a group, a token that does not close it is taken over. -/
theorem closeGroup_cons (depth next : Nat) (t : Token) (rest : List Token) (step : depthStep depth t = some next) :
    closeGroup depth (t :: rest) = (closeGroup next rest).map fun (inner, after) => (t :: inner, after) := by
  cases depth <;> cases kind : t.kind <;> simp_all [closeGroup, depthStep]

/-- Only the bracket that closes the group itself has no depth. -/
theorem closeGroup_stop {t : Token} (stop : depthStep depth t = none) :
    closeGroup depth (t :: rest) = some ([], rest) := by
  unfold depthStep at stop
  split at stop <;> simp_all [closeGroup]

theorem closeGroup_front (front rest : List Token) (nested : depthAfter depth front = some next) :
    closeGroup depth (front ++ rest) = (closeGroup next rest).map fun (inner, after) => (front ++ inner, after) := by
  induction front generalizing depth with
  | nil =>
    obtain rfl : depth = next := by simpa using nested
    rw [nil_append]
    cases closeGroup depth rest <;> rfl
  | cons t front ih =>
    simp only [depthAfter_cons, Option.bind_eq_some_iff] at nested
    obtain ⟨between, step, later⟩ := nested
    rw [cons_append, closeGroup_cons depth between t _ step, ih later, Option.map_map]
    rfl

/-- Two groups that start alike agree if what follows does. -/
theorem rel_closeGroup {P : List Token → List Token → Prop} (first : depthAfter depth x = some next)
    (second : depthAfter depth y = some next) (grow : ∀ {a b}, P a b → P (x ++ a) (y ++ b))
    (related : Option.Rel (fun x y => P x.1 y.1 ∧ P x.2 y.2) (closeGroup next a) (closeGroup next b)) :
    Option.Rel (fun x y => P x.1 y.1 ∧ P x.2 y.2) (closeGroup depth (x ++ a)) (closeGroup depth (y ++ b)) := by
  rw [closeGroup_front x a first, closeGroup_front y b second]
  generalize closeGroup next a = left at related ⊢
  generalize closeGroup next b = right at related ⊢
  cases related with
  | none => exact .none
  | some related => exact .some ⟨grow related.1, related.2⟩

theorem closeGroup_append (tokens after : List Token) (close : Token) (depth : Nat)
    (nested : depthAfter depth tokens = some 0) (closes : close.kind = .closeBracket) :
    closeGroup depth (tokens ++ close :: after) = some (tokens, after) := by
  rw [closeGroup_front tokens _ nested, closeGroup_stop (by simp [depthStep, closes])]
  simp

theorem closeGroup_eq_some_iff (tokens inner after : List Token) (depth : Nat) :
    closeGroup depth tokens = some (inner, after) ↔ depthAfter depth inner = some 0 ∧
        ∃ close, close.kind = .closeBracket ∧ tokens = inner ++ close :: after := by
  constructor
  · intro found
    induction tokens generalizing depth inner with
    | nil => simp [closeGroup] at found
    | cons t rest ih =>
      cases step : depthStep depth t with
      | none =>
        unfold depthStep at step
        split at step <;> simp at step
        simp_all [closeGroup]
      | some next =>
        rw [closeGroup_cons depth next t rest step, Option.map_eq_some_iff] at found
        obtain ⟨⟨first, last⟩, found, same⟩ := found
        obtain ⟨rfl, rfl⟩ := same
        obtain ⟨nested, close, closes, rfl⟩ := ih first next found
        exact ⟨by simp [step, nested], close, closes, rfl⟩
  · rintro ⟨nested, close, closes, rfl⟩
    exact closeGroup_append inner after close depth nested closes

/-! ### Lists of arguments -/

theorem cutArguments_cons (depth next : Nat) (part : List Token) (t : Token) (rest : List Token)
    (step : argumentStep depth t = some next) :
    cutArguments last depth part (t :: rest) = cutArguments last next (t :: part) rest := by
  unfold argumentStep depthStep at step
  cases kind : t.kind <;> simp_all [cutArguments]
  obtain ⟨inside, rfl⟩ := step
  simp [inside]

theorem cutArguments_append (tokens rest part : List Token) (depth final : Nat)
    (nested : argumentDepth depth tokens = some final) :
    cutArguments last depth part (tokens ++ rest) = cutArguments last final (tokens.reverse ++ part) rest := by
  induction tokens generalizing depth part with
  | nil => simp_all
  | cons t tokens ih =>
    simp only [argumentDepth_cons, Option.bind_eq_some_iff] at nested
    obtain ⟨next, step, later⟩ := nested
    rw [cons_append, cutArguments_cons last depth next part t _ step, ih (t :: part) next later]
    simp

theorem cutArguments_of_joined (parts : List (List Token)) (tokens : List Token)
    (joined : JoinedByCommas parts tokens) (some_part : parts ≠ [])
    (each : ∀ part ∈ parts, part ≠ [] ∧ IsOneArgument part) : cutArguments last 0 [] tokens = .ok parts := by
  induction parts generalizing tokens with
  | nil => contradiction
  | cons part others ih =>
    obtain ⟨filled, one⟩ := each part (by simp)
    cases others with
    | nil =>
      obtain rfl : tokens = part := joined
      have cut := cutArguments_append last tokens [] [] 0 0 one
      rw [append_nil] at cut
      simp [cut, cutArguments, filled]
    | cons other others =>
      obtain ⟨comma, later, isComma, rfl, joined⟩ := joined
      have rest := ih later joined (by simp) fun p member => each p (by simp [member])
      rw [cutArguments_append last part _ [] 0 0 one]
      simp [cutArguments, isComma, filled, rest, Except.map]

/-- What a successful cut has found: the end of the current argument, then the arguments after it. -/
theorem cutArguments_ok (tokens part : List Token) (depth : Nat) (parts : List (List Token))
    (cut : cutArguments last depth part tokens = .ok parts) :
    ∃ first others, parts = (part.reverse ++ first) :: others ∧ part.reverse ++ first ≠ [] ∧
      argumentDepth depth first = some 0 ∧ JoinedByCommas (first :: others) tokens ∧
      ∀ other ∈ others, other ≠ [] ∧ IsOneArgument other := by
  induction tokens generalizing depth part parts with
  | nil =>
    unfold cutArguments at cut
    split at cut
    · cases cut
    · split at cut
      · cases cut
      next closed filled =>
        cases cut
        have level : depth = 0 := by omega
        exact ⟨[], [], by simp, by simpa using filled, by simp [level], rfl, by simp⟩
  | cons t rest ih =>
    cases step : argumentStep depth t with
    | some next =>
      rw [cutArguments_cons last depth next part t rest step] at cut
      obtain ⟨first, others, rfl, filled, nested, joined, each⟩ := ih (t :: part) next parts cut
      refine ⟨t :: first, others, by simp, by simp, by simp [step, nested], ?_, each⟩
      cases others with
      | nil => exact congrArg (t :: ·) joined
      | cons other others =>
        obtain ⟨comma, later, isComma, rfl, joined⟩ := joined
        exact ⟨comma, later, isComma, rfl, joined⟩
    | none =>
      unfold argumentStep depthStep at step
      cases kind : t.kind <;> simp [kind] at step
      case closeBracket => simp [cutArguments, kind, step] at cut
      case comma =>
        subst depth
        simp only [cutArguments, kind, ne_eq, not_true_eq_false, if_false] at cut
        split at cut
        · cases cut
        next filled =>
          cases found : cutArguments last 0 [] rest with
          | error fault => simp [found, Except.map] at cut
          | ok parts =>
            simp only [found, Except.map, Except.ok.injEq] at cut
            subst cut
            obtain ⟨first, others, rfl, nonempty, nested, joined, each⟩ := ih [] 0 parts found
            refine ⟨[], first :: others, by simp, by simpa using filled, rfl, ?_, ?_⟩
            · exact ⟨t, rest, kind, rfl, joined⟩
            · intro other member
              simp only [reverse_nil, nil_append, mem_cons] at member nonempty
              rcases member with rfl | member
              · exact ⟨nonempty, nested⟩
              · exact each other member

/-- Splitting succeeds exactly on parts joined by commas that are arguments of at least one token, and
gives back those parts. -/
theorem splitArguments_ok_iff (tokens : List Token) (parts : List (List Token)) :
    splitArguments tokens = .ok parts ↔
      JoinedByCommas parts tokens ∧ ∀ part ∈ parts, part ≠ [] ∧ IsOneArgument part := by
  unfold splitArguments
  split
  next empty =>
    obtain rfl : tokens = [] := by simpa using empty
    constructor
    · rintro ⟨⟩
      exact ⟨rfl, by simp⟩
    · rintro ⟨joined, each⟩
      match parts with
      | [] => rfl
      | [part] => exact absurd joined.symm (each part (by simp)).1
      | _ :: _ :: _ =>
        obtain ⟨comma, later, -, absurd, -⟩ := joined
        simp at absurd
  next filled =>
    constructor
    · intro cut
      obtain ⟨first, others, rfl, nonempty, nested, joined, each⟩ := cutArguments_ok _ _ _ _ _ cut
      refine ⟨joined, ?_⟩
      simp only [mem_cons, forall_eq_or_imp]
      exact ⟨⟨nonempty, nested⟩, each⟩
    · rintro ⟨joined, each⟩
      have some_part : parts ≠ [] := by
        rintro rfl
        simp [JoinedByCommas] at joined
        simp [joined] at filled
      exact cutArguments_of_joined _ parts tokens joined some_part each

end VbSharp
