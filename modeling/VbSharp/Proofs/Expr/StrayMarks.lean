import VbSharp.Proofs.Expr.Reading

/-!
# Marks out of place

Splitting a list of arguments finds every bracket without a partner and every comma that separates nothing. What is
left to the reader are arguments in which each bracket has its partner and no comma stands outside brackets, so it
never refuses such a mark itself: whatever it says about one comes from splitting.
-/
namespace VbSharp

open List

variable {tokens before rest inner front after : List Token} {depth next : Nat} {t start close : Token} {filled : Prop}

/-! ### When a list can be split -/

/-- Whether an argument can start here. -/
def startsArgument (tokens : List Token) : Bool :=
  tokens.head?.any (·.kind != .comma)

/-- No comma outside brackets is the first token, the last one or directly before another one. -/
def SeparatorsFit (tokens : List Token) : Prop :=
  ∀ before comma after, tokens = before ++ comma :: after → comma.kind = .comma → IsBalanced before →
    before ≠ [] ∧ startsArgument after = true

/-- The same for tokens at some depth, behind an argument that is `filled` or still has to be. -/
def Completes (depth : Nat) (filled : Prop) (tokens : List Token) : Prop :=
  depthAfter depth tokens = some 0 ∧ (tokens = [] → filled) ∧
    ∀ before comma after, tokens = before ++ comma :: after → comma.kind = .comma → depthAfter depth before = some 0 →
      (before = [] → filled) ∧ startsArgument after = true

theorem forall_split_cons {P : List Token → Token → List Token → Prop} :
    (∀ before u after, t :: rest = before ++ u :: after → P before u after) ↔
      P [] t rest ∧ ∀ before u after, rest = before ++ u :: after → P (t :: before) u after := by
  constructor
  · exact fun all => ⟨all [] t rest rfl, fun before u after same => all (t :: before) u after (same ▸ rfl)⟩
  · rintro ⟨first, later⟩ (_ | ⟨_, before⟩) u after same
    · cases same
      exact first
    · cases same
      exact later before u after rfl

theorem completes_cons (step : argumentStep depth t = some next) :
    Completes depth filled (t :: rest) ↔ Completes next True rest := by
  obtain ⟨inside, step⟩ : (t.kind = .comma → ¬depth = 0) ∧ depthStep depth t = some next := by
    simpa [argumentStep] using step
  rw [Completes, Completes, forall_split_cons]
  simp +contextual [step, inside]

theorem completes_comma (isComma : t.kind = .comma) :
    Completes 0 filled (t :: rest) ↔ filled ∧ Completes 0 False rest := by
  have step : depthStep 0 t = some 0 := by simp [depthStep, isComma]
  cases rest with
  | nil => simp [Completes, forall_split_cons, step, isComma, startsArgument]
  | cons next rest =>
    simp only [Completes, forall_split_cons]
    simp [step, isComma, startsArgument]
    tauto

theorem exists_cutArguments_iff (last depth : Nat) (part : List Token) :
    (∃ parts, cutArguments last depth part tokens = .ok parts) ↔ Completes depth (part ≠ []) tokens := by
  induction tokens generalizing depth part with
  | nil => by_cases level : depth = 0 <;> by_cases filled : part = [] <;> simp [cutArguments, Completes, level, filled]
  | cons t rest ih =>
    cases step : argumentStep depth t with
    | some next =>
      rw [cutArguments_cons last depth next part t rest step, ih, completes_cons step]
      simp
    | none =>
      unfold argumentStep depthStep at step
      cases kind : t.kind <;> simp [kind] at step
      case closeBracket => simp [cutArguments, Completes, depthStep, kind, step]
      case comma =>
        subst depth
        have later : _ ↔ Completes 0 False rest := (ih 0 []).trans (by simp)
        rw [completes_comma kind, ← later]
        by_cases filled : part = []
        · simp [cutArguments, kind, filled]
        · cases found : cutArguments last 0 [] rest <;> simp [cutArguments, kind, filled, found, Except.map]

theorem exists_splitArguments_iff :
    (∃ parts, splitArguments tokens = .ok parts) ↔ IsBalanced tokens ∧ SeparatorsFit tokens := by
  cases tokens with
  | nil => exact iff_of_true ⟨[], rfl⟩ ⟨rfl, by simp [SeparatorsFit]⟩
  | cons t rest =>
    rw [splitArguments, isEmpty_cons, if_neg Bool.false_ne_true, exists_cutArguments_iff]
    simp [Completes, SeparatorsFit, IsBalanced]

/-! ### Partners -/

/-- The tokens open a group and close it with the last of them: up to there some bracket is open. -/
structure IsGroup (span : List Token) : Prop where
  balanced : IsBalanced span
  inside : ∀ front after, span = front ++ after → front ≠ [] → after ≠ [] → ∃ depth, depthAfter 0 front = some (depth + 1)

theorem isGroup_brackets (opens : start.kind = .openBracket) (closes : close.kind = .closeBracket)
    (balanced : IsBalanced inner) : IsGroup (start :: (inner ++ [close])) where
  balanced := (balanced.isOneArgument_group start close opens closes).isBalanced
  inside front after same filled more := by
    obtain ⟨_, front, rfl⟩ := exists_cons_of_ne_nil filled
    obtain ⟨rfl, behind⟩ := List.cons.inj same
    have whole : inner ++ [close] = front ++ after := behind
    rw [← dropLast_append_getLast more, ← append_assoc] at whole
    obtain ⟨rfl, -⟩ := append_inj' whole rfl
    obtain ⟨depth, nested, -⟩ := Option.bind_eq_some_iff.mp ((depthAfter_append front _ 0).symm.trans balanced)
    exact ⟨depth, by simpa [depthStep, opens] using
      depthAfter_of_argumentDepth _ _ _ (argumentDepth_succ front 0 depth nested)⟩

/-- A group inside other brackets is closed before these are. -/
theorem exists_closeGroup (depth more : Nat) {fewer : Nat} (nested : depthAfter (depth + more) rest = some fewer) (less : fewer < more) :
    ∃ inner after, closeGroup depth rest = some (inner, after) := by
  induction rest generalizing depth with
  | nil =>
    have same : depth + more = fewer := by simpa using nested
    omega
  | cons t rest ih =>
    cases step : depthStep depth t with
    | none => exact ⟨[], rest, closeGroup_stop step⟩
    | some next =>
      have deeper : depthStep (depth + more) t = some (next + more) := by
        unfold depthStep at step ⊢
        split at step <;> simp_all <;> omega
      obtain ⟨inner, after, found⟩ := ih next (by simpa [deeper] using nested)
      exact ⟨t :: inner, after, by rw [closeGroup_cons depth next t rest step, found]; rfl⟩

theorem exists_partner (before : List Token) (balanced : IsBalanced (before ++ start :: rest)) (opens : start.kind = .openBracket) :
    ∃ inner close after, closeGroup 0 rest = some (inner, after) ∧ rest = inner ++ close :: after ∧
      close.kind = .closeBracket ∧ IsBalanced inner := by
  obtain ⟨depth, -, nested⟩ := Option.bind_eq_some_iff.mp ((depthAfter_append before _ 0).symm.trans balanced)
  obtain ⟨inner, after, found⟩ := exists_closeGroup 0 (depth + 1)
    (by simpa [depthStep, opens] using nested) (Nat.succ_pos depth)
  obtain ⟨level, close, closes, rfl⟩ := (closeGroup_eq_some_iff _ _ _ _).mp found
  exact ⟨inner, close, after, found, rfl, closes, level⟩

/-! ### What the reader refuses -/

/-- The tokens stand between a bracket in the list and its partner. -/
def Encloses (tokens inner : List Token) : Prop :=
  IsBalanced inner ∧ ∃ group, Expr.InBrackets inner group ∧ group <:+: tokens

theorem Encloses.mono (encloses : Encloses tokens inner) (part : tokens <:+: rest) : Encloses rest inner := by
  obtain ⟨balanced, group, bracketed, within⟩ := encloses
  exact ⟨balanced, group, bracketed, within.trans part⟩

theorem Encloses.infix (encloses : Encloses tokens inner) : inner <:+: tokens := by
  obtain ⟨-, _, ⟨start, close, -, -, rfl⟩, within⟩ := encloses
  exact (infix_append [start] inner [close]).trans within

theorem Encloses.length_lt (encloses : Encloses tokens inner) : inner.length < tokens.length := by
  obtain ⟨-, _, ⟨start, close, -, -, rfl⟩, within⟩ := encloses
  have := within.length_le
  simp at this
  omega

/-- Brackets that pair up are no reason to refuse a list. -/
theorem cutArguments_of_depthAfter (last : Nat) (part : List Token) (nested : depthAfter depth tokens = some 0) (line : Nat) :
    cutArguments last depth part tokens ≠ .error (.unbalancedBrackets line) := by
  induction tokens generalizing depth part with
  | nil =>
    obtain rfl : depth = 0 := by simpa using nested
    by_cases filled : part = [] <;> simp [cutArguments, filled]
  | cons t rest ih =>
    obtain ⟨next, step, later⟩ := Option.bind_eq_some_iff.mp nested
    by_cases separates : t.kind = .comma ∧ depth = 0
    · obtain ⟨isComma, rfl⟩ := separates
      obtain rfl : 0 = next := by simpa [depthStep, isComma] using step
      have others := ih [] later
      by_cases filled : part = []
      · simp [cutArguments, isComma, filled]
      · cases found : cutArguments last 0 [] rest <;> simp_all [cutArguments, Except.map]
    · rw [cutArguments_cons last depth next part t rest ((if_neg separates).trans step)]
      exact ih _ later

namespace Expr

variable {place next : Place} {done more : List Segment} {fault : Fault}

/-- The reader refuses a mark only inside brackets. -/
theorem exists_inside_of_readFrom (one : IsOneArgument tokens) (stray : fault.isStray = true)
    (read : readFrom place done tokens = .error fault) :
    ∃ inner, Encloses tokens inner ∧ readList inner = .error fault := by
  induction bound : tokens.length using Nat.strongRecOn generalizing place done tokens with
  | ind count ih =>
    cases tokens with
    | nil =>
      rw [readFrom.eq_def] at read
      cases place <;> cases read <;> cases stray
    | cons t rest =>
      rcases step_or_refuses place done t rest with ⟨next, more, later, step⟩ | ⟨problem, refused, reason⟩
      · obtain ⟨front, -, taken, same⟩ := step.exists_front
        have behind : IsOneArgument later := by
          rw [IsOneArgument, same, argumentDepth_append, taken] at one
          exact one
        obtain ⟨inner, encloses, inside⟩ :=
          ih _ (bound ▸ step.length_lt) behind ((readFrom_of_step step).symm.trans read) rfl
        exact ⟨inner, encloses.mono (same ▸ (suffix_append front later).isInfix), inside⟩
      · cases refused.symm.trans read
        rcases reason stray with closes | separates | ⟨opens, inside⟩
        · simp [IsOneArgument, argumentStep, depthStep, closes] at one
        · simp [IsOneArgument, argumentStep, separates] at one
        · obtain ⟨inner, close, after, found, rfl, closes, level⟩ := exists_partner [] one.isBalanced opens
          exact ⟨inner, ⟨level, t :: (inner ++ [close]), ⟨t, close, opens, closes, rfl⟩, [], after, by simp⟩, inside _ _ found⟩

theorem exists_part_of_readParts {parts : List (List Token)} (read : readParts parts = .error fault) :
    ∃ part ∈ parts, readFrom .operand [] part = .error fault := by
  induction parts with
  | nil =>
    rw [readParts] at read
    cases read
  | cons part others ih =>
    rw [readParts] at read
    cases first : readFrom .operand [] part with
    | error problem =>
      rw [first] at read
      cases read
      exact ⟨part, mem_cons_self, first⟩
    | ok e =>
      rw [first] at read
      cases later : readParts others with
      | error problem =>
        rw [later] at read
        cases read
        obtain ⟨other, member, found⟩ := ih later
        exact ⟨other, mem_cons_of_mem _ member, found⟩
      | ok es =>
        rw [later] at read
        cases read

/-- What is said about a mark has been found by splitting, the list itself or what stands in brackets in it. -/
theorem exists_split_of_readList (stray : fault.isStray = true) (read : readList tokens = .error fault) :
    splitArguments tokens = .error fault ∨ ∃ inner, Encloses tokens inner ∧ splitArguments inner = .error fault := by
  induction bound : tokens.length using Nat.strongRecOn generalizing tokens with
  | ind count ih =>
    rw [readList_eq] at read
    cases cut : splitArguments tokens with
    | error problem =>
      rw [cut] at read
      cases read
      exact .inl rfl
    | ok parts =>
      rw [cut] at read
      obtain ⟨part, member, refused⟩ := exists_part_of_readParts read
      obtain ⟨joined, each⟩ := (splitArguments_ok_iff _ _).mp cut
      obtain ⟨inner, encloses, inside⟩ := exists_inside_of_readFrom (each part member).2 stray refused
      have within := encloses.mono (infix_of_joined parts tokens joined part member)
      rcases ih _ (bound ▸ within.length_lt) inside rfl with found | ⟨deeper, nested, found⟩
      · exact .inr ⟨inner, within, found⟩
      · exact .inr ⟨deeper, nested.mono within.infix, found⟩

end Expr

/-- Splitting succeeds exactly on balanced lists in which every comma outside brackets has its arguments; its parts are
what these commas separate. In a balanced list the search from an opening bracket ends at its partner, with brackets
open all the way. What the reader says about a mark out of place is what splitting says: about the list, or about a
comma in what stands in brackets, where all brackets pair up. -/
theorem splitting_finds_stray_marks (tokens : List Token) :
    ((∃ parts, splitArguments tokens = .ok parts) ↔ IsBalanced tokens ∧ SeparatorsFit tokens) ∧
    (∀ parts, splitArguments tokens = .ok parts →
      JoinedByCommas parts tokens ∧ ∀ part ∈ parts, part ≠ [] ∧ IsOneArgument part ∧ IsBalanced part) ∧
    (IsBalanced tokens → ∀ before start rest, tokens = before ++ start :: rest → start.kind = .openBracket →
      ∃ span after, tokens = before ++ (span ++ after) ∧ span.head? = some start ∧ IsGroup span ∧
        closingBracket tokens before.length = .ok (before.length + span.length - 1)) ∧
    (∀ line, Expr.readList tokens = .error (.unbalancedBrackets line) ↔
      splitArguments tokens = .error (.unbalancedBrackets line)) ∧
    ∀ line, Expr.readList tokens = .error (.orphanedComma line) → splitArguments tokens = .error (.orphanedComma line) ∨
      ∃ inner, Encloses tokens inner ∧ splitArguments inner = .error (.orphanedComma line) := by
  refine ⟨exists_splitArguments_iff, fun parts cut => ?_, ?_, fun line => ⟨fun read => ?_, fun cut => ?_⟩,
    fun line => Expr.exists_split_of_readList rfl⟩
  · obtain ⟨joined, each⟩ := (splitArguments_ok_iff _ _).mp cut
    exact ⟨joined, fun part member => ⟨(each part member).1, (each part member).2, (each part member).2.isBalanced⟩⟩
  · rintro balanced before start rest rfl opens
    obtain ⟨inner, close, after, found, rfl, closes, level⟩ := exists_partner before balanced opens
    refine ⟨start :: (inner ++ [close]), after, by simp, rfl, isGroup_brackets opens closes level, ?_⟩
    simp [closingBracket, found]
    omega
  · rcases Expr.exists_split_of_readList rfl read with cut | ⟨inner, encloses, cut⟩
    · exact cut
    · rw [splitArguments] at cut
      split at cut
      · cases cut
      · exact absurd cut (cutArguments_of_depthAfter _ _ encloses.1 line)
  · rw [Expr.readList_eq, cut]
    rfl

end VbSharp
