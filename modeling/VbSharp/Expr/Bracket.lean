import VbSharp.Fault

/-!
# Brackets and argument lists

Brackets are matched by counting. A list of arguments is cut at the commas that stand in no bracket;
it has to be balanced, and every argument needs at least one token.
-/
namespace VbSharp

/-- The tokens up to the bracket that closes the group we are in, and the tokens after that bracket.
`depth` counts the brackets opened inside the group. -/
def closeGroup (depth : Nat) : List Token → Option (List Token × List Token)
  | [] => none
  | t :: rest =>
    match t.kind, depth with
    | .closeBracket, 0 => some ([], rest)
    | .closeBracket, d + 1 => (closeGroup d rest).map fun (inner, after) => (t :: inner, after)
    | .openBracket, d => (closeGroup (d + 1) rest).map fun (inner, after) => (t :: inner, after)
    | _, d => (closeGroup d rest).map fun (inner, after) => (t :: inner, after)

theorem closeGroup_length {depth : Nat} {tokens inner after : List Token}
    (found : closeGroup depth tokens = some (inner, after)) :
    inner.length + after.length + 1 = tokens.length := by
  induction tokens generalizing depth inner with
  | nil => simp [closeGroup] at found
  | cons t rest ih =>
    have step : ∀ d, (closeGroup d rest).map (fun (inner, after) => (t :: inner, after)) =
        some (inner, after) → inner.length + after.length + 1 = (t :: rest).length := by
      intro d h
      obtain ⟨⟨i, a⟩, hi, he⟩ := Option.map_eq_some_iff.mp h
      simp only [Prod.mk.injEq] at he
      obtain ⟨rfl, rfl⟩ := he
      have := ih hi
      simp only [List.length_cons]
      omega
    unfold closeGroup at found
    split at found
    · simp only [Option.some.injEq, Prod.mk.injEq] at found
      obtain ⟨rfl, rfl⟩ := found
      simp
    all_goals exact step _ found

/-- The position of the bracket that closes the one at position `start`. -/
def closingBracket (tokens : List Token) (start : Nat) : Except Fault Nat :=
  match tokens.drop start with
  | [] => .error (.unbalancedBrackets 0)
  | first :: rest =>
    match closeGroup 0 rest with
    | some (inner, _) => .ok (start + 1 + inner.length)
    | none => .error (.unbalancedBrackets first.lineNumber)

def lastLineNumber (tokens : List Token) : Nat :=
  match tokens.getLast? with
  | some t => t.lineNumber
  | none => 0

/-- Cuts a list at the commas outside brackets. `part` holds the tokens since the last cut, the last
one first, and `depth` counts the open brackets. -/
def cutArguments (last : Nat) (depth : Nat) (part : List Token) :
    List Token → Except Fault (List (List Token))
  | [] =>
    if depth ≠ 0 then .error (.unbalancedBrackets last)
    else if part.isEmpty then .error (.malformed last .expectedArgument)
    else .ok [part.reverse]
  | t :: rest =>
    match t.kind with
    | .openBracket => cutArguments last (depth + 1) (t :: part) rest
    | .closeBracket =>
      if depth = 0 then .error (.unbalancedBrackets t.lineNumber)
      else cutArguments last (depth - 1) (t :: part) rest
    | .comma =>
      if depth ≠ 0 then cutArguments last depth (t :: part) rest
      else if part.isEmpty then .error (.orphanedComma t.lineNumber)
      else (cutArguments last 0 [] rest).map (part.reverse :: ·)
    | _ => cutArguments last depth (t :: part) rest

/-- The arguments that commas outside brackets separate. No tokens are no arguments. -/
def splitArguments (tokens : List Token) : Except Fault (List (List Token)) :=
  if tokens.isEmpty then .ok [] else cutArguments (lastLineNumber tokens) 0 [] tokens

/-- The weight of some arguments: their tokens and one more for each. -/
def argumentWeight : List (List Token) → Nat
  | [] => 0
  | part :: others => part.length + 1 + argumentWeight others

theorem cutArguments_weight {last depth : Nat} {part tokens : List Token}
    {parts : List (List Token)} (cut : cutArguments last depth part tokens = .ok parts) :
    argumentWeight parts = part.length + tokens.length + 1 := by
  induction tokens generalizing depth part parts with
  | nil =>
    unfold cutArguments at cut
    split at cut
    · cases cut
    · split at cut
      · cases cut
      · cases cut
        simp [argumentWeight]
  | cons t rest ih =>
    unfold cutArguments at cut
    split at cut
    · have := ih cut
      simp only [List.length_cons] at *
      omega
    · split at cut
      · cases cut
      · have := ih cut
        simp only [List.length_cons] at *
        omega
    · split at cut
      · have := ih cut
        simp only [List.length_cons] at *
        omega
      · split at cut
        · cases cut
        · cases later : cutArguments last 0 [] rest with
          | error fault => rw [later] at cut; cases cut
          | ok others =>
            rw [later] at cut
            cases cut
            have := ih later
            simp only [argumentWeight, List.length_reverse,
              List.length_nil, List.length_cons] at *
            omega
    · have := ih cut
      simp only [List.length_cons] at *
      omega

theorem splitArguments_weight {tokens : List Token} {parts : List (List Token)}
    (split : splitArguments tokens = .ok parts) : argumentWeight parts ≤ tokens.length + 1 := by
  unfold splitArguments at split
  split at split
  · cases split
    simp [argumentWeight]
  · have := cutArguments_weight split
    simp only [List.length_nil] at this
    omega

end VbSharp
