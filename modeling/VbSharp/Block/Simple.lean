import VbSharp.Block.Body

/-!
# Plain statements

Assignments, calls and `Randomize`. Each parser either finds its construct at the cursor and passes
over it, or answers `none` and leaves the cursor alone.
-/
namespace VbSharp.Parser

def unsupportedStatements : List String :=
  ["Const", "Erase", "Goto", "Resume"]

/-- The tokens before and after the first `=` outside brackets. -/
def splitAtEquals (depth : Nat) : List Token → Option (List Token × List Token)
  | [] => none
  | t :: rest =>
    let later (d : Nat) := (splitAtEquals d rest).map fun (before, after) => (t :: before, after)
    match t.kind with
    | .openBracket => later (depth + 1)
    | .closeBracket => later (depth - 1)
    | _ => if depth = 0 ∧ t.isEquals then some ([], rest) else later depth

/-- Reads what is assigned to: a variable, a member or an element. -/
def target (tokens : List Token) (line : Nat) : Except Fault Expr := do
  let e ← Expr.read tokens line
  if Expr.isChain e then return e
  else throw (.malformed (line + 1) .assignmentToExpression)

def assignment (kind : AssignKind) (left right : List Token) (line : Nat) : Except Fault Block := do
  let target ← target left line
  let value ← Expr.read right line
  return .assignment kind target value

/-- `Set x = New Thing` -/
def newInstance : Parser (Option Block) := do
  match ← view Cursor.statement with
  | [] => return none
  | first :: tokens =>
    if !first.isKeyword "Set" then return none
    match splitAtEquals 0 tokens with
    | some (left, [new, className]) =>
      if !(new.isKeyword "New" && className.isNameLike) then return none
      let target ← lift (target left first.line)
      move Cursor.afterStatement
      return some (.assignment .object target [.new className])
    | _ => return none

def randomize : Parser (Option Block) := do
  if !(← view (·.isKeyword "Randomize")) then return none
  let line ← view Cursor.line
  move (·.advance 1)
  let tokens ← takeStatement
  if tokens.isEmpty then return some (.randomize none line)
  return some (.randomize (some (← expression tokens line)) line)

/-- `Call Target(arguments)` -/
def callStatement : Parser (Option Block) := do
  if !(← view (·.isKeyword "Call")) then return none
  let line ← view Cursor.line
  move (·.advance 1)
  let e ← expression (← takeStatement) line
  if !Expr.isChain e then throw (.malformed (line + 1) .callOfNothing)
  return some (.call e true)

/-- The names, points and bracket groups that start a statement: how many tokens they take, and where
the group that ends them starts if they end with one. -/
structure LeadingChain where
  length : Nat
  lastGroup : Option Nat
  deriving Repr, DecidableEq

def LeadingChain.extend (chain : LeadingChain) (tokens : List Token) : Except Fault LeadingChain :=
  match tokens with
  | [] => .ok chain
  | t :: rest =>
    match t.kind with
    | .member =>
      match rest with
      | [] => .ok chain
      | name :: after =>
        if name.canNameMember then LeadingChain.extend ⟨chain.length + 2, none⟩ after else .ok chain
    | .openBracket =>
      match found : closeGroup 0 rest with
      | none => .error (.unbalancedBrackets t.lineNumber)
      | some (inner, after) =>
        have := closeGroup_length found
        LeadingChain.extend ⟨chain.length + inner.length + 2, some chain.length⟩ after
    | _ => .ok chain
termination_by tokens.length
decreasing_by all_goals (simp only [List.length_cons] at *; omega)

/-- Where the arguments of a call without `Call` start, if it has any that stand in no brackets of
their own. Such brackets belong to the first argument: `S (a)` passes `(a)` by value, and `f (1), 2`
passes two arguments. -/
def argumentsStart (tokens : List Token) (chain : LeadingChain) : Except Fault (Option Nat) := do
  match (tokens.drop chain.length).isEmpty, chain.lastGroup with
  | true, some start =>
    let inner := (tokens.take (chain.length - 1)).drop (start + 1)
    if (← Expr.readList inner).length = 1 then return some start else return none
  | true, none => return none
  | false, some start => return some start
  | false, none => return some chain.length

def giveArguments (e : Expr) (arguments : List Expr) (line : Nat) : Except Fault Expr :=
  match e.reverse with
  | .call names _ :: before => .ok (before.reverse ++ [.call names arguments])
  | _ => .error (.malformed (line + 1) .argumentsOfNothing)

def namedStatement (tokens : List Token) (line : Nat) : Except Fault Block := do
  let chain ← LeadingChain.extend ⟨1, none⟩ (tokens.drop 1)
  let after := tokens.drop chain.length
  if after.head?.any Token.isEquals then
    assignment .value (tokens.take chain.length) (after.drop 1) line
  else
    match ← argumentsStart tokens chain with
    | none => return .call (← Expr.read tokens line) false
    | some start =>
      let e ← Expr.read (tokens.take start) line
      let arguments ← Expr.readList (tokens.drop start)
      return .call (← giveArguments e arguments line) false

def assignKind? (t : Token) : Option AssignKind :=
  if t.isWord "Let" then some .value
  else if t.isWord "Set" then some .object
  else none

/-- Assignments and calls, with or without brackets. -/
def statement : Parser (Option Block) := do
  match ← view Cursor.peek? with
  | none => return none
  | some first =>
    if first.kind = .keyword then
      match unsupportedStatements.find? first.isWord with
      | some word => throw (.unsupported first.lineNumber (.statement word))
      | none =>
        match assignKind? first with
        | none => return none
        | some kind =>
          move (·.advance 1)
          match splitAtEquals 0 (← takeStatement) with
          | none => throw (.malformed first.lineNumber .assignmentWithoutEquals)
          | some (left, right) => return some (← lift (assignment kind left right first.line))
    else if first.isNameLike then
      return some (← lift (namedStatement (← takeStatement) first.line))
    else return none

end VbSharp.Parser
