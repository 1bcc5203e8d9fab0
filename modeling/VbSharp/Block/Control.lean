import VbSharp.Block.Body

/-!
# Control flow

Branches, loops, selections, `With`, `Exit` and `On Error`. Each parser either finds its construct at
the cursor and passes over it, or answers `none` and leaves the cursor alone.
-/
namespace VbSharp.Parser

/-- The condition before the word `Then`, passed over with that word. -/
def conditionThen : Parser Expr := do
  let line ← view Cursor.line
  let tokens ← view Cursor.statement
  let condition := tokens.takeWhile (!·.isKeyword "Then")
  if condition.length = tokens.length then throw (.malformed (line + 1) (.expectedMark "Then"))
  let e ← expression condition line
  move (·.advance (condition.length + 1))
  return e

def clauseEnds : Ends :=
  [["ElseIf"], ["Else"], ["End", "If"]]

/-- What follows a clause, given which of the clause ends the cursor stands on. The budget has to be
at least the number of tokens left. -/
def alternative (body : Body) (openedOn : Nat) : Nat → Nat → Parser Alternative
  | 0, _ => return .none
  | budget + 1, 0 => do
    move (·.advance 1)
    let condition ← conditionThen
    expectTerminator
    let (blocks, found) ← bodyUntil body clauseEnds openedOn
    return .elseIf condition blocks (← alternative body openedOn budget found)
  | _, 1 => do
    move (·.advance 1)
    move Cursor.skipTerminator
    let blocks ← bodyThrough body ["End", "If"] openedOn
    expectTerminator
    return .otherwise blocks
  | _, _ => do
    move (·.advance 2)
    expectTerminator
    return .none

/-- A branch over several lines, from the line after its first condition. -/
def longBranch (body : Body) (condition : Expr) (openedOn : Nat) : Parser Block := do
  let (blocks, found) ← bodyUntil body clauseEnds openedOn
  let rest ← alternative body openedOn (← view (·.rest.length)) found
  return .branch condition blocks rest

/-- Parses tokens that stand on their own and returns to where the cursor was. -/
def inlineBlocks (body : Body) (tokens : List Token) : Parser (List Block) := do
  let outer ← view id
  move fun _ => .ofTokens tokens
  match (body []).run (← get) with
  | .ok (blocks, _) r =>
    set { r with cursor := outer }
    return blocks
  | .error fault r =>
    set { r with cursor := outer }
    throw fault

/-- A branch on one line, from the word after `Then`. The first `Else` of the line splits it. -/
def shortBranch (body : Body) (condition : Expr) (openedOn : Nat) : Parser Block := do
  let tokens ← takeLine
  let thenPart := tokens.takeWhile (!·.isKeyword "Else")
  if thenPart.isEmpty then throw (.malformed (openedOn + 1) .emptyThen)
  let blocks ← inlineBlocks body thenPart
  match tokens.dropWhile (!·.isKeyword "Else") with
  | [] => return .branch condition blocks .none
  | _ :: elsePart => return .branch condition blocks (.otherwise (← inlineBlocks body elsePart))

def branch (body : Body) : Parser (Option Block) := do
  if !(← view (·.isKeyword "If")) then return none
  let openedOn ← view Cursor.line
  move (·.advance 1)
  let condition ← conditionThen
  if (← view Cursor.peek?).all Token.isTerminator then
    move Cursor.skipTerminator
    return some (← longBranch body condition openedOn)
  else return some (← shortBranch body condition openedOn)

/-- The condition at the start or the end of a `Do` loop; the flag says that the loop goes on while it
holds. -/
def loopCondition (tokens : List Token) (line : Nat) : Except Fault (Option (Bool × Expr)) :=
  match tokens with
  | [] => .ok none
  | word :: condition =>
    if word.isKeyword "While" then (Expr.read condition line).map fun e => some (true, e)
    else if word.isKeyword "Until" then (Expr.read condition line).map fun e => some (false, e)
    else .error (.malformed word.lineNumber (.expectedLoopTest word.text))

/-- The test of a loop from the conditions at its start and at its end. -/
def loopTest (first last : Option (Bool × Expr)) (line : Nat) : Except Fault LoopTest :=
  match first, last with
  | none, none => .ok .none
  | some (true, e), none => .ok (.whileBefore e)
  | some (false, e), none => .ok (.untilBefore e)
  | none, some (true, e) => .ok (.whileAfter e)
  | none, some (false, e) => .ok (.untilAfter e)
  | some _, some _ => .error (.malformed (line + 1) .secondLoopTest)

def doLoop (body : Body) : Parser (Option Block) := do
  if !(← view (·.isKeyword "Do")) then return none
  let line ← view Cursor.line
  move (·.advance 1)
  let first ← lift (loopCondition (← takeStatement) line)
  let (blocks, _) ← bodyUntil body [["Loop"]] line
  let lastLine ← view Cursor.line
  move (·.advance 1)
  let last ← lift (loopCondition (← takeStatement) lastLine)
  return some (.doLoop (← lift (loopTest first last lastLine)) blocks line)

def whileLoop (body : Body) : Parser (Option Block) := do
  if !(← view (·.isKeyword "While")) then return none
  let line ← view Cursor.line
  move (·.advance 1)
  let condition ← expression (← takeStatement) line
  let blocks ← bodyThrough body ["Wend"] line
  expectTerminator
  return some (.whileLoop condition blocks line)

/-- The body of a `For` loop. The word that ends it may be followed by the counter's name. -/
def forBody (body : Body) (line : Nat) : Parser (List Block) := do
  let blocks ← bodyThrough body ["Next"] line
  let _ ← takeStatement
  return blocks

/-- What a counting loop says after its counter: first value, last value and step. -/
def forRange (tokens : List Token) (line : Nat) : Except Fault (Expr × Expr × Option Expr) := do
  let rest ← match tokens with
    | equals :: rest =>
      if equals.isEquals then pure rest else throw (.malformed (line + 1) (.expectedMark "="))
    | [] => throw (.malformed (line + 1) (.expectedMark "="))
  let first := rest.takeWhile (!·.isKeyword "To")
  if first.length = rest.length then throw (.malformed (line + 1) (.expectedMark "To"))
  let start ← Expr.read first line
  let after := rest.drop (first.length + 1)
  let last := after.takeWhile (!·.isKeywordLike "Step")
  if first.any (·.isKeywordLike "Step") || last.length = after.length then
    return (start, ← Expr.read after line, none)
  else
    let limit ← Expr.read last line
    let step ← Expr.read (after.drop (last.length + 1)) line
    return (start, limit, some step)

def forCollection (tokens : List Token) (line : Nat) : Except Fault Expr :=
  match tokens with
  | word :: rest =>
    if word.isKeyword "In" then Expr.read rest line
    else .error (.malformed (line + 1) (.expectedMark "In"))
  | [] => .error (.malformed (line + 1) (.expectedMark "In"))

def forLoop (body : Body) : Parser (Option Block) := do
  if !(← view (·.isKeyword "For")) then return none
  let line ← view Cursor.line
  move (·.advance 1)
  let each ← view (·.isKeyword "Each")
  if each then move (·.advance 1)
  let name ← expectName
  let tokens ← takeStatement
  if each then
    let collection ← lift (forCollection tokens line)
    return some (.forEach name collection (← forBody body line))
  else
    let (first, last, step) ← lift (forRange tokens line)
    return some (.forLoop name first last step (← forBody body line))

def caseEnds : Ends :=
  [["Case"], ["End", "Select"]]

/-- Whether a block says nothing: only such blocks may stand before the first case. -/
def isSilent : Block → Bool
  | .blankLine => true
  | .comment _ _ => true
  | _ => false

/-- The values of a case, none for `Case Else`. -/
def caseValues : Parser (List Expr) := do
  let line ← view Cursor.line
  move (·.advance 1)
  if ← view (·.isKeyword "Else") then
    move (·.advance 1)
    let _ ← takeStatement
    return []
  let values ← lift (Expr.readList (← takeStatement))
  if values.isEmpty then throw (.malformed (line + 1) .emptyCase)
  return values

/-- The cases of a selection, given which of the case ends the cursor stands on. The budget has to be
at least the number of tokens left. -/
def caseList (body : Body) (openedOn : Nat) : Nat → Nat → Parser Cases
  | budget + 1, 0 => do
    let values ← caseValues
    let (blocks, found) ← bodyUntil body caseEnds openedOn
    return .case values blocks (← caseList body openedOn budget found)
  | _, _ => return .none

def select (body : Body) : Parser (Option Block) := do
  if !(← view fun c => c.isKeyword "Select" && c.isKeywordAt 1 "Case") then return none
  let line ← view Cursor.line
  move (·.advance 2)
  let subject ← expression (← takeStatement) line
  let (leading, found) ← bodyUntil body caseEnds line
  if !leading.all isSilent then throw (.malformed (line + 1) .beforeFirstCase)
  let cases ← caseList body line (← view (·.rest.length)) found
  move (·.advance 2)
  expectTerminator
  return some (.select subject cases line)

def withTarget (body : Body) : Parser (Option Block) := do
  if !(← view (·.isKeyword "With")) then return none
  let line ← view Cursor.line
  move (·.advance 1)
  let target ← expression (← takeStatement) line
  let blocks ← bodyThrough body ["End", "With"] line
  expectTerminator
  return some (.withTarget target blocks line)

def exitWords : List (String × ExitKind) :=
  [("Do", .doLoop), ("For", .forLoop), ("Function", .function), ("Sub", .sub),
    ("Property", .property)]

def exit : Parser (Option Block) := do
  if !(← view (·.isKeyword "Exit")) then return none
  let line ← view Cursor.line
  match ← view fun c => exitWords.find? fun (word, _) => c.isKeywordLikeAt 1 word with
  | none => throw (.malformed (line + 1) .unknownExit)
  | some (_, kind) =>
    move (·.advance 2)
    expectTerminator
    return some (.exit kind line)

/-- The two words after `On Error`. -/
def errorMode? (c : Cursor) : Option ErrorMode :=
  if c.isKeywordAt 2 "Resume" && c.isKeywordAt 3 "Next" then some .resumeNext
  else if c.isKeywordAt 2 "Goto" && c.holdsAt 3 (·.text == "0") then some .gotoZero
  else none

def onError : Parser (Option Block) := do
  if !(← view fun c => c.isKeyword "On" && c.isKeywordLikeAt 1 "Error") then return none
  let line ← view Cursor.line
  match ← view errorMode? with
  | none => throw (.malformed (line + 1) .unknownErrorMode)
  | some mode =>
    move (·.advance 4)
    expectTerminator
    return some (.onError mode line)

end VbSharp.Parser
