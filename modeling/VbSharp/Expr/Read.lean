import VbSharp.Expr
import VbSharp.Expr.Bracket

/-!
# Reading expressions

Tokens are read from left to right. The reader keeps the segments that are complete and its place: what
may come next depends on whether an operand is due, a call has just been named, it has got its
arguments, or a point asks for a member. A bracket directly after a call's name opens its arguments;
any other bracket groups an expression.
-/
namespace VbSharp.Expr

/-- Where the reader stands. -/
inductive Place where
  /-- At the start or after an operator. -/
  | operand
  /-- After the last of the names of a call, which is not among the complete segments yet. -/
  | name (names : List Token)
  /-- After a point that follows the names of a call; the point stands on the given line. -/
  | point (names : List Token) (line : Nat)
  /-- After the arguments of a call. -/
  | arguments
  /-- After a point that follows the arguments of a call; the point stands on the given line. -/
  | pointAfterArguments (line : Nat)
  /-- After any other operand. -/
  | value
  deriving Repr, DecidableEq

/-- The segments that are complete when a call in progress, if there is one, ends here. -/
def settle (place : Place) (done : List Segment) : List Segment :=
  match place with
  | .name names => .call names [] :: done
  | _ => done

/-- Adds an operand, which only an operator may follow. -/
def addOperand (place : Place) (done : List Segment) (operand : Segment) (t : Token) :
    Except Fault (List Segment) :=
  match place with
  | .operand => .ok (operand :: done)
  | _ => .error (.malformed t.lineNumber (.expectedOperator t.text))

/-- The only expression of a list. -/
def only (line : Nat) : List Expr → Except Fault Expr
  | [e] => .ok e
  | [] => .error (.malformed (line + 1) .expectedExpression)
  | _ => .error (.malformed (line + 1) .expectedSingleExpression)

mutual

/-- Reads the rest of one expression; `done` holds the complete segments, the last one first. -/
def readFrom (place : Place) (done : List Segment) (tokens : List Token) : Except Fault Expr :=
  match tokens with
  | [] =>
    match place with
    | .point _ line => .error (.malformed (line + 1) (.expectedMember none))
    | .pointAfterArguments line => .error (.malformed (line + 1) (.expectedMember none))
    | _ => .ok (settle place done).reverse
  | t :: rest =>
    match place with
    | .point names _ =>
      if t.canNameMember then readFrom (.name (names ++ [t])) done rest
      else .error (.malformed t.lineNumber (.expectedMember (some t.text)))
    | .pointAfterArguments _ =>
      if t.canNameMember then readFrom (.name [t]) done rest
      else .error (.malformed t.lineNumber (.expectedMember (some t.text)))
    | _ =>
      match t.kind with
      | .point => .error (.unresolvedPoint t.lineNumber)
      | .member =>
        match place with
        | .name names => readFrom (.point names t.line) done rest
        | .arguments => readFrom (.pointAfterArguments t.line) done rest
        | _ => .error (.unsupported t.lineNumber .memberOfWith)
      | .name | .softKeyword =>
        match place with
        | .operand => readFrom (.name [t]) done rest
        | _ => .error (.malformed t.lineNumber (.expectedOperator t.text))
      | .openBracket =>
        match found : closeGroup 0 rest with
        | none => .error (.unbalancedBrackets t.lineNumber)
        | some (inner, after) =>
          have := closeGroup_length found
          match place with
          | .name names => do
            let arguments ← readList inner
            readFrom .arguments (.call names arguments :: done) after
          | .arguments => .error (.unsupported t.lineNumber .chainedCall)
          | _ => do
            let group ← only t.line (← readList inner)
            let done ← addOperand place done (.bracketed group) t
            readFrom .value done after
      | .closeBracket => .error (.unbalancedBrackets t.lineNumber)
      | .string | .number | .date | .constant => do
        let done ← addOperand place done (.value t) t
        readFrom .value done rest
      | .arithmetic | .comparison | .logical =>
        readFrom .operand (.operator t :: settle place done) rest
      | .comma => .error (.orphanedComma t.lineNumber)
      | .keyword =>
        if t.isWord "New" then
          match rest with
          | [] => .error (.malformed t.lineNumber .expectedClassName)
          | className :: after =>
            if className.isNameLike then do
              let done ← addOperand place done (.new className) t
              readFrom .value done after
            else .error (.malformed t.lineNumber .expectedClassName)
        else .error (.malformed t.lineNumber (.strayKeyword t.text))
      | .terminator | .comment | .inlineComment | .raw =>
        .error (.inconsistent (.strayToken t.lineNumber t.kind))
termination_by 2 * tokens.length + 1
decreasing_by
  all_goals simp only [List.length_cons]
  all_goals omega

def readList (tokens : List Token) : Except Fault (List Expr) :=
  match split : splitArguments tokens with
  | .error fault => .error fault
  | .ok parts =>
    have := splitArguments_weight split
    readParts parts
termination_by 2 * tokens.length + 3
decreasing_by omega

def readParts (parts : List (List Token)) : Except Fault (List Expr) :=
  match parts with
  | [] => .ok []
  | part :: others => do
    let e ← readFrom .operand [] part
    let es ← readParts others
    return e :: es
termination_by 2 * argumentWeight parts
decreasing_by
  all_goals simp only [argumentWeight]
  all_goals omega

end

/-- Reads tokens that hold exactly one expression. The line is reported if they do not. -/
def read (tokens : List Token) (line : Nat) : Except Fault Expr := do
  only line (← readList tokens)

end VbSharp.Expr
