import VbSharp.Token

/-!
# Faults

Every way in which a script, a page or a set of tokens can be refused. A fault is a cause with the
data that its report needs; `Fault.message` is the only place that words it. Lines in faults are
counted from one.
-/
namespace VbSharp

/-- Why tokens do not form a program. -/
inductive Problem where
  | unclosedEscapedName
  | hexOutOfRange (digits : String)
  | expectedExpression
  | expectedSingleExpression
  | expectedArgument
  | expectedOperator (found : String)
  | expectedMember (found : Option String)
  | expectedClassName
  | strayKeyword (word : String)
  | expected (what : String) (found : Option String)
  | expectedStatementEnd (found : String)
  | expectedMark (word : String)
  | unknownStatement (found : String)
  | expectedVariable (found : Option String)
  | strayInDeclaration (found : String)
  | strayInParameters (found : String)
  | resizeWithoutBounds
  | emptyThen
  | secondLoopTest
  | expectedLoopTest (found : String)
  | beforeFirstCase
  | emptyCase
  | unknownExit
  | unknownErrorMode
  | callOfNothing
  | assignmentWithoutEquals
  | argumentsOfNothing
  | assignmentToExpression
  | cannotStartOperand (operator : String)
  | cannotJoinOperands (operator : String)
  | missingOperand
  | missingOperator
  | notCallable (constant : String)
  | classAsValue (name : String)
  | argumentCount (name : String) (wanted given : Nat)
  | expectedCall
  | invalidTarget
  | missingTarget
  | unassignable (name : String)
  | strayInClass
  | nestedClass
  | nestedFunction
  | resizeInClass
  | exitOutsideFunction
  deriving Repr, DecidableEq

/-- Valid constructs for which no code is produced. -/
inductive Gap where
  | statement (word : String)
  | doLoop
  | doWhileLoop
  | doUntilLoop
  | loopWhile
  | loopUntil
  | whileLoop
  | forLoop
  | forEachLoop
  | selectCase
  | onError
  | withBlock
  | exitDo
  | exitFor
  | propertyOutsideClass
  | sizedField
  | memberOfWith
  | chainedCall
  deriving Repr, DecidableEq

/-- Input that no earlier stage hands on. -/
inductive Defect where
  | unreadableNumber (line : Nat) (text : String)
  | strayToken (line : Nat) (kind : Kind)
  | notALiteral (line : Nat) (text : String)
  | emptyChain
  deriving Repr, DecidableEq

/-- The causes of failure. -/
inductive Fault where
  | unclosedString (line : Nat)
  | unclosedDate (line : Nat)
  | unclosedScript (line : Nat)
  | brokenContinuation (line : Nat)
  | invalidNumber (line : Nat) (text : String)
  | unbalancedBrackets (line : Nat)
  | orphanedComma (line : Nat)
  | unresolvedPoint (line : Nat)
  | invalidDate (line : Nat) (text : String)
  | malformed (line : Nat) (problem : Problem)
  | missingEnd (line : Nat) (expected : String)
  | duplicateMember (line : Nat) (className member : String)
  | unsupported (line : Nat) (gap : Gap)
  | inconsistent (defect : Defect)
  deriving Repr, DecidableEq

/-- The kinds of cause that callers tell apart. -/
inductive Category where
  /-- The text does not break into tokens. -/
  | lexical
  /-- The tokens do not form a program. -/
  | structural
  /-- The program uses a construct for which no code is produced. -/
  | unsupported
  /-- A stage was given input that the stages before it never produce. -/
  | internal
  deriving Repr, DecidableEq

namespace Problem

def message : Problem → String
  | .unclosedEscapedName => "unterminated escaped name"
  | .hexOutOfRange digits => s!"invalid hex literal &H{digits}"
  | .expectedExpression => "expected an expression"
  | .expectedSingleExpression => "expected a single expression, not a list"
  | .expectedArgument => "expected an argument after ','"
  | .expectedOperator found => s!"expected an operator before '{found}'"
  | .expectedMember (some found) => s!"expected a member name after '.', found '{found}'"
  | .expectedMember none => "expected a member name after '.'"
  | .expectedClassName => "expected a class name after New"
  | .strayKeyword word => s!"unexpected keyword '{word}' in expression"
  | .expected what (some found) => s!"expected {what}, found '{found}'"
  | .expected what none => s!"expected {what} before end of content"
  | .expectedStatementEnd found => s!"expected end of statement, found '{found}'"
  | .expectedMark word => s!"expected '{word}'"
  | .unknownStatement found => s!"unrecognised statement starting with '{found}'"
  | .expectedVariable (some found) => s!"expected a variable name, found '{found}'"
  | .expectedVariable none => "expected a variable name"
  | .strayInDeclaration found => s!"unexpected '{found}' in declaration"
  | .strayInParameters found => s!"unexpected '{found}' in parameter list"
  | .resizeWithoutBounds => "ReDim requires dimensions for every variable"
  | .emptyThen => "expected a statement after 'Then'"
  | .secondLoopTest => "a Do loop may only have one condition"
  | .expectedLoopTest found => s!"expected While or Until, found '{found}'"
  | .beforeFirstCase => "statements before the first Case"
  | .emptyCase => "expected a Case value"
  | .unknownExit => "expected Do, For, Function, Sub or Property after Exit"
  | .unknownErrorMode => "expected 'Resume Next' or 'Goto 0' after On Error"
  | .callOfNothing => "Call must be followed by a call"
  | .assignmentWithoutEquals => "expected '=' in assignment"
  | .argumentsOfNothing => "expected a call target before the arguments"
  | .assignmentToExpression => "the left side of an assignment must be a variable or member"
  | .cannotStartOperand operator => s!"'{operator}' cannot start an operand"
  | .cannotJoinOperands operator => s!"'{operator}' cannot join two values"
  | .missingOperand => "expected a value after the operator"
  | .missingOperator => "expected an operator between values"
  | .notCallable constant => s!"{constant} is not callable"
  | .classAsValue name => s!"class name '{name}' used as a value"
  | .argumentCount name wanted given =>
    s!"wrong number of arguments to '{name}': expected {wanted}, found {given}"
  | .expectedCall => "expected a call statement"
  | .invalidTarget => "invalid assignment target"
  | .missingTarget => "missing assignment target"
  | .unassignable name => s!"cannot assign to '{name}'"
  | .strayInClass => "only declarations and members may appear directly inside a class"
  | .nestedClass => "classes may only be defined at the outermost scope"
  | .nestedFunction => "functions may not be nested"
  | .resizeInClass => "ReDim must appear inside a function"
  | .exitOutsideFunction => "Exit outside of a function"

end Problem

namespace Gap

def label : Gap → String
  | .statement word => s!"{word} statement"
  | .doLoop => "Do loop"
  | .doWhileLoop => "Do While loop"
  | .doUntilLoop => "Do Until loop"
  | .loopWhile => "Do ... Loop While"
  | .loopUntil => "Do ... Loop Until"
  | .whileLoop => "While loop"
  | .forLoop => "For loop"
  | .forEachLoop => "For Each loop"
  | .selectCase => "Select Case"
  | .onError => "On Error"
  | .withBlock => "With block"
  | .exitDo => "Exit Do"
  | .exitFor => "Exit For"
  | .propertyOutsideClass => "Property outside a class"
  | .sizedField => "dimensioned array field"
  | .memberOfWith => "member access without a target (With block member)"
  | .chainedCall => "chained bracketed call"

end Gap

namespace Defect

def message : Defect → String
  | .unreadableNumber line text => s!"line {line}: could not express '{text}' as a number"
  | .strayToken line kind => "line " ++ toString line ++ ": " ++ kind.label ++
      " token inside an expression"
  | .notALiteral line text => s!"line {line}: '{text}' is not a literal"
  | .emptyChain => "empty member-access chain"

end Defect

namespace Fault

def message : Fault → String
  | .unclosedString line => s!"line {line}: unterminated string literal"
  | .unclosedDate line => s!"line {line}: unterminated date literal"
  | .unclosedScript line => s!"line {line}: script block opened with <% is never closed"
  | .brokenContinuation line =>
    s!"line {line}: line continuation character must be followed by a line return"
  | .invalidNumber line text =>
    s!"line {line}: numeric literal '{text}' has more than one decimal point"
  | .unbalancedBrackets line => s!"line {line}: mismatched brackets"
  | .orphanedComma line => s!"line {line}: argument separator with no preceding content"
  | .unresolvedPoint line => s!"line {line}: member accessor / decimal point was never resolved"
  | .invalidDate line text => s!"line {line}: invalid date literal #{text}#"
  | .malformed line problem => "line " ++ toString line ++ ": syntax error: " ++ problem.message
  | .missingEnd line expected => s!"line {line}: expected {expected} before end of content"
  | .duplicateMember line className member =>
    s!"line {line}: class {className} already defines {member}"
  | .unsupported line gap => "line " ++ toString line ++ ": " ++ gap.label ++
      " is not supported yet"
  | .inconsistent defect => "internal error: " ++ defect.message

def category : Fault → Category
  | .unclosedString _ | .unclosedDate _ | .unclosedScript _ | .brokenContinuation _
  | .invalidNumber _ _ | .unbalancedBrackets _ | .orphanedComma _ | .invalidDate _ _ => .lexical
  | .malformed _ _ | .missingEnd _ _ | .duplicateMember _ _ _ => .structural
  | .unsupported _ _ => .unsupported
  | .unresolvedPoint _ | .inconsistent _ => .internal

end Fault
end VbSharp
