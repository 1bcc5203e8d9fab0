import VbSharp.Block.Reader
import VbSharp.Text.Terminal

/-!
# The log of a run

What a run reports about its progress. Warnings are always shown, everything else on request.
-/
namespace VbSharp

/-- Something that happened in a run. -/
inductive Event where
  | tokensScanned (count : Nat)
  | numeralsJoined (count : Nat)
  | operatorsCombined (count : Nat)
  | tokensNormalised (count : Nat)
  | constructRecognised (construct : Construct)
  | blocksParsed (count : Nat)
  | blocksAccepted (count : Nat)
  | definitionSuperseded (name : String) (line : Nat)
  | routineDeclared (name : String) (count : Nat)
  | programDeclared (explicit implicit : Nat)
  | warning (text : String)
  deriving Repr, DecidableEq

namespace Event

def isWarning : Event → Bool
  | .warning _ => true
  | _ => false

def warning? : Event → Option String
  | .warning text => some text
  | _ => none

/-- The part of the program that reports an event. -/
def origin : Event → String
  | .tokensScanned _ | .tokensNormalised _ | .blocksAccepted _ => "vbscript_translator::processor"
  | .numeralsJoined _ => "vbscript_translator::processor::number_rebuilder"
  | .operatorsCombined _ => "vbscript_translator::processor::operator_combiner"
  | .constructRecognised _ | .blocksParsed _ => "vbscript_translator::processor::block_parser"
  | .definitionSuperseded _ _ | .routineDeclared _ _ | .programDeclared _ _ =>
    "vbscript_translator::processor::translator"
  | .warning _ => "vbscript_translator::logger"

/-- What an event says. -/
def detail : Event → String
  | .tokensScanned count => s!"tokenised tokens={count}"
  | .numeralsJoined count => s!"numbers rebuilt tokens={count}"
  | .operatorsCombined count => s!"operators combined tokens={count}"
  | .tokensNormalised count => s!"normalised numbers and operators tokens={count}"
  | .constructRecognised construct => "block recognised handler=" ++ Quoted.encode construct.label
  | .blocksParsed count => s!"code blocks parsed blocks={count}"
  | .blocksAccepted count => s!"parsed code blocks blocks={count}"
  | .definitionSuperseded name line =>
    "discarding superseded definition function=" ++ Quoted.encode name ++ s!" line={line}"
  | .routineDeclared name count =>
    "flushed function declarations function=" ++ Quoted.encode name ++ s!" declarations={count}"
  | .programDeclared explicit implicit =>
    s!"flushed outermost declarations explicit={explicit} undeclared={implicit}"
  | .warning text => Terminal.encode text

def text (e : Event) : String :=
  (if e.isWarning then "WARN " else "DEBUG ") ++ e.origin ++ ": " ++ e.detail

end Event
end VbSharp
