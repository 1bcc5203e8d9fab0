import VbSharp.Block
import VbSharp.BuiltIn
import VbSharp.CSharp.Term
import VbSharp.Name

/-!
# What names mean

The program, each class and each routine have a frame with the names that they declare. A frame is made
from the whole of a body, so a declaration counts also before the place where it stands. A name means
what the innermost frame that knows it says; a name that no frame knows is a built-in one or undeclared.

Inside a class the outermost code is reached through another object, so references to it are marked.
-/
namespace VbSharp

/-- The names that some blocks declare, by their keys. -/
structure Declared where
  /-- Variables. -/
  locals : List String := []
  /-- Arrays that are resized. They are variables unless an enclosing frame has one of that name. -/
  resized : List String := []
  /-- Routines with whether each parameter is passed by reference, in source order. -/
  routines : List (String × List Bool) := []
  properties : List String := []
  classes : List String := []
  deriving Repr, DecidableEq

namespace Declared

def append (a b : Declared) : Declared :=
  ⟨a.locals ++ b.locals, a.resized ++ b.resized, a.routines ++ b.routines,
    a.properties ++ b.properties, a.classes ++ b.classes⟩

def routine? (d : Declared) (key : String) : Option (List Bool) :=
  d.routines.reverse.lookup key

def ofVariables (kind : DeclarationKind) (vars : List Variable) : Declared :=
  let keys := vars.map fun v => nameKey v.name.text
  if kind.isReDim then { resized := keys } else { locals := keys }

def ofRoutine (header : Header) : Declared :=
  let key := nameKey header.name.text
  if header.kind.isProperty then { properties := [key] }
  else { routines := [(key, header.parameters.map (·.passing.isByRef))] }

mutual

/-- The names that a block declares in the frame in which it stands. The bodies of routines and classes
have frames of their own. -/
def ofBlock : Block → Declared
  | .declaration kind vars _ => ofVariables kind vars
  | .routine header _ => ofRoutine header
  | .classDefinition name _ => { classes := [nameKey name.text] }
  | .branch _ body rest => (ofBlocks body).append (ofAlternative rest)
  | .doLoop _ body _ => ofBlocks body
  | .whileLoop _ body _ => ofBlocks body
  | .forLoop _ _ _ _ body => ofBlocks body
  | .forEach _ _ body => ofBlocks body
  | .withTarget _ body _ => ofBlocks body
  | .select _ cases _ => ofCases cases
  | _ => {}

/-- The names that blocks of one frame declare. -/
def ofBlocks : List Block → Declared
  | [] => {}
  | block :: rest => (ofBlock block).append (ofBlocks rest)

def ofAlternative : Alternative → Declared
  | .none => {}
  | .elseIf _ body rest => (ofBlocks body).append (ofAlternative rest)
  | .otherwise body => ofBlocks body

def ofCases : Cases → Declared
  | .none => {}
  | .case _ body rest => (ofBlocks body).append (ofCases rest)

end

end Declared

/-- What a frame belongs to. -/
inductive FrameKind where
  | program
  | classBody
  | routine
  deriving Repr, DecidableEq

/-- The names that one program, class or routine knows. -/
structure Frame where
  kind : FrameKind
  declared : Declared
  /-- The keys of what the host provides. -/
  externals : List String := []
  /-- The key of a routine that returns a value, and the variable that holds its result. -/
  result : Option (String × String) := none
  deriving Repr, DecidableEq

/-- The frame we are in and those around it, from the inside out. -/
structure Scope where
  frame : Frame
  around : List Frame
  deriving Repr, DecidableEq

/-- What a name means. -/
inductive Meaning where
  | this
  | variable (target : CSharp.Reference)
  /-- The name of the routine around, where it is assigned to. -/
  | result (name : String)
  | routine (target : CSharp.Reference) (byRef : List Bool)
  /-- A property of the class around. -/
  | property
  | classType (name : String)
  | external (name : String)
  | builtInFunction (name : String)
  | builtInConstant (name : String)
  | errorObject
  /-- An undeclared variable, which the outermost code will declare. -/
  | undeclared (target : CSharp.Reference)
  deriving Repr, DecidableEq

namespace Scope

def frames (s : Scope) : List Frame :=
  s.frame :: s.around

def kind (s : Scope) : FrameKind :=
  s.frame.kind

def ofProgram (blocks : List Block) (externals : List String) : Scope :=
  let d := Declared.ofBlocks blocks
  ⟨{ kind := .program,
     declared := { d with locals := d.locals ++ d.resized, resized := [] },
     externals := externals.map nameKey }, []⟩

def ofClass (s : Scope) (body : List Block) : Scope :=
  let d := Declared.ofBlocks body
  ⟨{ kind := .classBody,
     declared := { d with locals := d.locals ++ d.resized, resized := [] } }, s.frames⟩

def hasVariable (s : Scope) (key : String) : Bool :=
  s.frames.any (·.declared.locals.contains key)

/-- The scope of a routine. Its parameters are variables, and so are the arrays it resizes that no frame
around it has; `result` is the variable that holds its result. -/
def ofRoutine (s : Scope) (header : Header) (body : List Block) (result : Option String) : Scope :=
  let d := Declared.ofBlocks body
  let parameters := header.parameters.map fun p => nameKey p.name.text
  let resized := d.resized.filter (!s.hasVariable ·)
  ⟨{ kind := .routine,
     declared := { d with locals := d.locals ++ parameters ++ resized, resized := [] },
     result := result.map fun name => (nameKey header.name.text, name) }, s.frames⟩

def declaresLocally (s : Scope) (name : Token) : Bool :=
  s.frame.declared.locals.contains (nameKey name.text)

def isWithinClass (s : Scope) : Bool :=
  s.frames.any (·.kind == .classBody)

def reference (s : Scope) (kind : FrameKind) (name : Token) : CSharp.Reference :=
  ⟨kind == .program && s.isWithinClass, identifier name.text⟩

/-- The result of the innermost routine: its key and its variable. -/
def result? (s : Scope) : Option (String × String) :=
  (s.frames.find? (·.kind == .routine)).bind Frame.result

def lookup (s : Scope) (name : Token) (f : Frame) : Option Meaning :=
  let key := nameKey name.text
  if f.declared.locals.contains key then some (.variable (s.reference f.kind name))
  else
    match f.declared.routine? key with
    | some byRef => some (.routine (s.reference f.kind name) byRef)
    | none =>
      if f.declared.properties.contains key then some .property
      else if f.declared.classes.contains key then some (.classType (identifier name.text))
      else if f.externals.contains key then some (.external (identifier name.text))
      else none

/-- What a name means if no frame knows it. -/
def unknown (s : Scope) (name : Token) : Meaning :=
  let key := nameKey name.text
  match builtInFunction? key with
  | some function => .builtInFunction function
  | none =>
    match builtInConstant? key with
    | some constant => .builtInConstant constant
    | none =>
      if key == "err" then .errorObject
      else .undeclared (s.reference ((s.frames.getLast?.map Frame.kind).getD s.kind) name)

/-- What a name means. -/
def resolve (s : Scope) (name : Token) : Meaning :=
  if nameKey name.text == "me" then .this
  else (s.frames.findSome? (s.lookup name)).getD (s.unknown name)

/-- What a name means where it is assigned to: there the name of the routine around is its result. -/
def resolveTarget (s : Scope) (name : Token) : Meaning :=
  match s.result? with
  | some (key, result) => if nameKey name.text == key then .result result else s.resolve name
  | none => s.resolve name

end Scope
end VbSharp
