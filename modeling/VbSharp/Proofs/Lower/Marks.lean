import VbSharp.Proofs.Lower.Uses
import VbSharp.Proofs.Lower.Word
import VbSharp.Proofs.Lower.Written

/-!
# What lowered code is made of

An expression of a script is made of names, literals and classes. The code that is generated for it is made of
variables, texts in quotes, numbers, words and calls. Each element of the script leaves its own marks in the code and
its own notes; what else stands in the code is a word, or a call of a routine that the scope offers.
-/
namespace VbSharp

open List
open CSharp (Reference Term Simple)

variable {s : Scope} {name : Token} {byRef : List Bool}

variable {u : Use} {r : Reference}

/-! ### Marks -/

namespace CSharp

/-- What is called, and with which arguments. -/
structure Call where
  target : Reference
  arguments : List Term
  deriving Repr

/-- Whether an argument is written with `ref`. -/
def Term.isByRef : Term → Bool
  | .byRef _ => true
  | _ => false

/-- Whether a statement of a script can start with the expression: a name, or a call other than the check of dates. -/
def Term.canLead : Term → Bool
  | .variable _ | .result _ | .environment _ | .constant _ | .this | .errorObject | .call _ _ => true
  | .support function _ => function != "VALIDATEDATELITERALS"
  | _ => false

/-- Whether a statement starts as those of a script can. -/
def Simple.isLed : Simple → Bool
  | .assign target _ => target.canLead
  | .expression term => term.canLead
  | _ => false

/-- Whether a line calls, stores or leaves, as a statement of a script does. -/
def Simple.isAction : Simple → Bool
  | .expression _ | .leave _ => true
  | .assign _ (.support function _) => function == "VAL" || function == "OBJ"
  | _ => false

/-- Whether a line makes an array of given bounds, as a declaration does. -/
def Simple.isSizing : Simple → Bool
  | .assign _ (.support function _) => function == "NEWARRAY" || function == "RESIZEARRAY"
  | _ => false

/-- What generated code is made of. -/
inductive Mark where
  | variable (target : Reference)
  /-- A text in quotes. -/
  | text (quoted : String)
  | number (numeral : String)
  /-- A name of something other than a variable. -/
  | word (name : String)
  /-- The variable that holds the result of a routine. -/
  | result (name : String)
  | call (made : Call)
  | comment (text : String)

/-- Whether a mark is left by an element of the script, and not by the way in which it is lowered. -/
def Mark.isLeft : Mark → Bool
  | .variable _ | .text _ | .number _ | .comment _ => true
  | .word _ | .result _ | .call _ => false

def Mark.variable? : Mark → Option Reference
  | .variable target => some target
  | _ => none

def Mark.result? : Mark → Option String
  | .result name => some name
  | _ => none

def Mark.call? : Mark → Option Call
  | .call made => some made
  | _ => none

mutual

/-- The marks in an expression, from left to right. -/
def Term.marks : Term → List Mark
  | .variable target => [.variable target]
  | .string text => [.text text]
  | .strings texts => texts.map .text
  | .number text => [.number text]
  | .result name => [.result name]
  | .environment name | .constant name | .new name _ => [.word name]
  | .support function arguments => .word function :: Term.listMarks arguments
  | .call target arguments => .call ⟨target, arguments⟩ :: Term.listMarks arguments
  | .byRef argument => argument.marks
  | .objects items => Term.listMarks items
  | .this | .errorObject | .boolean _ | .null | .dbNull => []

def Term.listMarks : List Term → List Mark
  | [] => []
  | t :: rest => t.marks ++ Term.listMarks rest

end

def Simple.marks : Simple → List Mark
  | .comment text => [.comment text]
  | .assign target value => target.marks ++ value.marks
  | .expression term => term.marks
  | .declare d | .declareImplicit d => [.word d.name]
  | .declareResult name => [.result name]
  | .leave result => result.toList.map .result
  | .propertyAttribute name => [.text name]
  | .readOnlyField first second | .storeField first second => [.word first, .word second]
  | .defaultAttribute | .runOuter => []

mutual

theorem Term.references_eq : (t : Term) → t.references = t.marks.filterMap Mark.variable?
  | .variable _ | .string _ | .number _ | .result _ | .environment _ | .constant _ | .new _ _ | .this
  | .errorObject | .boolean _ | .null | .dbNull => rfl
  | .strings texts => by simp [Term.references, Term.marks, Mark.variable?]
  | .support _ arguments | .call _ arguments => Term.listReferences_eq arguments
  | .byRef argument => argument.references_eq
  | .objects items => Term.listReferences_eq items

theorem Term.listReferences_eq : (ts : List Term) →
    Term.listReferences ts = (Term.listMarks ts).filterMap Mark.variable?
  | [] => rfl
  | t :: rest => by
    rw [Term.listReferences, Term.listMarks, filterMap_append, t.references_eq, Term.listReferences_eq rest]

end

theorem Simple.references_eq (content : Simple) : content.references = content.marks.filterMap Mark.variable? := by
  cases content with
  | assign target value =>
    rw [Simple.references, Simple.marks, filterMap_append, target.references_eq, value.references_eq]
  | expression term => exact term.references_eq
  | leave result => cases result <;> rfl
  | _ => rfl

end CSharp

open CSharp (Call Mark)

/-! ### What a scope says of names -/

/-- What is written for a name that stands for a value or is assigned to. -/
def Meaning.marks (name : Token) : Meaning → List Mark
  | .variable target | .undeclared target => [.variable target]
  | .property => [.text name.text]
  | _ => []

/-- What is noted of such a name. -/
def Meaning.notes (name : Token) : Meaning → List Note
  | .undeclared _ => [.undeclared name]
  | _ => []

namespace Scope

/-- What a name means where it is used. -/
def meaning (s : Scope) (u : Use) : Meaning :=
  match u.role with
  | .target => s.resolveTarget u.name
  | _ => s.resolve u.name

/-- The variable that is written for a use. -/
def written? (s : Scope) (u : Use) : Option Reference :=
  match u.role with
  | .array isReDim => some (Lower.declaredVariable s isReDim u.name).1
  | _ => (s.meaning u).target?

/-- Where a use is a variable, its name resolves to that variable. -/
theorem resolve_of_meaning (found : (s.meaning u).target? = some r) : s.meaning u = s.resolve u.name := by
  unfold meaning at found ⊢
  split
  · next target =>
    rw [target] at found
    rcases s.resolveTarget_cases u.name with same | ⟨key, result, -, same⟩
    · exact same
    · simp [same, Meaning.target?] at found
  · rfl

theorem isCodeWord_meaning (found : (s.meaning u).target? = some r) : isCodeWord r.name = true := by
  rw [resolve_of_meaning found] at found
  apply s.word_resolve u.name
  rcases Meaning.target?_eq_some_iff.mp found with same | same
  · rw [same]
    rfl
  · rw [same]
    rfl

theorem isCodeWord_declaredVariable (s : Scope) (isReDim : Bool) (name : Token) :
    isCodeWord (Lower.declaredVariable s isReDim name).1.name = true := by
  unfold Lower.declaredVariable
  split
  next target resolved =>
    split
    · apply s.word_resolve name
      rw [resolved]
      rfl
    · exact isCodeWord_identifier name.text
  · exact isCodeWord_identifier name.text

/-- Some frame has a routine of the name that is called, and the arguments go as its parameters say. -/
def Offers (s : Scope) (call : Call) : Prop :=
  ∃ f ∈ s.frames, ∃ name : Token, f.declared.routine? (nameKey name.text) = some (call.arguments.map Term.isByRef) ∧
      call.target = s.reference f.kind name

theorem Offers.isCodeWord {call : Call} (offers : s.Offers call) : isCodeWord call.target.name = true := by
  obtain ⟨f, -, name, -, target⟩ := offers
  rw [target]
  exact isCodeWord_identifier name.text

theorem routine_of_resolve {target : Reference} (resolved : s.resolve name = .routine target byRef) :
    ∃ f ∈ s.frames, f.declared.routine? (nameKey name.text) = some byRef ∧ target = s.reference f.kind name := by
  cases resolved ▸ s.means_resolve name with
  | routine member known => exact ⟨_, member, known, rfl⟩

end Scope

/-- The scope accounts for the mark: a name is a word of the generated code, a result is that of the routine around, and
what is called is offered. -/
def CSharp.Mark.IsProper (s : Scope) : Mark → Prop
  | .variable target => isCodeWord target.name = true
  | .word name => isCodeWord name = true
  | .result name => s.result?.map Prod.snd = some name
  | .call made => s.Offers made
  | .text _ | .number _ | .comment _ => True

/-! ### Elements -/

/-- What an expression of a script is made of, apart from operators and brackets. -/
inductive Element where
  | use (made : Use)
  /-- A name behind a point. -/
  | member (name : Token)
  | value (literal : Token)
  /-- A class that is instantiated. -/
  | new (className : Token)

namespace Element

def use? : Element → Option Use
  | .use made => some made
  | _ => none

/-- The marks that an element leaves in the code. -/
def marks (s : Scope) : Element → List Mark
  | .use u => if u.isArray then (s.written? u).toList.map .variable else (s.meaning u).marks u.name
  | .member name => [.text name.text]
  | .value t =>
    match t.kind with
    | .string | .date => [.text t.text]
    | .number => [.number t.text]
    | _ => []
  | .new className =>
    match s.resolve className with
    | .classType _ => []
    | _ => [.text className.text]

/-- The notes that an element leaves. -/
def notes (site : Site) : Element → List Note
  | .use u => if u.isArray then [] else (site.scope.meaning u).notes u.name
  | .value t => if t.kind = .date ∧ Date.classify site.culture t.text = .cultureDependent then [.date t.text] else []
  | .member _ | .new _ => []

/-- A date literal is a date. -/
def IsValid (culture : Culture) : Element → Prop
  | .value t => t.kind = .date → Date.classify culture t.text ≠ .invalid
  | _ => True

theorem mem_marks_use : .variable r ∈ (Element.use u).marks s ↔ s.written? u = some r := by
  rw [marks]
  by_cases isArray : u.isArray = true
  · simp [isArray, eq_comm]
  · have written : s.written? u = (s.meaning u).target? := by
      unfold Scope.written?
      split
      next role => simp [Use.isArray, role] at isArray
      · rfl
    rw [if_neg isArray, written]
    cases s.meaning u <;> simp [Meaning.marks, Meaning.target?, eq_comm]

end Element

mutual

/-- The elements of a segment, which may go on with a chain. A call without names has no place for its
arguments. -/
def Segment.elements (inChain : Bool) : Segment → List Element
  | .call [] _ | .operator _ => []
  | .call (name :: names) arguments =>
    (if inChain then .member name else .use ⟨name, .value⟩) :: (names.map .member ++ Expr.listElements arguments)
  | .value t => [.value t]
  | .bracketed inner => Expr.elementsFrom false inner
  | .new className => [.new className]

/-- The elements of an expression that may go on with a chain. -/
def Expr.elementsFrom (inChain : Bool) : List Segment → List Element
  | [] => []
  | s :: rest => s.elements inChain ++ Expr.elementsFrom (s.continues inChain) rest

def Expr.listElements : List (List Segment) → List Element
  | [] => []
  | e :: rest => Expr.elementsFrom false e ++ Expr.listElements rest

end

/-- The elements of an expression, from left to right. -/
def Expr.elements (e : Expr) : List Element :=
  Expr.elementsFrom false e

/-! ### What code tells -/

/-- The marks and the notes are those that the elements leave, apart from proper words and calls among the marks;
and no date among the elements is invalid. -/
structure Tells (site : Site) (elements : List Element) (marks : List Mark) (notes : List Note) : Prop where
  left : ∀ m, m.isLeft = true → (m ∈ marks ↔ ∃ x ∈ elements, m ∈ x.marks site.scope)
  proper : ∀ m ∈ marks, m.IsProper site.scope
  noted : ∀ n, n ∈ notes ↔ ∃ x ∈ elements, n ∈ x.notes site
  valid : ∀ x ∈ elements, x.IsValid site.culture

namespace Tells

variable {site : Site} {elements others : List Element} {marks written : List Mark} {notes later : List Note}

theorem nil : Tells site [] [] [] := by
  constructor <;> simp

theorem append (first : Tells site elements marks notes) (second : Tells site others written later) :
    Tells site (elements ++ others) (marks ++ written) (notes ++ later) where
  left m isLeft := by
    simp only [mem_append, first.left m isLeft, second.left m isLeft, or_and_right, exists_or]
  proper := forall_mem_append.mpr ⟨first.proper, second.proper⟩
  noted n := by simp only [mem_append, first.noted, second.noted, or_and_right, exists_or]
  valid := forall_mem_append.mpr ⟨first.valid, second.valid⟩

/-- Only which elements, marks and notes there are matters, not their order. -/
theorem congr (tells : Tells site elements marks notes) (sameElements : ∀ x, x ∈ others ↔ x ∈ elements)
    (sameMarks : ∀ m, m ∈ written ↔ m ∈ marks) (sameNotes : ∀ n, n ∈ later ↔ n ∈ notes) :
    Tells site others written later where
  left m isLeft := by simp only [sameMarks, tells.left m isLeft, sameElements]
  proper m member := tells.proper m ((sameMarks m).mp member)
  noted n := by simp only [sameNotes, tells.noted, sameElements]
  valid x member := tells.valid x ((sameElements x).mp member)

theorem extra {m : Mark} (tells : Tells site elements marks notes) (way : m.isLeft = false)
    (proper : m.IsProper site.scope) : Tells site elements (m :: marks) notes where
  left m' isLeft := by
    have other : m' ≠ m := by
      rintro rfl
      rw [way] at isLeft
      cases isLeft
    rw [mem_cons, or_iff_right other, tells.left m' isLeft]
  proper := forall_mem_cons.mpr ⟨proper, tells.proper⟩
  noted := tells.noted
  valid := tells.valid

theorem single {x : Element} (proper : ∀ m ∈ x.marks site.scope, m.IsProper site.scope)
    (valid : x.IsValid site.culture) : Tells site [x] (x.marks site.scope) (x.notes site) := by
  constructor
  · simp
  · exact proper
  · simp
  · simpa using valid

theorem use (plain : u.isArray = false) :
    Tells site [.use u] ((site.scope.meaning u).marks u.name) ((site.scope.meaning u).notes u.name) := by
  have marks : (Element.use u).marks site.scope = (site.scope.meaning u).marks u.name := by
    rw [Element.marks, plain]
    rfl
  have notes : (Element.use u).notes site = (site.scope.meaning u).notes u.name := by
    rw [Element.notes, plain]
    rfl
  rw [← marks, ← notes]
  refine single (fun m member => ?_) trivial
  rw [marks] at member
  cases meant : site.scope.meaning u with
  | «variable» r | undeclared r =>
    rw [meant] at member
    cases mem_singleton.mp member
    exact Scope.isCodeWord_meaning (u := u) (by rw [meant]; rfl)
  | property =>
    rw [meant] at member
    cases mem_singleton.mp member
    trivial
  | _ =>
    rw [meant] at member
    cases member

theorem members (names : List Token) : Tells site (names.map .member) ((names.map Token.text).map .text) [] := by
  have marks (name : Token) : (Element.member name).marks site.scope = [.text name.text] := rfl
  have notes (name : Token) : (Element.member name).notes site = [] := rfl
  constructor
  · intro m _
    simp only [map_map, mem_map, Function.comp_apply, exists_exists_and_eq_and, marks, mem_singleton, eq_comm (a := m)]
  · simp [Mark.IsProper]
  · simp [notes]
  · simp [Element.IsValid]

end Tells
end VbSharp
