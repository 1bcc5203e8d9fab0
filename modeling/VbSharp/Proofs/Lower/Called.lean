import VbSharp.Proofs.Lower.Telling

/-!
# Calls and what they pass

The calls of routines in the generated code, each with its arguments. Whatever is lowered in a scope calls
only routines that a frame of the scope knows, and passes each argument in the way that the frame says.
-/
namespace VbSharp.CSharp

variable (content : Simple)

/-! ### Calls -/

mutual

/-- The calls in an expression, those in the arguments of others included. -/
def Term.calls : Term → List Call
  | .call target arguments => ⟨target, arguments⟩ :: Term.listCalls arguments
  | .support _ arguments => Term.listCalls arguments
  | .byRef argument => argument.calls
  | .objects items => Term.listCalls items
  | _ => []

def Term.listCalls : List Term → List Call
  | [] => []
  | t :: rest => t.calls ++ Term.listCalls rest

end

/-- There are as many arguments as parameters, and those go by reference whose parameters say so. -/
def Signature.Accepts (s : Signature) (arguments : List Term) : Prop :=
  arguments.map Term.isByRef = s.parameters.map Prod.fst

instance (s : Signature) (arguments : List Term) : Decidable (s.Accepts arguments) :=
  inferInstanceAs (Decidable (_ = _))

def Simple.calls : Simple → List Call
  | .assign target value => target.calls ++ value.calls
  | .expression term => term.calls
  | _ => []

def Head.calls : Head → List Call
  | .branch condition | .elseBranch condition => condition.calls
  | _ => []

mutual

/-- The calls in a statement and all that it holds. -/
def Stmt.calls : Stmt → List Call
  | .blank => []
  | .line content _ => content.calls
  | .block head body _ => head.calls ++ Stmt.listCalls body

def Stmt.listCalls : List Stmt → List Call
  | [] => []
  | s :: rest => s.calls ++ Stmt.listCalls rest

end

mutual

theorem Term.calls_eq : (t : Term) → t.calls = t.marks.filterMap Mark.call?
  | .variable _ | .string _ | .number _ | .result _ | .environment _ | .constant _ | .new _ _ | .this
  | .errorObject | .boolean _ | .null | .dbNull => rfl
  | .strings texts => by simp [Term.calls, Term.marks, Mark.call?]
  | .support _ arguments => Term.listCalls_eq arguments
  | .call target arguments => by
    rw [Term.calls, Term.marks, Term.listCalls_eq arguments]
    rfl
  | .byRef argument => argument.calls_eq
  | .objects items => Term.listCalls_eq items

theorem Term.listCalls_eq : (ts : List Term) → Term.listCalls ts = (Term.listMarks ts).filterMap Mark.call?
  | [] => rfl
  | t :: rest => by
    rw [Term.listCalls, Term.listMarks, List.filterMap_append, t.calls_eq, Term.listCalls_eq rest]

end

theorem Simple.calls_eq : content.calls = content.marks.filterMap Mark.call? := by
  cases content with
  | assign target value =>
    rw [Simple.calls, Simple.marks, List.filterMap_append, target.calls_eq, value.calls_eq]
  | expression term => exact term.calls_eq
  | leave result => cases result <;> rfl
  | _ => rfl

namespace Stmt

theorem listCalls_eq_flatMap (stmts : List Stmt) : listCalls stmts = stmts.flatMap calls := by
  induction stmts with
  | nil => rfl
  | cons s rest ih => rw [listCalls, ih, List.flatMap_cons]

@[simp]
theorem listCalls_nil : listCalls [] = [] := rfl

@[simp]
theorem listCalls_cons (s : Stmt) (rest : List Stmt) : listCalls (s :: rest) = s.calls ++ listCalls rest := rfl

@[simp]
theorem listCalls_append (a b : List Stmt) : listCalls (a ++ b) = listCalls a ++ listCalls b := by
  simp [listCalls_eq_flatMap]

@[simp]
theorem calls_blank : Stmt.blank.calls = [] := rfl

@[simp]
theorem calls_ofSimple : (ofSimple content).calls = content.calls := rfl

@[simp]
theorem calls_ofBlock (head : Head) (body : List Stmt) : (ofBlock head body).calls = head.calls ++ listCalls body := rfl

/-- A remark behind some statements adds no call and takes none away. -/
theorem listCalls_addRemark? {text : String} {stmts remarked : List Stmt}
    (added : Lower.addRemark? text stmts = some remarked) : listCalls remarked = listCalls stmts := by
  rw [listCalls_eq_flatMap, listCalls_eq_flatMap]
  exact flatMap_addRemark? added

end Stmt
end VbSharp.CSharp

namespace VbSharp

open CSharp (Call Mark Simple Term)

variable {site : Site} {elements : List Element} {notes : List Note}

/-! ### Routines that a scope offers -/

namespace Scope

/-- A routine without routines of its own offers what is offered around it. -/
theorem Offers.of_ofRoutine {s : Scope} {header : Header} {body : List Block} {result : Option String}
    {call : Call} (offers : (s.ofRoutine header body result).Offers call)
    (none : (Declared.ofBlocks body).routines = []) : s.Offers call := by
  obtain ⟨f, member, name, known, target⟩ := offers
  rcases List.mem_cons.mp member with rfl | around
  · have empty : (s.ofRoutine header body result).frame.declared.routines = [] := none
    simp [Declared.routine?, empty] at known
  · refine ⟨f, around, name, known, target.trans ?_⟩
    have within : (s.ofRoutine header body result).isWithinClass = s.isWithinClass := rfl
    rw [reference, reference, within]

end Scope

/-- Whatever is told of in a scope calls only what the scope offers. -/
theorem Tells.offers {marks : List Mark} (tells : Tells site elements marks notes) :
    ∀ call ∈ marks.filterMap Mark.call?, site.scope.Offers call := by
  intro call called
  obtain ⟨m, member, same⟩ := List.mem_filterMap.mp called
  cases m with
  | call made =>
    cases same
    exact tells.proper _ member
  | _ => cases same

namespace Lower

/-- A statement that calls only what the scope offers. -/
def ContentOffered (s : Scope) (content : Simple) : Prop :=
  ∀ call ∈ content.calls, s.Offers call

theorem contentOffered_of_tells {content : Simple} (tells : Tells site elements content.marks notes) :
    ContentOffered site.scope content := by
  rw [ContentOffered, content.calls_eq]
  exact tells.offers

end Lower
end VbSharp
