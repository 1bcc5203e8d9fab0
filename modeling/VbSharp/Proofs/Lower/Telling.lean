import VbSharp.Proofs.Expr.Precedence
import VbSharp.Proofs.Lower.Marks

/-!
# Lowered code tells what it is made from

What is generated for an expression holds the marks of its elements, and lowering notes what they leave. This is
shown for expressions along their chains and operator trees, and then for the statements made of them.
-/
namespace VbSharp

open List CSharp.Term Scope
open CSharp (Mark Reference Simple Term)

variable (names : List Token)

variable {fault : Fault} {function : String} {kind : AssignKind}

/-! ### Computations that make notes -/

namespace Noting

variable {α β : Type}

/-- The computation ends with that result and those notes. -/
def Gives (c : Noting α) (a : α) (notes : List Note) : Prop :=
  c = Except.ok (a, notes)

variable {a : α} {notes : List Note}

theorem gives_ok {b : α} {first : List Note} : Gives (Except.ok (a, first)) b notes ↔ a = b ∧ first = notes := by
  change (Except.ok (a, first) : Except Fault (α × List Note)) = .ok (b, notes) ↔ _
  rw [Except.ok.injEq, Prod.mk.injEq]

theorem not_gives_error : ¬ Gives (Except.error fault) a notes := by
  change ¬ (Except.error fault : Except Fault (α × List Note)) = .ok (a, notes)
  simp

@[simp]
theorem gives_pure {b : α} : (pure a : Noting α).Gives b notes ↔ a = b ∧ notes = [] :=
  gives_ok.trans (and_congr_right' eq_comm)

@[simp]
theorem gives_bind {c : Noting α} {next : α → Noting β} {b : β} :
    (c >>= next).Gives b notes ↔ ∃ a first more, c.Gives a first ∧ (next a).Gives b more ∧ notes = first ++ more := by
  change (andThen c next).Gives b notes ↔ _
  unfold andThen
  match c with
  | .error fault => simp [not_gives_error]
  | .ok (a, first) =>
    match given : next a with
    | .error fault => simp [gives_ok, given, not_gives_error]
    | .ok (b', more) => simp [gives_ok, given, eq_comm]

theorem gives_bind_pure {c : Noting α} {f : α → β} {b : β} :
    (c >>= fun a => pure (f a)).Gives b notes ↔ ∃ a, c.Gives a notes ∧ f a = b := by
  simp

@[simp]
theorem not_gives_fail : ¬ (fail fault : Noting α).Gives a notes :=
  not_gives_error

@[simp]
theorem gives_note {n : Note} {a : Unit} : (note n).Gives a notes ↔ notes = [n] :=
  gives_ok.trans (by simp [eq_comm])

@[simp]
theorem gives_lift {result : Except Fault α} : (lift result).Gives a notes ↔ result = .ok a ∧ notes = [] := by
  cases result with
  | error fault => simp [lift]
  | ok b => exact gives_pure.trans (by simp)

end Noting

/-! ### Steps of a chain -/

namespace Expr

/-- The names of one call; the arguments belong to the last of them. -/
def stepsOfCall (names : List Token) (arguments : List Expr) : List (Token × List Expr) :=
  match names with
  | [] => []
  | [name] => [(name, arguments)]
  | name :: rest => (name, []) :: stepsOfCall rest arguments

/-- The names of some calls with their arguments. -/
def stepsOf (calls : List (List Token × List Expr)) : List (Token × List Expr) :=
  calls.flatMap fun (names, arguments) => stepsOfCall names arguments

@[simp]
theorem stepsOf_cons (arguments : List Expr) (calls : List (List Token × List Expr)) :
    stepsOf ((names, arguments) :: calls) = stepsOfCall names arguments ++ stepsOf calls := rfl

/-- The steps of the calls of an expression. -/
def steps (e : Expr) : List (Token × List Expr) :=
  e.flatMap fun
    | .call names arguments => stepsOfCall names arguments
    | _ => []

theorem fst_stepsOfCall (arguments : List Expr) : (stepsOfCall names arguments).map Prod.fst = names := by
  induction names with
  | nil => rfl
  | cons name rest ih =>
    cases rest with
    | nil => rfl
    | cons next rest => exact congrArg (cons name) ih

/-- The elements of steps that go on with a chain. -/
def memberElements (steps : List (Token × List Expr)) : List Element :=
  steps.flatMap fun step => .member step.1 :: listElements step.2

/-- The elements of the steps of a chain, or of steps that go on with one. -/
def chainElements (inChain : Bool) : List (Token × List Expr) → List Element
  | [] => []
  | (name, arguments) :: members =>
    (if inChain then .member name else .use ⟨name, .value⟩) :: (listElements arguments ++ memberElements members)

theorem chainElements_true (steps : List (Token × List Expr)) : chainElements true steps = memberElements steps := by
  cases steps <;> rfl

theorem memberElements_stepsOfCall (arguments : List Expr) :
    memberElements (stepsOfCall names arguments) = (Segment.call names arguments).elements true := by
  induction names with
  | nil => rfl
  | cons name rest ih =>
    cases rest with
    | nil => simp [stepsOfCall, memberElements, Segment.elements]
    | cons next rest =>
      have first : memberElements (stepsOfCall (name :: next :: rest) arguments) =
          .member name :: memberElements (stepsOfCall (next :: rest) arguments) := rfl
      rw [first, ih]
      rfl

theorem chainElements_stepsOfCall (inChain : Bool) (name : Token) (names : List Token) (arguments : List Expr)
    (later : List (Token × List Expr)) :
    chainElements inChain (stepsOfCall (name :: names) arguments ++ later) =
      (Segment.call (name :: names) arguments).elements inChain ++ memberElements later := by
  cases names with
  | nil => rfl
  | cons next rest =>
    have behind : chainElements inChain (stepsOfCall (name :: next :: rest) arguments ++ later) =
        (if inChain then .member name else .use ⟨name, .value⟩) ::
          memberElements (stepsOfCall (next :: rest) arguments ++ later) := rfl
    rw [behind, memberElements, flatMap_append, ← memberElements, memberElements_stepsOfCall]
    rfl

theorem calls_of_isChain {e : Expr} (chained : isChain e = true) : e.all Segment.isCall = true := by
  rw [isChain, Bool.and_eq_true] at chained
  exact chained.2

theorem elementsFrom_chain (inChain : Bool) (e : Expr) (calls : e.all Segment.isCall = true) :
    elementsFrom inChain e = chainElements inChain (steps e) := by
  induction e generalizing inChain with
  | nil => rfl
  | cons s rest ih =>
    rw [all_cons, Bool.and_eq_true] at calls
    cases s with
    | call names arguments =>
      have split : steps (.call names arguments :: rest) = stepsOfCall names arguments ++ steps rest := rfl
      cases names with
      | nil => exact ih inChain calls.2
      | cons name names =>
        rw [split, chainElements_stepsOfCall, elementsFrom, ← chainElements_true, ← ih true calls.2]
        rfl
    | value token | operator token | bracketed inner | new className => simp [Segment.isCall] at calls

end Expr

/-! ### Items of an expression -/

/-- The elements of an operand. -/
def Operand.elements : Operand Expr → List Element
  | .chain calls => Expr.chainElements false (Expr.stepsOf calls)
  | .value t => [.value t]
  | .bracketed inner => Expr.elements inner
  | .new className => [.new className]

def Item.elements : Item (Operand Expr) → List Element
  | .operand o => o.elements
  | .operator _ => []

/-- The elements of some items, the first of which may go on with a chain. -/
def Item.elementsFrom (inChain : Bool) : List (Item (Operand Expr)) → List Element
  | .operand (.chain calls) :: others =>
    Expr.chainElements inChain (Expr.stepsOf calls) ++ others.flatMap Item.elements
  | items => items.flatMap Item.elements

namespace Expr

theorem itemElements_false (items : List (Item (Operand Expr))) :
    Item.elementsFrom false items = items.flatMap Item.elements := by
  unfold Item.elementsFrom
  split <;> simp [Item.elements, Operand.elements]

theorem elementsFrom_eq_items (inChain : Bool) (e : Expr) :
    elementsFrom inChain e = Item.elementsFrom inChain (items e) := by
  induction e generalizing inChain with
  | nil => rfl
  | cons s rest ih =>
    have later : elementsFrom false rest = (items rest).flatMap Item.elements := by
      rw [ih, itemElements_false]
    cases s with
    | value token | new className => exact congrArg (cons _) later
    | operator token => exact later
    | bracketed inner => exact congrArg (elements inner ++ ·) later
    | call names arguments =>
      simp only [items, map_cons, Segment.piece, Piece.items] at ih later ⊢
      -- the call goes before the chain that the rest begins with, or is a chain of its own
      split
      next calls others found =>
        cases names with
        | nil =>
          simp only [elementsFrom, Segment.elements, Segment.continues, ih, found, Item.elementsFrom, stepsOf_cons,
            stepsOfCall, nil_append]
        | cons name names =>
          simp only [elementsFrom, Segment.continues, ih, found, Item.elementsFrom, stepsOf_cons,
            chainElements_stepsOfCall, chainElements_true, append_assoc]
      next others bare =>
        have same (flag : Bool) :
            elementsFrom flag rest = (Piece.items (rest.map Segment.piece)).flatMap Item.elements := by
          rw [ih flag, Item.elementsFrom]
          exact bare
        cases names with
        | nil => simp [elementsFrom, Segment.elements, same, Item.elementsFrom, stepsOf, stepsOfCall, chainElements]
        | cons name names =>
          have alone := chainElements_stepsOfCall inChain name names arguments []
          simp only [append_nil] at alone
          simp [elementsFrom, same, Item.elementsFrom, stepsOf, alone, memberElements]

end Expr

namespace Lower

/-- An expression as an argument. -/
def argument (site : Site) (e : Expr) : Argument :=
  ⟨plainName? e, expression site e⟩

/-- A name with its arguments lowered. -/
def step (site : Site) (source : Token × List Expr) : Step :=
  ⟨source.1, source.2.map (argument site)⟩

theorem arguments_eq_map (site : Site) (es : List Expr) : arguments site es = es.map (argument site) := by
  induction es with
  | nil => rw [arguments, map_nil]
  | cons e rest ih => rw [arguments, ih, map_cons, argument, expression]

theorem stepsOfCall_arguments (site : Site) (names : List Token) (es : List Expr) :
    stepsOfCall names (es.map (argument site)) = (Expr.stepsOfCall names es).map (step site) := by
  induction names with
  | nil => rfl
  | cons name rest ih =>
    cases rest with
    | nil => rfl
    | cons next rest => exact congrArg (cons ⟨name, []⟩) ih

theorem stepsOf_lowered {site : Site} (calls : List (List Token × List Expr)) :
    stepsOf (calls.map fun call => (call.1, call.2.map (argument site))) = (Expr.stepsOf calls).map (step site) := by
  induction calls with
  | nil => rfl
  | cons call rest ih =>
    rw [Expr.stepsOf_cons, map_append, ← ih, ← stepsOfCall_arguments]
    rfl

theorem chainSteps_eq (site : Site) (e : Expr) : chainSteps site e = (Expr.steps e).map (step site) := by
  induction e with
  | nil => rfl
  | cons s rest ih =>
    cases s with
    | call names arguments =>
      rw [chainSteps, arguments_eq_map, stepsOfCall_arguments, ih, ← map_append]
      rfl
    | value token | operator token | bracketed inner | new className => exact ih

theorem mem_arguments_of_stepsOfCall (arguments : List Expr) :
    ∀ s ∈ Expr.stepsOfCall names arguments, ∀ e ∈ s.2, e ∈ arguments := by
  induction names with
  | nil => simp [Expr.stepsOfCall]
  | cons name rest ih =>
    cases rest with
    | nil => simp [Expr.stepsOfCall]
    | cons next rest =>
      intro s member
      rcases mem_cons.mp member with rfl | later
      · simp
      · exact ih s later

/-- An operand with its expressions lowered. -/
def loweredOperand (site : Site) : Operand Expr → Operand Argument
  | .chain calls => .chain (calls.map fun call => (call.1, call.2.map (argument site)))
  | .value t => .value t
  | .bracketed inner => .bracketed (argument site inner)
  | .new className => .new className

def loweredItem (site : Site) : Item (Operand Expr) → Item (Operand Argument)
  | .operand o => .operand (loweredOperand site o)
  | .operator t => .operator t

/-- Lowering the segments first and grouping them afterwards comes to the same as grouping them
first. -/
theorem items_pieces (site : Site) (e : Expr) :
    Piece.items (pieces site e) = (Expr.items e).map (loweredItem site) := by
  induction e with
  | nil => simp [pieces, Expr.items, Piece.items]
  | cons s rest ih =>
    simp only [Expr.items] at ih ⊢
    cases s with
    | value token | operator token | bracketed inner | new className =>
      simp only [pieces, piece, map_cons, Segment.piece, Piece.items, ih]
      rfl
    | call names arguments =>
      simp only [pieces, piece, map_cons, Segment.piece, Piece.items, ih, arguments_eq_map]
      rcases Piece.items (rest.map Segment.piece) with _ | ⟨⟨⟨⟩⟩ | _, _⟩ <;> rfl

/-- The expressions that stand directly in a segment. -/
def Segment.inner : Segment → List Expr
  | .call _ arguments => arguments
  | .bracketed inner => [inner]
  | _ => []

/-! ### Chains -/

/-- A term that is passed by value and tells, with the notes, about the elements. -/
structure Makes (site : Site) (elements : List Element) (t : Term) (notes : List Note) : Prop where
  plain : t.isByRef = false
  tells : Tells site elements t.marks notes

/-- The same for a term that a statement of a script can start with. -/
structure Leads (site : Site) (elements : List Element) (t : Term) (notes : List Note) : Prop
    extends Makes site elements t notes where
  leads : t.canLead = true

/-- Lowering the expression makes a term that tells about its elements. -/
def IsTold (site : Site) (e : Expr) : Prop :=
  ∀ t notes, (expression site e).Gives t notes → Makes site (Expr.elements e) t notes

section Chain

variable {site : Site} {t target : Term} {elements : List Element} {before notes : List Note} {es : List Expr}

variable {terms : List Term} {e : Expr} {name : Token}

theorem makes_support (word : isCodeWord function = true) (tells : Tells site elements (listMarks terms) notes) :
    Makes site elements (.support function terms) notes :=
  ⟨rfl, tells.extra rfl word⟩

theorem Makes.support (made : Makes site elements t notes) (word : isCodeWord function = true) :
    Makes site elements (.support function [t]) notes :=
  makes_support word (by simpa [listMarks] using made.tells)

section

variable (told : ∀ e ∈ es, IsTold site e)
include told

theorem told_plainArguments (given : (plainArguments (es.map (argument site))).Gives terms notes) :
    Tells site (Expr.listElements es) (listMarks terms) notes := by
  induction es generalizing terms notes with
  | nil =>
    simp only [map_nil, plainArguments, Noting.gives_pure] at given
    rw [← given.1, given.2]
    exact .nil
  | cons e rest ih =>
    obtain ⟨first, others⟩ := forall_mem_cons.mp told
    simp only [map_cons, plainArguments, Noting.gives_bind, Noting.gives_pure] at given
    obtain ⟨term, firstNotes, _, firstGiven, ⟨terms, restNotes, _, restGiven, ⟨rfl, rfl⟩, rfl⟩, rfl⟩ := given
    rw [append_nil]
    exact (first term firstNotes firstGiven).tells.append (ih others restGiven)

theorem told_boundArguments (given : (boundArguments (es.map (argument site))).Gives t notes) :
    Makes site (Expr.listElements es) t notes := by
  obtain ⟨terms, made, rfl⟩ := Noting.gives_bind_pure.mp given
  exact makes_support (by decide) (told_plainArguments told made)

/-- A call that is bound at run time tells about its arguments what they tell, behind its target and members. -/
theorem told_lateCall {members : List Token}
    (named : Tells site elements (target.marks ++ (members.map Token.text).map .text) before)
    (given : (lateCall target members (es.map (argument site))).Gives t notes) :
    Leads site (elements ++ Expr.listElements es) t (before ++ notes) := by
  cases es with
  | nil =>
    obtain ⟨rfl, rfl⟩ := given
    refine ⟨makes_support (by decide) ?_, rfl⟩
    simpa [listMarks, Term.marks, Expr.listElements] using named
  | cons e rest =>
    obtain ⟨bound, made, rfl⟩ := Noting.gives_bind_pure.mp given
    refine ⟨makes_support (by decide) ?_, rfl⟩
    have whole := named.append (told_boundArguments told made).tells
    simpa [listMarks, Term.marks] using whole

theorem told_indexed (made : Leads site elements target before)
    (given : (indexed target (es.map (argument site))).Gives t notes) :
    Leads site (elements ++ Expr.listElements es) t (before ++ notes) := by
  cases es with
  | nil =>
    obtain ⟨rfl, rfl⟩ := given
    rw [Expr.listElements, append_nil, append_nil]
    exact made
  | cons e rest =>
    have named : Tells site elements (target.marks ++ ([].map Token.text).map .text) before := by
      simpa using made.tells
    exact told_lateCall told named given

omit told in
theorem elements_of_plainName? (plain : plainName? e = some name) : Expr.elements e = [.use ⟨name, .value⟩] := by
  unfold plainName? at plain
  split at plain
  · rw [Option.some.inj plain]
    rfl
  · cases plain

omit told in
/-- A variable that goes by reference is all that its argument is made of. -/
theorem told_variableArgument? {found : Option Term}
    (given : (variableArgument? site (argument site e)).Gives found notes) :
    match found with
    | some place => Tells site (Expr.elements e) place.marks notes
    | none => notes = [] := by
  simp only [variableArgument?, argument] at given
  split at given
  · obtain ⟨rfl, rfl⟩ := Noting.gives_pure.mp given
    rfl
  next name plain =>
    have used : Tells site [.use ⟨name, .value⟩] _ _ := .use rfl
    rw [← elements_of_plainName? plain] at used
    split at given
    next r resolved =>
      obtain ⟨rfl, rfl⟩ := Noting.gives_pure.mp given
      simp only [meaning, resolved] at used
      exact used
    next r resolved =>
      obtain ⟨_, _, _, rfl, ⟨rfl, rfl⟩, rfl⟩ := given
      simp only [meaning, resolved] at used
      exact used
    · obtain ⟨rfl, rfl⟩ := Noting.gives_pure.mp given
      rfl

omit told in
theorem told_routineArgument (told : IsTold site e) {byRef : Bool}
    (given : (routineArgument site (argument site e) byRef).Gives t notes) :
    t.isByRef = byRef ∧ Tells site (Expr.elements e) t.marks notes := by
  cases byRef with
  | false =>
    obtain ⟨plain, tells⟩ := told t notes given
    exact ⟨plain, tells⟩
  | true =>
    simp only [routineArgument, Bool.not_true, Bool.false_eq_true, if_false, Noting.gives_bind] at given
    obtain ⟨found, foundNotes, more, foundGiven, restGiven, rfl⟩ := given
    have before := told_variableArgument? foundGiven
    cases found with
    | some place =>
      obtain ⟨rfl, rfl⟩ := Noting.gives_pure.mp restGiven
      rw [append_nil]
      exact ⟨rfl, before⟩
    | none =>
      -- what is no variable goes by reference to a temporary one
      obtain ⟨value, valueGiven, rfl⟩ := Noting.gives_bind_pure.mp restGiven
      cases before
      exact ⟨rfl, ((told value _ valueGiven).support (by decide)).tells⟩

theorem told_routineArguments {byRef : List Bool} (arity : es.length = byRef.length)
    (given : (routineArguments site ((es.map (argument site)).zip byRef)).Gives terms notes) :
    terms.map Term.isByRef = byRef ∧ Tells site (Expr.listElements es) (listMarks terms) notes := by
  induction es generalizing byRef terms notes with
  | nil =>
    obtain rfl : byRef = [] := length_eq_zero_iff.mp arity.symm
    simp only [map_nil, zip_nil_left, routineArguments, Noting.gives_pure] at given
    rw [← given.1, given.2]
    exact ⟨rfl, .nil⟩
  | cons e rest ih =>
    obtain ⟨flag, flags, rfl⟩ : ∃ flag flags, byRef = flag :: flags :=
      exists_cons_of_length_eq_add_one arity.symm
    obtain ⟨first, others⟩ := forall_mem_cons.mp told
    simp only [map_cons, zip_cons_cons, routineArguments, Noting.gives_bind, Noting.gives_pure] at given
    obtain ⟨term, firstNotes, _, firstGiven, ⟨terms, restNotes, _, restGiven, ⟨rfl, rfl⟩, rfl⟩, rfl⟩ := given
    obtain ⟨goes, tells⟩ := told_routineArgument first firstGiven
    obtain ⟨go, tellRest⟩ := ih others (Nat.succ.inj arity) restGiven
    rw [append_nil]
    exact ⟨by rw [map_cons, goes, go], tells.append tellRest⟩

/-- The first name of a chain. A routine is called as the frame says that has it. -/
theorem told_chainRoot (given : (chainRoot site (step site (name, es))).Gives t notes) :
    Leads site (.use ⟨name, .value⟩ :: Expr.listElements es) t notes := by
  have root : Tells site [.use ⟨name, .value⟩] _ _ := .use rfl
  have words := site.scope.word_resolve name
  simp only [meaning] at root
  cases resolved : site.scope.resolve name with
  | routine r byRef =>
    rw [resolved] at root
    simp only [chainRoot, step, resolved, routineCall, length_map] at given
    by_cases arity : es.length = byRef.length
    · simp only [arity, ne_eq, not_true_eq_false, if_false] at given
      obtain ⟨terms, made, rfl⟩ := Noting.gives_bind_pure.mp given
      obtain ⟨flagged, tells⟩ := told_routineArguments told arity made
      obtain ⟨f, member, known, written⟩ := routine_of_resolve resolved
      have offered : site.scope.Offers ⟨r, terms⟩ := ⟨f, member, name, by rw [known, ← flagged], written⟩
      exact ⟨⟨rfl, (root.append tells).extra rfl offered⟩, rfl⟩
    · simp [arity] at given
  | builtInFunction function =>
    rw [resolved] at root words
    simp only [chainRoot, step, resolved] at given
    obtain ⟨terms, made, rfl⟩ := Noting.gives_bind_pure.mp given
    refine ⟨makes_support (words _ rfl) (root.append (told_plainArguments told made)), ?_⟩
    exact ne_dateCheck_of_mem (mem_builtInFunctions resolved)
  | property =>
    rw [resolved] at root
    simp only [chainRoot, step, resolved] at given
    -- the name is written as a member of the object around
    have named : Tells site [.use ⟨name, .value⟩] (Term.this.marks ++ ([name].map Token.text).map .text) [] := root
    exact told_lateCall told named given
  | builtInConstant constant =>
    rw [resolved] at root words
    cases es with
    | nil =>
      simp only [chainRoot, step, resolved, map_nil, isEmpty_nil, if_true, Noting.gives_pure] at given
      obtain ⟨rfl, rfl⟩ := given
      exact ⟨⟨rfl, root.extra rfl (words _ rfl)⟩, rfl⟩
    | cons e rest => simp [chainRoot, step, resolved] at given
  | classType className => simp [chainRoot, step, resolved] at given
  | this | errorObject | «variable» r =>
    rw [resolved] at root
    simp only [chainRoot, step, resolved] at given
    exact told_indexed told ⟨⟨rfl, root⟩, rfl⟩ given
  | result name => exact absurd resolved (resolve_ne_result _ _ _)
  | external word =>
    rw [resolved] at root words
    simp only [chainRoot, step, resolved] at given
    have named := root.extra (m := .word word) rfl (words _ rfl)
    exact told_indexed told ⟨⟨rfl, named⟩, rfl⟩ given
  | undeclared r =>
    -- the note is made before the arguments are looked at
    rw [resolved] at root
    simp only [chainRoot, step, resolved, Noting.gives_bind, Noting.gives_note] at given
    obtain ⟨_, _, later, rfl, rest, rfl⟩ := given
    exact told_indexed told ⟨⟨rfl, root⟩, rfl⟩ rest

end

/-- The names behind the first one. Those without arguments wait for the next one that has some. -/
theorem told_chainMembers (pending : List Token) {steps : List (Token × List Expr)}
    (told : ∀ s ∈ steps, ∀ e ∈ s.2, IsTold site e) (made : Leads site elements target before)
    (given : (chainMembers target pending (steps.map (step site))).Gives t notes) :
    Leads site (elements ++ (pending.map .member ++ Expr.memberElements steps)) t (before ++ notes) := by
  induction steps generalizing target pending elements before notes with
  | nil =>
    have named := made.tells.append (Tells.members pending)
    cases pending with
    | nil =>
      obtain ⟨rfl, rfl⟩ := Noting.gives_pure.mp given
      simpa [Expr.memberElements] using made
    | cons name rest =>
      have none : ∀ e ∈ ([] : List Expr), IsTold site e := by simp
      have called := told_lateCall none named given
      simpa [Expr.memberElements, Expr.listElements] using called
  | cons s rest ih =>
    obtain ⟨name, es⟩ := s
    obtain ⟨first, others⟩ := forall_mem_cons.mp told
    have more : Expr.memberElements ((name, es) :: rest) =
        .member name :: (Expr.listElements es ++ Expr.memberElements rest) := rfl
    cases es with
    | nil =>
      have gathered := ih (pending ++ [name]) others made given
      simpa [more, Expr.listElements] using gathered
    | cons e es =>
      simp only [chainMembers, map_cons, step, isEmpty_cons, Bool.false_eq_true, if_false, Noting.gives_bind] at given
      obtain ⟨object, objectNotes, later, objectGiven, restGiven, rfl⟩ := given
      -- the argument list ends one call, and the rest of the chain goes on from it
      have named := made.tells.append (Tells.members (pending ++ [name]))
      have object := told_lateCall first named objectGiven
      have whole := ih [] others object restGiven
      simpa [more] using whole

theorem told_chain {steps : List (Token × List Expr)} (told : ∀ s ∈ steps, ∀ e ∈ s.2, IsTold site e)
    (given : (chain site (steps.map (step site))).Gives t notes) :
    Leads site (Expr.chainElements false steps) t notes := by
  cases steps with
  | nil => simp [chain] at given
  | cons first members =>
    obtain ⟨root, others⟩ := forall_mem_cons.mp told
    simp only [chain, map_cons, Noting.gives_bind] at given
    obtain ⟨object, objectNotes, later, rootGiven, membersGiven, rfl⟩ := given
    exact told_chainMembers [] others (told_chainRoot root rootGiven) membersGiven

end Chain

/-! ### Expressions -/

section Expression

variable {site : Site} {t : Term} {notes : List Note}

theorem told_literal {token : Token} (given : (literal site token).Gives t notes) :
    Makes site [.value token] t notes := by
  have single (proper : ∀ m ∈ (Element.value token).marks site.scope, m.IsProper site.scope)
      (valid : (Element.value token).IsValid site.culture) := Tells.single proper valid
  simp only [Element.marks, Element.notes, Element.IsValid] at single
  unfold literal at given
  cases kind : token.kind with
  | string | number =>
    simp only [kind, Noting.gives_pure] at given single
    obtain ⟨rfl, rfl⟩ := given
    exact ⟨rfl, single (by simp [Mark.IsProper]) (by simp)⟩
  | date =>
    simp only [kind] at given single
    -- an invalid date is a fault, and one that reads otherwise elsewhere is noted
    cases classified : Date.classify site.culture token.text with
    | invalid => simp [classified] at given
    | cultureDependent =>
      simp only [classified, Noting.gives_bind, Noting.gives_note, Noting.gives_pure] at given
      obtain ⟨_, _, _, rfl, ⟨rfl, rfl⟩, rfl⟩ := given
      apply makes_support (by decide)
      simpa [classified, listMarks, Term.marks] using single (by simp [Mark.IsProper])
    | valid =>
      simp only [classified, Noting.gives_pure] at given
      obtain ⟨rfl, rfl⟩ := given
      apply makes_support (by decide)
      simpa [classified, listMarks, Term.marks] using single (by simp [Mark.IsProper])
  | constant =>
    simp only [kind] at given single
    split_ifs at given
    all_goals
      obtain ⟨rfl, rfl⟩ := Noting.gives_pure.mp given
      first
        | exact ⟨rfl, single (by simp) (by simp)⟩
        | exact ⟨rfl, (single (by simp) (by simp)).extra rfl (by decide : isCodeWord _ = true)⟩
  | _ => simp [kind] at given

theorem told_newInstance (className : Token) : Makes site [.new className] (newInstance site className) [] := by
  have single (proper : ∀ m ∈ (Element.new className).marks site.scope, m.IsProper site.scope) :
      Tells site [.new className] _ _ := Tells.single proper trivial
  simp only [Element.marks, Element.notes] at single
  unfold newInstance
  have words := site.scope.word_resolve className
  split
  next name resolved =>
    rw [resolved] at words
    simp only [resolved] at single
    exact ⟨rfl, (single (by simp)).extra rfl (words name rfl)⟩
  next other =>
    apply makes_support (by decide)
    split at single
    next name resolved => exact absurd resolved (other name)
    · exact single (by simp [Mark.IsProper])

theorem told_operand {o : Operand Expr} (told : ∀ s ∈ (Item.operand o).segments, ∀ e ∈ Segment.inner s, IsTold site e)
    (given : (operand site (loweredOperand site o)).Gives t notes) : Makes site o.elements t notes := by
  cases o with
  | chain calls =>
    simp only [loweredOperand, operand, stepsOf_lowered] at given
    refine (told_chain (fun s member e listed => ?_) given).toMakes
    obtain ⟨call, called, stepped⟩ := mem_flatMap.mp member
    exact told (.call call.1 call.2) (mem_map_of_mem called) e
      (mem_arguments_of_stepsOfCall call.1 call.2 s stepped e listed)
  | value token => exact told_literal given
  | bracketed inner => exact told (.bracketed inner) mem_cons_self inner mem_cons_self t notes given
  | new className =>
    obtain ⟨rfl, rfl⟩ := Noting.gives_pure.mp given
    exact told_newInstance className

theorem told_tree (tree : Tree (Operand Argument)) {items : List (Item (Operand Expr))}
    (same : items.map (loweredItem site) = tree.items) (told : ∀ o, .operand o ∈ items → ∀ t notes,
      (operand site (loweredOperand site o)).Gives t notes → Makes site o.elements t notes)
    (given : (Lower.tree (operand site) tree).Gives t notes) : Makes site (items.flatMap Item.elements) t notes := by
  induction tree generalizing items t notes with
  | operand a =>
    obtain ⟨item, rfl, lowered⟩ := map_eq_singleton_iff.mp same
    match item with
    | .operand o =>
      cases lowered
      simpa [Item.elements] using told o mem_cons_self t notes given
  | unary op token inner ih =>
    obtain ⟨item, rest, rfl, lowered, sameRest⟩ := map_eq_cons_iff.mp same
    match item with
    | .operator _ =>
      obtain ⟨value, made, rfl⟩ := Noting.gives_bind_pure.mp given
      exact (ih sameRest (fun o member => told o (mem_cons_of_mem _ member)) made).support
        (by cases op <;> decide)
  | binary op token left right ihLeft ihRight =>
    obtain ⟨before, after, rfl, sameLeft, sameAfter⟩ := map_eq_append_iff.mp same
    obtain ⟨item, rest, rfl, lowered, sameRight⟩ := map_eq_cons_iff.mp sameAfter
    match item with
    | .operator _ =>
      obtain ⟨first, _, _, firstGiven, later, rfl⟩ := Noting.gives_bind.mp given
      obtain ⟨second, secondGiven, rfl⟩ := Noting.gives_bind_pure.mp later
      have leftTold := ihLeft sameLeft (fun o member => told o (by simp [member])) firstGiven
      have rightTold := ihRight sameRight (fun o member => told o (by simp [member])) secondGiven
      apply makes_support (by cases op <;> decide)
      simpa [Item.elements, listMarks] using leftTold.tells.append rightTold.tells

/-- An expression tells of its elements if the expressions inside it do. -/
theorem isTold_of_inner {e : Expr} (told : ∀ s ∈ e, ∀ inner ∈ Segment.inner s, IsTold site inner) : IsTold site e := by
  intro t notes given
  simp only [expression, assemble, Noting.gives_bind, Noting.gives_lift] at given
  obtain ⟨tree, _, treeNotes, ⟨built, rfl⟩, treeGiven, rfl⟩ := given
  obtain ⟨sameItems, _⟩ := (Tree.build_ok_iff _ _ tree).mp built
  rw [items_pieces] at sameItems
  rw [Expr.elements, Expr.elementsFrom_eq_items, Expr.itemElements_false]
  refine told_tree tree sameItems.symm (fun o member t notes operandGiven => ?_) treeGiven
  refine told_operand (fun s listed inner stands => told s ?_ inner stands) operandGiven
  rw [← (areItemsOf_items e).segments]
  exact mem_flatMap.mpr ⟨_, member, listed⟩

mutual

theorem isTold_inner (site : Site) : (s : Segment) → ∀ e ∈ Segment.inner s, IsTold site e
  | .call _ arguments => isTold_list site arguments
  | .bracketed inner => fun e member => by
    rw [mem_singleton.mp member]
    exact isTold_of_inner (isTold_segments site inner)
  | .value _ | .operator _ | .new _ => by simp [Segment.inner]

theorem isTold_segments (site : Site) : (e : List Segment) → ∀ s ∈ e, ∀ inner ∈ Segment.inner s, IsTold site inner
  | [] => by simp
  | s :: rest => forall_mem_cons.mpr ⟨isTold_inner site s, isTold_segments site rest⟩

theorem isTold_list (site : Site) : (es : List (List Segment)) → ∀ e ∈ es, IsTold site e
  | [] => by simp
  | e :: rest => forall_mem_cons.mpr ⟨isTold_of_inner (isTold_segments site e), isTold_list site rest⟩

end

theorem isTold (site : Site) (e : Expr) : IsTold site e :=
  isTold_of_inner (isTold_segments site e)

end Expression

/-! ### Statements -/

section Statement

variable {site : Site} {content : Simple} {elements : List Element} {notes : List Note}

/-- A line that starts as one of a script can and tells, with the notes, about the elements. -/
structure Says (site : Site) (elements : List Element) (content : Simple) (notes : List Note) : Prop where
  led : content.isLed = true
  tells : Tells site elements content.marks notes

/-- The same for a line that does something. -/
structure Does (site : Site) (elements : List Element) (content : Simple) (notes : List Note) : Prop
    extends Says site elements content notes where
  acts : content.isAction = true

variable {e : Expr} {name : Token} {line : Nat} {stored : Target}

theorem told_callStatement (given : (callStatement site e).Gives content notes) :
    Does site (Expr.elements e) content notes := by
  unfold callStatement at given
  split at given
  · simp at given
  next chained =>
    have calls := Expr.calls_of_isChain (e := e) (by simpa using chained)
    rw [Expr.elements, Expr.elementsFrom_chain false e calls]
    simp only [chainSteps_eq, Noting.gives_bind] at given
    obtain ⟨term, termNotes, later, termGiven, made, rfl⟩ := given
    obtain ⟨⟨-, tells⟩, leads⟩ := told_chain (fun s _ e _ => isTold site e) termGiven
    split at made
    · obtain ⟨rfl, rfl⟩ := Noting.gives_pure.mp made
      have asked : Makes site _ (.support "CALL" [term, .strings []]) termNotes :=
        makes_support (by decide) (by simpa [listMarks, Term.marks] using tells)
      rw [append_nil]
      exact ⟨⟨rfl, asked.tells⟩, rfl⟩
    · obtain ⟨rfl, rfl⟩ := Noting.gives_pure.mp made
      rw [append_nil]
      exact ⟨⟨leads, tells⟩, rfl⟩

/-- The target of an assignment, as an expression that it refers to. -/
def Target.term : Target → Term
  | .name term => term
  | .member object _ => object

/-- The marks in the target of an assignment. -/
def Target.marks : Target → List Mark
  | .name term => term.marks
  | .member object last => object.marks ++ [.text last]

/-- The elements of a target with those steps. -/
def targetElements : List (Token × List Expr) → List Element
  | [(name, arguments)] => .use ⟨name, .target⟩ :: Expr.listElements arguments
  | steps => Expr.chainElements false steps

theorem told_rootTarget (given : (rootTarget site name line).Gives stored notes) :
    stored.term.canLead = true ∧ Tells site [.use ⟨name, .target⟩] stored.marks notes := by
  have root : Tells site [.use ⟨name, .target⟩] _ _ := .use rfl
  simp only [meaning] at root
  unfold rootTarget at given
  split at given
  next r resolved =>
    obtain ⟨rfl, rfl⟩ := Noting.gives_pure.mp given
    rw [resolved] at root
    exact ⟨rfl, root⟩
  next result resolved =>
    obtain ⟨rfl, rfl⟩ := Noting.gives_pure.mp given
    rw [resolved] at root
    have proper : Mark.IsProper site.scope (.result result) := by
      rcases site.scope.resolveTarget_cases name with same | ⟨key, held, found, same⟩
      · exact absurd (same.symm.trans resolved) (resolve_ne_result _ _ _)
      · rw [resolved] at same
        cases same
        exact congrArg (Option.map Prod.snd) found
    exact ⟨rfl, root.extra rfl proper⟩
  next r resolved =>
    -- only a name that nobody declares leaves a note
    obtain ⟨_, _, _, rfl, ⟨rfl, rfl⟩, rfl⟩ := given
    rw [resolved] at root
    exact ⟨rfl, root⟩
  next resolved =>
    obtain ⟨rfl, rfl⟩ := Noting.gives_pure.mp given
    rw [resolved] at root
    exact ⟨rfl, root⟩
  · simp at given

/-- The target of an assignment tells of its names and of the arguments before its last name. -/
theorem told_target {leading : List (Token × List Expr)} {last : Token × List Expr}
    (given : (target site (leading.map (step site)) (step site last) line).Gives stored notes) :
    stored.term.canLead = true ∧ ∃ elements, Tells site elements stored.marks notes ∧
      targetElements (leading ++ [last]) = elements ++ Expr.listElements last.2 := by
  cases leading with
  | nil =>
    obtain ⟨leads, tells⟩ := told_rootTarget given
    exact ⟨leads, _, tells, rfl⟩
  | cons first rest =>
    obtain ⟨object, made, rfl⟩ := Noting.gives_bind_pure.mp given
    have told : ∀ s ∈ first :: rest, ∀ e ∈ s.2, IsTold site e := fun s _ e _ => isTold site e
    obtain ⟨⟨-, tells⟩, leads⟩ := told_chain told made
    refine ⟨leads, _, append_nil notes ▸ tells.append (Tells.members [last.1]), ?_⟩
    have long : targetElements (first :: rest ++ [last]) = Expr.chainElements false (first :: rest ++ [last]) := by
      cases rest <;> rfl
    rw [long]
    simp [Expr.chainElements, Expr.memberElements]

/-- What is stored tells of the place, of the value and of the arguments. -/
theorem told_store {es : List Expr} {value : Term} {before : List Note} (leads : stored.term.canLead = true)
    (held : Tells site elements (stored.marks ++ (Term.support (readFunction kind) [value]).marks) before)
    (given : (store stored (es.map (argument site)) (.support (readFunction kind) [value])).Gives content notes) :
    Does site (elements ++ Expr.listElements es) content (before ++ notes) := by
  have set : CSharp.Mark.IsProper site.scope (.word "SET") := (by decide : isCodeWord "SET" = true)
  cases es with
  | nil =>
    rw [Expr.listElements, append_nil]
    cases stored with
    | name term =>
      obtain ⟨rfl, rfl⟩ := Noting.gives_pure.mp given
      rw [append_nil]
      exact ⟨⟨leads, held⟩, by cases kind <;> rfl⟩
    | member object member =>
      obtain ⟨rfl, rfl⟩ := Noting.gives_pure.mp given
      refine ⟨⟨rfl, (held.extra rfl set).congr (fun _ => .rfl) (fun m => ?_) (by simp)⟩, rfl⟩
      simp [Simple.marks, Term.marks, listMarks, Target.marks]
      tauto
  | cons e rest =>
    cases stored with
    | name term | member object member =>
      obtain ⟨bound, made, rfl⟩ := Noting.gives_bind_pure.mp given
      have whole := held.append (told_boundArguments (fun e _ => isTold site e) made).tells
      refine ⟨⟨rfl, (whole.extra rfl set).congr (fun _ => .rfl) (fun m => ?_) (by simp)⟩, rfl⟩
      simp [Simple.marks, Term.marks, listMarks, Target.marks]
      tauto

theorem told_assignment {left right : Expr} (given : (assignment site kind left right).Gives content notes) :
    Expr.isChain left = true ∧ Does site (targetElements (Expr.steps left) ++ Expr.elements right) content notes := by
  unfold assignment at given
  split at given
  · simp at given
  next chained =>
    refine ⟨by simpa using chained, ?_⟩
    rw [chainSteps_eq] at given
    rcases eq_nil_or_concat' (Expr.steps left) with none | ⟨leading, last, found⟩
    · simp [none] at given
    · have reversed : ((leading ++ [last]).map (step site)).reverse =
          step site last :: (leading.map (step site)).reverse := by simp
      rw [found]
      simp only [found, reversed, reverse_reverse, Noting.gives_bind] at given
      obtain ⟨stored, storedNotes, _, storedGiven, ⟨value, valueNotes, storeNotes, valueGiven, storeGiven,
        rfl⟩, rfl⟩ := given
      obtain ⟨leads, elements, targetTells, listed⟩ := told_target storedGiven
      have read := (isTold site right value valueNotes valueGiven).support
        (show isCodeWord (readFunction kind) = true by cases kind <;> decide)
      -- the arguments of the last name are looked at after the value
      obtain ⟨⟨led, whole⟩, acts⟩ := told_store leads (targetTells.append read.tells) storeGiven
      rw [listed]
      refine ⟨⟨led, whole.congr (fun x => ?_) (fun _ => .rfl) (by simp)⟩, acts⟩
      simp only [mem_append]
      tauto

theorem told_condition {test : Term} (given : (condition site e).Gives test notes) :
    Tells site (Expr.elements e) test.marks notes := by
  obtain ⟨value, valueGiven, rfl⟩ := Noting.gives_bind_pure.mp given
  exact ((isTold site e value notes valueGiven).support (by decide)).tells

theorem told_randomize {seed : Option Expr} (given : (randomize site seed).Gives content notes) :
    Does site (Expr.listElements seed.toList) content notes := by
  cases seed with
  | none =>
    obtain ⟨rfl, rfl⟩ := Noting.gives_pure.mp given
    exact ⟨⟨rfl, Tells.nil.extra rfl (by decide : isCodeWord _ = true)⟩, rfl⟩
  | some e =>
    obtain ⟨value, valueGiven, rfl⟩ := Noting.gives_bind_pure.mp given
    rw [Option.toList_some, Expr.listElements, Expr.listElements, append_nil]
    exact ⟨⟨rfl, ((isTold site e value notes valueGiven).support (by decide)).tells⟩, rfl⟩

/-- The array that a declaration makes is written, and its bounds tell of their elements. -/
theorem told_sizeArray {isReDim preserve : Bool} {bounds : List Expr}
    (given : (sizeArray site (declaredVariable site.scope isReDim name).1 preserve bounds).Gives content notes) :
    content.isSizing = true ∧ Says site (.use ⟨name, .array isReDim⟩ :: Expr.listElements bounds) content notes := by
  have array : Tells site [.use ⟨name, .array isReDim⟩] _ _ := Tells.single
    (by simp [Element.marks, Use.isArray, written?, Mark.IsProper, isCodeWord_declaredVariable]) trivial
  have sized (function : String) (word : isCodeWord function = true) {terms : List Term}
      (given : (expressions site bounds).Gives terms notes) :=
    (array.append (told_plainArguments (fun e _ => isTold site e)
      (by rwa [expressions, arguments_eq_map] at given))).extra (m := .word function) rfl word
  cases preserve with
  | true =>
    obtain ⟨terms, termsGiven, rfl⟩ := Noting.gives_bind_pure.mp given
    refine ⟨rfl, rfl, (sized "RESIZEARRAY" (by decide) termsGiven).congr (fun _ => .rfl) (fun m => ?_)
      (by simp [Element.notes, Use.isArray])⟩
    simp [Simple.marks, Term.marks, listMarks, Element.marks, Use.isArray, written?]
    tauto
  | false =>
    obtain ⟨terms, termsGiven, rfl⟩ := Noting.gives_bind_pure.mp given
    refine ⟨rfl, rfl, (sized "NEWARRAY" (by decide) termsGiven).congr (fun _ => .rfl) (fun m => ?_)
      (by simp [Element.notes, Use.isArray])⟩
    simp [Simple.marks, Term.marks, listMarks, Element.marks, Use.isArray, written?]
    tauto

end Statement
end Lower
end VbSharp
