import VbSharp.Proofs.Lower.CallSites
import VbSharp.Proofs.Lower.Program

/-!
# Calls agree with signatures

Every call of a routine in a generated program names a method that the program has, and passes as many
arguments as that method has parameters, each in the way the parameter asks for. A call of an outermost
routine names the last definition of it; a call inside a class names a member of the class, or an outermost
routine through `_outer`. The one call that no part of the script stands for is made by the constructor of a
class: it runs `Class_Initialize` and passes nothing, whatever parameters that sub has.
-/
namespace VbSharp

open List CSharp.Stmt Lower
open CSharp (Call Signature Stmt Term)

variable {b : Block} {header : Header} {bs later : List Block} {name key : String}

/-- The signature of the method that a call names: it has the name, and its parameters take the arguments. -/
def CSharp.Signature.Takes (s : Signature) (call : Call) : Prop :=
  s.name = call.target.name ∧ s.Accepts call.arguments

namespace Lower

/-! ### Parts of a program -/

/-- The first lines of the methods of outermost routines. -/
def Lowered.signatures (lowered : Lowered) : List Signature :=
  (listMethods lowered.outermost).map Prod.fst

def Lowered.calls (lowered : Lowered) : List Call :=
  Stmt.listCalls lowered.body ++ Stmt.listCalls lowered.classes

theorem listCalls_dateCheck (dates : List String) : Stmt.listCalls (dateCheck dates) = [] := by
  unfold dateCheck
  split <;> rfl

theorem listCalls_outermostDeclarations (asClass : Bool) (out : Emission) :
    Stmt.listCalls (outermostDeclarations asClass out) = [] := by
  simp [outermostDeclarations, listCalls_eq_flatMap, CSharp.Simple.calls]

namespace ProgramMade

variable {source : List Block} {lowered : Lowered} {ctx : Context} {scope : Scope} {out : Emission}
  (program : ProgramMade source lowered ctx scope out)
include program

theorem listCalls_outermost : Stmt.listCalls lowered.outermost =
    Stmt.listCalls out.stmts ++ Stmt.listCalls out.methods.flatten := by
  have transparent : IsTransparent Stmt.calls := ⟨rfl, listCalls_eq_flatMap, rfl⟩
  have check : Stmt.listCalls (if ctx.asClass then [] else dateCheck lowered.dates) = [] := by
    split
    · rfl
    · exact listCalls_dateCheck _
  rw [listCalls_eq_flatMap, program.flatMap_outermost transparent]
  simp only [← listCalls_eq_flatMap, listCalls_append, check, listCalls_outermostDeclarations, nil_append]

/-- Every call of a program stands in its outermost code or in one of its classes. -/
theorem calls_eq : lowered.calls = Stmt.listCalls lowered.outermost ++ Stmt.listCalls lowered.scriptClasses := by
  have placed := program.placed
  cases asClass : ctx.asClass with
  | true =>
    rw [asClass] at placed
    obtain ⟨members, rest, written, -, same⟩ := exists_outerClass placed
    have outermost : lowered.outermost = members := by simp [Lowered.outermost, Lowered.outerClass?, written]
    -- the body only checks the dates and runs the class
    have silent : Stmt.listCalls lowered.body = [] := by
      rw [(Prod.mk.inj placed).1, listCalls_append, listCalls_dateCheck]
      rfl
    have others : Stmt.listCalls rest = Stmt.listCalls out.classes := by
      rw [listCalls_eq_flatMap, same _ rfl, listCalls_eq_flatMap]
    rw [Lowered.calls, silent, written, outermost, program.classes, ← others]
    rfl
  | false =>
    have flat := program.held.trans asClass
    have none : lowered.outerClass? = .none := Option.isNone_iff_eq_none.mp (Option.isSome_eq_false_iff.mp flat)
    have kept : Stmt.listCalls lowered.scriptClasses = Stmt.listCalls lowered.classes := by
      rw [Lowered.scriptClasses, none, filter_eq_flatMap, listCalls_eq_flatMap, flatMap_assoc, listCalls_eq_flatMap]
      refine flatMap_congr fun s _ => ?_
      cases s with
      | blank => rfl
      | line _ _ | block _ _ _ => exact flatMap_singleton _ _
    rw [Lowered.calls, Lowered.outermost, none, kept]
    rfl

end ProgramMade
end Lower

/-! ### Definitions of the source -/

/-- A function or sub that stands directly in the blocks and that no later block defines again. -/
def IsLastDefinition (source : List Block) (header : Header) : Prop :=
  header.kind.isProperty = false ∧ ∃ before body after, source = before ++ .routine header body :: after ∧
    ∀ b ∈ after, Lower.definesRoutine (nameKey header.name.text) b = false

/-- Whether the functions and subs of a block stand in no branch or loop. -/
def Block.standsDirectly : Block → Bool
  | .routine _ _ => true
  | b => (Contents.ofBlock b).functions.isEmpty

namespace Lower

/-- A block is kept if no later one defines its function or sub again. -/
theorem mem_dropSuperseded_iff {source : List Block} : b ∈ dropSuperseded source ↔
    ∃ before after, source = before ++ b :: after ∧ superseded? b after = none := by
  induction source with
  | nil => simp [dropSuperseded]
  | cons first rest ih =>
    have either : (∃ before after, first :: rest = before ++ b :: after ∧ superseded? b after = none) ↔
        (b = first ∧ superseded? first rest = none) ∨ b ∈ dropSuperseded rest := by
      rw [ih]
      constructor
      · rintro ⟨before, after, same, none⟩
        cases before with
        | nil =>
          obtain ⟨rfl, rfl⟩ := cons.inj same
          exact .inl ⟨rfl, none⟩
        | cons head before => exact .inr ⟨before, after, (cons.inj same).2, none⟩
      · rintro (⟨rfl, none⟩ | ⟨before, after, rfl, none⟩)
        · exact ⟨[], rest, rfl, none⟩
        · exact ⟨first :: before, after, rfl, none⟩
    rw [either, dropSuperseded]
    cases again : superseded? first rest with
    | none => simp
    | some header => simp

theorem classes_dropSuperseded (source : List Block) :
    (Contents.ofBlocks (dropSuperseded source)).classes = (Contents.ofBlocks source).classes := by
  induction source with
  | nil => rfl
  | cons b rest ih =>
    rw [dropSuperseded]
    split
    · next again =>
      cases b with
      | routine header body => simp [Contents.ofBlocks, Contents.ofBlock, ih]
      | _ => simp [superseded?] at again
    · simp [Contents.ofBlocks, ih]

end Lower

namespace Contents

theorem mem_functions_ofBlocks : header ∈ (ofBlocks bs).functions ↔ ∃ b ∈ bs, header ∈ (ofBlock b).functions := by
  induction bs with
  | nil => simp [ofBlocks, functions]
  | cons b rest ih => simp [ofBlocks, functions_append, ih]

/-- The function or sub that a frame answers with is one of the blocks it was made from. -/
theorem exists_of_routine? {d : Declared} {byRef : List Bool} (same : d.routines = (Declared.ofBlocks bs).routines)
    (known : d.routine? key = some byRef) :
    ∃ header ∈ (ofBlocks bs).functions, nameKey header.name.text = key ∧
      header.parameters.map (·.passing.isByRef) = byRef := by
  rw [Declared.routine?, same, (agrees_ofBlocks bs).routines] at known
  obtain ⟨before, after, split, -⟩ := lookup_eq_some_iff.mp known
  have listed : (key, byRef) ∈ (ofBlocks bs).functions.map entry := by
    rw [← mem_reverse, split]
    simp
  obtain ⟨header, member, entered⟩ := mem_map.mp listed
  obtain ⟨named, passed⟩ := Prod.mk.inj entered
  exact ⟨header, member, named, passed⟩

theorem mem_routines_of_mem_functions {c : Contents} (member : header ∈ c.functions) :
    header ∈ c.routines.map Prod.fst ∧ header.kind.isProperty = false := by
  simpa [functions] using mem_filter.mp member

end Contents

namespace Lower

theorem mem_functions_of_standsDirectly (stands : b.standsDirectly = true)
    (member : header ∈ (Contents.ofBlock b).functions) : ∃ body, b = .routine header body := by
  unfold Block.standsDirectly at stands
  split at stands
  · next found body =>
    have listed := (Contents.mem_routines_of_mem_functions member).1
    obtain rfl : header = found := by simpa [Contents.ofBlock] using listed
    exact ⟨body, rfl⟩
  · rw [isEmpty_iff.mp stands] at member
    simp at member

theorem superseded?_eq_none_iff {body : List Block} (plain : header.kind.isProperty = false) :
    superseded? (.routine header body) later = none ↔
      ∀ b ∈ later, definesRoutine (nameKey header.name.text) b = false := by
  simp [superseded?, plain]

/-- With functions and subs standing directly, those that are kept are the last definitions. -/
theorem mem_functions_dropSuperseded_iff {source : List Block} (direct : ∀ b ∈ source, b.standsDirectly = true) :
    header ∈ (Contents.ofBlocks (dropSuperseded source)).functions ↔ IsLastDefinition source header := by
  rw [Contents.mem_functions_ofBlocks]
  constructor
  · -- a block that is kept stands in the source with no later definition behind it
    rintro ⟨b, kept, member⟩
    obtain ⟨before, after, split, last⟩ := mem_dropSuperseded_iff.mp kept
    obtain ⟨body, rfl⟩ := mem_functions_of_standsDirectly (direct b (by simp [split])) member
    have plain := (Contents.mem_routines_of_mem_functions member).2
    exact ⟨plain, before, body, after, split, (superseded?_eq_none_iff plain).mp last⟩
  · rintro ⟨plain, before, body, after, split, last⟩
    refine ⟨.routine header body, mem_dropSuperseded_iff.mpr ⟨before, after, split, ?_⟩, ?_⟩
    · exact (superseded?_eq_none_iff plain).mpr last
    · simp [Contents.ofBlock, Contents.functions, plain]

end Lower

/-! ### Offered routines -/

/-- The function or sub that a call stands for: it has the name, and its parameters say how the arguments
go. -/
def Header.Suits (header : Header) (call : Call) : Prop :=
  identifier header.name.text = call.target.name ∧
    call.arguments.map Term.isByRef = header.parameters.map (·.passing.isByRef)

theorem Header.Suits.takes {call : Call} (suits : header.Suits call) (plain : header.kind.isProperty = false)
    (kind : FrameKind) (asMethod : Bool) : (Lower.signature header kind asMethod).Takes call := by
  have named : methodName header = identifier header.name.text := by
    cases same : header.kind with
    | function | sub => simp [methodName, same]
    | propertyGet | propertyLet | propertySet => simp [same, RoutineKind.isProperty] at plain
  refine ⟨named.trans suits.1, suits.2.trans ?_⟩
  simp [Lower.signature]

namespace Scope

variable {kept body : List Block} {externals : List String} {call : Call}

theorem suits_of_routine? {f : Frame} {name : Token} (same : f.declared.routines = (Declared.ofBlocks bs).routines)
    (known : f.declared.routine? (nameKey name.text) = some (call.arguments.map Term.isByRef))
    (named : call.target.name = identifier name.text) :
    ∃ header ∈ (Contents.ofBlocks bs).functions, header.Suits call := by
  obtain ⟨header, member, key, passed⟩ := Contents.exists_of_routine? same known
  exact ⟨header, member, (identifier_eq_of_nameKey_eq key).trans named.symm, passed.symm⟩

theorem Offers.of_ofProgram (offers : (ofProgram kept externals).Offers call) :
    call.target.outer = false ∧ ∃ header ∈ (Contents.ofBlocks kept).functions, header.Suits call := by
  obtain ⟨f, member, name, known, target⟩ := offers
  obtain rfl := mem_singleton.mp member
  rw [target]
  exact ⟨rfl, suits_of_routine? rfl known (by rw [target]; rfl)⟩

/-- A class offers its own functions and subs, and through `_outer` those of the outermost code. -/
theorem Offers.of_ofClass (offers : ((ofProgram kept externals).ofClass body).Offers call) :
    ∃ header ∈ (Contents.ofBlocks (if call.target.outer then kept else body)).functions, header.Suits call := by
  obtain ⟨f, member, name, known, target⟩ := offers
  have named : call.target.name = identifier name.text := by rw [target]; rfl
  rcases mem_cons.mp member with rfl | around
  · have inside : call.target.outer = false := by rw [target]; rfl
    rw [inside]
    exact suits_of_routine? rfl known named
  · obtain rfl := mem_singleton.mp around
    have outside : call.target.outer = true := by rw [target]; rfl
    rw [outside]
    exact suits_of_routine? rfl known named

end Scope

/-! ### The program -/

/-- Some last definition of the source takes the call, and the outermost code has its method. -/
def OutermostTakes (source : List Block) (lowered : Lower.Lowered) (call : Call) : Prop :=
  ∃ header, IsLastDefinition source header ∧
    Lower.signature header .program lowered.outerClass?.isSome ∈ lowered.signatures ∧
    (Lower.signature header .program lowered.outerClass?.isSome).Takes call

/-- A function or sub of a class takes the call: the class has its method, and no other with its key. -/
def MemberTakes (body : List Block) (members : List Stmt) (call : Call) : Prop :=
  ∃ header ∈ (Contents.ofBlocks body).functions, (∀ other ∈ (Contents.ofBlocks body).functions,
      nameKey other.name.text = nameKey header.name.text → other = header) ∧
    Lower.signature header .classBody false ∈ (listMethods members).map Prod.fst ∧
    (Lower.signature header .classBody false).Takes call

/-- The calls in a class name its members, or through `_outer` the outermost routines. -/
def ClassCallsTaken (source : List Block) (lowered : Lower.Lowered) (c : Token × List Block) (s : Stmt) :
    Prop :=
  ∃ members, s.classMembers? = some members ∧ ∀ call ∈ s.calls,
    if call.target.outer then OutermostTakes source lowered call else MemberTakes c.2 members call

theorem identifier_class_initialize (key : nameKey name = "class_initialize") : identifier name = "class_initialize" :=
  identifier_eq_of_nameKey_eq (key.trans (by decide : "class_initialize" = nameKey "class_initialize"))

theorem suits_initialization {body : List Block} (initializes : hasInitializer body = true)
    (starts : ∀ header ∈ (Contents.ofBlocks body).functions, header.kind = .sub →
      nameKey header.name.text = "class_initialize" → header.parameters = []) :
    ∃ header ∈ (Contents.ofBlocks body).functions, header.Suits initialization := by
  obtain ⟨b, member, isInitializer⟩ := any_eq_true.mp initializes
  split at isInitializer
  · next header inner =>
    simp only [Bool.and_eq_true, beq_iff_eq] at isInitializer
    obtain ⟨isSub, key⟩ := isInitializer
    have listed : header ∈ (Contents.ofBlocks body).functions :=
      Contents.mem_functions_ofBlocks.mpr
        ⟨_, member, by simp [Contents.ofBlock, Contents.functions, isSub, RoutineKind.isProperty]⟩
    refine ⟨header, listed, identifier_class_initialize key, ?_⟩
    rw [starts header listed isSub key]
    rfl
  · cases isInitializer

/-- What a lowered program calls and defines, in terms of the blocks that are kept. -/
structure IsAnswered (settings : Settings) (source : List Block) (lowered : Lower.Lowered) : Prop where
  all : lowered.calls = Stmt.listCalls lowered.outermost ++ Stmt.listCalls lowered.scriptClasses
  offered : ∀ call ∈ Stmt.listCalls lowered.outermost,
    (Scope.ofProgram (Lower.dropSuperseded source) settings.externalReferences).Offers call
  signatures : lowered.signatures = (Contents.ofBlocks (Lower.dropSuperseded source)).routines.map
    (Lower.signature ·.1 .program lowered.outerClass?.isSome)
  plain : ∀ r ∈ (Contents.ofBlocks (Lower.dropSuperseded source)).routines, r.1.kind.isProperty = false
  classes : Forall₂
    (ClassAnswers (Scope.ofProgram (Lower.dropSuperseded source) settings.externalReferences))
    (Contents.ofBlocks source).classes lowered.scriptClasses

theorem isAnswered_of_lowerBlocks {settings : Settings} {source : List Block} {lowered : Lower.Lowered}
    (success : lowerBlocks settings source = .ok lowered) : IsAnswered settings source lowered := by
  obtain ⟨out, program⟩ := made_of_lowerBlocks success
  refine ⟨program.calls_eq, fun call member => ?_, ?_, fun r member => ?_, ?_⟩
  · rw [program.listCalls_outermost] at member
    exact (mem_append.mp member).elim (blocks_offer program.ends call)
      (program.made.offers_methods call)
  · rw [Lower.Lowered.signatures, signatures_of_made program.routines, program.setsApart]
    rfl
  · cases property : r.1.kind.isProperty with
    | false => rfl
    | true => cases (program.made.admitted r member).2 property
  · rw [program.classes, ← Lower.classes_dropSuperseded source]
    exact program.made.classes.imp fun _ _ => Lower.ClassMade.answers

namespace IsAnswered

variable {settings : Settings} {source : List Block} {lowered : Lower.Lowered}
  (answered : IsAnswered settings source lowered) (direct : ∀ b ∈ source, b.standsDirectly = true)
include answered direct

/-- The outermost code has the methods of the last definitions, and no others. -/
theorem mem_signatures_iff (s : Signature) : s ∈ lowered.signatures ↔ ∃ header, IsLastDefinition source header ∧
      s = Lower.signature header .program lowered.outerClass?.isSome := by
  rw [answered.signatures]
  constructor
  · intro member
    obtain ⟨r, listed, rfl⟩ := mem_map.mp member
    have isFunction : r.1 ∈ (Contents.ofBlocks (Lower.dropSuperseded source)).functions :=
      mem_filter.mpr ⟨mem_map_of_mem listed, by simp [answered.plain r listed]⟩
    exact ⟨r.1, (Lower.mem_functions_dropSuperseded_iff direct).mp isFunction, rfl⟩
  · rintro ⟨header, last, rfl⟩
    have isFunction := (Lower.mem_functions_dropSuperseded_iff direct).mpr last
    obtain ⟨r, listed, rfl⟩ := mem_map.mp (Contents.mem_routines_of_mem_functions isFunction).1
    exact mem_map_of_mem listed

theorem outermostTakes {call : Call} (suits : header.Suits call)
    (member : header ∈ (Contents.ofBlocks (Lower.dropSuperseded source)).functions) :
    OutermostTakes source lowered call := by
  have last := (Lower.mem_functions_dropSuperseded_iff direct).mp member
  have emitted := (answered.mem_signatures_iff direct _).mpr ⟨header, last, rfl⟩
  exact ⟨header, last, emitted, suits.takes last.1 _ _⟩

end IsAnswered

theorem memberTakes_of_suits {body : List Block} {members : List Stmt} {call : Call}
    (methods : (listMethods members).map Prod.fst =
      (Contents.ofBlocks body).routines.map (Lower.signature ·.1 .classBody false))
    (distinct : ((Contents.ofBlocks body).functions.map fun header => nameKey header.name.text).Nodup)
    (member : header ∈ (Contents.ofBlocks body).functions) (suits : header.Suits call) :
    MemberTakes body members call := by
  obtain ⟨listed, plain⟩ := Contents.mem_routines_of_mem_functions member
  obtain ⟨r, routine, rfl⟩ := mem_map.mp listed
  refine ⟨r.1, member, fun other otherMember same => ?_, ?_, suits.takes plain _ _⟩
  · exact inj_on_of_nodup_map distinct otherMember member same
  · rw [methods]
    exact mem_map_of_mem routine

/-- Call sites agree with signatures. Every call of the program stands in the outermost code or in a class. In
the outermost code it names the method of the last definition in the source, in a class either that through
`_outer` or the method of a member; and the method has as many parameters as there are arguments, and takes by
reference those that are passed so. This needs that no class has a sub `Class_Initialize` with parameters. -/
theorem calls_match_signatures (settings : Settings) (source : List Block) (lowered : Lower.Lowered)
    (success : lowerBlocks settings source = .ok lowered)
    (direct : ∀ b ∈ source, b.standsDirectly = true)
    (distinct : ∀ c ∈ (Contents.ofBlocks source).classes,
      ((Contents.ofBlocks c.2).functions.map fun header => nameKey header.name.text).Nodup)
    (starts : ∀ c ∈ (Contents.ofBlocks source).classes, ∀ header ∈ (Contents.ofBlocks c.2).functions,
      header.kind = .sub → nameKey header.name.text = "class_initialize" → header.parameters = []) :
    lowered.calls = Stmt.listCalls lowered.outermost ++ Stmt.listCalls lowered.scriptClasses ∧
      (∀ s, s ∈ lowered.signatures ↔ ∃ header, IsLastDefinition source header ∧
        s = Lower.signature header .program lowered.outerClass?.isSome) ∧
      (∀ call ∈ Stmt.listCalls lowered.outermost,
        call.target.outer = false ∧ OutermostTakes source lowered call) ∧
      Forall₂ (ClassCallsTaken source lowered) (Contents.ofBlocks source).classes
        lowered.scriptClasses := by
  have answered := isAnswered_of_lowerBlocks success
  refine ⟨answered.all, answered.mem_signatures_iff direct, fun call member => ?_, ?_⟩
  · obtain ⟨here, header, kept, suits⟩ := (answered.offered call member).of_ofProgram
    exact ⟨here, answered.outermostTakes direct suits kept⟩
  · have each := (forall₂_and_left _ _).mpr
      ⟨fun c member => And.intro (distinct c member) (starts c member), answered.classes⟩
    refine each.imp fun c s ⟨⟨unique, noParameters⟩, members, written, offered, methods⟩ => ?_
    refine ⟨members, written, fun call member => ?_⟩
    -- a call is offered by the class or around it, or it is that of the constructor
    rcases offered call member with here | ⟨rfl, initializes⟩
    · obtain ⟨header, listed, suits⟩ := here.of_ofClass
      cases outer : call.target.outer with
      | true =>
        rw [outer] at listed
        exact answered.outermostTakes direct suits listed
      | false =>
        rw [outer] at listed
        exact memberTakes_of_suits methods unique listed suits
    · -- the constructor passes nothing, and the sub it calls takes nothing
      obtain ⟨header, listed, suits⟩ := suits_initialization initializes noParameters
      exact memberTakes_of_suits methods unique listed suits

theorem exists_of_toOption_map {ε α β : Type} {run : Except ε α} {view : α → β} {b : β}
    (seen : run.toOption.map view = some b) : ∃ a, run = .ok a ∧ view a = b := by
  cases run with
  | error e => cases seen
  | ok a => exact ⟨a, rfl, Option.some.inj seen⟩

/-- A sub that is defined twice, and a class whose members call each other and that sub. -/
def relayProgram : List Block :=
  let name := fun text => (⟨.name, text, 0⟩ : Token)
  let number := fun text => [Segment.value ⟨.number, text, 0⟩]
  let put := fun arguments => Block.call [.call [name "Put"] arguments] false
  [.routine ⟨.sub, name "Put", true, false, [⟨.byVal, name "item", false⟩]⟩ [], .classDefinition (name "Relay")
      [.routine ⟨.sub, name "Class_Initialize", true, false, []⟩
          [.call [.call [name "Send"] [number "1"]] false],
        .routine ⟨.sub, name "Send", true, false, [⟨.byRef, name "item", false⟩]⟩
          [put [[.call [name "item"] []], number "2"]]], .routine ⟨.sub, name "PUT", true, false,
      [⟨.byRef, name "item", false⟩, ⟨.byVal, name "count", false⟩]⟩ [], put [number "3", number "4"]]

theorem calls_match_signatures_relay :
    ∃ lowered, lowerBlocks {} relayProgram = .ok lowered ∧
      lowered.calls.map (fun call => (call.target, call.arguments.map Term.isByRef)) =
        [(⟨false, "put"⟩, [true, false]), (⟨false, "class_initialize"⟩, []), (⟨false, "send"⟩, [true]),
          (⟨true, "put"⟩, [true, false])] ∧
      (∀ call ∈ Stmt.listCalls lowered.outermost,
        call.target.outer = false ∧ OutermostTakes relayProgram lowered call) ∧
      Forall₂ (ClassCallsTaken relayProgram lowered) (Contents.ofBlocks relayProgram).classes
        lowered.scriptClasses := by
  have run : (lowerBlocks {} relayProgram).toOption.map (fun lowered => lowered.calls.map fun call =>
      (call.target, call.arguments.map Term.isByRef)) =
        some [(⟨false, "put"⟩, [true, false]), (⟨false, "class_initialize"⟩, []), (⟨false, "send"⟩, [true]),
          (⟨true, "put"⟩, [true, false])] := by
    decide +kernel
  obtain ⟨lowered, success, calls⟩ := exists_of_toOption_map run
  obtain ⟨-, -, outermost, classes⟩ := calls_match_signatures {} relayProgram lowered success
    (by decide +kernel) (by decide +kernel) (by decide +kernel)
  exact ⟨lowered, success, calls, outermost, classes⟩

/-- A class whose sub `Class_Initialize` has a parameter. -/
def expectantProgram : List Block :=
  let name := fun text => (⟨.name, text, 0⟩ : Token)
  [.classDefinition (name "C")
    [.routine ⟨.sub, name "Class_Initialize", true, false, [⟨.unspecified, name "x", false⟩]⟩ []]]

/-- The constructor of a class passes nothing to `Class_Initialize`, which may still have a parameter. -/
theorem constructor_passes_nothing :
    ∃ lowered, lowerBlocks {} expectantProgram = .ok lowered ∧
      ∃ s ∈ lowered.scriptClasses, ∃ members ∈ s.classMembers?, ∃ call ∈ s.calls,
        call.target.outer = false ∧
        (listMethods members).map (·.1.name) = [call.target.name] ∧
        ∀ method ∈ listMethods members, ¬ method.1.Accepts call.arguments := by
  have run : (lowerBlocks {} expectantProgram).toOption.map (fun lowered => decide <|
      ∃ s ∈ lowered.scriptClasses, ∃ members ∈ s.classMembers?, ∃ call ∈ s.calls,
        call.target.outer = false ∧
        (listMethods members).map (·.1.name) = [call.target.name] ∧
        ∀ method ∈ listMethods members, ¬ method.1.Accepts call.arguments) = some true := by
    decide +kernel
  obtain ⟨lowered, success, holds⟩ := exists_of_toOption_map run
  exact ⟨lowered, success, of_decide_eq_true holds⟩

end VbSharp
