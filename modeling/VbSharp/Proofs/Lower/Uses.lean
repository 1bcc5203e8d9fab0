import VbSharp.Lower.Block
import VbSharp.Proofs.Owner

/-!
# The names that a program uses

What the blocks of one frame hold, listed in source order: the names they use, the variables they
declare, and the routines and classes they define. The bodies of routines and classes belong to frames
of their own.
-/
namespace VbSharp

open List
open CSharp (Reference)

/-- How a name is used. -/
inductive Role where
  | value
  | target
  /-- The array that a declaration makes or resizes. -/
  | array (isReDim : Bool)
  deriving Repr, DecidableEq

/-- A place where a name may stand for a variable. -/
structure Use where
  name : Token
  role : Role
  deriving Repr, DecidableEq

/-- Whether the name is an array that a declaration makes. -/
def Use.isArray (u : Use) : Bool :=
  match u.role with
  | .array _ => true
  | _ => false

/-! ### Expressions -/

/-- The name that a segment starts a chain with. -/
def Segment.root? : Segment → Option Use
  | .call (name :: _) _ => some ⟨name, .value⟩
  | _ => none

/-- Whether a call right behind the segment goes on with a chain. -/
def Segment.continues (inChain : Bool) : Segment → Bool
  | .call [] _ => inChain
  | .call (_ :: _) _ => true
  | _ => false

mutual

/-- The uses in the arguments or brackets of a segment. A call without names has no place for its
arguments. -/
def Segment.innerUses : Segment → List Use
  | .call [] _ => []
  | .call (_ :: _) arguments => Expr.listUses arguments
  | .bracketed inner => Expr.usesFrom false inner
  | _ => []

/-- The uses of an expression that may go on with a chain: only the first name of a chain is a use,
the others are members. A class that is instantiated is no variable. -/
def Expr.usesFrom (inChain : Bool) : List Segment → List Use
  | [] => []
  | s :: rest =>
    (if inChain then [] else s.root?.toList) ++ s.innerUses ++ Expr.usesFrom (s.continues inChain) rest

def Expr.listUses : List (List Segment) → List Use
  | [] => []
  | e :: rest => Expr.usesFrom false e ++ Expr.listUses rest

end

/-- The uses of an expression. -/
def Expr.uses (e : Expr) : List Use :=
  Expr.usesFrom false e

/-- The names of a chain of member accesses. -/
def Expr.chainNames (e : Expr) : List Token :=
  e.flatMap fun
    | .call names _ => names
    | _ => []

/-- How the first of some names is used if the last one is assigned to. -/
def Use.ofTarget : List Token → List Use
  | [] => []
  | [name] => [⟨name, .target⟩]
  | name :: _ :: _ => [⟨name, .value⟩]

/-- The uses of the target of an assignment. -/
def Expr.targetUses (e : Expr) : List Use :=
  Use.ofTarget (Expr.chainNames e) ++ Expr.usesFrom true e

mutual

theorem Segment.isArray_innerUses : (s : Segment) → ∀ u ∈ s.innerUses, u.isArray = false
  | .call [] _ | .value _ | .operator _ | .new _ => by simp [Segment.innerUses]
  | .call (_ :: _) arguments => by
    exact Expr.isArray_listUses arguments
  | .bracketed inner => by
    exact Expr.isArray_usesFrom false inner

theorem Expr.isArray_usesFrom (inChain : Bool) : (e : List Segment) → ∀ u ∈ Expr.usesFrom inChain e, u.isArray = false
  | [] => by simp [Expr.usesFrom]
  | s :: rest => by
    intro u member
    simp only [Expr.usesFrom, mem_append] at member
    rcases member with (root | inner) | later
    · split at root
      · simp at root
      · match s with
        | .call (name :: _) _ =>
          simp only [Segment.root?, Option.toList_some, mem_singleton] at root
          rw [root, Use.isArray]
        | .call [] _ | .value _ | .operator _ | .bracketed _ | .new _ =>
          simp [Segment.root?] at root
    · exact Segment.isArray_innerUses s u inner
    · exact Expr.isArray_usesFrom _ rest u later

theorem Expr.isArray_listUses : (es : List (List Segment)) → ∀ u ∈ Expr.listUses es, u.isArray = false
  | [] => by simp [Expr.listUses]
  | e :: rest => by
    intro u member
    simp only [Expr.listUses, mem_append] at member
    rcases member with first | later
    · exact Expr.isArray_usesFrom false e u first
    · exact Expr.isArray_listUses rest u later

end

theorem Expr.isArray_uses (e : Expr) : ∀ u ∈ Expr.uses e, u.isArray = false :=
  Expr.isArray_usesFrom false e

theorem Expr.isArray_flatMap (es : List Expr) : ∀ u ∈ es.flatMap Expr.uses, u.isArray = false := by
  intro u member
  obtain ⟨e, _, used⟩ := mem_flatMap.mp member
  exact Expr.isArray_uses e u used

theorem Use.isArray_ofTarget : (names : List Token) → ∀ u ∈ Use.ofTarget names, u.isArray = false
  | [] => by simp [Use.ofTarget]
  | [_] | _ :: _ :: _ => by simp [Use.ofTarget, Use.isArray]

theorem Expr.isArray_targetUses (e : Expr) : ∀ u ∈ Expr.targetUses e, u.isArray = false :=
  forall_mem_append.mpr ⟨Use.isArray_ofTarget _, Expr.isArray_usesFrom true e⟩

/-! ### Blocks -/

/-- What the blocks of one frame hold. -/
structure Contents where
  uses : List Use := []
  /-- The variables, each with whether it is an array that is resized. -/
  declared : List (Bool × Token) := []
  routines : List (Header × List Block) := []
  classes : List (Token × List Block) := []

instance : Append Contents where
  append a b :=
    ⟨a.uses ++ b.uses, a.declared ++ b.declared, a.routines ++ b.routines, a.classes ++ b.classes⟩

/-- The uses of one variable of a declaration. -/
def Variable.uses (isReDim : Bool) (v : Variable) : List Use :=
  match v.bounds with
  | none | some [] => []
  | some bounds => ⟨v.name, .array isReDim⟩ :: Expr.listUses bounds

def LoopTest.uses : LoopTest → List Use
  | .none => []
  | .whileBefore e | .untilBefore e | .whileAfter e | .untilAfter e => Expr.uses e

theorem LoopTest.isArray_uses (test : LoopTest) : ∀ u ∈ test.uses, u.isArray = false := by
  cases test with
  | none => simp [LoopTest.uses]
  | whileBefore e | untilBefore e | whileAfter e | untilAfter e => exact Expr.isArray_uses e

namespace Contents

variable {c a b : Contents} {d e : Declared} {uses : List Use}

mutual

def ofBlock : Block → Contents
  | .blankLine | .comment _ _ | .optionExplicit | .exit _ _ | .onError _ _ => {}
  | .declaration kind vars _ =>
    { uses := vars.flatMap (Variable.uses kind.isReDim), declared := vars.map fun v => (kind.isReDim, v.name) }
  | .classDefinition name body => { classes := [(name, body)] }
  | .routine header body => { routines := [(header, body)] }
  | .branch test body rest => { uses := Expr.uses test } ++ ofBlocks body ++ ofAlternative rest
  | .call e _ => { uses := Expr.uses e }
  | .assignment _ target value => { uses := Expr.targetUses target ++ Expr.uses value }
  | .randomize seed _ => { uses := seed.toList.flatMap Expr.uses }
  | .doLoop test body _ => { uses := test.uses } ++ ofBlocks body
  | .whileLoop test body _ => { uses := Expr.uses test } ++ ofBlocks body
  | .forLoop counter first last step body =>
    { uses := ⟨counter, .target⟩ ::
        (Expr.uses first ++ Expr.uses last ++ step.toList.flatMap Expr.uses) } ++ ofBlocks body
  | .forEach item collection body =>
    { uses := ⟨item, .target⟩ :: Expr.uses collection } ++ ofBlocks body
  | .select subject cases _ => { uses := Expr.uses subject } ++ ofCases cases
  | .withTarget target body _ => { uses := Expr.uses target } ++ ofBlocks body

/-- What blocks of one frame hold. -/
def ofBlocks : List Block → Contents
  | [] => {}
  | b :: rest => ofBlock b ++ ofBlocks rest

def ofAlternative : Alternative → Contents
  | .none => {}
  | .elseIf test body rest => { uses := Expr.uses test } ++ ofBlocks body ++ ofAlternative rest
  | .otherwise body => ofBlocks body

def ofCases : Cases → Contents
  | .none => {}
  | .case values body rest => { uses := values.flatMap Expr.uses } ++ ofBlocks body ++ ofCases rest

end

@[simp]
theorem uses_append (a b : Contents) : (a ++ b).uses = a.uses ++ b.uses := rfl

@[simp]
theorem declared_append (a b : Contents) : (a ++ b).declared = a.declared ++ b.declared := rfl

@[simp]
theorem routines_append (a b : Contents) : (a ++ b).routines = a.routines ++ b.routines := rfl

@[simp]
theorem classes_append (a b : Contents) : (a ++ b).classes = a.classes ++ b.classes := rfl

/-- The keys of the variables that are resized, or of those that are not. -/
def keys (resized : Bool) (c : Contents) : List String :=
  (c.declared.filter (·.1 == resized)).map (nameKey ·.2.text)

/-- The headers of the functions and subs. -/
def functions (c : Contents) : List Header :=
  (c.routines.map Prod.fst).filter (!·.kind.isProperty)

theorem functions_append (a b : Contents) : (a ++ b).functions = a.functions ++ b.functions := by
  simp [functions]

/-- What a frame knows of a function or sub. -/
def entry (header : Header) : String × List Bool :=
  (nameKey header.name.text, header.parameters.map (·.passing.isByRef))

/-- What blocks declare is what the variables, functions, subs and classes are that they hold, in source order,
and the arrays they make are among these variables. -/
structure Agrees (c : Contents) (d : Declared) : Prop where
  locals : d.locals = c.keys false
  resized : d.resized = c.keys true
  routines : d.routines = c.functions.map entry
  classes : d.classes = c.classes.map (nameKey ·.1.text)
  arrays : ∀ u ∈ c.uses, ∀ resized, u.role = .array resized → (resized, u.name) ∈ c.declared

theorem Agrees.append (first : a.Agrees d) (second : b.Agrees e) :
    (a ++ b).Agrees (d.append e) where
  locals := by simp [keys, Declared.append, first.locals, second.locals]
  resized := by simp [keys, Declared.append, first.resized, second.resized]
  routines := by rw [Declared.append, functions_append, map_append, first.routines, second.routines]
  classes := by simp [Declared.append, first.classes, second.classes]
  arrays := by
    intro u member resized role
    rw [declared_append, mem_append]
    rcases mem_append.mp member with left | right
    · exact .inl (first.arrays u left resized role)
    · exact .inr (second.arrays u right resized role)

theorem agrees_plain (plain : ∀ u ∈ uses, u.isArray = false) : ({ uses := uses } : Contents).Agrees {} where
  locals := rfl
  resized := rfl
  routines := rfl
  classes := rfl
  arrays := by
    intro u member resized role
    simpa [Use.isArray, role] using plain u member

theorem Agrees.after (agrees : c.Agrees d) (plain : ∀ u ∈ uses, u.isArray = false) :
    ({ uses := uses } ++ c).Agrees d := by
  simpa [Declared.append] using (agrees_plain plain).append agrees

theorem agrees_declaration (kind : DeclarationKind) (vars : List Variable) (line : Nat) :
    (ofBlock (.declaration kind vars line)).Agrees (Declared.ofVariables kind vars) where
  locals := by
    cases resizes : kind.isReDim <;>
      simp [ofBlock, keys, Declared.ofVariables, resizes, Function.comp_def, filter_map]
  resized := by
    cases resizes : kind.isReDim <;>
      simp [ofBlock, keys, Declared.ofVariables, resizes, Function.comp_def, filter_map]
  routines := by cases resizes : kind.isReDim <;> simp [ofBlock, Declared.ofVariables, resizes, functions]
  classes := by cases resizes : kind.isReDim <;> simp [ofBlock, Declared.ofVariables, resizes]
  arrays := by
    intro u member resized role
    simp only [ofBlock, mem_flatMap, mem_map] at member ⊢
    obtain ⟨v, listed, used⟩ := member
    refine ⟨v, listed, ?_⟩
    unfold Variable.uses at used
    split at used
    · simp at used
    · simp at used
    · next bounds _ _ =>
      -- the array is the variable itself; what its bounds use are no arrays
      rcases mem_cons.mp used with rfl | inner
      · simpa using role
      · simpa [Use.isArray, role] using Expr.isArray_listUses bounds u inner

mutual

theorem agrees_ofBlock : (b : Block) → (ofBlock b).Agrees (Declared.ofBlock b)
  | .blankLine | .comment _ _ | .optionExplicit | .exit _ _ | .onError _ _
  | .classDefinition _ _ => ⟨rfl, rfl, rfl, rfl, by simp [ofBlock]⟩
  | .declaration kind vars line => agrees_declaration kind vars line
  | .routine header _ => by
    cases property : header.kind.isProperty <;> rw [Declared.ofBlock, Declared.ofRoutine, property] <;>
      exact ⟨rfl, rfl, by simp [ofBlock, functions, entry, property], rfl, by simp [ofBlock]⟩
  | .call e _ => agrees_plain (Expr.isArray_uses e)
  | .assignment _ target value =>
    agrees_plain (forall_mem_append.mpr ⟨Expr.isArray_targetUses target, Expr.isArray_uses value⟩)
  | .randomize seed _ => agrees_plain (Expr.isArray_flatMap _)
  | .branch test body rest => by
    exact ((agrees_ofBlocks body).after (Expr.isArray_uses test)).append (agrees_ofAlternative rest)
  | .doLoop test body _ => by
    exact (agrees_ofBlocks body).after (LoopTest.isArray_uses test)
  | .whileLoop e body _ | .withTarget e body _ => by
    exact (agrees_ofBlocks body).after (Expr.isArray_uses e)
  | .forLoop counter first last step body => by
    refine (agrees_ofBlocks body).after (forall_mem_cons.mpr ⟨rfl, ?_⟩)
    simp only [forall_mem_append]
    exact ⟨⟨Expr.isArray_uses first, Expr.isArray_uses last⟩, Expr.isArray_flatMap _⟩
  | .forEach item collection body => by
    exact (agrees_ofBlocks body).after (forall_mem_cons.mpr ⟨rfl, Expr.isArray_uses collection⟩)
  | .select subject cases _ => by
    exact (agrees_ofCases cases).after (Expr.isArray_uses subject)

theorem agrees_ofBlocks : (bs : List Block) → (ofBlocks bs).Agrees (Declared.ofBlocks bs)
  | [] => ⟨rfl, rfl, rfl, rfl, by simp [ofBlocks]⟩
  | b :: rest => by
    exact (agrees_ofBlock b).append (agrees_ofBlocks rest)

theorem agrees_ofAlternative : (rest : Alternative) → (ofAlternative rest).Agrees (Declared.ofAlternative rest)
  | .none => ⟨rfl, rfl, rfl, rfl, by simp [ofAlternative]⟩
  | .elseIf test body rest => by
    exact ((agrees_ofBlocks body).after (Expr.isArray_uses test)).append (agrees_ofAlternative rest)
  | .otherwise body => by
    exact agrees_ofBlocks body

theorem agrees_ofCases : (cases : Cases) → (ofCases cases).Agrees (Declared.ofCases cases)
  | .none => ⟨rfl, rfl, rfl, rfl, by simp [ofCases]⟩
  | .case values body rest => by
    exact ((agrees_ofBlocks body).after (Expr.isArray_flatMap values)).append (agrees_ofCases rest)

end

end Contents
end VbSharp
