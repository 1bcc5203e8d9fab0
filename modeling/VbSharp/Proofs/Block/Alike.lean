import VbSharp.Block.Parse
import VbSharp.Proofs.Expr.Alike

/-!
# Blocks of alike tokens

Blocks are alike if they are built alike from alike tokens and expressions. There is one lemma for each function of
the parser that makes parts of blocks from tokens: from alike tokens it makes alike parts, or it fails alike.
-/
namespace VbSharp

open List VbSharp.Expr

variable {L : Likeness}

variable (members : Members)

variable {header other : Header}

/-! ### Blocks -/

structure Variable.Alike (L : Likeness) (v w : Variable) : Prop where
  name : v.name.Alike L w.name
  bounds : Option.Rel (Forall₂ (Expr.Alike L)) v.bounds w.bounds

structure Parameter.Alike (L : Likeness) (p q : Parameter) : Prop where
  passing : p.passing = q.passing
  name : p.name.Alike L q.name
  isArray : p.isArray = q.isArray

structure Header.Alike (L : Likeness) (h k : Header) : Prop where
  kind : h.kind = k.kind
  name : h.name.Alike L k.name
  isPublic : h.isPublic = k.isPublic
  isDefault : h.isDefault = k.isDefault
  parameters : Forall₂ (Parameter.Alike L) h.parameters k.parameters

inductive LoopTest.Alike (L : Likeness) : LoopTest → LoopTest → Prop where
  | none : Alike L .none .none
  | whileBefore {e f : Expr} (alike : e.Alike L f) : Alike L (.whileBefore e) (.whileBefore f)
  | untilBefore {e f : Expr} (alike : e.Alike L f) : Alike L (.untilBefore e) (.untilBefore f)
  | whileAfter {e f : Expr} (alike : e.Alike L f) : Alike L (.whileAfter e) (.whileAfter f)
  | untilAfter {e f : Expr} (alike : e.Alike L f) : Alike L (.untilAfter e) (.untilAfter f)

mutual

/-- Blocks that are built alike, the second so many lines further down. -/
inductive Block.Alike (L : Likeness) : Block → Block → Prop where
  | blankLine : Block.Alike L .blankLine .blankLine
  | comment {t u : Token} {inline : Bool} (shown : t.kind = .comment ∨ t.kind = .inlineComment) (noted : L.noted t)
    (looks : L.text t.text = L.text u.text) : Block.Alike L (.comment t.text inline) (.comment u.text inline)
  | optionExplicit : Block.Alike L .optionExplicit .optionExplicit
  | declaration {kind : DeclarationKind} {vars others : List Variable} {m n : Nat}
    (declared : Forall₂ (Variable.Alike L) vars others) (lines : n = m + L.shift) :
    Block.Alike L (.declaration kind vars m) (.declaration kind others n)
  | classDefinition {t u : Token} {body other : List Block} (name : t.Alike L u)
    (bodies : Forall₂ (Block.Alike L) body other) (checked : Parser.checkMembers t {} body = .ok ()) :
    Block.Alike L (.classDefinition t body) (.classDefinition u other)
  | routine {h k : Header} {body other : List Block} (header : h.Alike L k)
    (bodies : Forall₂ (Block.Alike L) body other) : Block.Alike L (.routine h body) (.routine k other)
  | branch {e f : Expr} {body other : List Block} {rest more : Alternative} (condition : e.Alike L f)
    (bodies : Forall₂ (Block.Alike L) body other) (others : Alternative.Alike L rest more) :
    Block.Alike L (.branch e body rest) (.branch f other more)
  | call {e f : Expr} {withCall : Bool} (expression : e.Alike L f) : Block.Alike L (.call e withCall) (.call f withCall)
  | assignment {kind : AssignKind} {target other value store : Expr} (targets : target.Alike L other)
    (values : value.Alike L store) : Block.Alike L (.assignment kind target value) (.assignment kind other store)
  | exit {kind : ExitKind} {m n : Nat} (lines : n = m + L.shift) : Block.Alike L (.exit kind m) (.exit kind n)
  | randomize {seed other : Option Expr} {m n : Nat} (seeds : Option.Rel (Expr.Alike L) seed other)
    (lines : n = m + L.shift) : Block.Alike L (.randomize seed m) (.randomize other n)
  | doLoop {test more : LoopTest} {body other : List Block} {m n : Nat} (tests : test.Alike L more)
    (bodies : Forall₂ (Block.Alike L) body other) (lines : n = m + L.shift) :
    Block.Alike L (.doLoop test body m) (.doLoop more other n)
  | whileLoop {e f : Expr} {body other : List Block} {m n : Nat} (condition : e.Alike L f)
    (bodies : Forall₂ (Block.Alike L) body other) (lines : n = m + L.shift) :
    Block.Alike L (.whileLoop e body m) (.whileLoop f other n)
  | forLoop {t u : Token} {first start last final : Expr} {step pace : Option Expr} {body other : List Block}
    (counter : t.Alike L u) (starts : first.Alike L start) (limits : last.Alike L final)
    (steps : Option.Rel (Expr.Alike L) step pace) (bodies : Forall₂ (Block.Alike L) body other) :
    Block.Alike L (.forLoop t first last step body) (.forLoop u start final pace other)
  | forEach {t u : Token} {e f : Expr} {body other : List Block} (item : t.Alike L u) (collection : e.Alike L f)
    (bodies : Forall₂ (Block.Alike L) body other) : Block.Alike L (.forEach t e body) (.forEach u f other)
  | select {e f : Expr} {cases others : Cases} {m n : Nat} (subject : e.Alike L f) (listed : Cases.Alike L cases others)
    (lines : n = m + L.shift) : Block.Alike L (.select e cases m) (.select f others n)
  | onError {mode : ErrorMode} {m n : Nat} (lines : n = m + L.shift) : Block.Alike L (.onError mode m) (.onError mode n)
  | withTarget {e f : Expr} {body other : List Block} {m n : Nat} (target : e.Alike L f)
    (bodies : Forall₂ (Block.Alike L) body other) (lines : n = m + L.shift) :
    Block.Alike L (.withTarget e body m) (.withTarget f other n)

inductive Alternative.Alike (L : Likeness) : Alternative → Alternative → Prop where
  | none : Alternative.Alike L .none .none
  | elseIf {e f : Expr} {body other : List Block} {rest more : Alternative} (condition : e.Alike L f)
    (bodies : Forall₂ (Block.Alike L) body other) (others : Alternative.Alike L rest more) :
    Alternative.Alike L (.elseIf e body rest) (.elseIf f other more)
  | otherwise {body other : List Block} (bodies : Forall₂ (Block.Alike L) body other) :
    Alternative.Alike L (.otherwise body) (.otherwise other)

inductive Cases.Alike (L : Likeness) : Cases → Cases → Prop where
  | none : Cases.Alike L .none .none
  | case {values others : List Expr} {body other : List Block} {rest more : Cases}
    (listed : Forall₂ (Expr.Alike L) values others) (bodies : Forall₂ (Block.Alike L) body other)
    (later : Cases.Alike L rest more) : Cases.Alike L (.case values body rest) (.case others other more)

end

variable {m n : Nat} {tokens others : List Token} {t u : Token} {e f : Expr}

/-! ### Definitions and declarations -/

namespace Parser

theorem takes_alike (alike : header.Alike L other) : members.takes header = members.takes other := by
  simp only [Members.takes, alike.kind, Likeness.foldCase_eq alike.name.text]

theorem add_alike (alike : header.Alike L other) : members.add header = members.add other := by
  simp only [Members.add, alike.kind, Likeness.foldCase_eq alike.name.text]

theorem checkMembers_alike {blocks more : List Block} (name : t.Alike L u) (members : Members)
    (alike : Forall₂ (Block.Alike L) blocks more) :
    L.Results (fun _ _ => True) (checkMembers t members blocks) (checkMembers u members more) := by
  induction alike generalizing members with
  | nil => exact .ok trivial
  | cons first _ ih =>
    cases first with
    | routine header _ =>
      simp only [checkMembers, takes_alike members header, add_alike members header]
      split
      · refine .error (.same ?_)
        simp only [Fault.shift, Fault.mapText, header.name.lineNumber, header.name.text, name.text]
      · exact ih _
    | _ => exact ih members

section

variable (alike : Forall₂ (Token.Alike L) tokens others)
include alike

theorem bounds_alike :
    L.Results (fun x y => Option.Rel (Forall₂ (Expr.Alike L)) x.1 y.1 ∧ Forall₂ (Token.Alike L) x.2 y.2)
      (bounds tokens) (bounds others) := by
  cases alike with
  | nil => exact .ok ⟨.none, .nil⟩
  | @cons t u rest more same later =>
    unfold bounds
    simp only [same.kind]
    split
    · have group := closeGroup_alike later 0
      generalize closeGroup 0 rest = first at group ⊢
      generalize closeGroup 0 more = second at group ⊢
      cases group with
      | none => exact .error (.reported .unbalancedBrackets same.lineNumber)
      | some parts => exact (readList_alike parts.1).map fun es => ⟨.some es, parts.2⟩
    · exact .ok ⟨.none, .cons same later⟩

/-- The variables behind a name, given what follows it. -/
def variablesBehind (line : Nat) (name : Token) (x : Option (List Expr) × List Token) : Except Fault (List Variable) :=
  match x.2 with
  | [] => .ok [⟨name, x.1⟩]
  | t :: more =>
    if t.kind = .comma then (variableList line more).map (⟨name, x.1⟩ :: ·)
    else .error (.malformed t.lineNumber (.strayInDeclaration t.text))

omit alike in
theorem variableList_name {name : Token} (line : Nat) (rest : List Token) (named : name.isNameLike = true) :
    variableList line (name :: rest) = (bounds rest).bind (variablesBehind line name) := by
  rw [variableList.eq_def]
  simp only [named, Bool.not_true, Bool.false_eq_true, if_false]
  split
  next failed => simp only [failed, Except.bind]
  next given =>
    simp only [given, Except.bind, variablesBehind]
    split <;> rfl

omit alike in
theorem variableList_alike (lines : n = m + L.shift) (alike : Forall₂ (Token.Alike L) tokens others) :
    L.Results (Forall₂ (Variable.Alike L)) (variableList m tokens) (variableList n others) := by
  induction bound : tokens.length using Nat.strongRecOn generalizing tokens others with
  | ind count ih =>
    cases alike with
    | nil =>
      rw [variableList, variableList]
      exact .error (.malformed (by omega) rfl)
    | @cons t u rest more name later =>
      rw [length_cons] at bound
      cases named : t.isNameLike with
      | false =>
        rw [variableList.eq_def m, variableList.eq_def n]
        simp only [named, ← name.isNameLike, Bool.not_false, if_true]
        refine .error (.malformed name.lineNumber ?_)
        simp only [Problem.mapText, Option.map_some, name.text]
      | true =>
        rw [variableList_name m rest named, variableList_name n more (name.isNameLike ▸ named)]
        refine ((bounds_alike later).of_ok fun given related => And.intro (bounds_length given) related).bind ?_
        rintro ⟨found, after⟩ ⟨found', after'⟩ ⟨shorter, boundsAlike, behind⟩
        cases behind with
        | nil => exact .ok (.cons ⟨name, boundsAlike⟩ .nil)
        | @cons comma other last final same final' =>
          simp only [variablesBehind, same.kind]
          rw [length_cons] at shorter
          split
          · exact (ih last.length (by omega) final' rfl).map fun vars => .cons ⟨name, boundsAlike⟩ vars
          · exact .error (.malformed same.lineNumber (by simp only [Problem.mapText, same.text]))

/-! ### Plain statements -/

theorem splitAtEquals_alike (depth : Nat) :
    Option.Rel (AlikeParts L) (splitAtEquals depth tokens) (splitAtEquals depth others) := by
  induction alike generalizing depth with
  | nil => exact .none
  | cons same later ih =>
    simp only [splitAtEquals, same.kind, same.isEquals]
    split
    · exact rel_consPart same (ih _)
    · exact rel_consPart same (ih _)
    · split
      · exact .some ⟨.nil, later⟩
      · exact rel_consPart same (ih _)

theorem target_alike (lines : n = m + L.shift) : L.Results (Expr.Alike L) (target tokens m) (target others n) := by
  refine (read_alike alike lines).bind fun read => ?_
  simp only [read.isChain]
  split
  · exact .ok read
  · exact .error (.malformed (by omega) rfl)

omit alike in
theorem assignment_alike {left right left' right' : List Token} (kind : AssignKind)
    (lefts : Forall₂ (Token.Alike L) left left') (rights : Forall₂ (Token.Alike L) right right')
    (lines : n = m + L.shift) : L.Results (Block.Alike L) (assignment kind left right m) (assignment kind left' right' n) :=
  (target_alike lefts lines).bind fun target => (read_alike rights lines).bind fun value =>
    .ok (.assignment target value)

theorem extend_alike (chain : LeadingChain) : L.Results Eq (chain.extend tokens) (chain.extend others) := by
  induction bound : tokens.length using Nat.strongRecOn generalizing tokens others chain with
  | ind count ih =>
    cases alike with
    | nil =>
      rw [LeadingChain.extend]
      exact .ok rfl
    | @cons t u rest more same later =>
      rw [length_cons] at bound
      rw [LeadingChain.extend.eq_def chain (t :: rest), LeadingChain.extend.eq_def chain (u :: more)]
      simp only [same.kind]
      cases u.kind with
      | member =>
        cases later with
        | nil => exact .ok rfl
        | @cons name other after last named final =>
          simp only [named.canNameMember]
          rw [length_cons] at bound
          split
          · exact ih after.length (by omega) final _ rfl
          · exact .ok rfl
      | openBracket =>
        have group := closeGroup_alike later 0
        simp only
        split
        next found =>
          split
          next => exact .error (.reported .unbalancedBrackets same.lineNumber)
          next opposite =>
            rw [found, opposite] at group
            cases group
        next inner after found =>
          have shorter := closeGroup_length found
          split
          next opposite =>
            rw [found, opposite] at group
            cases group
          next inner' after' opposite =>
            rw [found, opposite] at group
            cases group with
            | some related =>
              obtain ⟨inside, outside⟩ : Forall₂ (Token.Alike L) inner inner' ∧
                Forall₂ (Token.Alike L) after after' := related
              rw [inside.length_eq]
              exact ih after.length (by omega) outside _ rfl
      | _ => exact .ok rfl

theorem argumentsStart_alike (chain : LeadingChain) :
    L.Results Eq (argumentsStart tokens chain) (argumentsStart others chain) := by
  unfold argumentsStart
  rw [forall₂_isEmpty (forall₂_drop chain.length alike)]
  split
  next start _ _ =>
    have inner := forall₂_drop (start + 1) (forall₂_take (chain.length - 1) alike)
    refine (readList_alike inner).bind fun es => ?_
    rw [es.length_eq]
    split <;> exact .ok rfl
  · exact .ok rfl
  · exact .ok rfl
  · exact .ok rfl

omit alike in
theorem giveArguments_alike {e f : Expr} {es fs : List Expr} (called : e.Alike L f)
    (given : Forall₂ (Expr.Alike L) es fs) (lines : n = m + L.shift) :
    L.Results (Expr.Alike L) (giveArguments e es m) (giveArguments f fs n) := by
  have refused : Fault.Alike L (.malformed (m + 1) .argumentsOfNothing) (.malformed (n + 1) .argumentsOfNothing) :=
    .malformed (by omega) rfl
  have segments := rel_reverse called.segments
  unfold giveArguments
  generalize e.reverse = one at segments ⊢
  generalize f.reverse = other at segments ⊢
  cases segments with
  | nil => exact .error refused
  | cons last before =>
    cases last with
    | call filled named _ =>
      exact .ok (related_of_segments (by simp)
        (rel_append (rel_reverse before) (.cons (.call filled named given) .nil)))
    | value | operator | bracketed | new => exact .error refused

theorem namedStatement_alike (lines : n = m + L.shift) :
    L.Results (Block.Alike L) (namedStatement tokens m) (namedStatement others n) := by
  refine (extend_alike (forall₂_drop 1 alike) ⟨1, none⟩).bind fun {chain _} same => ?_
  subst same
  have after := forall₂_drop chain.length alike
  have equals := rel_any (forall₂_head? after) fun same => same.isEquals
  simp only [equals]
  split
  · exact assignment_alike .value (forall₂_take chain.length alike) (forall₂_drop 1 after) lines
  · refine (argumentsStart_alike alike chain).bind fun {start _} same => ?_
    subst same
    cases start with
    | none => exact (read_alike alike lines).bind fun called => .ok (.call called)
    | some start =>
      refine (read_alike (forall₂_take start alike) lines).bind fun called => ?_
      refine (readList_alike (forall₂_drop start alike)).bind fun given => ?_
      exact (giveArguments_alike called given lines).bind fun whole => .ok (.call whole)

omit alike in
theorem assignKind?_alike (alike : t.Resembles L u) : assignKind? t = assignKind? u := by
  simp only [assignKind?, alike.isWord]

/-! ### Control flow -/

/-- Conditions of a loop that are alike, with the same flag. -/
def AlikeTest (L : Likeness) (x y : Bool × Expr) : Prop :=
  x.1 = y.1 ∧ x.2.Alike L y.2

theorem loopCondition_alike (lines : n = m + L.shift) :
    L.Results (Option.Rel (AlikeTest L)) (loopCondition tokens m) (loopCondition others n) := by
  cases alike with
  | nil => exact .ok .none
  | cons word condition =>
    simp only [loopCondition, word.isKeyword]
    split
    · exact (read_alike condition lines).map fun e => .some ⟨rfl, e⟩
    · split
      · exact (read_alike condition lines).map fun e => .some ⟨rfl, e⟩
      · exact .error (.malformed word.lineNumber (by simp only [Problem.mapText, word.text]))

omit alike in
theorem loopTest_alike {first last first' last' : Option (Bool × Expr)} (firsts : Option.Rel (AlikeTest L) first first')
    (lasts : Option.Rel (AlikeTest L) last last') (lines : n = m + L.shift) :
    L.Results (LoopTest.Alike L) (loopTest first last m) (loopTest first' last' n) := by
  have refused : Fault.Alike L (.malformed (m + 1) .secondLoopTest) (.malformed (n + 1) .secondLoopTest) :=
    .malformed (by omega) rfl
  cases firsts with
  | none =>
    cases lasts with
    | none => exact .ok .none
    | @some x y same =>
      obtain ⟨goesOn, e⟩ := x
      obtain ⟨_, f⟩ := y
      obtain ⟨rfl, alike⟩ := same
      cases goesOn
      · exact .ok (.untilAfter alike)
      · exact .ok (.whileAfter alike)
  | @some x y same =>
    obtain ⟨goesOn, e⟩ := x
    obtain ⟨_, f⟩ := y
    obtain ⟨rfl, alike⟩ := same
    cases lasts with
    | none =>
      cases goesOn
      · exact .ok (.untilBefore alike)
      · exact .ok (.whileBefore alike)
    | some _ => cases goesOn <;> exact .error refused

/-- Ranges of a counting loop that are alike. -/
def AlikeRange (L : Likeness) (x y : Expr × Expr × Option Expr) : Prop :=
  x.1.Alike L y.1 ∧ x.2.1.Alike L y.2.1 ∧ Option.Rel (Expr.Alike L) x.2.2 y.2.2

theorem forRange_alike (lines : n = m + L.shift) :
    L.Results (AlikeRange L) (forRange tokens m) (forRange others n) := by
  cases alike with
  | nil => exact .error (.malformed (by omega) rfl)
  | @cons equals other rest more same later =>
    simp only [forRange, same.isEquals]
    cases other.isEquals with
    | false => exact .error (.malformed (by omega) rfl)
    | true =>
      have first : Forall₂ (Token.Alike L) (rest.takeWhile (!·.isKeyword "To"))
          (more.takeWhile (!·.isKeyword "To")) :=
        forall₂_takeWhile later fun word => congrArg not (word.isKeyword _)
      have after := forall₂_drop ((more.takeWhile (!·.isKeyword "To")).length + 1) later
      have last := forall₂_takeWhile after (fun word => congrArg not (word.isKeywordLike "Step"))
      have stepped := forall₂_any first fun word => word.isKeywordLike "Step"
      simp only [↓reduceIte, pure_bind, first.length_eq, later.length_eq]
      split
      · exact .error (.malformed (by omega) rfl)
      · refine (read_alike first lines).bind fun start => ?_
        rw [stepped, last.length_eq, after.length_eq]
        split
        · exact (read_alike after lines).bind fun limit => .ok ⟨start, limit, .none⟩
        · refine (read_alike last lines).bind fun limit => ?_
          refine (read_alike (forall₂_drop _ after) lines).bind fun step => ?_
          exact .ok ⟨start, limit, .some step⟩

theorem forCollection_alike (lines : n = m + L.shift) :
    L.Results (Expr.Alike L) (forCollection tokens m) (forCollection others n) := by
  cases alike with
  | nil => exact .error (.malformed (by omega) rfl)
  | cons word rest =>
    simp only [forCollection, word.isKeyword]
    split
    · exact read_alike rest lines
    · exact .error (.malformed (by omega) rfl)

end

end Parser

end VbSharp
