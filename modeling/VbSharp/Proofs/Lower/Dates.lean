import VbSharp.Proofs.Block.WordOrder
import VbSharp.Proofs.Expr.Words
import VbSharp.Proofs.Lower.Following
import VbSharp.Proofs.Lower.Telling

/-!
# Dates are looked at

Lowering looks at every date literal on its way. It fails if one of them is invalid, and leaves a note for each one
whose day depends on the culture. Here the notes of expressions, statements and blocks are shown to tell exactly
which of their dates these are.
-/
namespace VbSharp

open List
open CSharp (Mark Simple Term)

variable (b : Block)

/-! ### The expressions of a block -/

/-- The expressions of a variable's bounds. -/
def Variable.expressions (v : Variable) : List Expr :=
  v.bounds.getD []

mutual

/-- All expressions that stand in a block. -/
def Block.expressions : Block → List Expr
  | .blankLine | .comment _ _ | .optionExplicit | .exit _ _ | .onError _ _ => []
  | .declaration _ vars _ => vars.flatMap Variable.expressions
  | .classDefinition _ body => Block.listExpressions body
  | .routine _ body => Block.listExpressions body
  | .branch condition body rest => condition :: (Block.listExpressions body ++ rest.expressions)
  | .call e _ => [e]
  | .assignment _ target value => [target, value]
  | .randomize seed _ => seed.toList
  | .doLoop test body _ => test.conditions ++ Block.listExpressions body
  | .whileLoop condition body _ => condition :: Block.listExpressions body
  | .forLoop _ first last step body => first :: last :: (step.toList ++ Block.listExpressions body)
  | .forEach _ collection body => collection :: Block.listExpressions body
  | .select subject cs _ => subject :: cs.expressions
  | .withTarget target body _ => target :: Block.listExpressions body

def Block.listExpressions : List Block → List Expr
  | [] => []
  | b :: rest => b.expressions ++ Block.listExpressions rest

def Alternative.expressions : Alternative → List Expr
  | .none => []
  | .elseIf condition body rest => condition :: (Block.listExpressions body ++ rest.expressions)
  | .otherwise body => Block.listExpressions body

def Cases.expressions : Cases → List Expr
  | .none => []
  | .case values body rest => values ++ (Block.listExpressions body ++ rest.expressions)

end

/-! ### The dates of an expression -/

mutual

/-- The date literals of a segment. A call without names has no place for its arguments. -/
def Segment.dates : Segment → List Token
  | .call [] _ => []
  | .call (_ :: _) arguments => Expr.listDates arguments
  | .value t => [t].filter (·.kind == .date)
  | .bracketed inner => Expr.dates inner
  | .operator _ | .new _ => []

/-- The date literals of an expression, at any depth. -/
def Expr.dates : List Segment → List Token
  | [] => []
  | s :: rest => s.dates ++ Expr.dates rest

def Expr.listDates : List (List Segment) → List Token
  | [] => []
  | e :: rest => Expr.dates e ++ Expr.listDates rest

end

theorem Expr.listDates_eq_flatMap (es : List Expr) : Expr.listDates es = es.flatMap Expr.dates := by
  induction es with
  | nil => rfl
  | cons e rest ih => rw [Expr.listDates, ih, flatMap_cons]

/-- The date literal that an element is. -/
def Element.date? : Element → Option Token
  | .value t => if t.kind == .date then some t else none
  | _ => none

mutual

theorem Segment.dates_eq (inChain : Bool) : (s : Segment) → s.dates = (s.elements inChain).filterMap Element.date?
  | .call [] _ | .operator _ | .new _ => rfl
  | .call (name :: names) arguments => by
    have first : (if inChain then Element.member name else .use ⟨name, .value⟩).date? = none := by
      cases inChain <;> rfl
    have members : (names.map Element.member).filterMap Element.date? = [] := by simp [Element.date?]
    rw [Segment.dates, Segment.elements, filterMap_cons_none first, filterMap_append, members, nil_append]
    exact Expr.listDates_eq arguments
  | .value t => by
    rw [Segment.dates, Segment.elements, filter_singleton, filterMap_cons, Element.date?]
    cases t.kind == .date <;> rfl
  | .bracketed inner => by
    exact Expr.dates_eq false inner

theorem Expr.dates_eq (inChain : Bool) : (e : List Segment) →
    Expr.dates e = (Expr.elementsFrom inChain e).filterMap Element.date?
  | [] => rfl
  | s :: rest => by
    rw [Expr.dates, Expr.elementsFrom, s.dates_eq inChain, Expr.dates_eq _ rest, filterMap_append]

theorem Expr.listDates_eq : (es : List (List Segment)) →
    Expr.listDates es = (Expr.listElements es).filterMap Element.date?
  | [] => rfl
  | e :: rest => by
    rw [Expr.listDates, Expr.listElements, Expr.dates_eq false e, Expr.listDates_eq rest, filterMap_append]

end

/-- How its names are used makes no difference to the dates of a target. -/
theorem Expr.dates_of_target {e : Expr} (chained : Expr.isChain e = true) :
    Expr.dates e = (Lower.targetElements (Expr.steps e)).filterMap Element.date? := by
  rw [Expr.dates_eq true, Expr.elementsFrom_chain true e (Expr.calls_of_isChain chained), Expr.chainElements_true]
  cases Expr.steps e with
  | nil => rfl
  | cons first rest =>
    cases rest with
    | nil => simp [Lower.targetElements, Expr.memberElements, Element.date?, filterMap_cons]
    | cons next rest =>
      simp [Lower.targetElements, Expr.chainElements, Expr.memberElements, Element.date?, filterMap_cons]

/-! ### Well-formed expressions -/

namespace Expr

theorem kind_of_canNameMember {t : Token} (named : t.canNameMember = true) : t.kind ≠ .date := by
  intro date
  simp [Token.canNameMember, Token.isNameLike, Kind.isNameLike, date] at named

mutual

/-- The dates of a well-formed segment are all its words that are dates. -/
theorem dates_segmentWords (before : Before) : (s : Segment) → segmentFits before s = true →
    (segmentWords s).filter (·.kind == .date) = s.dates
  | .call names arguments, fit => by
    rw [segmentFits, Bool.and_eq_true] at fit
    have named : names.filter (·.kind == .date) = [] := by
      rw [filter_eq_nil_iff]
      intro t member
      simpa using kind_of_canNameMember (canNameMember_of_namesFit before names fit.1 t member)
    cases names with
    | nil => cases fit.1 -- a call of a well-formed expression has a name
    | cons name others =>
      rw [segmentWords, filter_append, named, dates_listWords arguments fit.2, Segment.dates, nil_append]
  | .value t, _ => by
    rw [segmentWords, Segment.dates]
  | .operator t, fit => by
    have other : (t.kind == .date) = false := by
      rw [segmentFits] at fit
      cases kind : t.kind <;> simp_all [Token.isOperator, Kind.isOperator]
    rw [segmentWords, Segment.dates, filter_singleton, other]
    rfl
  | .bracketed inner, fit => by
    rw [segmentFits, Bool.and_eq_true, Bool.and_eq_true] at fit
    exact dates_words .gap inner fit.2.2
  | .new className, fit => by
    rw [segmentFits, Bool.and_eq_true] at fit
    have other : (className.kind == .date) = false := by
      simpa using kind_of_canNameMember (canNameMember_of_isNameLike fit.2)
    rw [segmentWords, Segment.dates, filter_singleton, other]
    rfl

theorem dates_words (before : Before) : (e : List Segment) → segmentsFit before e = true →
    (words e).filter (·.kind == .date) = dates e
  | [], _ => rfl
  | s :: rest, fit => by
    rw [segmentsFit, Bool.and_eq_true] at fit
    rw [words, filter_append, dates_segmentWords before s fit.1, dates_words _ rest fit.2, dates]

theorem dates_listWords : (es : List (List Segment)) → allWellFormed es = true →
    (listWords es).filter (·.kind == .date) = listDates es
  | [], _ => rfl
  | e :: rest, fit => by
    rw [allWellFormed, Bool.and_eq_true, Bool.and_eq_true] at fit
    rw [listWords, filter_append, dates_words .gap e fit.1.2, dates_listWords rest fit.2, listDates]

end
end Expr

/-! ### Notes about dates -/

/-- The notes tell about the dates: none of them is invalid, and those that depend on the culture are noted. -/
structure Checks (culture : Culture) (dates : List Token) (notes : List Note) : Prop where
  valid : ∀ t ∈ dates, Date.classify culture t.text ≠ .invalid
  noted : ∀ text, .date text ∈ notes ↔ ∃ t ∈ dates, t.text = text ∧ Date.classify culture text = .cultureDependent

namespace Checks

variable {culture : Culture} {dates others : List Token} {notes more : List Note}

theorem idle (none : ∀ text, .date text ∉ notes) : Checks culture [] notes where
  valid := forall_mem_nil _
  noted text := by simp [none text]

theorem nil : Checks culture [] [] :=
  idle fun _ => not_mem_nil

theorem append (first : Checks culture dates notes) (second : Checks culture others more) :
    Checks culture (dates ++ others) (notes ++ more) where
  valid := forall_mem_append.mpr ⟨first.valid, second.valid⟩
  noted text := by
    simp only [mem_append, first.noted, second.noted, or_and_right, exists_or]

end Checks

theorem Tells.checks {site : Site} {elements : List Element} {marks : List Mark} {notes : List Note}
    (tells : Tells site elements marks notes) : Checks site.culture (elements.filterMap Element.date?) notes := by
  have isDate {x : Element} {t : Token} : x.date? = some t ↔ x = .value t ∧ t.kind = .date := by
    cases x with
    | value literal =>
      rw [Element.date?, Option.ite_none_right_eq_some]
      constructor
      · rintro ⟨kind, same⟩
        cases same
        exact ⟨rfl, by simpa using kind⟩
      · rintro ⟨same, kind⟩
        cases same
        exact ⟨by simpa using kind, rfl⟩
    | use u | member name | new className => simp [Element.date?]
  constructor
  · intro t listed
    obtain ⟨x, member, same⟩ := mem_filterMap.mp listed
    obtain ⟨rfl, kind⟩ := isDate.mp same
    exact tells.valid _ member kind
  · intro text
    rw [tells.noted]
    constructor
    · rintro ⟨x, member, noted⟩
      cases x with
      | value t =>
        rw [Element.notes] at noted
        split at noted
        next dependent =>
          cases mem_singleton.mp noted
          exact ⟨t, mem_filterMap.mpr ⟨_, member, isDate.mpr ⟨rfl, dependent.1⟩⟩, rfl, dependent.2⟩
        · cases noted
      | use u =>
        -- a note about a name is about no date
        rw [Element.notes] at noted
        split at noted
        · cases noted
        · cases meant : site.scope.meaning u with
          | undeclared r =>
            rw [meant] at noted
            cases mem_singleton.mp noted
          | _ =>
            rw [meant] at noted
            cases noted
      | member name | new className => cases noted
    · rintro ⟨t, listed, rfl, dependent⟩
      obtain ⟨x, member, same⟩ := mem_filterMap.mp listed
      obtain ⟨rfl, kind⟩ := isDate.mp same
      refine ⟨_, member, ?_⟩
      rw [Element.notes, if_pos ⟨kind, dependent⟩]
      exact mem_singleton_self _

namespace Lower

/-! ### Blocks -/

variable {ctx : Context} {scope : Scope} {out : Emission}

theorem Ends.checks_of_variableEmissions {kind : DeclarationKind} {visibility : CSharp.Visibility}
    {vars : List Variable} (ends : Ends (variableEmissions ctx scope kind visibility vars) out) :
    Checks ctx.culture ((vars.flatMap Variable.expressions).flatMap Expr.dates) out.notes := by
  refine ends.of_variableEmissions (motive := fun vars out =>
    Checks ctx.culture ((vars.flatMap Variable.expressions).flatMap Expr.dates) out.notes) .nil fun {v} _ _ _ madeEnds rest => ?_
  obtain ⟨-, -, -, made⟩ := madeEnds.of_variableEmission
  rw [flatMap_cons, flatMap_append]
  apply Checks.append _ rest
  rw [Variable.expressions]
  rcases made with ⟨unbounded, -, notes⟩ | ⟨content, bound, bounds, sized, given, -⟩
  · rw [unbounded, notes]
    exact .nil
  · -- the bounds of an array are the only expressions of a declaration
    rw [sized, Option.getD_some, ← Expr.listDates_eq_flatMap]
    rw [Expr.listDates_eq]
    exact (told_sizeArray given).2.tells.checks

end Lower

/-- The date literals of some blocks, wherever they stand in them. -/
def Block.listDates (bs : List Block) : List Token :=
  (Block.listExpressions bs).flatMap Expr.dates

theorem Block.listDates_cons (rest : List Block) :
    Block.listDates (b :: rest) = b.expressions.flatMap Expr.dates ++ Block.listDates rest :=
  flatMap_append

theorem Block.listDates_append (a b : List Block) :
    Block.listDates (a ++ b) = Block.listDates a ++ Block.listDates b := by
  induction a with
  | nil => rfl
  | cons first rest ih => rw [cons_append, listDates_cons, ih, listDates_cons, append_assoc]

theorem Block.listDates_singleton : Block.listDates [b] = b.expressions.flatMap Expr.dates := by
  rw [listDates_cons]
  exact append_nil _

namespace Lower

variable {ctx : Context}

/-- A clause looks at the dates of its test, of its body and of the clauses behind it. -/
theorem checks_clause {scope : Scope} {test : Expr} {term : Term} {notes : List Note} {body : List Block}
    {rest : Alternative} {inner others : Emission} {stmts : List CSharp.Stmt}
    (given : condition (ctx.site scope) test = Except.ok (term, notes))
    (held : Checks ctx.culture (Block.listDates body) inner.notes)
    (followed : Checks ctx.culture (rest.expressions.flatMap Expr.dates) others.notes) :
    Checks ctx.culture ((test :: (Block.listExpressions body ++ rest.expressions)).flatMap Expr.dates)
      ({ notes := notes } ++ { inner with stmts := stmts } ++ others : Emission).notes := by
  have tested : Checks ctx.culture (Expr.dates test) notes := by
    rw [Expr.dates_eq false]
    exact (told_condition given).checks
  rw [flatMap_cons, flatMap_append, ← append_assoc]
  exact (tested.append held).append followed

theorem followed_dates : Followed ctx (fun _ bs out => Checks ctx.culture (Block.listDates bs) out.notes)
    (fun _ rest out => Checks ctx.culture (rest.expressions.flatMap Expr.dates) out.notes) where
  nil _ := .nil
  append first second := by
    rw [Block.listDates_append]
    exact first.append second
  remark held _ _ := by
    rw [Block.listDates_append, Block.listDates_singleton, Block.expressions, flatMap_nil, append_nil]
    exact held
  blank _ := .nil
  comment _ _ _ := .nil
  optionExplicit _ := .nil
  declaration _ ends := by
    rw [Block.listDates_singleton, Block.expressions]
    exact ends.checks_of_variableEmissions
  call given := by
    rw [Block.listDates_singleton, Block.expressions, flatMap_singleton, Expr.dates_eq false]
    exact (told_callStatement given).tells.checks
  assignment given := by
    obtain ⟨chained, does⟩ := told_assignment given
    rw [Block.listDates_singleton, Block.expressions, flatMap_cons, flatMap_singleton,
      Expr.dates_of_target chained, Expr.dates_eq false, ← filterMap_append]
    exact does.tells.checks
  randomize given := by
    rw [Block.listDates_singleton, Block.expressions, ← Expr.listDates_eq_flatMap, Expr.listDates_eq]
    exact (told_randomize given).tells.checks
  exit _ := .nil
  routine _ held := by
    rw [Block.listDates_singleton, Block.expressions]
    unfold routineEmission
    split
    · exact held
    · exact held
  classDefinition _ _ held := by
    rw [Block.listDates_singleton, Block.expressions]
    exact held
  branch given inner others := by
    rw [Block.listDates_singleton, Block.expressions]
    exact checks_clause given inner others
  none _ := .nil
  elseIf given inner others := by
    exact checks_clause given inner others
  otherwise held := by
    exact held

end Lower
end VbSharp
