import VbSharp.Proofs.Block.Running
import VbSharp.Proofs.Expr.WordOrder

/-!
# Printing blocks

A canonical text for each tree of blocks, as tokens: every statement and every line that opens, divides
or closes a construct takes one line. The tree keeps the lines of some constructs; all other tokens
that it does not hold are printed on one line, which the style gives. The style also settles what the
language leaves open.
-/
namespace VbSharp

open List

variable (mark : Nat) (es : List Expr) (e : Expr)

@[simp] theorem sameWord_self (word : String) : sameWord word word = true := by
  simp [sameWord]

namespace Token

def ofKeyword (word : String) (line : Nat) : Token := ⟨.keyword, word, line⟩
def ofSoftKeyword (word : String) (line : Nat) : Token := ⟨.softKeyword, word, line⟩

variable (word other : String) (line : Nat)

@[simp] theorem isKeyword_ofKeyword : (ofKeyword word line).isKeyword other = sameWord word other := rfl

@[simp] theorem isKeywordLike_ofKeyword : (ofKeyword word line).isKeywordLike other = sameWord word other := rfl

@[simp] theorem isKeyword_ofSoftKeyword : (ofSoftKeyword word line).isKeyword other = false := rfl

@[simp] theorem isKeywordLike_ofSoftKeyword : (ofSoftKeyword word line).isKeywordLike other = sameWord word other := rfl

@[simp] theorem isNameLike_ofKeyword : (ofKeyword word line).isNameLike = false := rfl

@[simp] theorem isTerminator_lineEnd : (lineEnd line).isTerminator = true := rfl

theorem isKeyword_of_isNameLike {t : Token} (named : t.isNameLike = true) (word : String) :
    t.isKeyword word = false := by
  cases kind : t.kind <;> simp_all [isNameLike, Kind.isNameLike, isKeyword]

end Token

/-- What a text can choose. -/
structure PrintStyle where
  /-- The line of the tokens for which the tree has none. -/
  line : Nat
  /-- Whether values are assigned with the word `Let`. -/
  writesLet : Bool
  /-- Whether public routines say so. -/
  writesPublic : Bool
  /-- Whether a routine without parameters has brackets. -/
  writesBrackets : Bool
  deriving Repr, DecidableEq

namespace PrintStyle

variable (style : PrintStyle)

@[simp] def keyword (word : String) : Token := .ofKeyword word style.line
@[simp] def softKeyword (word : String) : Token := .ofSoftKeyword word style.line
def equals : Token := ⟨.comparison, "=", style.line⟩

/-- The tokens of a line and its end. -/
def lineOf (tokens : List Token) : List Token :=
  tokens ++ [Token.lineEnd style.line]

@[simp] theorem lineOf_append (tokens rest : List Token) :
    style.lineOf tokens ++ rest = tokens ++ Token.lineEnd style.line :: rest := by
  simp [lineOf]

/-- Lists of tokens with commas between them. -/
def separated (parts : List (List Token)) : List Token :=
  (parts.intersperse [Expr.commaMark style.line]).flatten

/-- A group in brackets. -/
def inBrackets (tokens : List Token) : List Token :=
  Expr.openMark style.line :: (tokens ++ [Expr.closeMark style.line])

/-- An expression. -/
def expr (e : Expr) : List Token :=
  Expr.print style.line e

def variableTokens (v : Variable) : List Token :=
  v.name :: v.bounds.elim [] fun es => style.inBrackets (Expr.printList style.line es)

def declarationWords (kind : DeclarationKind) (line : Nat) : List Token :=
  match kind with
  | .dim => [.ofKeyword "Dim" line]
  | .reDim true => [.ofKeyword "ReDim" line, style.keyword "Preserve"]
  | .reDim false => [.ofKeyword "ReDim" line]
  | .privateField => [.ofKeyword "Private" line]
  | .publicField => [.ofKeyword "Public" line]

def parameterTokens (p : Parameter) : List Token :=
  (match p.passing with
    | .byRef => [style.keyword "ByRef"]
    | .byVal => [style.keyword "ByVal"]
    | .unspecified => []) ++ p.name :: if p.isArray then style.inBrackets [] else []

def parameterList (ps : List Parameter) : List Token :=
  if ps.isEmpty && !style.writesBrackets then []
  else style.inBrackets (style.separated (ps.map style.parameterTokens))

/-- The words that open a routine of a kind. -/
def kindWords : RoutineKind → List Token
  | .function => [style.keyword "Function"]
  | .sub => [style.keyword "Sub"]
  | .propertyGet => [style.softKeyword "Property", style.softKeyword "Get"]
  | .propertyLet => [style.softKeyword "Property", style.keyword "Let"]
  | .propertySet => [style.softKeyword "Property", style.keyword "Set"]

/-- The words that close a routine of a kind. -/
def endWords : RoutineKind → List Token
  | .function => [style.keyword "End", style.keyword "Function"]
  | .sub => [style.keyword "End", style.keyword "Sub"]
  | _ => [style.keyword "End", style.softKeyword "Property"]

def accessWords (isPublic : Bool) : List Token :=
  if isPublic then (if style.writesPublic then [style.keyword "Public"] else [])
  else [style.keyword "Private"]

def headerTokens (h : Header) : List Token :=
  style.accessWords h.isPublic ++ ((if h.isDefault then [style.softKeyword "Default"] else []) ++
    (style.kindWords h.kind ++ h.name :: style.parameterList h.parameters))

/-- A call without the word `Call`: the arguments of its last call stand in no brackets. -/
def bareCall (e : Expr) : List Token :=
  match e.getLast? with
  | some (.call names arguments) =>
    style.expr (e.dropLast ++ [.call names []]) ++ Expr.printList style.line arguments
  | _ => style.expr e

def assignmentWords : AssignKind → List Token
  | .value => if style.writesLet then [style.keyword "Let"] else []
  | .object => [style.keyword "Set"]

def exitWord : ExitKind → Token
  | .doLoop => style.keyword "Do"
  | .forLoop => style.keyword "For"
  | .function => style.keyword "Function"
  | .sub => style.keyword "Sub"
  | .property => style.softKeyword "Property"

def errorWords : ErrorMode → List Token
  | .resumeNext => [style.keyword "Resume", style.keyword "Next"]
  | .gotoZero => [style.keyword "Goto", ⟨.number, "0", style.line⟩]

/-- The condition of a loop that stands behind the word `Do`. -/
def testBefore : LoopTest → List Token
  | .whileBefore e => style.keyword "While" :: style.expr e
  | .untilBefore e => style.keyword "Until" :: style.expr e
  | _ => []

/-- The condition of a loop that stands behind the word `Loop`. -/
def testAfter : LoopTest → List Token
  | .whileAfter e => style.keyword "While" :: style.expr e
  | .untilAfter e => style.keyword "Until" :: style.expr e
  | _ => []

def rangeTokens (first last : Expr) (step : Option Expr) : List Token :=
  style.equals :: (style.expr first ++ style.keyword "To" :: (style.expr last ++
    step.elim [] fun e => style.softKeyword "Step" :: style.expr e))

/-- The values of a case; a case without values takes what is left. -/
def caseTokens (values : List Expr) : List Token :=
  if values.isEmpty then [style.keyword "Else"] else Expr.printList style.line values

mutual

/-- The tokens of a block. -/
def block : Block → List Token
  | .blankLine => style.lineOf []
  | .comment text inline =>
    style.lineOf [⟨if inline then .inlineComment else .comment, text, style.line⟩]
  | .optionExplicit => style.lineOf [style.keyword "Option", style.softKeyword "Explicit"]
  | .declaration kind vars line =>
    style.lineOf (style.declarationWords kind line ++ style.separated (vars.map style.variableTokens))
  | .classDefinition name body =>
    style.lineOf [style.keyword "Class", name] ++ (blocks body ++
      style.lineOf [style.keyword "End", style.keyword "Class"])
  | .routine header body =>
    style.lineOf (style.headerTokens header) ++ (blocks body ++ style.lineOf (style.endWords header.kind))
  | .branch condition body rest =>
    style.lineOf (style.keyword "If" :: (style.expr condition ++ [style.keyword "Then"])) ++
      (blocks body ++ alternative rest)
  | .call e true => style.lineOf (style.keyword "Call" :: style.expr e)
  | .call e false => style.lineOf (style.bareCall e)
  | .assignment kind target value =>
    style.lineOf (style.assignmentWords kind ++ (style.expr target ++ style.equals :: style.expr value))
  | .exit kind line => style.lineOf [.ofKeyword "Exit" line, style.exitWord kind]
  | .randomize seed line =>
    style.lineOf (.ofKeyword "Randomize" line :: seed.elim [] style.expr)
  | .doLoop test body line =>
    style.lineOf (.ofKeyword "Do" line :: style.testBefore test) ++ (blocks body ++
      style.lineOf (style.keyword "Loop" :: style.testAfter test))
  | .whileLoop condition body line =>
    style.lineOf (.ofKeyword "While" line :: style.expr condition) ++ (blocks body ++
      style.lineOf [style.keyword "Wend"])
  | .forLoop counter first last step body =>
    style.lineOf (style.keyword "For" :: counter :: style.rangeTokens first last step) ++
      (blocks body ++ style.lineOf [style.keyword "Next"])
  | .forEach item collection body =>
    style.lineOf (style.keyword "For" :: style.keyword "Each" :: item :: style.keyword "In" ::
      style.expr collection) ++ (blocks body ++ style.lineOf [style.keyword "Next"])
  | .select subject cs line =>
    style.lineOf (.ofKeyword "Select" line :: style.keyword "Case" :: style.expr subject) ++ cases cs
  | .onError mode line =>
    style.lineOf (.ofKeyword "On" line :: style.softKeyword "Error" :: style.errorWords mode)
  | .withTarget target body line =>
    style.lineOf (.ofKeyword "With" line :: style.expr target) ++ (blocks body ++
      style.lineOf [style.keyword "End", style.keyword "With"])

/-- The tokens of some blocks. -/
def blocks : List Block → List Token
  | [] => []
  | b :: rest => block b ++ blocks rest

/-- The further clauses of a branch and its end. -/
def alternative : Alternative → List Token
  | .none => style.lineOf [style.keyword "End", style.keyword "If"]
  | .elseIf condition body rest =>
    style.lineOf (style.keyword "ElseIf" :: (style.expr condition ++ [style.keyword "Then"])) ++
      (blocks body ++ alternative rest)
  | .otherwise body =>
    style.lineOf [style.keyword "Else"] ++ (blocks body ++ style.lineOf [style.keyword "End", style.keyword "If"])

/-- The cases of a selection and its end. -/
def cases : Cases → List Token
  | .none => style.lineOf [style.keyword "End", style.keyword "Select"]
  | .case values body rest =>
    style.lineOf (style.keyword "Case" :: style.caseTokens values) ++ (blocks body ++ cases rest)

end

end PrintStyle

/-! ### Which trees are printed -/

namespace Expr

/-- Whether the expression holds no word that a statement could take for its own: no keyword, which
could only name a member, and no `Step`. -/
def isPlain (e : Expr) : Bool :=
  (words e).all fun t => t.kind != .keyword && !t.isKeywordLike "Step"

/-- Whether the expression can stand in a statement. -/
def isPrintable (e : Expr) : Bool :=
  isWellFormed e && isPlain e

/-- Whether the expression can be the first argument of a call that has no brackets. -/
def canLead : Expr → Bool
  | .operator _ :: _ => false
  | .bracketed _ :: _ => false
  | _ => true

/-- Whether the arguments of the last call can stand in no brackets. -/
def isBareCall (e : Expr) : Bool :=
  match e.getLast? with
  | some (.call _ (first :: _)) => canLead first
  | _ => true

end Expr

/-- Whether the variable has a name, and bounds that can stand in a statement if it has any. -/
def Variable.isWellFormed (v : Variable) : Bool :=
  v.name.isNameLike && v.bounds.all fun es => es.all Expr.isPrintable

/-- The conditions of a loop. -/
def LoopTest.conditions : LoopTest → List Expr
  | .none => []
  | .whileBefore e | .untilBefore e | .whileAfter e | .untilAfter e => [e]

/-- The routines that stand directly in a class. -/
def memberHeaders : List Block → List Header
  | [] => []
  | .routine header _ :: rest => header :: memberHeaders rest
  | _ :: rest => memberHeaders rest

/-- Two members of a class may share their name only as accessors of different kinds. -/
def Header.clashes (a b : Header) : Bool :=
  sameWord a.name.text b.name.text && !(a.kind.isProperty && b.kind.isProperty && a.kind != b.kind)

mutual

/-- Whether the block has the shape that its construct requires. -/
def Block.isWellFormed : Block → Bool
  | .blankLine | .comment _ _ | .optionExplicit | .exit _ _ | .onError _ _ => true
  | .declaration kind vars _ =>
    !vars.isEmpty && vars.all fun v => v.isWellFormed && (!kind.isReDim || v.bounds.isSome)
  | .classDefinition name body =>
    name.isNameLike && allWellFormed body &&
      decide ((memberHeaders body).Pairwise fun a b => a.clashes b = false)
  | .routine header body =>
    header.name.isNameLike && header.parameters.all (·.name.isNameLike) && allWellFormed body
  | .branch condition body rest =>
    condition.isPrintable && allWellFormed body && rest.isWellFormed
  | .call e withCall => e.isPrintable && Expr.isChain e && (withCall || e.isBareCall)
  | .assignment _ target value => target.isPrintable && Expr.isChain target && value.isPrintable
  | .randomize seed _ => seed.all Expr.isPrintable
  | .doLoop test body _ => test.conditions.all Expr.isPrintable && allWellFormed body
  | .whileLoop condition body _ => condition.isPrintable && allWellFormed body
  | .forLoop counter first last step body =>
    counter.isNameLike && first.isPrintable && last.isPrintable && step.all Expr.isPrintable &&
      allWellFormed body
  | .forEach item collection body =>
    item.isNameLike && collection.isPrintable && allWellFormed body
  | .select subject cs _ => subject.isPrintable && cs.isWellFormed
  | .withTarget target body _ => target.isPrintable && allWellFormed body

/-- Whether all of the blocks have the shape that they require. -/
def allWellFormed : List Block → Bool
  | [] => true
  | b :: rest => b.isWellFormed && allWellFormed rest

/-- Whether the clauses have the shape that they require. -/
def Alternative.isWellFormed : Alternative → Bool
  | .none => true
  | .elseIf condition body rest =>
    condition.isPrintable && allWellFormed body && rest.isWellFormed
  | .otherwise body => allWellFormed body

/-- Whether the cases have the shape that they require. -/
def Cases.isWellFormed : Cases → Bool
  | .none => true
  | .case values body rest =>
    values.all Expr.isPrintable && allWellFormed body && rest.isWellFormed

end

/-! ### Expressions in statements -/

/-- Tokens that can stand inside a statement: they do not end it, and none of them is a word of a
statement. -/
structure StandInside (tokens : List Token) : Prop where
  open_end : ∀ t ∈ tokens, t.isTerminator = false
  keywords : ∀ t ∈ tokens, t.kind = .keyword → t.isWord "New" = true
  step : ∀ t ∈ tokens, t.isKeywordLike "Step" = false

theorem StandInside.append {a b : List Token} (first : StandInside a) (second : StandInside b) :
    StandInside (a ++ b) where
  open_end := forall_mem_append.mpr ⟨first.open_end, second.open_end⟩
  keywords := forall_mem_append.mpr ⟨first.keywords, second.keywords⟩
  step := forall_mem_append.mpr ⟨first.step, second.step⟩

/-- No keyword but `New` stands inside. -/
theorem StandInside.isKeyword {tokens : List Token} (inside : StandInside tokens) (word : String)
    (other : sameWord "New" word = false) : ∀ t ∈ tokens, t.isKeyword word = false := by
  intro t member
  rw [Token.isKeyword, Bool.and_eq_false_imp]
  intro isKeyword
  have isNew := inside.keywords t member (by simpa using isKeyword)
  rw [Token.isWord, sameWord_iff] at isNew
  rw [Token.isWord, ← other, sameWord, sameWord, isNew]

theorem standInside_of_keeps {tokens words : List Token} (kept : Expr.Keeps tokens words)
    (plain : ∀ t ∈ words, t.kind ≠ .keyword ∧ t.isKeywordLike "Step" = false) : StandInside tokens := by
  have held := kept.words ▸ @mem_plainWords tokens false
  refine ⟨kept.inside, fun t member isKeyword => ?_, fun t member => ?_⟩
  · rcases held t member with mark | isNew | word
    · simp [isKeyword, Expr.isMark] at mark
    · exact ((Bool.and_eq_true ..).mp isNew).2
    · exact absurd isKeyword (plain t word).1
  · rcases held t member with mark | isNew | word
    · cases kind : t.kind <;> simp_all [Expr.isMark, Token.isKeywordLike]
    · have other : sameWord "New" "Step" = false := by decide
      simp [Token.isKeywordLike, Token.isWord_of_isKeyword isNew, other]
    · exact (plain t word).2

namespace Expr

theorem isPlain_iff : isPlain e = true ↔ ∀ t ∈ words e, t.kind ≠ .keyword ∧ t.isKeywordLike "Step" = false := by
  simp [isPlain]

theorem isPrintable_iff : isPrintable e = true ↔ isWellFormed e = true ∧ isPlain e = true := by
  simp [isPrintable]

theorem read_print (line : Nat) (e : Expr) (printable : isPrintable e = true) : read (print mark e) line = .ok e := by
  have wellFormed := ((isPrintable_iff e).mp printable).1
  exact (read_ok_iff_spelled _ _ _).mpr ⟨wellFormed, spelled_print mark e wellFormed⟩

theorem standInside_print (printable : isPrintable e = true) : StandInside (print mark e) :=
  standInside_of_keeps (keeps_of_read (read_print mark 0 e printable))
    ((isPlain_iff e).mp ((isPrintable_iff e).mp printable).2)

theorem allWellFormed_of_printable (printable : ∀ e ∈ es, isPrintable e = true) : allWellFormed es = true :=
  (allWellFormed_iff es).mpr fun e member => ((isPrintable_iff e).mp (printable e member)).1

theorem readList_print (printable : ∀ e ∈ es, isPrintable e = true) : readList (printList mark es) = .ok es := by
  have wellFormed := allWellFormed_of_printable es printable
  have spelled := allSpelled_print mark es wellFormed
  exact readList_of_parts _ _ es (joinedByCommas_printList mark es) wellFormed spelled
    (readFrom_all es _ wellFormed spelled)

theorem standInside_printList (printable : ∀ e ∈ es, isPrintable e = true) : StandInside (printList mark es) := by
  refine standInside_of_keeps (keeps_of_readList (readList_print mark es printable)) ?_
  induction es with
  | nil => simp [listWords]
  | cons e es ih =>
    obtain ⟨first, rest⟩ := forall_mem_cons.mp printable
    exact forall_mem_append.mpr
      ⟨(isPlain_iff e).mp ((isPrintable_iff e).mp first).2, ih rest⟩

/-! ### Taking the arguments off the last call -/

theorem words_subset_listWords (member : e ∈ es) : words e ⊆ listWords es := by
  induction es with
  | nil => simp at member
  | cons first es ih =>
    rcases mem_cons.mp member with rfl | member
    · exact subset_append_left _ _
    · exact subset_append_of_subset_right _ (ih member)

theorem isChain_last (chain : isChain e = true) : ∃ before names arguments, e = before ++ [.call names arguments] := by
  obtain rfl | ⟨before, last, rfl⟩ := eq_nil_or_concat' e
  · simp [isChain] at chain
  · cases last with
    | call names arguments => exact ⟨before, names, arguments, rfl⟩
    | value | operator | bracketed | new => simp [isChain, Segment.isCall] at chain

variable (before : Expr) (names : List Token) (arguments : List Expr)

theorem segmentsFit_append_call (place : Before) :
    segmentsFit place (before ++ [.call names arguments]) =
      (segmentsFit place (before ++ [.call names []]) && allWellFormed arguments) := by
  induction before generalizing place with
  | nil => simp [segmentsFit, segmentFits, allWellFormed]
  | cons s before ih => simp [segmentsFit, ih, Bool.and_assoc]

theorem namesFit_last (place : Before) (fit : segmentsFit place (before ++ [.call names arguments]) = true) :
    ∃ last, namesFit last names = true := by
  induction before generalizing place with
  | nil =>
    simp only [nil_append, segmentsFit, segmentFits, Bool.and_eq_true] at fit
    exact ⟨place, fit.1.1⟩
  | cons s before ih =>
    simp only [cons_append, segmentsFit, Bool.and_eq_true] at fit
    exact ih _ fit.2

theorem words_append_call :
    words (before ++ [.call names arguments]) = words (before ++ [.call names []]) ++ listWords arguments := by
  induction before with
  | nil => simp [words, segmentWords, listWords]
  | cons s before ih => simp [words, ih]

theorem isPrintable_of_append_call (printable : isPrintable (before ++ [.call names arguments]) = true) :
    isPrintable (before ++ [.call names []]) = true ∧ ∀ e ∈ arguments, isPrintable e = true := by
  obtain ⟨wellFormed, plain⟩ := (isPrintable_iff _).mp printable
  rw [isPlain_iff, words_append_call, forall_mem_append] at plain
  simp only [isWellFormed, segmentsFit_append_call before names arguments, Bool.and_eq_true]
    at wellFormed
  obtain ⟨-, fit, filled⟩ := wellFormed
  refine ⟨(isPrintable_iff _).mpr ⟨by simp [isWellFormed, fit], (isPlain_iff _).mpr plain.1⟩, ?_⟩
  intro e member
  have inside := words_subset_listWords arguments e member
  exact (isPrintable_iff e).mpr ⟨(allWellFormed_iff arguments).mp filled e member,
    (isPlain_iff e).mpr fun t word => plain.2 t (inside word)⟩

/-- A call is its callee, which is a chain too, and the arguments of its last part. -/
theorem exists_callee (e : Expr) (printable : isPrintable e = true) (chain : isChain e = true) :
    ∃ before names arguments, e = before ++ [.call names arguments] ∧ isPrintable (before ++ [.call names []]) = true ∧
      isChain (before ++ [.call names []]) = true ∧ ∀ a ∈ arguments, isPrintable a = true := by
  obtain ⟨before, names, arguments, rfl⟩ := isChain_last e chain
  obtain ⟨printableCallee, each⟩ := isPrintable_of_append_call before names arguments printable
  exact ⟨before, names, arguments, rfl, printableCallee,
    by simpa [isChain, Segment.isCall] using chain, each⟩

end Expr

namespace Parser

theorem reads_expression (style : PrintStyle) (e : Expr) (printable : e.isPrintable = true)
    (line : Nat) (rest : List Token) : Reads (expression (style.expr e) line) rest e rest :=
  reads_lift (Expr.read_print style.line line e printable) rest

theorem reads_takeExpr (style : PrintStyle) (e : Expr) (printable : e.isPrintable = true) (rest : List Token) :
    Reads takeStatement (style.expr e ++ Token.lineEnd style.line :: rest) (style.expr e) rest :=
  reads_takeStatement (Expr.standInside_print style.line e printable).open_end rfl

end Parser
end VbSharp
