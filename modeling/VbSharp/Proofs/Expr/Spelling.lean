import VbSharp.Expr
import VbSharp.Proofs.Expr.Nesting

/-!
# The grammar of expressions

Which lists of segments are expressions, and which tokens write them. `Expr.print` writes an expression
in one canonical way; `Expr.Spelled` relates it to every way of writing it. The two differ in what carries
no meaning: the texts and lines of points, brackets, commas and the word `New`, and empty brackets behind
a call, which are needed only where another call follows.
-/
namespace VbSharp

open List Segment

variable {t : Token} {printed tokens inner a b c d : List Token}

variable (before : Before) (names : List Token)

/-- Whether the token is a literal or a constant. -/
def Token.isLiteral (t : Token) : Bool :=
  match t.kind with
  | .string | .number | .date | .constant => true
  | _ => false

namespace Expr

/-- What stands before a segment. -/
inductive Before where
  /-- An operator, or nothing. -/
  | gap
  | call
  /-- Any other operand. -/
  | operand
  deriving Repr, DecidableEq

/-- What a segment is to the segment behind it. -/
def asBefore : Segment → Before
  | .call _ _ => .call
  | .operator _ => .gap
  | _ => .operand

/-- Whether a call can have the names: the first name of a chain is no keyword, and any other name only
has to be a word. -/
def namesFit (before : Before) : List Token → Bool
  | [] => false
  | first :: members =>
    (match before with
      | .gap => first.isNameLike
      | .call => first.canNameMember
      | .operand => false) && members.all Token.canNameMember

mutual

/-- Whether a segment can stand behind another one: of two neighbours one is an operator, or both are
calls. -/
def segmentFits (before : Before) : Segment → Bool
  | .call names arguments => namesFit before names && allWellFormed arguments
  | .value t => before == .gap && t.isLiteral
  | .operator t => t.isOperator
  | .bracketed inner => before == .gap && (!inner.isEmpty && segmentsFit .gap inner)
  | .new className => before == .gap && className.isNameLike

/-- Whether each segment can stand where it does. -/
def segmentsFit (before : Before) : List Segment → Bool
  | [] => true
  | s :: rest => segmentFits before s && segmentsFit (asBefore s) rest

/-- Whether all of some expressions are well formed. -/
def allWellFormed : List (List Segment) → Bool
  | [] => true
  | e :: rest => (!e.isEmpty && segmentsFit .gap e) && allWellFormed rest

end

/-- Whether the segments form an expression. -/
def isWellFormed (e : Expr) : Bool :=
  !e.isEmpty && segmentsFit .gap e

/-- Whether the first segment is a call. -/
def startsWithCall (e : Expr) : Bool :=
  e.head?.any isCall

/-! ### Printing -/

def pointMark (line : Nat) : Token := ⟨.member, ".", line⟩
def openMark (line : Nat) : Token := ⟨.openBracket, "(", line⟩
def closeMark (line : Nat) : Token := ⟨.closeBracket, ")", line⟩
def commaMark (line : Nat) : Token := ⟨.comma, ",", line⟩
def newMark (line : Nat) : Token := ⟨.keyword, "New", line⟩

mutual

/-- The tokens of a segment. A call without arguments gets brackets only if it stands before another
call. -/
def printSegment (line : Nat) (beforeCall : Bool) : Segment → List Token
  | .call names arguments =>
    names.intersperse (pointMark line) ++
      if arguments.isEmpty && !beforeCall then []
      else openMark line :: (printList line arguments ++ [closeMark line])
  | .value t => [t]
  | .operator t => [t]
  | .bracketed inner => openMark line :: (print line inner ++ [closeMark line])
  | .new className => [newMark line, className]

/-- The tokens of an expression, with all marks on the given line. -/
def print (line : Nat) : List Segment → List Token
  | [] => []
  | s :: rest =>
    printSegment line (startsWithCall rest) s ++
      (if s.isCall && startsWithCall rest then [pointMark line] else []) ++ print line rest

/-- The tokens of some expressions, separated by commas. -/
def printList (line : Nat) : List (List Segment) → List Token
  | [] => []
  | [e] => print line e
  | e :: rest => print line e ++ commaMark line :: printList line rest

end

/-! ### Spelling -/

/-- Each of the names stands behind a point. -/
def Pointed : List Token → List Token → Prop
  | [], tokens => tokens = []
  | name :: names, tokens => ∃ point later, point.kind = .member ∧ tokens = point :: name :: later ∧ Pointed names later

/-- The names of a call, joined by points; a point also joins them to the call before, if there is one. -/
def NamesSpelled (before : Before) (names tokens : List Token) : Prop :=
  if before = .call then Pointed names tokens
  else ∃ point, point.kind = .member ∧ Pointed names (point :: tokens)

/-- Brackets around some tokens. -/
def InBrackets (inner tokens : List Token) : Prop :=
  ∃ start close, start.kind = .openBracket ∧ close.kind = .closeBracket ∧ tokens = start :: (inner ++ [close])

mutual

/-- The tokens write the segment. -/
def SegmentSpelled (before : Before) (beforeCall : Bool) : Segment → List Token → Prop
  | .call names arguments, tokens => ∃ called group, tokens = called ++ group ∧ NamesSpelled before names called ∧
      (arguments = [] ∧ beforeCall = false ∧ group = [] ∨
        ∃ inner parts, InBrackets inner group ∧ JoinedByCommas parts inner ∧ AllSpelled arguments parts)
  | .value t, tokens => tokens = [t]
  | .operator t, tokens => tokens = [t]
  | .bracketed inner, tokens => ∃ body, InBrackets body tokens ∧ SegmentsSpelled .gap inner body
  | .new className, tokens => ∃ word, word.isKeyword "New" = true ∧ tokens = [word, className]

/-- The tokens write the segments. -/
def SegmentsSpelled (before : Before) : List Segment → List Token → Prop
  | [], tokens => tokens = []
  | s :: rest, tokens => ∃ head tail, tokens = head ++ tail ∧
      SegmentSpelled before (startsWithCall rest) s head ∧ SegmentsSpelled (asBefore s) rest tail

/-- Each part writes the expression in its place. -/
def AllSpelled : List (List Segment) → List (List Token) → Prop
  | [], parts => parts = []
  | e :: rest, parts => ∃ part others, parts = part :: others ∧ SegmentsSpelled .gap e part ∧ AllSpelled rest others

end

/-- The tokens write the arguments of a call: nothing, or brackets around them. -/
def GroupSpelled (beforeCall : Bool) (arguments : List Expr) (tokens : List Token) : Prop :=
  arguments = [] ∧ beforeCall = false ∧ tokens = [] ∨
    ∃ inner parts, InBrackets inner tokens ∧ JoinedByCommas parts inner ∧ AllSpelled arguments parts

/-- The tokens write the expression. -/
def Spelled (e : Expr) (tokens : List Token) : Prop :=
  SegmentsSpelled .gap e tokens

theorem allWellFormed_iff (es : List Expr) : allWellFormed es = true ↔ ∀ e ∈ es, isWellFormed e = true := by
  induction es with
  | nil => simp [allWellFormed]
  | cons e es ih =>
    rw [allWellFormed, Bool.and_eq_true, ih]
    simp [isWellFormed]

/-! ### Printing is spelling -/

theorem pointed_intersperse (point : Token) (isPoint : point.kind = .member) (name : Token)
    (names : List Token) : Pointed (name :: names) (point :: (name :: names).intersperse point) := by
  induction names generalizing name with
  | nil => exact ⟨point, [], isPoint, rfl, rfl⟩
  | cons next names ih => exact ⟨point, _, isPoint, rfl, ih next⟩

theorem namesSpelled_print (line : Nat) (before : Before) (names : List Token) (fit : namesFit before names = true) :
    NamesSpelled before names
      ((if before == .call then [pointMark line] else []) ++ names.intersperse (pointMark line)) := by
  cases names with
  | nil => simp [namesFit] at fit
  | cons name names =>
    have pointed := pointed_intersperse (pointMark line) rfl name names
    unfold NamesSpelled
    split
    next chained => simpa [chained] using pointed
    next first => exact ⟨pointMark line, rfl, by simpa [first] using pointed⟩

theorem joinedByCommas_printList (line : Nat) (es : List Expr) :
    JoinedByCommas (es.map (print line)) (printList line es) := by
  induction es with
  | nil => rfl
  | cons e es ih =>
    cases es with
    | nil => rfl
    | cons next es => exact ⟨commaMark line, _, rfl, rfl, ih⟩

theorem isKeyword_newMark (line : Nat) : (newMark line).isKeyword "New" = true := by
  simp [newMark, Token.isKeyword, Token.isWord, sameWord]

theorem inBrackets_print (line : Nat) (inner : List Token) :
    InBrackets inner (openMark line :: (inner ++ [closeMark line])) :=
  ⟨openMark line, closeMark line, rfl, rfl, rfl⟩

mutual

theorem segmentSpelled_print (line : Nat) (before : Before) (beforeCall : Bool) :
    ∀ s : Segment, segmentFits before s = true → SegmentSpelled before beforeCall s
        ((if before == .call && s.isCall then [pointMark line] else []) ++ printSegment line beforeCall s)
  | .call names arguments, fit => by
    simp only [segmentFits, Bool.and_eq_true] at fit
    have called := namesSpelled_print line before names fit.1
    have each := allSpelled_print line arguments fit.2
    simp only [isCall, Bool.and_true, printSegment, ← append_assoc]
    refine ⟨_, _, rfl, called, ?_⟩
    split
    next bare =>
      simp only [Bool.and_eq_true, List.isEmpty_iff, Bool.not_eq_true'] at bare
      exact .inl ⟨bare.1, bare.2, rfl⟩
    · exact .inr ⟨_, _, inBrackets_print line _, joinedByCommas_printList line arguments, each⟩
  | .value t, _ => by simp [SegmentSpelled, printSegment, isCall]
  | .operator t, _ => by simp [SegmentSpelled, printSegment, isCall]
  | .bracketed inner, fit => by
    simp only [segmentFits, Bool.and_eq_true] at fit
    have body : SegmentsSpelled .gap inner (print line inner) :=
      segmentsSpelled_print line .gap inner fit.2.2
    simpa [SegmentSpelled, printSegment, isCall] using
      ⟨_, inBrackets_print line _, body⟩
  | .new className, _ => by
    simp only [SegmentSpelled, printSegment, isCall]
    exact ⟨newMark line, isKeyword_newMark line, by simp⟩

theorem segmentsSpelled_print (line : Nat) (before : Before) :
    ∀ e : List Segment, segmentsFit before e = true → SegmentsSpelled before e
        ((if before == .call && startsWithCall e then [pointMark line] else []) ++ print line e)
  | [], _ => by simp [SegmentsSpelled, print, startsWithCall]
  | s :: rest, fit => by
    simp only [segmentsFit, Bool.and_eq_true] at fit
    have head := segmentSpelled_print line before (startsWithCall rest) s fit.1
    have tail := segmentsSpelled_print line (asBefore s) rest fit.2
    have link : (asBefore s == .call) = s.isCall := by cases s <;> rfl
    refine ⟨_, _, ?_, head, tail⟩
    simp [print, startsWithCall, link]

theorem allSpelled_print (line : Nat) :
    ∀ es : List (List Segment), allWellFormed es = true → AllSpelled es (es.map (print line))
  | [], _ => rfl
  | e :: rest, fit => by
    simp only [allWellFormed, Bool.and_eq_true] at fit
    exact ⟨_, _, rfl, segmentsSpelled_print line .gap e fit.1.2, allSpelled_print line rest fit.2⟩

end

theorem spelled_print (line : Nat) (e : Expr) (wellFormed : isWellFormed e = true) : Spelled e (print line e) := by
  simp only [isWellFormed, Bool.and_eq_true] at wellFormed
  exact segmentsSpelled_print line .gap e wellFormed.2

/-! ### Spelling keeps brackets in pairs -/

/-- The kinds that give tokens their structure. -/
def isStructural : Kind → Bool
  | .openBracket | .closeBracket | .comma | .terminator => true
  | _ => false

theorem isStructural_of_canNameMember (named : t.canNameMember = true) : isStructural t.kind = false := by
  cases kind : t.kind <;>
    simp_all [Token.canNameMember, Token.isNameLike, Kind.isNameLike, isStructural]

theorem canNameMember_of_isNameLike (named : t.isNameLike = true) : t.canNameMember = true := by
  simp [Token.canNameMember, named]

theorem isStructural_of_isLiteral (literal : t.isLiteral = true) : isStructural t.kind = false := by
  cases kind : t.kind <;> simp_all [Token.isLiteral, isStructural]

theorem isStructural_of_isOperator (operator : t.isOperator = true) : isStructural t.kind = false := by
  cases kind : t.kind <;> simp_all [Token.isOperator, Kind.isOperator, isStructural]

theorem depthStep_of_isStructural (depth : Nat) (plain : isStructural t.kind = false) :
    depthStep depth t = some depth := by
  unfold depthStep
  split <;> simp_all [isStructural]

theorem isOneArgument_token (t : Token) (plain : isStructural t.kind = false) : IsOneArgument [t] := by
  apply isOneArgument_singleton <;> intro kind <;> simp [kind, isStructural] at plain

theorem isOneArgument_pointed (tokens : List Token) (pointed : Pointed names tokens)
    (named : ∀ name ∈ names, name.canNameMember = true) : IsOneArgument tokens := by
  induction names generalizing tokens with
  | nil =>
    obtain rfl : tokens = [] := pointed
    rfl
  | cons name names ih =>
    obtain ⟨point, later, isPoint, rfl, pointed⟩ := pointed
    have first := isOneArgument_token name (isStructural_of_canNameMember (named name (by simp)))
    have rest := ih later pointed fun n member => named n (by simp [member])
    exact (isOneArgument_token point (by simp [isPoint, isStructural])).append (first.append rest)

theorem canNameMember_of_namesFit (fit : namesFit before names = true) : ∀ name ∈ names, name.canNameMember = true := by
  cases names with
  | nil => simp
  | cons first members =>
    simp only [namesFit, Bool.and_eq_true, all_eq_true] at fit
    simp only [mem_cons, forall_eq_or_imp]
    refine ⟨?_, fit.2⟩
    cases before with
    | gap => exact canNameMember_of_isNameLike fit.1
    | call => exact fit.1
    | operand => simp at fit

theorem isOneArgument_names (tokens : List Token) (fit : namesFit before names = true)
    (spelled : NamesSpelled before names tokens) : IsOneArgument tokens := by
  have named := canNameMember_of_namesFit before names fit
  unfold NamesSpelled at spelled
  split at spelled
  · exact isOneArgument_pointed names tokens spelled named
  · obtain ⟨point, isPoint, pointed⟩ := spelled
    have one := isOneArgument_pointed names (point :: tokens) pointed named
    simpa [IsOneArgument, argumentStep, depthStep, isPoint] using one

theorem isBalanced_joined (parts : List (List Token)) (tokens : List Token) (joined : JoinedByCommas parts tokens)
    (each : ∀ part ∈ parts, IsOneArgument part) : IsBalanced tokens := by
  induction parts generalizing tokens with
  | nil =>
    obtain rfl : tokens = [] := joined
    rfl
  | cons part others ih =>
    have first := (each part (by simp)).isBalanced
    cases others with
    | nil =>
      obtain rfl : tokens = part := joined
      exact first
    | cons other others =>
      obtain ⟨comma, later, isComma, rfl, joined⟩ := joined
      have rest := ih later joined fun p member => each p (by simp [member])
      apply first.append
      simpa [IsBalanced, depthStep, isComma] using rest

theorem isOneArgument_inBrackets (inner tokens : List Token) (brackets : InBrackets inner tokens)
    (balanced : IsBalanced inner) : IsOneArgument tokens := by
  obtain ⟨start, close, opens, closes, rfl⟩ := brackets
  exact balanced.isOneArgument_group start close opens closes

mutual

theorem isOneArgument_segment (before : Before) (beforeCall : Bool) :
    ∀ (s : Segment) (tokens : List Token), segmentFits before s = true →
      SegmentSpelled before beforeCall s tokens → tokens ≠ [] ∧ IsOneArgument tokens
  | .call names arguments, tokens, fit, spelled => by
    simp only [segmentFits, Bool.and_eq_true] at fit
    obtain ⟨called, group, rfl, names_spelled, group_spelled⟩ := spelled
    have named := isOneArgument_names before names called fit.1 names_spelled
    have filled : called ≠ [] := by
      rintro rfl
      cases names <;> simp_all [namesFit, NamesSpelled, Pointed]
    refine ⟨by simp [filled], named.append ?_⟩
    rcases group_spelled with ⟨-, -, rfl⟩ | ⟨inner, parts, brackets, joined, each⟩
    · rfl
    · -- the commas between the arguments stand inside the brackets
      exact isOneArgument_inBrackets inner group brackets
        (isBalanced_joined parts inner joined fun part member =>
          (isOneArgument_all arguments parts fit.2 each part member).2)
  | .value t, tokens, fit, spelled => by
    simp only [segmentFits, Bool.and_eq_true] at fit
    obtain rfl : tokens = [t] := spelled
    exact ⟨by simp, isOneArgument_token t (isStructural_of_isLiteral fit.2)⟩
  | .operator t, tokens, fit, spelled => by
    obtain rfl : tokens = [t] := spelled
    exact ⟨by simp, isOneArgument_token t (isStructural_of_isOperator fit)⟩
  | .bracketed inner, tokens, fit, spelled => by
    simp only [segmentFits, Bool.and_eq_true] at fit
    obtain ⟨body, brackets, spelled⟩ := spelled
    have one := isOneArgument_segments .gap inner body fit.2.2 spelled
    have filled : tokens ≠ [] := by
      obtain ⟨start, close, -, -, rfl⟩ := brackets
      simp
    exact ⟨filled, isOneArgument_inBrackets body tokens brackets one.isBalanced⟩
  | .new className, tokens, fit, spelled => by
    simp only [segmentFits, Bool.and_eq_true] at fit
    obtain ⟨word, isNew, rfl⟩ := spelled
    simp only [Token.isKeyword, Bool.and_eq_true, beq_iff_eq] at isNew
    have named := isStructural_of_canNameMember (canNameMember_of_isNameLike fit.2)
    exact ⟨by simp, (isOneArgument_token word (by simp [isNew.1, isStructural])).append
      (isOneArgument_token className named)⟩

theorem isOneArgument_segments (before : Before) :
    ∀ (e : List Segment) (tokens : List Token), segmentsFit before e = true →
      SegmentsSpelled before e tokens → IsOneArgument tokens
  | [], tokens, _, spelled => by
    obtain rfl : tokens = [] := spelled
    rfl
  | s :: rest, tokens, fit, spelled => by
    simp only [segmentsFit, Bool.and_eq_true] at fit
    obtain ⟨head, tail, rfl, first, later⟩ := spelled
    exact (isOneArgument_segment before (startsWithCall rest) s head fit.1 first).2.append
      (isOneArgument_segments (asBefore s) rest tail fit.2 later)

theorem isOneArgument_all :
    ∀ (es : List (List Segment)) (parts : List (List Token)), allWellFormed es = true →
      AllSpelled es parts → ∀ part ∈ parts, part ≠ [] ∧ IsOneArgument part
  | [], parts, _, spelled => by
    obtain rfl : parts = [] := spelled
    simp
  | [] :: rest, parts, fit, spelled => by simp [allWellFormed] at fit
  | (s :: later) :: rest, parts, fit, spelled => by
    simp only [allWellFormed, Bool.and_eq_true, segmentsFit] at fit
    obtain ⟨part, others, rfl, ⟨head, tail, rfl, first, more⟩, spelled⟩ := spelled
    obtain ⟨filled, one⟩ := isOneArgument_segment .gap (startsWithCall later) s head fit.1.2.1 first
    simp only [mem_cons, forall_eq_or_imp]
    exact ⟨⟨by simp [filled], one.append
      (isOneArgument_segments (asBefore s) later tail fit.1.2.2 more)⟩, isOneArgument_all rest others fit.2 spelled⟩

end

/-! ### Spellings differ from the printed tokens only in marks and empty brackets -/

/-- The kinds of the marks that join and group. -/
def isMark : Kind → Bool
  | .member | .openBracket | .closeBracket | .comma => true
  | _ => false

/-- The second tokens are the first ones written differently: marks and the word `New` in other texts and
on other lines, and pairs of empty brackets added behind names. -/
inductive Respelled : List Token → List Token → Prop where
  | nil : Respelled [] []
  | same {printed written : List Token} (t : Token) (rest : Respelled printed written) :
    Respelled (t :: printed) (t :: written)
  | mark {printed written : List Token} {p w : Token} (mark : isMark p.kind = true)
    (kind : w.kind = p.kind) (rest : Respelled printed written) :
    Respelled (p :: printed) (w :: written)
  | new {printed written : List Token} {p w : Token} (first : p.isKeyword "New" = true)
    (second : w.isKeyword "New" = true) (rest : Respelled printed written) :
    Respelled (p :: printed) (w :: written)
  | pair {printed written : List Token} {name start close : Token} (named : name.canNameMember = true)
    (opens : start.kind = .openBracket) (closes : close.kind = .closeBracket)
    (rest : Respelled printed written) :
    Respelled (name :: printed) (name :: start :: close :: written)

theorem Respelled.append (first : Respelled a b) (second : Respelled c d) : Respelled (a ++ c) (b ++ d) := by
  induction first with
  | nil => exact second
  | same t _ ih => exact .same t ih
  | mark mark kind _ ih => exact .mark mark kind ih
  | new first second _ ih => exact .new first second ih
  | pair named opens closes _ ih => exact .pair named opens closes ih

theorem Respelled.inBrackets (line : Nat) (brackets : InBrackets inner tokens) (body : Respelled printed inner) :
    Respelled (openMark line :: (printed ++ [closeMark line])) tokens := by
  obtain ⟨start, close, opens, closes, rfl⟩ := brackets
  exact .mark rfl opens (body.append (.mark rfl closes .nil))

/-- Names are printed with points between them; brackets that are not printed stand behind the last
name. -/
theorem respelled_intersperse (line : Nat) (name : Token) (names later extra : List Token)
    (pointed : Pointed names later) (named : ∀ n ∈ name :: names, n.canNameMember = true)
    (nothing : extra = [] ∨ InBrackets [] extra) :
    Respelled ((name :: names).intersperse (pointMark line)) (name :: later ++ extra) := by
  induction names generalizing name later with
  | nil =>
    obtain rfl : later = [] := pointed
    rcases nothing with rfl | ⟨start, close, opens, closes, rfl⟩
    · exact .same name .nil
    · exact .pair (named name (by simp)) opens closes .nil
  | cons next names ih =>
    obtain ⟨point, later, isPoint, rfl, pointed⟩ := pointed
    have rest := ih next later pointed fun n member => named n (mem_cons_of_mem _ member)
    exact .same name (.mark rfl isPoint rest)

theorem respelled_names (line : Nat) (before : Before) (names tokens extra : List Token)
    (fit : namesFit before names = true) (spelled : NamesSpelled before names tokens)
    (nothing : extra = [] ∨ InBrackets [] extra) :
    Respelled ((if before == .call then [pointMark line] else []) ++
      names.intersperse (pointMark line)) (tokens ++ extra) := by
  have named := canNameMember_of_namesFit before names fit
  cases names with
  | nil => simp [namesFit] at fit
  | cons name names =>
    have printed (later) (pointed : Pointed names later) :=
      respelled_intersperse line name names later extra pointed named nothing
    unfold NamesSpelled at spelled
    split at spelled
    next chained =>
      obtain ⟨point, later, isPoint, rfl, pointed⟩ := spelled
      simpa [chained] using Respelled.mark rfl isPoint (printed later pointed)
    next first =>
      obtain ⟨point, -, point', later, -, same, pointed⟩ := spelled
      obtain ⟨rfl, rfl⟩ := cons.inj same
      simpa [first] using printed later pointed

theorem respelled_printList (line : Nat) (es : List Expr) (parts : List (List Token))
    (tokens : List Token) (joined : JoinedByCommas parts tokens)
    (each : Forall₂ (fun e part => Respelled (print line e) part) es parts) : Respelled (printList line es) tokens := by
  induction each generalizing tokens with
  | nil =>
    obtain rfl : tokens = [] := joined
    exact .nil
  | @cons e part es parts first rest ih =>
    cases rest with
    | nil =>
      obtain rfl : tokens = part := joined
      exact first
    | cons second rest =>
      obtain ⟨comma, later, isComma, rfl, joined⟩ := joined
      exact first.append (.mark rfl isComma (ih later joined))

mutual

theorem respelled_segment (line : Nat) (before : Before) (beforeCall : Bool) :
    ∀ (s : Segment) (tokens : List Token), segmentFits before s = true → SegmentSpelled before beforeCall s tokens →
        Respelled ((if before == .call && s.isCall then [pointMark line] else []) ++
          printSegment line beforeCall s) tokens
  | .call names arguments, tokens, fit, spelled => by
    simp only [segmentFits, Bool.and_eq_true] at fit
    obtain ⟨called, group, rfl, calledSpelled, groupSpelled⟩ := spelled
    have bare (extra) := respelled_names line before names called extra fit.1 calledSpelled
    simp only [isCall, Bool.and_true, printSegment, ← append_assoc]
    rcases groupSpelled with ⟨rfl, rfl, rfl⟩ | ⟨inner, parts, brackets, joined, each⟩
    · simpa using bare [] (.inl rfl)
    · have body := respelled_printList line arguments parts inner joined
        (respelled_all line arguments parts fit.2 each)
      by_cases hidden : (arguments.isEmpty && !beforeCall) = true
      · -- brackets that are not printed have nothing in them
        rw [if_pos hidden, append_nil]
        simp only [Bool.and_eq_true, List.isEmpty_iff] at hidden
        obtain ⟨rfl, -⟩ := hidden
        obtain rfl : parts = [] := each
        obtain rfl : inner = [] := joined
        exact bare group (.inr brackets)
      · rw [if_neg hidden]
        have named := bare [] (.inl rfl)
        rw [append_nil] at named
        exact named.append (Respelled.inBrackets line brackets body)
  | .value t, tokens, _, spelled => by
    obtain rfl : tokens = [t] := spelled
    simpa [printSegment, isCall] using Respelled.same t .nil
  | .operator t, tokens, _, spelled => by
    obtain rfl : tokens = [t] := spelled
    simpa [printSegment, isCall] using Respelled.same t .nil
  | .bracketed inner, tokens, fit, spelled => by
    simp only [segmentFits, Bool.and_eq_true] at fit
    obtain ⟨body, brackets, spelled⟩ := spelled
    have inside : Respelled (print line inner) body :=
      respelled_segments line .gap inner body fit.2.2 spelled
    simpa [printSegment, isCall] using Respelled.inBrackets line brackets inside
  | .new className, tokens, _, spelled => by
    obtain ⟨word, isNew, rfl⟩ := spelled
    simpa [printSegment, isCall] using
      Respelled.new (isKeyword_newMark line) isNew (.same className .nil)

theorem respelled_segments (line : Nat) (before : Before) :
    ∀ (e : List Segment) (tokens : List Token), segmentsFit before e = true → SegmentsSpelled before e tokens →
        Respelled ((if before == .call && startsWithCall e then [pointMark line] else []) ++ print line e) tokens
  | [], tokens, _, spelled => by
    obtain rfl : tokens = [] := spelled
    simpa [print, startsWithCall] using Respelled.nil
  | s :: rest, tokens, fit, spelled => by
    simp only [segmentsFit, Bool.and_eq_true] at fit
    obtain ⟨head, tail, rfl, first, later⟩ := spelled
    have link : (asBefore s == .call) = s.isCall := by cases s <;> rfl
    have whole := (respelled_segment line before (startsWithCall rest) s head fit.1 first).append
      (respelled_segments line (asBefore s) rest tail fit.2 later)
    simpa [print, startsWithCall, link] using whole

theorem respelled_all (line : Nat) :
    ∀ (es : List (List Segment)) (parts : List (List Token)), allWellFormed es = true →
      AllSpelled es parts → Forall₂ (fun e part => Respelled (print line e) part) es parts
  | [], parts, _, spelled => by
    obtain rfl : parts = [] := spelled
    exact .nil
  | e :: rest, parts, fit, spelled => by
    simp only [allWellFormed, Bool.and_eq_true] at fit
    obtain ⟨part, others, rfl, first, later⟩ := spelled
    exact .cons (respelled_segments line .gap e part fit.1.2 first)
      (respelled_all line rest others fit.2 later)

end

theorem respelled_of_spelled (line : Nat) (e : Expr) (tokens : List Token) (wellFormed : isWellFormed e = true)
    (spelled : Spelled e tokens) : Respelled (print line e) tokens := by
  simp only [isWellFormed, Bool.and_eq_true] at wellFormed
  exact respelled_segments line .gap e tokens wellFormed.2 spelled

end Expr
end VbSharp
