import VbSharp.Proofs.Expr.Reading
import VbSharp.Proofs.Expr.Words
import Mathlib.Data.List.Chain

/-!
# Words keep their order

The words of an expression are the words of the tokens from which it was read, in the same order: marks
and the word `New` are all that reading drops. The tokens that are read also never hold a group in brackets
directly behind another one, since a call takes one group only.
-/
namespace VbSharp

open List

variable (t : Token) (before : Before)

variable {tokens : List Token} {es : List Expr}

/-- The names, literals and operators among some tokens. `New` is none of them, except behind a point, where
it names a member. -/
def plainWords (afterPoint : Bool) : List Token → List Token
  | [] => []
  | t :: rest =>
    if Expr.isMark t.kind then plainWords (t.kind == .member) rest
    else if !afterPoint && t.isKeyword "New" then plainWords false rest
    else t :: plainWords false rest

/-- Whether a point stands last. -/
def endsWithPoint (afterPoint : Bool) (tokens : List Token) : Bool :=
  tokens.foldl (fun _ t => t.kind == .member) afterPoint

/-- No group in brackets stands directly behind another one. -/
def GroupsApart (tokens : List Token) : Prop :=
  tokens.IsChain fun a b => ¬(a.kind = .closeBracket ∧ b.kind = .openBracket)

instance (tokens : List Token) : Decidable (GroupsApart tokens) :=
  inferInstanceAs (Decidable (tokens.IsChain _))

theorem plainWords_append (afterPoint : Bool) (a b : List Token) :
    plainWords afterPoint (a ++ b) = plainWords afterPoint a ++ plainWords (endsWithPoint afterPoint a) b := by
  induction a generalizing afterPoint with
  | nil => rfl
  | cons t a ih =>
    simp only [cons_append, plainWords, endsWithPoint, foldl_cons]
    split
    · exact ih _
    next noMark =>
      have noPoint : (t.kind == .member) = false := by
        cases kind : t.kind <;> simp_all [Expr.isMark]
      simp only [noPoint]
      split
      · exact ih _
      · rw [cons_append, ih]
        rfl

theorem mem_plainWords {afterPoint : Bool} : ∀ t ∈ tokens,
    Expr.isMark t.kind = true ∨ t.isKeyword "New" = true ∨ t ∈ plainWords afterPoint tokens := by
  induction tokens generalizing afterPoint with
  | nil => simp
  | cons t tokens ih =>
    rw [plainWords]
    split
    next mark => exact forall_mem_cons.mpr ⟨.inl mark, ih⟩
    · split
      next isNew => exact forall_mem_cons.mpr ⟨.inr (.inl ((Bool.and_eq_true ..).mp isNew).2), ih⟩
      · refine forall_mem_cons.mpr ⟨.inr (.inr mem_cons_self), fun u member => ?_⟩
        exact (ih u member).imp_right (·.imp_right (mem_cons_of_mem t))

namespace Expr

/-- The tokens hold the words and no others, stand in one statement, end with a whole name and keep groups apart. -/
structure Keeps (tokens words : List Token) : Prop where
  words : plainWords false tokens = words
  inside : ∀ t ∈ tokens, t.isTerminator = false
  complete : endsWithPoint false tokens = false
  apart : GroupsApart tokens

theorem keeps_nil : Keeps [] [] :=
  ⟨rfl, forall_mem_nil _, rfl, .nil⟩

theorem Keeps.append {a b u v : List Token} (first : Keeps a u) (second : Keeps b v)
    (apart : ∀ x ∈ a.getLast?, ∀ y ∈ b.head?, ¬(x.kind = .closeBracket ∧ y.kind = .openBracket)) :
    Keeps (a ++ b) (u ++ v) where
  words := by rw [plainWords_append, first.complete, first.words, second.words]
  inside := forall_mem_append.mpr ⟨first.inside, second.inside⟩
  complete := by
    have split : endsWithPoint false (a ++ b) = endsWithPoint (endsWithPoint false a) b :=
      foldl_append ..
    rw [split, first.complete, second.complete]
  apart := isChain_append.mpr ⟨first.apart, second.apart, apart⟩

theorem Keeps.cons {t : Token} {b u v : List Token} (first : Keeps [t] u) (second : Keeps b v)
    (noClose : t.kind ≠ .closeBracket) : Keeps (t :: b) (u ++ v) :=
  first.append second (by simp [noClose])

theorem keeps_mark (mark : isMark t.kind = true) (noPoint : t.kind ≠ .member) : Keeps [t] [] := by
  refine ⟨by simp [plainWords, mark], ?_, by simp [endsWithPoint, noPoint], .singleton t⟩
  cases kind : t.kind <;> simp_all [isMark, Token.isTerminator]

theorem keeps_word (plain : isMark t.kind = false) (notNew : t.isKeyword "New" = false)
    (goesOn : t.isTerminator = false) : Keeps [t] [t] := by
  refine ⟨by simp [plainWords, plain, notNew], by simpa using goesOn, ?_, .singleton t⟩
  cases kind : t.kind <;> simp_all [isMark, endsWithPoint]

theorem keeps_literal (literal : t.isLiteral = true) : Keeps [t] [t] := by
  apply keeps_word <;> cases kind : t.kind <;> simp_all [Token.isLiteral, isMark, Token.isKeyword, Token.isTerminator]

theorem keeps_operator (operator : t.isOperator = true) : Keeps [t] [t] := by
  apply keeps_word <;> cases kind : t.kind <;>
    simp_all [Token.isOperator, Kind.isOperator, isMark, Token.isKeyword, Token.isTerminator]

theorem keeps_name (named : t.isNameLike = true) : Keeps [t] [t] := by
  apply keeps_word <;> cases kind : t.kind <;>
    simp_all [Token.isNameLike, Kind.isNameLike, isMark, Token.isKeyword, Token.isTerminator]

theorem keeps_new (word className : Token) (isNew : word.isKeyword "New" = true)
    (named : className.isNameLike = true) : Keeps [word, className] [className] := by
  have keyword : word.kind = .keyword := by
    simp only [Token.isKeyword, Bool.and_eq_true, beq_iff_eq] at isNew
    exact isNew.1
  have dropped : Keeps [word] [] :=
    ⟨by simp [plainWords, isMark, keyword, isNew], by simp [Token.isTerminator, keyword],
      by simp [endsWithPoint, keyword], .singleton _⟩
  exact dropped.cons (keeps_name className named) (by simp [keyword])

theorem isMark_of_canNameMember {t : Token} (named : t.canNameMember = true) : isMark t.kind = false := by
  cases kind : t.kind <;> simp_all [Token.canNameMember, Token.isNameLike, Kind.isNameLike, isMark]

/-- Behind a point every word is a name, `New` included. -/
theorem keeps_member (point name : Token) (isPoint : point.kind = .member)
    (named : name.canNameMember = true) : Keeps [point, name] [name] := by
  have plain := isMark_of_canNameMember named
  have mark : isMark .member = true := rfl
  have structural := isStructural_of_canNameMember named
  refine ⟨by simp [plainWords, mark, isPoint, plain], ?_, ?_, ?_⟩
  · cases kind : name.kind <;> simp_all [isStructural, Token.isTerminator]
  · cases kind : name.kind <;> simp_all [isMark, endsWithPoint]
  · simp [GroupsApart, isPoint]

theorem kind_ne_closeBracket {t : Token} (named : t.canNameMember = true) : t.kind ≠ .closeBracket := by
  intro kind
  simpa [kind, isMark] using isMark_of_canNameMember named

/-- Names behind points, which end with a name if there are any. -/
theorem keeps_pointed (names tokens : List Token) (pointed : Pointed names tokens)
    (named : ∀ name ∈ names, name.canNameMember = true) :
    Keeps tokens names ∧ ∀ x ∈ tokens.getLast?, x.kind ≠ .closeBracket := by
  induction names generalizing tokens with
  | nil =>
    obtain rfl : tokens = [] := pointed
    exact ⟨keeps_nil, by simp⟩
  | cons name names ih =>
    obtain ⟨point, later, isPoint, rfl, pointed⟩ := pointed
    obtain ⟨first, others⟩ := forall_mem_cons.mp named
    obtain ⟨rest, last⟩ := ih later pointed others
    have noClose := kind_ne_closeBracket first
    refine ⟨(keeps_member point name isPoint first).append rest (by simp [noClose]), ?_⟩
    cases later with
    | nil => simpa using noClose
    | cons next later => simpa using last

theorem keeps_names (names tokens : List Token) (fit : namesFit before names = true)
    (spelled : NamesSpelled before names tokens) :
    Keeps tokens names ∧ ∀ x ∈ tokens.getLast?, x.kind ≠ .closeBracket := by
  have named := canNameMember_of_namesFit before names fit
  unfold NamesSpelled at spelled
  split at spelled
  · exact keeps_pointed names tokens spelled named
  next unlinked =>
    cases names with
    | nil => simp [namesFit] at fit
    | cons name names =>
      obtain ⟨point, -, point', later, -, same, pointed⟩ := spelled
      obtain ⟨rfl, rfl⟩ := cons.inj same
      obtain ⟨first, others⟩ := forall_mem_cons.mp named
      obtain ⟨rest, last⟩ := keeps_pointed names later pointed others
      have start : name.isNameLike = true := by
        cases before <;> simp_all [namesFit]
      have noClose := kind_ne_closeBracket first
      refine ⟨(keeps_name name start).cons rest noClose, ?_⟩
      cases later with
      | nil => simpa using noClose
      | cons next later => simpa using last

theorem Keeps.inBrackets {inner words : List Token} (body : Keeps inner words) (brackets : InBrackets inner tokens) :
    Keeps tokens words := by
  obtain ⟨start, close, opens, closes, rfl⟩ := brackets
  have opened := keeps_mark start (by simp [opens, isMark]) (by simp [opens])
  have closed := keeps_mark close (by simp [closes, isMark]) (by simp [closes])
  have ended := body.append closed (by simp [closes])
  simpa using opened.cons ended (by simp [opens])

theorem keeps_joined (parts : List (List Token)) (tokens : List Token) (es : List Expr)
    (joined : JoinedByCommas parts tokens) (each : Forall₂ (fun part e => Keeps part (words e)) parts es) :
    Keeps tokens (listWords es) := by
  induction each generalizing tokens with
  | nil =>
    obtain rfl : tokens = [] := joined
    exact keeps_nil
  | @cons part e parts es first rest ih =>
    cases rest with
    | nil =>
      obtain rfl : tokens = part := joined
      simpa [listWords] using first
    | cons second rest =>
      obtain ⟨comma, later, isComma, rfl, joined⟩ := joined
      have separator := keeps_mark comma (by simp [isComma, isMark]) (by simp [isComma])
      have behind := separator.cons (ih later joined) (by simp [isComma])
      exact first.append behind (by simp [isComma])

theorem head_of_segmentsSpelled (e : List Segment) (tokens : List Token) (fit : segmentsFit before e = true)
    (spelled : SegmentsSpelled before e tokens) (behind : before ≠ .gap) :
    ∀ y ∈ tokens.head?, y.kind ≠ .openBracket := by
  cases e with
  | nil =>
    obtain rfl : tokens = [] := spelled
    simp
  | cons s rest =>
    simp only [segmentsFit, Bool.and_eq_true] at fit
    obtain ⟨head, tail, rfl, first, -⟩ := spelled
    cases s with
    | value t | bracketed inner | new className => simp_all [segmentFits]
    | operator t =>
      obtain rfl : head = [t] := first
      have operator : t.isOperator = true := fit.1
      cases kind : t.kind <;> simp_all [Token.isOperator, Kind.isOperator]
    | call names arguments =>
      simp only [segmentFits, Bool.and_eq_true] at fit
      obtain ⟨called, group, rfl, spelled, -⟩ := first
      cases names with
      | nil => simp [namesFit] at fit
      | cons name names =>
        cases before with
        | gap => contradiction
        | operand => simp [namesFit] at fit
        | call =>
          obtain ⟨point, later, isPoint, rfl, -⟩ := spelled
          simp [isPoint]

mutual

theorem keeps_segment (before : Before) (beforeCall : Bool) :
    ∀ (s : Segment) (tokens : List Token), segmentFits before s = true →
      SegmentSpelled before beforeCall s tokens → Keeps tokens (segmentWords s)
  | .call names arguments, tokens, fit, spelled => by
    simp only [segmentFits, Bool.and_eq_true] at fit
    obtain ⟨called, group, rfl, named, grouped⟩ := spelled
    obtain ⟨first, last⟩ := keeps_names before names called fit.1 named
    refine first.append ?_ fun x member y _ closed => last x member closed.1
    rcases grouped with ⟨rfl, -, rfl⟩ | ⟨inner, parts, brackets, joined, each⟩
    · exact keeps_nil
    · exact (keeps_joined parts inner arguments joined
        (keeps_all arguments parts fit.2 each)).inBrackets brackets
  | .value t, tokens, fit, spelled => by
    simp only [segmentFits, Bool.and_eq_true] at fit
    obtain rfl : tokens = [t] := spelled
    exact keeps_literal t fit.2
  | .operator t, tokens, fit, spelled => by
    obtain rfl : tokens = [t] := spelled
    exact keeps_operator t fit
  | .bracketed inner, tokens, fit, spelled => by
    simp only [segmentFits, Bool.and_eq_true] at fit
    obtain ⟨body, brackets, spelled⟩ := spelled
    exact (keeps_segments .gap inner body fit.2.2 spelled).inBrackets brackets
  | .new className, tokens, fit, spelled => by
    simp only [segmentFits, Bool.and_eq_true] at fit
    obtain ⟨word, isNew, rfl⟩ := spelled
    exact keeps_new word className isNew fit.2

theorem keeps_segments (before : Before) :
    ∀ (e : List Segment) (tokens : List Token), segmentsFit before e = true →
      SegmentsSpelled before e tokens → Keeps tokens (words e)
  | [], tokens, _, spelled => by
    obtain rfl : tokens = [] := spelled
    exact keeps_nil
  | s :: rest, tokens, fit, spelled => by
    simp only [segmentsFit, Bool.and_eq_true] at fit
    obtain ⟨head, tail, rfl, first, later⟩ := spelled
    have start := keeps_segment before (startsWithCall rest) s head fit.1 first
    have behind := keeps_segments (asBefore s) rest tail fit.2 later
    refine start.append behind fun x last y next => ?_
    -- only an operator can stand before a bracket that starts a segment
    cases s with
    | operator t =>
      obtain rfl : head = [t] := first
      have operator : t.isOperator = true := fit.1
      cases kind : t.kind <;> simp_all [Token.isOperator, Kind.isOperator]
    | call | value | bracketed | new =>
      have noOpen := head_of_segmentsSpelled _ rest tail fit.2 later (by simp [asBefore]) y next
      exact fun chained => noOpen chained.2

theorem keeps_all :
    ∀ (es : List (List Segment)) (parts : List (List Token)), allWellFormed es = true →
      AllSpelled es parts → Forall₂ (fun part e => Keeps part (words e)) parts es
  | [], parts, _, spelled => by
    obtain rfl : parts = [] := spelled
    exact .nil
  | e :: rest, parts, fit, spelled => by
    simp only [allWellFormed, Bool.and_eq_true] at fit
    obtain ⟨part, others, rfl, first, later⟩ := spelled
    exact .cons (keeps_segments .gap e part fit.1.2 first) (keeps_all rest others fit.2 later)

end

theorem keeps_of_read {line : Nat} {e : Expr} (ok : read tokens line = .ok e) : Keeps tokens (words e) := by
  obtain ⟨wellFormed, spelled⟩ := (read_ok_iff_spelled tokens line e).mp ok
  simp only [isWellFormed, Bool.and_eq_true] at wellFormed
  exact keeps_segments .gap e tokens wellFormed.2 spelled

/-- What is read as a list is a spelling of its expressions, joined by commas. -/
theorem listAccepted_of_readList (ok : readList tokens = .ok es) : ListAccepted tokens es := by
  refine listAccepted_of_parts tokens es ok fun part e _ read => ?_
  obtain ⟨more, rfl, fit, spelled⟩ := continues_of_readFrom_ok .operand [] part e read
  exact ⟨fit, spelled⟩

theorem keeps_of_readList (ok : readList tokens = .ok es) : Keeps tokens (listWords es) := by
  obtain ⟨parts, joined, spelled, wellFormed⟩ := listAccepted_of_readList ok
  exact keeps_joined parts tokens es joined (keeps_all es parts wellFormed spelled)

end Expr
end VbSharp
