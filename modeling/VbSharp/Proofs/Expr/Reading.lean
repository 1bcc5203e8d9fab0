import VbSharp.Expr.Read
import VbSharp.Proofs.Expr.Spelling

/-!
# What the expression reader accepts

Reading is a run of steps. `Step` says what one step can do, and the reader takes a step exactly when
there is one. From this follows that the reader accepts the tokens that write a well formed expression
and no others, and that it returns that expression.

The tokens inside brackets are read by a run of their own, so both directions go by induction: what is
accepted is shown to be a spelling by the number of tokens, and a spelling is shown to be accepted along
the structure of the expression that it writes.
-/
namespace VbSharp

/-- Whether the fault is about a bracket or a comma that is out of place. -/
def Fault.isStray : Fault → Bool
  | .unbalancedBrackets _ | .orphanedComma _ => true
  | _ => false

namespace Expr

open List

variable {start className new : Token} {inner group after rest : List Token} {before : Before}

variable (parts : List (List Token))

variable {later : List Token}

/-- Whether a call or an operand is complete at the place, so that an operator can follow. -/
def Place.isSettled : Place → Bool
  | .point _ _ | .pointAfterArguments _ => false
  | _ => true

/-- One step of the reader: its place, the complete segments and the tokens before and after. -/
inductive Step : Place → List Segment → List Token → Place → List Segment → List Token → Prop where
  | literal {done t rest} (literal : t.isLiteral = true) :
    Step .operand done (t :: rest) .value (.value t :: done) rest
  | name {done t rest} (named : t.isNameLike = true) :
    Step .operand done (t :: rest) (.name [t]) done rest
  | new {done word className rest} (isNew : word.isKeyword "New" = true)
    (named : className.isNameLike = true) :
    Step .operand done (word :: className :: rest) .value (.new className :: done) rest
  | group {done start rest inner after e} (opens : start.kind = .openBracket)
    (found : closeGroup 0 rest = some (inner, after)) (read : readList inner = .ok [e]) :
    Step .operand done (start :: rest) .value (.bracketed e :: done) after
  | operator {place done t rest} (settled : place.isSettled = true) (operator : t.isOperator = true) :
    Step place done (t :: rest) .operand (.operator t :: settle place done) rest
  | point {names done t rest} (isPoint : t.kind = .member) :
    Step (.name names) done (t :: rest) (.point names t.line) done rest
  | pointAfterArguments {done t rest} (isPoint : t.kind = .member) :
    Step .arguments done (t :: rest) (.pointAfterArguments t.line) done rest
  | member {names line done t rest} (named : t.canNameMember = true) :
    Step (.point names line) done (t :: rest) (.name (names ++ [t])) done rest
  | memberAfterArguments {line done t rest} (named : t.canNameMember = true) :
    Step (.pointAfterArguments line) done (t :: rest) (.name [t]) done rest
  | arguments {names done start rest inner after arguments} (opens : start.kind = .openBracket)
    (found : closeGroup 0 rest = some (inner, after)) (read : readList inner = .ok arguments) :
    Step (.name names) done (start :: rest) .arguments (.call names arguments :: done) after

theorem only_ok_iff (line : Nat) (es : List Expr) (e : Expr) : only line es = .ok e ↔ es = [e] := by
  match es with
  | [] => simp [only]
  | [_] => simp [only]
  | _ :: _ :: _ => simp [only]

variable {place next : Place} {done more : List Segment} {tokens : List Token} {t : Token} {e : Expr}

theorem readFrom_of_step {rest : List Token} (step : Step place done tokens next more rest) :
    readFrom place done tokens = readFrom next more rest := by
  rw [readFrom.eq_def]
  cases step with
  | literal literal =>
    rename_i t
    cases kind : t.kind <;> simp_all [Token.isLiteral, addOperand, bind, Except.bind]
  | name named =>
    rename_i t
    cases kind : t.kind <;> simp_all [Token.isNameLike, Kind.isNameLike]
  | new isNew named =>
    simp only [Token.isKeyword, Bool.and_eq_true, beq_iff_eq] at isNew
    simp [isNew, named, addOperand, bind, Except.bind]
  | group opens found read =>
    simp only [opens]
    split
    · simp_all
    · simp_all [addOperand, only, bind, Except.bind]
  | operator settled operator =>
    rename_i t
    cases place <;> cases kind : t.kind <;>
      simp_all [Token.isOperator, Kind.isOperator, Place.isSettled]
  | point isPoint => simp [isPoint]
  | pointAfterArguments isPoint => simp [isPoint]
  | member named => simp [named]
  | memberAfterArguments named => simp [named]
  | arguments opens found read =>
    simp only [opens]
    split
    · simp_all
    · simp_all [bind, Except.bind]

/-- The reader refuses the first token, for a mark out of place only if it stands before one or the contents of the
brackets here are refused for one. -/
def Refuses (place : Place) (done : List Segment) (t : Token) (rest : List Token) : Prop :=
  ∃ fault, readFrom place done (t :: rest) = .error fault ∧ (fault.isStray = true →
    t.kind = .closeBracket ∨ t.kind = .comma ∨ t.kind = .openBracket ∧
      ∀ inner after, closeGroup 0 rest = some (inner, after) → readList inner = .error fault)

theorem step_or_refuses (place : Place) (done : List Segment) (t : Token) (rest : List Token) :
    (∃ next more later, Step place done (t :: rest) next more later) ∨ Refuses place done t rest := by
  unfold Refuses
  rw [readFrom.eq_def]
  have operator (settled : place.isSettled = true) (kind : t.kind.isOperator = true) :
      ∃ next more later, Step place done (t :: rest) next more later :=
    ⟨_, _, _, .operator settled kind⟩
  cases place
  case point =>
    by_cases named : t.canNameMember = true
    · exact .inl ⟨_, _, _, .member named⟩
    · exact .inr ⟨_, if_neg named, by rintro ⟨⟩⟩
  case pointAfterArguments =>
    by_cases named : t.canNameMember = true
    · exact .inl ⟨_, _, _, .memberAfterArguments named⟩
    · exact .inr ⟨_, if_neg named, by rintro ⟨⟩⟩
  -- at the other places the kind of the token decides
  all_goals
    cases kind : t.kind <;> simp only [kind, addOperand, bind, Except.bind]
    case closeBracket | comma => exact .inr ⟨_, rfl, by simp⟩
    case arithmetic | comparison | logical => exact .inl (operator rfl (by simp [kind, Kind.isOperator]))
  case operand.string | operand.number | operand.date | operand.constant =>
    exact .inl ⟨_, _, _, .literal (by simp [Token.isLiteral, kind])⟩
  case operand.name | operand.softKeyword =>
    exact .inl ⟨_, _, _, .name (by simp [Token.isNameLike, Kind.isNameLike, kind])⟩
  case name.member => exact .inl ⟨_, _, _, .point kind⟩
  case arguments.member => exact .inl ⟨_, _, _, .pointAfterArguments kind⟩
  case operand.keyword =>
    by_cases isNew : t.isWord "New" = true
    · cases rest with
      | nil => exact .inr ⟨_, if_pos isNew, by rintro ⟨⟩⟩
      | cons className after =>
        by_cases named : className.isNameLike = true
        · exact .inl ⟨_, _, _, .new (by simp [Token.isKeyword, kind, isNew]) named⟩
        · exact .inr ⟨_, (if_pos isNew).trans (if_neg named), by rintro ⟨⟩⟩
    · exact .inr ⟨_, if_neg isNew, by rintro ⟨⟩⟩
  case name.keyword | arguments.keyword | value.keyword =>
    (repeat' split) <;> exact .inr ⟨_, rfl, by rintro ⟨⟩⟩
  case arguments.openBracket => split <;> exact .inr ⟨_, rfl, by simp_all [Fault.isStray]⟩
  case name.openBracket =>
    split
    · exact .inr ⟨_, rfl, by simp_all⟩
    next inner after found =>
      cases inside : readList inner with
      | error fault => exact .inr ⟨_, rfl, by simp_all⟩
      | ok arguments => exact .inl ⟨_, _, _, .arguments kind found inside⟩
  case operand.openBracket | value.openBracket =>
    split
    · exact .inr ⟨_, rfl, by simp_all⟩
    next inner after found =>
      rcases inside : readList inner with fault | (_ | ⟨e, _ | ⟨_, _⟩⟩)
      case error => exact .inr ⟨_, rfl, by simp_all⟩
      all_goals
        first
        | exact .inl ⟨_, _, _, .group kind found inside⟩
        | exact .inr ⟨_, rfl, by rintro ⟨⟩⟩
  all_goals exact .inr ⟨_, rfl, by rintro ⟨⟩⟩

/-- While there are tokens, the reader succeeds only by taking a step. -/
theorem step_of_readFrom_ok (place : Place) (done : List Segment) (t : Token) (rest : List Token)
    (e : Expr) (read : readFrom place done (t :: rest) = .ok e) :
    ∃ next more later, Step place done (t :: rest) next more later ∧ readFrom next more later = .ok e := by
  rcases step_or_refuses place done t rest with ⟨next, more, later, step⟩ | ⟨fault, refused, -⟩
  · exact ⟨next, more, later, step, (readFrom_of_step step).symm.trans read⟩
  · cases refused.symm.trans read

/-! ### Lists of expressions -/

theorem readParts_ok_iff (es : List Expr) :
    readParts parts = .ok es ↔ Forall₂ (fun part e => readFrom .operand [] part = .ok e) parts es := by
  induction parts generalizing es with
  | nil =>
    rw [readParts]
    cases es <;> simp
  | cons part parts ih =>
    rw [readParts]
    cases first : readFrom .operand [] part with
    | error fault => cases es <;> simp [bind, Except.bind, first]
    | ok e =>
      cases rest : readParts parts with
      | error fault => cases es <;> simp [bind, Except.bind, ← ih, rest, first]
      | ok others => cases es <;> simp [bind, Except.bind, pure, Except.pure, ← ih, rest, first]

theorem readList_eq (tokens : List Token) : readList tokens = (splitArguments tokens).bind readParts := by
  rw [readList]
  split <;> simp_all [Except.bind]

theorem readList_ok_iff (tokens : List Token) (es : List Expr) :
    readList tokens = .ok es ↔ ∃ parts, splitArguments tokens = .ok parts ∧
      Forall₂ (fun part e => readFrom .operand [] part = .ok e) parts es := by
  rw [readList]
  split
  next fault failed => simp [failed]
  next parts cut => simp [cut, readParts_ok_iff]

/-- A single expression takes all of the tokens, which have no comma outside brackets. -/
theorem read_ok_iff (tokens : List Token) (line : Nat) (e : Expr) :
    read tokens line = .ok e ↔ tokens ≠ [] ∧ IsOneArgument tokens ∧ readFrom .operand [] tokens = .ok e := by
  have single : read tokens line = .ok e ↔ readList tokens = .ok [e] := by
    unfold read
    cases result : readList tokens with
    | error fault => simp [bind, Except.bind]
    | ok es => simp [bind, Except.bind, only_ok_iff]
  rw [single, readList_ok_iff]
  constructor
  · rintro ⟨parts, cut, each⟩
    obtain ⟨part, others, first, rest, rfl⟩ := forall₂_cons_right_iff.mp each
    obtain rfl := forall₂_nil_right_iff.mp rest
    obtain ⟨joined, args⟩ := (splitArguments_ok_iff _ _).mp cut
    obtain rfl : tokens = part := joined
    exact ⟨(args tokens (by simp)).1, (args tokens (by simp)).2, first⟩
  · rintro ⟨filled, one, read⟩
    refine ⟨[tokens], (splitArguments_ok_iff _ _).mpr ⟨rfl, ?_⟩, by simpa using read⟩
    simpa using ⟨filled, one⟩

/-! ### What is accepted is a spelling -/

/-- A call of which some names have been read: the tokens write the rest of it and what follows. -/
def CallContinues (names : List Token) (more : List Segment) (tokens : List Token) : Prop :=
  ∃ members arguments rest called group tail,
    more = .call (names ++ members) arguments :: rest ∧ tokens = called ++ (group ++ tail) ∧
    Pointed members called ∧ members.all Token.canNameMember = true ∧
    allWellFormed arguments = true ∧ GroupSpelled (startsWithCall rest) arguments group ∧
    segmentsFit .call rest = true ∧ SegmentsSpelled .call rest tail

/-- From a place the tokens write the segments that are not complete yet. -/
def Continues : Place → List Segment → List Token → Prop
  | .operand, more, tokens => segmentsFit .gap more = true ∧ SegmentsSpelled .gap more tokens
  | .name names, more, tokens => CallContinues names more tokens
  | .point names _, more, tokens => ∃ t rest, tokens = t :: rest ∧ t.canNameMember = true ∧
      CallContinues (names ++ [t]) more rest
  | .arguments, more, tokens => segmentsFit .call more = true ∧ SegmentsSpelled .call more tokens
  | .pointAfterArguments _, more, tokens => ∃ t rest, tokens = t :: rest ∧
      t.canNameMember = true ∧ CallContinues [t] more rest
  | .value, more, tokens => segmentsFit .operand more = true ∧ SegmentsSpelled .operand more tokens

/-- Some expressions that are read from tokens are well formed, and the tokens write them. -/
def ListAccepted (tokens : List Token) (es : List Expr) : Prop :=
  ∃ parts, JoinedByCommas parts tokens ∧ AllSpelled es parts ∧ allWellFormed es = true

theorem callContinues_bare (names tokens : List Token) (rest : List Segment) (ends : startsWithCall rest = false)
    (fit : segmentsFit .call rest = true) (spelled : SegmentsSpelled .call rest tokens) :
    CallContinues names (.call names [] :: rest) tokens :=
  ⟨[], [], rest, [], [], tokens, by simp, by simp, rfl, rfl, rfl, .inl ⟨rfl, ends, rfl⟩, fit, spelled⟩

theorem continues_operator (before : Before) (t : Token) (rest : List Segment) (tokens : List Token)
    (operator : t.isOperator = true) (continues : Continues .operand rest tokens) :
    segmentsFit before (.operator t :: rest) = true ∧ SegmentsSpelled before (.operator t :: rest) (t :: tokens) := by
  obtain ⟨fit, spelled⟩ := continues
  exact ⟨by simp [segmentsFit, segmentFits, operator, asBefore, fit], [t], tokens, rfl, rfl, spelled⟩

theorem inBrackets_of_closeGroup (opens : start.kind = .openBracket) (found : closeGroup 0 rest = some (inner, after)) :
    ∃ group, InBrackets inner group ∧ start :: rest = group ++ after := by
  obtain ⟨-, close, closes, rfl⟩ := (closeGroup_eq_some_iff _ _ _ _).mp found
  exact ⟨start :: (inner ++ [close]), ⟨start, close, opens, closes, rfl⟩, by simp⟩

/-- A step keeps what the tokens write: if the tokens after it write the rest of the expression, those
before it write the rest from there. -/
theorem continues_of_step (step : Step place done tokens next more later)
    (inside : ∀ inner es, inner.length < tokens.length → readList inner = .ok es → ListAccepted inner es)
    (segments : List Segment) (continues : Continues next segments later) :
    ∃ before, more.reverse ++ segments = done.reverse ++ before ∧ Continues place before tokens := by
  cases step with
  | @literal _ t _ literal =>
    obtain ⟨fit, spelled⟩ := continues
    refine ⟨.value t :: segments, by simp, ?_, [t], later, rfl, rfl, spelled⟩
    simp [segmentsFit, segmentFits, literal, asBefore, fit]
  | @name _ t _ named =>
    obtain ⟨members, arguments, rest, called, group, tail, rfl, rfl, pointed, words, args, spelledGroup,
      fit, spelled⟩ := continues
    refine ⟨_, rfl, ?_, t :: called ++ group, tail, by simp, ⟨t :: called, group, rfl, ?_, spelledGroup⟩, spelled⟩
    · simp [segmentsFit, segmentFits, namesFit, named, words, args, asBefore, fit]
    · exact ⟨pointMark 0, rfl, pointMark 0, called, rfl, rfl, pointed⟩
  | @new _ word className _ isNew named =>
    obtain ⟨fit, spelled⟩ := continues
    refine ⟨.new className :: segments, by simp, ?_, [word, className], later, rfl, ⟨word, isNew, rfl⟩, spelled⟩
    simp [segmentsFit, segmentFits, named, asBefore, fit]
  | @group _ start rest inner _ e opens found read =>
    obtain ⟨fit, spelled⟩ := continues
    have shorter := closeGroup_length found
    obtain ⟨parts, joined, each, wellFormed⟩ := inside inner [e] (by simp; omega) read
    obtain ⟨part, others, rfl, body, none⟩ := each
    obtain rfl : others = [] := none
    obtain rfl : inner = part := joined
    obtain ⟨brackets, bracketed, same⟩ := inBrackets_of_closeGroup opens found
    simp only [allWellFormed, Bool.and_true] at wellFormed
    refine ⟨.bracketed e :: segments, by simp, ?_, brackets, later, same, ⟨inner, bracketed, body⟩, spelled⟩
    simp [segmentsFit, segmentFits, wellFormed, asBefore, fit]
  | @operator _ _ t _ settled operator =>
    -- a call in progress becomes complete before the operator is added
    cases place with
    | operand => exact ⟨_, by simp [settle], continues_operator .gap t segments later operator continues⟩
    | name names =>
      obtain ⟨fit, spelled⟩ := continues_operator .call t segments later operator continues
      exact ⟨.call names [] :: .operator t :: segments, by simp [settle], callContinues_bare names _ _ rfl fit spelled⟩
    | arguments =>
      exact ⟨_, by simp [settle], continues_operator .call t segments later operator continues⟩
    | value =>
      exact ⟨_, by simp [settle], continues_operator .operand t segments later operator continues⟩
    | point => simp [Place.isSettled] at settled
    | pointAfterArguments => simp [Place.isSettled] at settled
  | @point names _ t _ isPoint =>
    obtain ⟨name, rest, rfl, named, members, arguments, others, called, group, tail, rfl, rfl, pointed,
      words, args, spelledGroup, fit, spelled⟩ := continues
    refine ⟨_, rfl, name :: members, arguments, others, t :: name :: called, group, tail, by simp,
      by simp, ⟨t, called, isPoint, rfl, pointed⟩, by simp [named, words], args, spelledGroup, fit, spelled⟩
  | @pointAfterArguments _ t _ isPoint =>
    obtain ⟨name, rest, rfl, named, members, arguments, others, called, group, tail, rfl, rfl, pointed,
      words, args, spelledGroup, fit, spelled⟩ := continues
    refine ⟨_, rfl, ?_, t :: name :: called ++ group, tail, by simp,
      ⟨t :: name :: called, group, rfl, ⟨t, called, isPoint, rfl, pointed⟩, spelledGroup⟩, spelled⟩
    simp [segmentsFit, segmentFits, namesFit, named, words, args, asBefore, fit]
  | @member names line _ t _ named => exact ⟨segments, rfl, t, later, rfl, named, continues⟩
  | @memberAfterArguments line _ t _ named => exact ⟨segments, rfl, t, later, rfl, named, continues⟩
  | @arguments names _ start rest inner _ arguments opens found read =>
    obtain ⟨fit, spelled⟩ := continues
    have shorter := closeGroup_length found
    obtain ⟨parts, joined, each, wellFormed⟩ := inside inner arguments (by simp; omega) read
    obtain ⟨brackets, bracketed, same⟩ := inBrackets_of_closeGroup opens found
    exact ⟨.call names arguments :: segments, by simp, [], arguments, segments, [], brackets, later,
      by simp, by simpa using same, rfl, rfl, wellFormed, .inr ⟨inner, parts, bracketed, joined, each⟩, fit, spelled⟩

/-- A step takes tokens from the front, which can stand in an argument. -/
theorem Step.exists_front (step : Step place done tokens next more later) :
    ∃ front, front ≠ [] ∧ IsOneArgument front ∧ tokens = front ++ later := by
  have single {t : Token} {rest : List Token} (plain : isStructural t.kind = false) :
      ∃ front, front ≠ [] ∧ IsOneArgument front ∧ t :: rest = front ++ rest :=
    ⟨[t], cons_ne_nil _ _, isOneArgument_token t plain, rfl⟩
  cases step with
  | literal literal => exact single (isStructural_of_isLiteral literal)
  | name named => exact single (isStructural_of_canNameMember (canNameMember_of_isNameLike named))
  | new isNew named =>
    simp only [Token.isKeyword, Bool.and_eq_true, beq_iff_eq] at isNew
    exact ⟨[_, _], by simp, (isOneArgument_token _ (by simp [isNew.1, isStructural])).append
      (isOneArgument_token _ (isStructural_of_canNameMember (canNameMember_of_isNameLike named))), rfl⟩
  | operator _ operator => exact single (isStructural_of_isOperator operator)
  | point isPoint | pointAfterArguments isPoint => exact single (by simp [isPoint, isStructural])
  | member named | memberAfterArguments named => exact single (isStructural_of_canNameMember named)
  | group opens found _ | arguments opens found _ =>
    obtain ⟨brackets, bracketed, same⟩ := inBrackets_of_closeGroup opens found
    have balanced := ((closeGroup_eq_some_iff _ _ _ _).mp found).1
    refine ⟨brackets, ?_, isOneArgument_inBrackets _ _ bracketed balanced, same⟩
    obtain ⟨_, _, -, -, rfl⟩ := bracketed
    exact cons_ne_nil _ _

theorem Step.length_lt (step : Step place done tokens next more later) : later.length < tokens.length := by
  obtain ⟨front, filled, -, rfl⟩ := step.exists_front
  simpa [length_pos_iff] using filled

/-- At the end of the tokens only a call in progress is still to be completed. -/
theorem continues_nil (place : Place) (done : List Segment) (e : Expr) (read : readFrom place done [] = .ok e) :
    ∃ more, e = done.reverse ++ more ∧ Continues place more [] := by
  rw [readFrom.eq_def] at read
  cases place with
  | operand =>
    cases read
    exact ⟨[], by simp [settle], rfl, rfl⟩
  | name names =>
    cases read
    exact ⟨[.call names []], by simp [settle], callContinues_bare names [] [] rfl rfl rfl⟩
  | arguments =>
    cases read
    exact ⟨[], by simp [settle], rfl, rfl⟩
  | value =>
    cases read
    exact ⟨[], by simp [settle], rfl, rfl⟩
  | point names line => cases read
  | pointAfterArguments line => cases read

theorem infix_of_joined (tokens : List Token) (joined : JoinedByCommas parts tokens) :
    ∀ part ∈ parts, part <:+: tokens := by
  induction parts generalizing tokens with
  | nil => simp
  | cons part others ih =>
    cases others with
    | nil =>
      obtain rfl : tokens = part := joined
      simp
    | cons other others =>
      obtain ⟨comma, later, -, rfl, joined⟩ := joined
      have behind : later <:+: part ++ comma :: later := (suffix_cons comma later).isInfix.trans (suffix_append _ _).isInfix
      exact forall_mem_cons.mpr ⟨(prefix_append _ _).isInfix, fun p member => (ih later joined p member).trans behind⟩

/-- Lists are accepted if their parts are. -/
theorem listAccepted_of_parts (tokens : List Token) (es : List Expr) (read : readList tokens = .ok es)
    (accepted : ∀ part e, part.length ≤ tokens.length → readFrom .operand [] part = .ok e →
      segmentsFit .gap e = true ∧ Spelled e part) : ListAccepted tokens es := by
  obtain ⟨parts, cut, each⟩ := (readList_ok_iff _ _).mp read
  obtain ⟨joined, args⟩ := (splitArguments_ok_iff _ _).mp cut
  have short part member := (infix_of_joined parts tokens joined part member).length_le
  refine ⟨parts, joined, ?_⟩
  clear read cut joined
  induction each with
  | nil => exact ⟨rfl, rfl⟩
  | @cons part e parts es first _ ih =>
    obtain ⟨spelledRest, wellFormedRest⟩ :=
      ih (fun p member => args p (by simp [member])) (fun p member => short p (by simp [member]))
    obtain ⟨fit, spelled⟩ := accepted part e (short part (by simp)) first
    have filled : e ≠ [] := by
      rintro rfl
      exact (args part (by simp)).1 spelled
    refine ⟨⟨part, parts, rfl, spelled, spelledRest⟩, ?_⟩
    simp [allWellFormed, filled, fit, wellFormedRest]

/-- Every run of the reader has read a spelling of the segments that it adds. -/
theorem continues_of_readFrom_ok (place : Place) (done : List Segment) (tokens : List Token)
    (e : Expr) (read : readFrom place done tokens = .ok e) :
    ∃ more, e = done.reverse ++ more ∧ Continues place more tokens := by
  -- brackets start a run of their own, on fewer tokens
  induction bound : tokens.length using Nat.strongRecOn generalizing place done tokens e with
  | ind count ih =>
    cases tokens with
    | nil => exact continues_nil place done e read
    | cons t rest =>
      obtain ⟨next, more, later, step, read⟩ := step_of_readFrom_ok place done t rest e read
      have shorter := step.length_lt
      obtain ⟨segments, rfl, continues⟩ := ih _ (by omega) next more later e read rfl
      apply continues_of_step step _ segments continues
      intro inner es fewer inside
      apply listAccepted_of_parts inner es inside
      intro part e' short first
      obtain ⟨whole, rfl, fit, spelled⟩ := ih _ (by omega) .operand [] part e' first rfl
      exact ⟨fit, spelled⟩

/-! ### A spelling is accepted -/

/-- The reader has passed what stands before a segment. The flag tells that a call comes next: then the
call before it has got its brackets. -/
inductive Stands : Place → Before → Bool → Prop where
  | gap (call : Bool) : Stands .operand .gap call
  | operand (call : Bool) : Stands .value .operand call
  | arguments (call : Bool) : Stands .arguments .call call
  | name (names : List Token) : Stands (.name names) .call false

theorem readFrom_nil (stands : Stands place before false) (done : List Segment) :
    readFrom place done [] = .ok (settle place done).reverse := by
  rw [readFrom.eq_def]
  cases stands <;> rfl

theorem readFrom_pointed (done : List Segment) (names members called tail : List Token)
    (pointed : Pointed members called) (named : ∀ member ∈ members, member.canNameMember = true) :
    readFrom (.name names) done (called ++ tail) = readFrom (.name (names ++ members)) done tail := by
  induction members generalizing names called with
  | nil =>
    obtain rfl : called = [] := pointed
    simp
  | cons member members ih =>
    obtain ⟨point, later, isPoint, rfl, pointed⟩ := pointed
    have rest := ih (names ++ [member]) later pointed fun m inside => named m (by simp [inside])
    rw [cons_append, readFrom_of_step (.point isPoint), cons_append,
      readFrom_of_step (.member (named member (by simp))), rest]
    simp

/-- The names of a call bring the reader behind the last of them. -/
theorem readFrom_names (stands : Stands place before true) (done : List Segment) (names called tail : List Token)
    (fit : namesFit before names = true) (spelled : NamesSpelled before names called) :
    readFrom place done (called ++ tail) = readFrom (.name names) done tail ∧ settle place done = done := by
  have named := canNameMember_of_namesFit before names fit
  cases names with
  | nil => simp [namesFit] at fit
  | cons first members =>
    have words : ∀ member ∈ members, member.canNameMember = true := fun m inside =>
      named m (by simp [inside])
    cases stands with
    | gap =>
      obtain ⟨point, -, point', later, -, same, pointed⟩ := spelled
      obtain ⟨rfl, rfl⟩ := cons.inj same
      simp only [namesFit, Bool.and_eq_true] at fit
      rw [cons_append, readFrom_of_step (.name fit.1), readFrom_pointed done [first] members later tail pointed words]
      exact ⟨rfl, rfl⟩
    | operand => simp [namesFit] at fit
    | arguments =>
      obtain ⟨point, later, isPoint, rfl, pointed⟩ := spelled
      rw [cons_append, readFrom_of_step (.pointAfterArguments isPoint), cons_append,
        readFrom_of_step (.memberAfterArguments (named first (by simp))),
        readFrom_pointed done [first] members later tail pointed words]
      exact ⟨rfl, rfl⟩

theorem closeGroup_inBrackets (brackets : InBrackets inner group) (balanced : IsBalanced inner) (tail : List Token) :
    ∃ start rest, start.kind = .openBracket ∧
      group ++ tail = start :: rest ∧ closeGroup 0 rest = some (inner, tail) := by
  obtain ⟨start, close, opens, closes, rfl⟩ := brackets
  refine ⟨start, inner ++ close :: tail, opens, by simp, ?_⟩
  exact closeGroup_append inner tail close 0 balanced closes

/-- A list is read if its parts are. -/
theorem readList_of_parts (tokens : List Token) (es : List Expr) (joined : JoinedByCommas parts tokens)
    (wellFormed : allWellFormed es = true) (spelled : AllSpelled es parts)
    (each : Forall₂ (fun part e => readFrom .operand [] part = .ok e) parts es) : readList tokens = .ok es :=
  (readList_ok_iff _ _).mpr ⟨parts, (splitArguments_ok_iff _ _).mpr
    ⟨joined, isOneArgument_all es parts wellFormed spelled⟩, each⟩

mutual

/-- The reader passes over the tokens of a segment and completes it. -/
theorem readFrom_segment (before : Before) (beforeCall : Bool) :
    ∀ (s : Segment) (place : Place) (done : List Segment) (head : List Token),
      segmentFits before s = true → SegmentSpelled before beforeCall s head →
      Stands place before s.isCall → ∃ next more,
        (∀ tail, readFrom place done (head ++ tail) = readFrom next more tail) ∧
          settle next more = s :: settle place done ∧ Stands next (asBefore s) beforeCall
  | .call names arguments, place, done, head, fit, spelled, stands => by
    simp only [segmentFits, Bool.and_eq_true] at fit
    obtain ⟨called, group, rfl, calledSpelled, groupSpelled⟩ := spelled
    have behind (tail) := readFrom_names stands done names called tail fit.1 calledSpelled
    have unchanged := (behind []).2
    rcases groupSpelled with ⟨rfl, rfl, rfl⟩ | ⟨inner, parts, brackets, joined, each⟩
    · refine ⟨.name names, done, fun tail => ?_, by rw [unchanged]; rfl, .name names⟩
      simpa using (behind tail).1
    · have read := readList_of_parts parts inner arguments joined fit.2 each
        (readFrom_all arguments parts fit.2 each)
      have balanced := isBalanced_joined parts inner joined fun part member =>
        (isOneArgument_all arguments parts fit.2 each part member).2
      refine ⟨.arguments, .call names arguments :: done, fun tail => ?_, by rw [unchanged]; rfl, .arguments _⟩
      obtain ⟨start, rest, opens, same, found⟩ := closeGroup_inBrackets brackets balanced tail
      rw [append_assoc, (behind _).1, same, readFrom_of_step (.arguments opens found read)]
  | .value t, place, done, head, fit, spelled, stands => by
    simp only [segmentFits, Bool.and_eq_true, beq_iff_eq] at fit
    obtain ⟨rfl, literal⟩ := fit
    obtain rfl : head = [t] := spelled
    cases stands
    exact ⟨_, _, fun tail => readFrom_of_step (.literal literal), rfl, .operand _⟩
  | .operator t, place, done, head, fit, spelled, stands => by
    obtain rfl : head = [t] := spelled
    have settled : place.isSettled = true := by cases stands <;> rfl
    exact ⟨_, _, fun tail => readFrom_of_step (.operator settled fit), rfl, .gap _⟩
  | .bracketed inner, place, done, head, fit, spelled, stands => by
    simp only [segmentFits, Bool.and_eq_true, beq_iff_eq] at fit
    obtain ⟨rfl, filled, fit⟩ := fit
    obtain ⟨body, brackets, spelled⟩ := spelled
    cases stands
    have inside := readFrom_segments .gap inner .operand [] body fit spelled (.gap _)
    have each : AllSpelled [inner] [body] := ⟨body, [], rfl, spelled, rfl⟩
    have read := readList_of_parts [body] body [inner] rfl (by simp [allWellFormed, filled, fit]) each
      (by simpa [settle] using inside)
    have balanced := (isOneArgument_segments .gap inner body fit spelled).isBalanced
    refine ⟨.value, .bracketed inner :: done, fun tail => ?_, rfl, .operand _⟩
    obtain ⟨start, rest, opens, same, found⟩ := closeGroup_inBrackets brackets balanced tail
    rw [same, readFrom_of_step (.group opens found read)]
  | .new className, place, done, head, fit, spelled, stands => by
    simp only [segmentFits, Bool.and_eq_true, beq_iff_eq] at fit
    obtain ⟨rfl, named⟩ := fit
    obtain ⟨word, isNew, rfl⟩ := spelled
    cases stands
    exact ⟨_, _, fun tail => readFrom_of_step (.new isNew named), rfl, .operand _⟩

theorem readFrom_segments (before : Before) :
    ∀ (e : List Segment) (place : Place) (done : List Segment) (tokens : List Token),
      segmentsFit before e = true → SegmentsSpelled before e tokens → Stands place before (startsWithCall e) →
        readFrom place done tokens = .ok ((settle place done).reverse ++ e)
  | [], place, done, tokens, _, spelled, stands => by
    obtain rfl : tokens = [] := spelled
    simpa using readFrom_nil stands done
  | s :: rest, place, done, tokens, fit, spelled, stands => by
    simp only [segmentsFit, Bool.and_eq_true] at fit
    obtain ⟨head, tail, rfl, first, later⟩ := spelled
    obtain ⟨next, more, passes, settled, stands⟩ :=
      readFrom_segment before (startsWithCall rest) s place done head fit.1 first stands
    rw [passes, readFrom_segments (asBefore s) rest next more tail fit.2 later stands, settled]
    simp

theorem readFrom_all :
    ∀ (es : List (List Segment)) (parts : List (List Token)), allWellFormed es = true → AllSpelled es parts →
        Forall₂ (fun part e => readFrom .operand [] part = .ok e) parts es
  | [], parts, _, spelled => by
    obtain rfl : parts = [] := spelled
    exact .nil
  | e :: rest, parts, fit, spelled => by
    simp only [allWellFormed, Bool.and_eq_true] at fit
    obtain ⟨part, others, rfl, first, later⟩ := spelled
    exact .cons (readFrom_segments .gap e .operand [] part fit.1.2 first (.gap _))
      (readFrom_all rest others fit.2 later)

end

/-- The reader accepts exactly the spellings of well formed expressions. -/
theorem read_ok_iff_spelled (tokens : List Token) (line : Nat) (e : Expr) :
    read tokens line = .ok e ↔ isWellFormed e = true ∧ Spelled e tokens := by
  rw [read_ok_iff]
  simp only [isWellFormed, Bool.and_eq_true]
  constructor
  · rintro ⟨filled, -, read⟩
    obtain ⟨more, same, fit, spelled⟩ := continues_of_readFrom_ok .operand [] tokens e read
    obtain rfl : e = more := same
    have some_segment : e ≠ [] := by
      rintro rfl
      exact filled spelled
    exact ⟨⟨by simpa using some_segment, fit⟩, spelled⟩
  · rintro ⟨⟨filled, fit⟩, spelled⟩
    have one := isOneArgument_all [e] [tokens] (by simp [allWellFormed, filled, fit])
      ⟨tokens, [], rfl, spelled, rfl⟩ tokens (by simp)
    exact ⟨one.1, one.2, readFrom_segments .gap e .operand [] tokens fit spelled (.gap _)⟩

theorem read_new {line : Nat} (isNew : new.isKeyword "New" = true) (named : className.isNameLike = true) :
    read [new, className] line = .ok [.new className] := by
  refine (read_ok_iff_spelled _ _ _).mpr ⟨?_, [new, className], [], rfl, ⟨new, isNew, rfl⟩, rfl⟩
  simpa [isWellFormed, segmentsFit, segmentFits] using named

/-- The reader inverts printing, and what it accepts is the printed form of its result but for the marks
and for empty brackets behind calls. -/
theorem read_inverts_print :
    (∀ (e : Expr) (mark line : Nat), isWellFormed e = true → read (print mark e) line = .ok e) ∧
    ∀ (tokens : List Token) (line : Nat) (e : Expr), read tokens line = .ok e →
      isWellFormed e = true ∧ Spelled e tokens ∧ ∀ mark, Respelled (print mark e) tokens := by
  constructor
  · intro e mark line wellFormed
    exact (read_ok_iff_spelled _ _ _).mpr ⟨wellFormed, spelled_print mark e wellFormed⟩
  · intro tokens line e accepted
    obtain ⟨wellFormed, spelled⟩ := (read_ok_iff_spelled _ _ _).mp accepted
    exact ⟨wellFormed, spelled, fun mark => respelled_of_spelled mark e tokens wellFormed spelled⟩

/-- Reading gives back `rs().End(-1, x)` from its print, and `x` from `x()`. -/
theorem read_inverts_print_chain :
    (isWellFormed [.call [⟨.name, "rs", 0⟩] [],
        .call [⟨.keyword, "End", 0⟩] [[.operator ⟨.arithmetic, "-", 0⟩, .value ⟨.number, "1", 0⟩],
          [.call [⟨.name, "x", 0⟩] []]]] = true ∧
      read (print 0 [.call [⟨.name, "rs", 0⟩] [],
        .call [⟨.keyword, "End", 0⟩] [[.operator ⟨.arithmetic, "-", 0⟩, .value ⟨.number, "1", 0⟩],
          [.call [⟨.name, "x", 0⟩] []]]]) 0 =
        .ok [.call [⟨.name, "rs", 0⟩] [],
          .call [⟨.keyword, "End", 0⟩] [[.operator ⟨.arithmetic, "-", 0⟩, .value ⟨.number, "1", 0⟩],
            [.call [⟨.name, "x", 0⟩] []]]]) ∧
    read [⟨.name, "x", 0⟩, ⟨.openBracket, "(", 0⟩, ⟨.closeBracket, ")", 0⟩] 0 =
      .ok [.call [⟨.name, "x", 0⟩] []] ∧
    Respelled (print 0 [.call [⟨.name, "x", 0⟩] []])
      [⟨.name, "x", 0⟩, ⟨.openBracket, "(", 0⟩, ⟨.closeBracket, ")", 0⟩] := by
  refine ⟨⟨?wellFormed, read_inverts_print.1 _ 0 0 ?wellFormed⟩, ?accepted,
    (read_inverts_print.2 _ 0 _ ?accepted).2.2 0⟩
  case wellFormed => decide
  case accepted => cbv

end Expr
end VbSharp
