import Mathlib
import VbSharp.Proofs.Block.Statement
import VbSharp.Proofs.Expr.WordOrder

/-!
# Plain statements keep their words

An assignment or a call holds the words of its statement in their order: what is dropped is the word that
opens the statement, the sign of an assignment, `New` and the marks. There is one exception. A call without
`Call` may have a group in brackets directly behind another one; the last group is then read as the arguments,
and they take the place of those that the group before it has given.
-/
namespace VbSharp

open List VbSharp.Expr

variable {rest tokens tail body right left inner : List Token} {line start : Nat} {e e' : Expr} {kind : AssignKind}
  {first t point close name : Token} {arguments : List Expr} {c : Cursor}

variable {b : Block}

/-- Whether the block assigns. -/
def Block.isAssignment : Block → Bool
  | .assignment .. => true
  | _ => false

/-- The names, literals and operators that an assignment or a call holds, the target of an assignment before
its value. -/
def Block.words : Block → List Token
  | .assignment _ target value => Expr.words target ++ Expr.words value
  | .call e _ => Expr.words e
  | _ => []

namespace Parser

variable {chain final : LeadingChain}

/-- The tokens of a statement behind the word that opens it, if it has one. -/
def statementBody : List Token → List Token
  | [] => []
  | first :: rest => if ["Call", "Let", "Set"].any first.isKeyword then rest else first :: rest

/-- The tokens without the first `=` outside brackets. -/
def withoutSign (depth : Nat) : List Token → List Token
  | [] => []
  | t :: rest =>
    match t.kind with
    | .openBracket => t :: withoutSign (depth + 1) rest
    | .closeBracket => t :: withoutSign (depth - 1) rest
    | _ => if depth = 0 ∧ t.isEquals then rest else t :: withoutSign depth rest

/-- The words of a plain statement. -/
def statementWords (assigns : Bool) (tokens : List Token) : List Token :=
  let body := statementBody tokens
  plainWords false (if assigns then withoutSign 0 body else body)

/-- The block holds all words of the tokens, in which groups stand apart. -/
def HoldsAll (b : Block) (body : List Token) : Prop :=
  GroupsApart body ∧ b.words = plainWords false (if b.isAssignment then withoutSign 0 body else body)

/-- The block holds the words of the statement, without those of a group in brackets that stands directly
before another one. -/
def LacksGroup (b : Block) (tokens : List Token) : Prop :=
  ∃ before inner group start rest, tokens = before ++ (group ++ start :: rest) ∧
    InBrackets inner group ∧ IsBalanced inner ∧ start.kind = .openBracket ∧
    b.words = plainWords false (before ++ start :: rest)

theorem LacksGroup.not_apart (lacks : LacksGroup b tokens) : ¬GroupsApart tokens := by
  obtain ⟨before, inner, group, start, rest, rfl, ⟨first, close, -, closes, rfl⟩, -, opens, -⟩ := lacks
  intro apart
  have behind : GroupsApart ((first :: (inner ++ [close])) ++ start :: rest) :=
    (isChain_append.mp apart).2.1
  have last : (first :: (inner ++ [close])).getLast? = some close := by
    rw [← cons_append, getLast?_concat]
  exact (isChain_append.mp behind).2.2 close last start rfl ⟨closes, opens⟩

/-! ### Assignments -/

theorem withoutSign_of_split (tokens : List Token) (depth : Nat) (left right : List Token)
    (found : splitAtEquals depth tokens = some (left, right)) :
    withoutSign depth tokens = left ++ right ∧ ∃ sign, sign.isEquals = true ∧ tokens = left ++ sign :: right := by
  induction tokens generalizing depth left with
  | nil => simp [splitAtEquals] at found
  | cons t rest ih =>
    -- a token that is passed over stands at the front of the left side
    have passed {deeper : Nat}
        (later : (splitAtEquals deeper rest).map (fun cut => (t :: cut.1, cut.2)) = some (left, right)) :
        t :: withoutSign deeper rest = left ++ right ∧
          ∃ sign, sign.isEquals = true ∧ t :: rest = left ++ sign :: right := by
      obtain ⟨⟨before, after⟩, cut, same⟩ := Option.map_eq_some_iff.mp later
      obtain ⟨rfl, rfl⟩ := Prod.mk.inj same
      obtain ⟨kept, sign, isSign, rfl⟩ := ih deeper before cut
      exact ⟨by rw [kept]; rfl, sign, isSign, rfl⟩
    cases kind : t.kind with
    | openBracket | closeBracket =>
      simp only [splitAtEquals, kind] at found
      simpa only [withoutSign, kind] using passed found
    | _ =>
      simp only [splitAtEquals, kind] at found
      simp only [withoutSign, kind]
      by_cases here : depth = 0 ∧ t.isEquals = true
      · rw [if_pos here] at found ⊢
        obtain ⟨rfl, rfl⟩ := Prod.mk.inj (Option.some.inj found)
        exact ⟨rfl, t, here.2, rfl⟩
      · rw [if_neg here] at found ⊢
        exact passed found

theorem target_ok (ok : target tokens line = .ok e) : Expr.read tokens line = .ok e := by
  obtain ⟨found, read, ok⟩ := except_bind_iff.mp ok
  split at ok
  · rw [read, ← ok]
    rfl
  · cases ok

theorem assignment_ok (ok : assignment kind left right line = .ok b) :
    ∃ e value, Expr.read left line = .ok e ∧ Expr.read right line = .ok value ∧ b = .assignment kind e value := by
  simp only [assignment, except_bind_iff, except_pure_iff] at ok
  obtain ⟨e, found, value, read, rfl⟩ := ok
  exact ⟨e, value, target_ok found, read, rfl⟩

/-- Both sides of an assignment are kept, and its sign keeps their groups apart. -/
theorem holdsAll_assignment (split : splitAtEquals 0 body = some (left, right))
    (ok : assignment kind left right line = .ok b) : HoldsAll b body := by
  obtain ⟨kept, sign, isSign, rfl⟩ := withoutSign_of_split body 0 left right split
  obtain ⟨target, value, readTarget, readValue, rfl⟩ := assignment_ok ok
  have first := keeps_of_read readTarget
  have second := keeps_of_read readValue
  simp only [Token.isEquals, Bool.and_eq_true, beq_iff_eq] at isSign
  constructor
  · refine isChain_append.mpr ⟨first.apart, ?_, by simp [isSign]⟩
    exact isChain_cons.mpr ⟨by simp [isSign], second.apart⟩
  · simp [Block.words, Block.isAssignment, kept, plainWords_append, first.words, first.complete, second.words]

/-! ### Calls -/

theorem holdsAll_call (withCall : Bool) (read : Expr.read tokens line = .ok e) :
    HoldsAll (.call e withCall) tokens := by
  have kept := keeps_of_read read
  exact ⟨kept.apart, by simp [Block.words, Block.isAssignment, kept.words]⟩

theorem words_append (a b : Expr) : Expr.words (a ++ b) = Expr.words a ++ Expr.words b := by
  induction a with
  | nil => rfl
  | cons s a ih => simp [Expr.words, ih]

/-- What is called stands before the arguments of the last call, and ends with a name. -/
theorem callee_spelled (before : Expr) (names : List Token) (arguments : List Expr) (place : Before)
    (tokens : List Token) (fit : segmentsFit place (before ++ [.call names arguments]) = true)
    (spelled : SegmentsSpelled place (before ++ [.call names arguments]) tokens) :
    ∃ callee group, tokens = callee ++ group ∧ (∃ name ∈ callee.getLast?, name.kind ≠ .closeBracket) ∧
      segmentsFit place (before ++ [.call names []]) = true ∧
      SegmentsSpelled place (before ++ [.call names []]) callee ∧
      Expr.allWellFormed arguments = true ∧ GroupSpelled false arguments group := by
  induction before generalizing place tokens with
  | nil =>
    simp only [nil_append, segmentsFit, segmentFits, Bool.and_eq_true] at fit ⊢
    obtain ⟨head, tail, rfl, ⟨callee, group, rfl, named, grouped⟩, rfl⟩ := spelled
    obtain ⟨kept, last⟩ := keeps_names place names callee fit.1.1 named
    have alone : SegmentsSpelled place [.call names []] callee :=
      ⟨callee, [], by simp, ⟨callee, [], by simp, named, .inl ⟨rfl, rfl, rfl⟩⟩, rfl⟩
    have filled : callee ≠ [] := by
      rintro rfl
      obtain rfl : [] = names := kept.words
      simp [namesFit] at fit
    have ends : ∃ name ∈ callee.getLast?, name.kind ≠ .closeBracket :=
      ⟨_, getLast?_eq_some_getLast filled, last _ (getLast?_eq_some_getLast filled)⟩
    exact ⟨callee, group, by simp, ends, ⟨⟨fit.1.1, rfl⟩, trivial⟩, alone, fit.1.2, grouped⟩
  | cons s before ih =>
    simp only [cons_append, segmentsFit, Bool.and_eq_true] at fit ⊢
    obtain ⟨head, tail, rfl, first, later⟩ := spelled
    obtain ⟨callee, group, rfl, ⟨name, last, noClose⟩, fits, spelled, wellFormed, grouped⟩ :=
      ih _ tail fit.2 later
    have sameStart : startsWithCall (before ++ [.call names arguments]) =
        startsWithCall (before ++ [.call names []]) := by
      cases before <;> rfl
    have start : SegmentSpelled place (startsWithCall (before ++ [.call names []])) s head :=
      sameStart ▸ first
    refine ⟨head ++ callee, group, by simp, ⟨name, ?_, noClose⟩, ⟨fit.1, fits⟩,
      ⟨head, callee, rfl, start, spelled⟩, wellFormed, grouped⟩
    simp [getLast?_append, Option.mem_def.mp last]

/-- The search for the chain of a call has passed over a chain tail. It has found a group that ends the
chain, or the chain ends with a name. -/
structure Passes (chain : LeadingChain) (tail : List Token) (final : LeadingChain) : Prop where
  behind : ChainTail tail
  length : final.length = chain.length + tail.length
  bare : final.lastGroup = none → tail = [] ∧ chain.lastGroup = none ∨ ∃ name ∈ tail.getLast?, name.kind ≠ .closeBracket
  grouped : ∀ start, final.lastGroup = some start → tail = [] ∧ chain.lastGroup = some start ∨
      ∃ front first rest, tail = front ++ first :: rest ∧ first.kind = .openBracket ∧ rest ≠ [] ∧
        start = chain.length + front.length

theorem passes_nil (chain : LeadingChain) : Passes chain [] chain :=
  ⟨.nil, rfl, fun none => .inl ⟨rfl, none⟩, fun _ some => .inl ⟨rfl, some⟩⟩

theorem passes_member (isPoint : point.kind = .member) (named : name.canNameMember = true)
    (rest : Passes ⟨chain.length + 2, none⟩ tail final) :
    Passes chain (point :: name :: tail) final where
  behind := .member isPoint named rest.behind
  length := by
    have := rest.length
    simp only [length_cons] at this ⊢
    omega
  bare none := by
    right
    rcases rest.bare none with ⟨rfl, -⟩ | ⟨last, ends, noClose⟩
    · exact ⟨name, rfl, kind_ne_closeBracket named⟩
    · exact ⟨last, by simp [getLast?_cons, Option.mem_def.mp ends], noClose⟩
  grouped start some := by
    right
    rcases rest.grouped start some with ⟨-, none⟩ | ⟨front, first, later, rfl, opens, filled, place⟩
    · cases none
    · exact ⟨point :: name :: front, first, later, rfl, opens, filled, by simp at place ⊢; omega⟩

theorem passes_group {start : Token} (opens : start.kind = .openBracket) (closes : close.kind = .closeBracket)
    (balanced : IsBalanced inner) (rest : Passes ⟨chain.length + inner.length + 2, some chain.length⟩ tail final) :
    Passes chain (start :: (inner ++ close :: tail)) final where
  behind := .group opens closes balanced rest.behind
  length := by
    have := rest.length
    simp only [length_cons, length_append] at this ⊢
    omega
  bare none := by
    right
    rcases rest.bare none with ⟨-, some⟩ | ⟨last, ends, noClose⟩
    · cases some
    · exact ⟨last, by simp [getLast?_cons, getLast?_append, Option.mem_def.mp ends], noClose⟩
  grouped place some := by
    right
    rcases rest.grouped place some with ⟨rfl, here⟩ | ⟨front, first, later, rfl, opens', filled, place⟩
    · exact ⟨[], start, inner ++ [close], rfl, opens, by simp, (Option.some.inj here).symm⟩
    · refine ⟨start :: (inner ++ close :: front), first, later, by simp, opens', filled, ?_⟩
      simp only [length_cons, length_append] at place ⊢
      omega

theorem passes_of_extend (chain final : LeadingChain) (tokens : List Token) (found : chain.extend tokens = .ok final) :
    ∃ tail after, tokens = tail ++ after ∧ Passes chain tail final := by
  -- a chain that cannot be extended passes over nothing more
  have stops {chain : LeadingChain} (tokens : List Token)
      (same : (.ok chain : Except Fault LeadingChain) = .ok final) :
      ∃ tail after, tokens = tail ++ after ∧ Passes chain tail final := by
    obtain rfl := Except.ok.inj same
    exact ⟨[], tokens, rfl, passes_nil chain⟩
  fun_induction LeadingChain.extend chain tokens with
  | case1 => exact stops _ found
  | case2 => exact stops _ found
  | case3 chain point isPoint name after named ih =>
    obtain ⟨tail, after, rfl, passed⟩ := ih found
    exact ⟨point :: name :: tail, after, rfl, passes_member isPoint named passed⟩
  | case4 => exact stops _ found
  | case5 => cases found
  | case6 chain start rest opens inner after closed _ ih =>
    obtain ⟨balanced, close, closes, rfl⟩ := (closeGroup_eq_some_iff _ _ _ _).mp closed
    obtain ⟨tail, after, rfl, passed⟩ := ih found
    exact ⟨start :: (inner ++ close :: tail), after, by simp, passes_group opens closes balanced passed⟩
  | case7 => exact stops _ found

theorem passes_of_statement (found : LeadingChain.extend ⟨1, none⟩ ((first :: rest).drop 1) = .ok chain) :
    ∃ tail after, rest = tail ++ after ∧ Passes ⟨1, none⟩ tail chain ∧
      (first :: rest).take chain.length = first :: tail ∧ (first :: rest).drop chain.length = after := by
  obtain ⟨tail, after, rfl, passed⟩ := passes_of_extend _ chain rest found
  have length : chain.length = (first :: tail).length := by
    rw [passed.length, length_cons, Nat.add_comm]
  refine ⟨tail, after, rfl, passed, ?_, ?_⟩
  · rw [length, ← cons_append, take_left]
  · rw [length, ← cons_append, drop_left]

theorem argumentsStart_ok (found : argumentsStart tokens chain = .ok (some start)) :
    chain.lastGroup = some start ∨ chain.lastGroup = none ∧ start = chain.length := by
  unfold argumentsStart at found
  split at found
  next last =>
    obtain ⟨es, -, found⟩ := except_bind_iff.mp found
    split at found
    · exact .inl (last.trans (except_pure_iff.mp found))
    · cases except_pure_iff.mp found
  · cases except_pure_iff.mp found
  next last => exact .inl (last.trans (except_pure_iff.mp found))
  next last => exact .inr ⟨last, (Option.some.inj (except_pure_iff.mp found)).symm⟩

theorem giveArguments_ok (given : giveArguments e arguments line = .ok e') : ∃ before names old,
      e = before ++ [.call names old] ∧ e' = before ++ [.call names arguments] := by
  unfold giveArguments at given
  split at given
  next names old before same =>
    refine ⟨before.reverse, names, old, ?_, (Except.ok.inj given).symm⟩
    rw [← reverse_reverse e, same, reverse_cons]
  · cases given

/-- If the chain before the arguments ends with a group, the arguments are a group too: the search goes back
behind the last group of a chain only. -/
theorem opens_of_argumentsStart (named : first.isNameLike = true)
    (found : LeadingChain.extend ⟨1, none⟩ ((first :: rest).drop 1) = .ok chain)
    (starts : argumentsStart (first :: rest) chain = .ok (some start)) (close : Token)
    (last : close ∈ ((first :: rest).take start).getLast?) (closes : close.kind = .closeBracket) :
    ∃ next later, next.kind = .openBracket ∧ (first :: rest).drop start = next :: later := by
  obtain ⟨tail, after, rfl, passed, taken, dropped⟩ := passes_of_statement found
  rcases argumentsStart_ok starts with group | ⟨none, rfl⟩
  · rcases passed.grouped start group with ⟨-, none⟩ | ⟨front, next, later, rfl, opens, -, rfl⟩
    · cases none
    · refine ⟨next, later ++ after, opens, ?_⟩
      rw [Nat.add_comm, drop_succ_cons, append_assoc, drop_left, cons_append]
  · exfalso
    rw [taken] at last
    rcases passed.bare none with ⟨rfl, -⟩ | ⟨name, ends, noClose⟩
    · obtain rfl : first = close := by simpa using last
      simp [Token.isNameLike, closes, Kind.isNameLike] at named
    · obtain rfl : name = close := by
        simpa [getLast?_cons, Option.mem_def.mp ends] using last
      exact noClose closes

/-- A call whose arguments stand in no brackets of their own. If the chain before them ends with a group, they
take the place of what that group has given. -/
theorem holdsAll_or_lacksGroup (named : first.isNameLike = true)
    (found : LeadingChain.extend ⟨1, none⟩ ((first :: rest).drop 1) = .ok chain)
    (starts : argumentsStart (first :: rest) chain = .ok (some start))
    (read : Expr.read ((first :: rest).take start) line = .ok e)
    (readArguments : readList ((first :: rest).drop start) = .ok arguments)
    (given : giveArguments e arguments line = .ok e') :
    HoldsAll (.call e' false) (first :: rest) ∨ LacksGroup (.call e' false) (first :: rest) := by
  obtain ⟨before, names, old, rfl, rfl⟩ := giveArguments_ok given
  obtain ⟨wellFormed, spelled⟩ := (read_ok_iff_spelled _ _ _).mp read
  simp only [Expr.isWellFormed, Bool.and_eq_true] at wellFormed
  obtain ⟨callee, group, cut, ⟨name, last, noClose⟩, fits, spelled, filled, grouped⟩ :=
    callee_spelled before names old .gap _ wellFormed.2 spelled
  have kept := keeps_segments .gap _ callee fits spelled
  have keptArguments := keeps_of_readList readArguments
  have whole : first :: rest = callee ++ (group ++ (first :: rest).drop start) := by
    rw [← append_assoc, ← cut, take_append_drop]
  have held : Expr.words (before ++ [.call names arguments]) =
      plainWords false (callee ++ (first :: rest).drop start) := by
    rw [plainWords_append, kept.complete, kept.words, keptArguments.words]
    simp [words_append, Expr.words, segmentWords, listWords]
  rcases grouped with ⟨-, -, rfl⟩ | ⟨inner, parts, brackets, joined, each⟩
  · left
    have apart := kept.append keptArguments (by simp [Option.mem_def.mp last, noClose])
    constructor
    · rw [whole]
      exact apart.apart
    · rw [whole]
      exact held
  · right
    have balanced := isBalanced_joined parts inner joined fun part member =>
      (isOneArgument_all old parts filled each part member).2
    have closed : ∃ close ∈ ((first :: rest).take start).getLast?, close.kind = .closeBracket := by
      obtain ⟨opening, close, -, closes, rfl⟩ := brackets
      refine ⟨close, ?_, closes⟩
      rw [cut, ← cons_append, ← append_assoc, getLast?_concat]
      rfl
    obtain ⟨close, last, closes⟩ := closed
    obtain ⟨next, later, opens, behind⟩ := opens_of_argumentsStart named found starts close last closes
    refine ⟨callee, inner, group, next, later, ?_, brackets, balanced, opens, ?_⟩
    · rw [← behind]
      exact whole
    · rw [← behind]
      exact held

theorem holds_namedStatement (named : first.isNameLike = true) (ok : namedStatement (first :: rest) line = .ok b) :
    HoldsAll b (first :: rest) ∨ LacksGroup b (first :: rest) := by
  obtain ⟨chain, found, ok⟩ := except_bind_iff.mp ok
  obtain ⟨tail, after, same, passed, taken, dropped⟩ := passes_of_statement found
  simp only [dropped, taken] at ok
  split at ok
  next assigns =>
    -- the chain holds no sign outside brackets, so the one behind it is the first
    left
    obtain ⟨sign, right, rfl, isSign⟩ : ∃ sign right, after = sign :: right ∧ sign.isEquals = true := by
      cases after with
      | nil => simp at assigns
      | cons sign right => exact ⟨sign, right, rfl, by simpa using assigns⟩
    have member := canNameMember_of_isNameLike named
    have flat := depthStep_of_isStructural 0 (isStructural_of_canNameMember member)
    have split : splitAtEquals 0 (first :: rest) = some (first :: tail, right) := by
      rw [same, splitAtEquals_pass first _ 0 0 flat (.inr (isEquals_of_canNameMember member)),
        splitAtEquals_chain tail right sign isSign passed.behind]
      rfl
    exact holdsAll_assignment split ok
  · obtain ⟨start, starts, ok⟩ := except_bind_iff.mp ok
    cases start with
    | none =>
      simp only [except_bind_iff, except_pure_iff] at ok
      obtain ⟨e, read, rfl⟩ := ok
      exact .inl (holdsAll_call false read)
    | some start =>
      simp only [except_bind_iff, except_pure_iff] at ok
      obtain ⟨e, read, arguments, readArguments, e', given, rfl⟩ := ok
      exact holdsAll_or_lacksGroup named found starts read readArguments given

/-! ### Statements -/

/-- A statement whose words the block accounts for. -/
def Accounts (b : Block) (tokens : List Token) : Prop :=
  GroupsApart tokens ∧ b.words = statementWords b.isAssignment tokens ∨ LacksGroup b tokens

theorem accounts_opened (opens : ["Call", "Let", "Set"].any first.isKeyword = true) (holds : HoldsAll b body) :
    Accounts b (first :: body) := by
  have keyword : first.kind = .keyword := by
    simp only [any_eq_true, Token.isKeyword, Bool.and_eq_true, beq_iff_eq] at opens
    obtain ⟨_, -, keyword, -⟩ := opens
    exact keyword
  left
  refine ⟨isChain_cons.mpr ⟨by simp [keyword], holds.1⟩, ?_⟩
  rw [statementWords, statementBody, if_pos opens]
  exact holds.2

theorem accounts_named (named : first.isNameLike = true)
    (holds : HoldsAll b (first :: rest) ∨ LacksGroup b (first :: rest)) : Accounts b (first :: rest) := by
  refine holds.imp_left fun holds => ⟨holds.1, ?_⟩
  have plain : ["Call", "Let", "Set"].any first.isKeyword = false := by
    cases kind : first.kind <;> simp_all [Token.isNameLike, Kind.isNameLike, Token.isKeyword]
  rw [statementWords, statementBody, plain]
  exact holds.2

theorem isKeyword_of_assignKind? (keyword : t.kind = .keyword) (opens : assignKind? t = some kind) :
    ["Call", "Let", "Set"].any t.isKeyword = true := by
  unfold assignKind? at opens
  simp only [any_cons, any_nil, Token.isKeyword, keyword, beq_self_eq_true, Bool.true_and, Bool.or_false]
  split at opens
  next isLet => simp [isLet]
  · split at opens
    next isSet => simp [isSet]
    · cases opens

theorem accounts_statementOf (made : statementOf tokens = some (.ok b)) : Accounts b tokens := by
  cases tokens with
  | nil => cases made
  | cons first body =>
    simp only [statementOf] at made
    split at made
    next keyword =>
      split at made
      · cases made
      · obtain ⟨kind, opens, made⟩ := Option.map_eq_some_iff.mp made
        split at made
        · cases made
        next split => exact accounts_opened (isKeyword_of_assignKind? keyword opens) (holdsAll_assignment split made)
    · split at made
      next named => exact accounts_named named (holds_namedStatement named (Option.some.inj made))
      · cases made

theorem accounts_call (made : openedBy "Call" callOf tokens = some (.ok b)) : Accounts b tokens := by
  cases tokens with
  | nil => cases made
  | cons first body =>
    simp only [openedBy] at made
    split at made
    next isCall =>
      have made := Option.some.inj made
      cases read : Expr.read body first.line with
      | error fault => simp [callOf, read, bind, Except.bind] at made
      | ok e =>
        simp only [callOf, read, bind, Except.bind] at made
        split at made
        · obtain rfl := Except.ok.inj made
          exact accounts_opened (by simp [isCall]) (holdsAll_call true read)
        · cases made
    · cases made

/-- Assignments and calls hold the words of their statements in order, if no group in brackets stands
directly behind another one. If one does, the words of the group before it are all that is missing. -/
theorem statement_keeps_words (p : Parser (Option Block))
    (plain : p = newInstance ∨ p = callStatement ∨ p = statement) (r r' : Reader) (b : Block)
    (ok : p r = .ok (some b) r') :
    (GroupsApart r.cursor.statement →
      b.words = statementWords b.isAssignment r.cursor.statement) ∧
    (¬GroupsApart r.cursor.statement → LacksGroup b r.cursor.statement) := by
  have accounts : Accounts b r.cursor.statement := by
    rcases plain with rfl | rfl | rfl
    · exact accounts_statementOf (statementOf_of_instanceOf (takes_newInstance.of_ok ok))
    · exact accounts_call (takes_callStatement.of_ok ok)
    · exact accounts_statementOf (takes_statement.of_ok ok)
  rcases accounts with ⟨apart, held⟩ | lacks
  · exact ⟨fun _ => held, fun chained => absurd apart chained⟩
  · exact ⟨fun apart => absurd apart lacks.not_apart, fun _ => lacks⟩

/-- The tokens of `f (1), g(x).New = 2`. -/
def bareCallTokens : List Token :=
  [⟨.name, "f", 0⟩, ⟨.openBracket, "(", 0⟩, ⟨.number, "1", 0⟩, ⟨.closeBracket, ")", 0⟩, ⟨.comma, ",", 0⟩,
    ⟨.name, "g", 0⟩, ⟨.openBracket, "(", 0⟩, ⟨.name, "x", 0⟩, ⟨.closeBracket, ")", 0⟩, ⟨.member, ".", 0⟩,
    ⟨.keyword, "New", 0⟩, ⟨.comparison, "=", 0⟩, ⟨.number, "2", 0⟩]

theorem statement_keeps_words_bareCall :
    ∃ b r', statement ⟨⟨bareCallTokens, 0⟩, []⟩ = .ok (some b) r' ∧
      GroupsApart bareCallTokens ∧ b.words = statementWords b.isAssignment bareCallTokens := by
  have ok : statement ⟨⟨bareCallTokens, 0⟩, []⟩ = .ok (some (.call [.call [⟨.name, "f", 0⟩]
      [[.bracketed [.value ⟨.number, "1", 0⟩]],
        [.call [⟨.name, "g", 0⟩] [[.call [⟨.name, "x", 0⟩] []]], .call [⟨.keyword, "New", 0⟩] [],
          .operator ⟨.comparison, "=", 0⟩, .value ⟨.number, "2", 0⟩]]] false)) ⟨⟨[], 0⟩, []⟩ := by
    cbv
  have apart : GroupsApart bareCallTokens := by decide
  exact ⟨_, _, ok, apart, (statement_keeps_words statement (.inr (.inr rfl)) _ _ _ ok).1 apart⟩

/-- The tokens of `f(1)(2)`. -/
def groupBehindGroup : List Token :=
  [⟨.name, "f", 0⟩, ⟨.openBracket, "(", 0⟩, ⟨.number, "1", 0⟩, ⟨.closeBracket, ")", 0⟩,
    ⟨.openBracket, "(", 0⟩, ⟨.number, "2", 0⟩, ⟨.closeBracket, ")", 0⟩]

/-- The second group is taken for the arguments and the first one is lost. -/
theorem statement_drops_first_group :
    ∃ b r', statement ⟨⟨groupBehindGroup, 0⟩, []⟩ = .ok (some b) r' ∧
      b.words = [⟨.name, "f", 0⟩, ⟨.number, "2", 0⟩] ∧
      statementWords b.isAssignment groupBehindGroup =
        [⟨.name, "f", 0⟩, ⟨.number, "1", 0⟩, ⟨.number, "2", 0⟩] := by
  have ok : statement ⟨⟨groupBehindGroup, 0⟩, []⟩ = .ok (some (.call [.call [⟨.name, "f", 0⟩]
      [[.bracketed [.value ⟨.number, "2", 0⟩]]]] false)) ⟨⟨[], 0⟩, []⟩ := by
    cbv
  exact ⟨_, _, ok, rfl, rfl⟩

end Parser
end VbSharp
