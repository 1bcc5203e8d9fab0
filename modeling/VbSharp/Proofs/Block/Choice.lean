import VbSharp.Proofs.Block.Definition
import VbSharp.Proofs.Block.Statement

/-!
# The choice of a construct

The first token of a printed block decides which construct it is. The words that open constructs differ
from each other and from the words that end bodies, with three exceptions: `Public` and `Private` open
routines and declarations, `Set` opens two kinds of assignment, and a name can be a word that opens a
routine. What follows settles these cases.
-/
namespace VbSharp.Parser

open List Token Cursor

variable {body : Body}

variable {tokens rest after : List Token} {t : Token} {b : Block} {x : Option Block} {construct : Construct}
  {p : Parser (Option Block)}

variable (style : PrintStyle)

variable (word : String) (line place : Nat)

/-- The constructs in the order in which they are tried. -/
def constructOrder : List Construct :=
  [.optionExplicit, .newInstance, .classDefinition, .routine, .declaration, .doLoop, .whileLoop, .forLoop,
    .branch, .select, .exit, .onError, .randomize, .call, .withTarget, .statement]

theorem constructs_order (body : Body) : (constructs body).map (·.1) = constructOrder := rfl

/-- The keywords that open a construct. Routines and plain statements are told by more than that. -/
def openingWords : Construct → List String
  | .optionExplicit => ["Option"]
  | .newInstance => ["Set"]
  | .classDefinition => ["Class"]
  | .declaration => ["Dim", "ReDim", "Private", "Public"]
  | .doLoop => ["Do"]
  | .whileLoop => ["While"]
  | .forLoop => ["For"]
  | .branch => ["If"]
  | .select => ["Select"]
  | .exit => ["Exit"]
  | .onError => ["On"]
  | .randomize => ["Randomize"]
  | .call => ["Call"]
  | .withTarget => ["With"]
  | .routine | .statement => []

/-- The words that can stand first in a routine. -/
def routineWords : List String :=
  ["Public", "Private", "Default", "Function", "Sub", "Property"]

/-- The words with which the ends of bodies start. -/
def closingWords : List String :=
  ["ElseIf", "Else", "End", "Loop", "Wend", "Next", "Case"]

theorem reads_newInstance_none (t : Token) (rest : List Token) (other : t.isKeyword "Set" = false) :
    Reads newInstance (t :: rest) none (t :: rest) := by
  refine takes_newInstance.declines fun endLine => ?_
  cases stops : t.isTerminator with
  | true => simp [Cursor.statement, stops, instanceOf]
  | false => simp [Cursor.statement, stops, instanceOf, other]

theorem declarationKind?_none (t : Token) (rest : List Token)
    (others : ∀ word ∈ openingWords .declaration, t.isKeyword word = false) (endLine : Nat) :
    declarationKind? ⟨t :: rest, endLine⟩ = none := by
  simp only [openingWords, forall_mem_cons] at others
  obtain ⟨noDim, noReDim, noPrivate, noPublic, -⟩ := others
  simp [declarationKind?, noDim, noReDim, noPrivate, noPublic]

/-- A construct declines a statement that starts with none of its words. -/
theorem declines (body : Body) (t : Token) (rest : List Token) :
    ∀ pair ∈ constructs body, pair.1 ≠ .statement →
      (pair.1 = .routine → ∀ endLine, opening? ⟨t :: rest, endLine⟩ = none) →
      (∀ word ∈ openingWords pair.1, t.isKeyword word = false) → Reads pair.2 (t :: rest) none (t :: rest) := by
  intro pair member noStatement noRoutine others
  simp only [constructs, mem_cons, not_mem_nil, or_false] at member
  rcases member with rfl | rfl | rfl | rfl | rfl | rfl | rfl | rfl | rfl | rfl | rfl | rfl | rfl |
    rfl | rfl | rfl
  case inr.inl => exact reads_newInstance_none t rest (others "Set" (mem_singleton_self _))
  case inr.inr.inr.inl => exact .bind (reads_view (noRoutine rfl)) (reads_pure _ _)
  case inr.inr.inr.inr.inl =>
    exact .bind (reads_view (declarationKind?_none t rest others)) (reads_pure _ _)
  -- every other parser looks for the one word that opens its construct
  all_goals first
    | exact absurd rfl noStatement
    | exact reads_none_of_guard fun _ => by simp [others _ (mem_singleton_self _)]

theorem isKeyword_of_same {t : Token} {word : String} (here : t.isKeyword word = true) (other : String) :
    t.isKeyword other = sameWord word other := by
  obtain ⟨keyword, same⟩ := Token.isWord_of_isKeyword here
  simp [Token.isKeyword, keyword, same]

/-! ### When no routine starts -/

theorem opening?_none_of_keyword (isWord : t.kind = .keyword) (others : ∀ word ∈ routineWords, t.isKeyword word = false)
    (rest : List Token) (endLine : Nat) : opening? ⟨t :: rest, endLine⟩ = none := by
  have same (word : String) : t.isKeywordLike word = t.isKeyword word := by
    simp [Token.isKeywordLike, Token.isKeyword, isWord]
  simp only [routineWords, forall_mem_cons] at others
  obtain ⟨noPublic, noPrivate, noDefault, noFunction, noSub, noProperty, -⟩ := others
  simp [opening?, routineKind?, Cursor.isKeywordAt, Cursor.isKeywordLikeAt, same, noPublic, noPrivate, noDefault,
    noFunction, noSub, noProperty]

section NoRoutine

variable (first : Token) (rest : List Token) (endLine : Nat)
  (noFunction : first.isKeyword "Function" = false) (noSub : first.isKeyword "Sub" = false)

include noFunction noSub

theorem routineKind?_none_of_first (noProperty : first.isKeywordLike "Property" = false) :
    routineKind? ⟨first :: rest, endLine⟩ 0 = none := by
  simp [routineKind?, Cursor.isKeywordAt, Cursor.isKeywordLikeAt, noFunction, noSub, noProperty]

theorem routineKind?_none_of_second (second : Token) (noGet : second.isKeywordLike "Get" = false)
    (noLet : second.isKeyword "Let" = false) (noSet : second.isKeyword "Set" = false) :
    routineKind? ⟨first :: second :: rest, endLine⟩ 0 = none := by
  simp [routineKind?, Cursor.isKeywordAt, Cursor.isKeywordLikeAt, noFunction, noSub, noGet, noLet, noSet]

end NoRoutine

/-- Where no keyword stands inside, only `Property Get` before a name says that a routine starts, and both words are
names there. -/
theorem names_of_routineKind? (inside : StandInside tokens) {endLine offset : Nat}
    (found : routineKind? ⟨tokens, endLine⟩ offset ≠ none) :
    Cursor.holdsAt ⟨tokens, endLine⟩ offset Token.isNameLike = true ∧
      Cursor.holdsAt ⟨tokens, endLine⟩ (offset + 1) Token.isNameLike = true ∧
      Cursor.holdsAt ⟨tokens, endLine⟩ (offset + 2) Token.isNameLike = true := by
  have noKeyword (place : Nat) (word : String) (other : sameWord "New" word = false) :
      Cursor.isKeywordAt ⟨tokens, endLine⟩ place word = false := by
    refine Bool.eq_false_iff.mpr fun holds => ?_
    obtain ⟨t, here, isWord⟩ := (Option.any_eq_true ..).mp holds
    exact Bool.false_ne_true ((inside.isKeyword word other t (mem_of_getElem? here)).symm.trans isWord)
  have named (place : Nat) (word : String) (other : sameWord "New" word = false)
      (here : Cursor.isKeywordLikeAt ⟨tokens, endLine⟩ place word = true) :
      Cursor.holdsAt ⟨tokens, endLine⟩ place Token.isNameLike = true := by
    obtain ⟨t, here, isWord⟩ := (Option.any_eq_true ..).mp here
    refine (Option.any_eq_true ..).mpr ⟨t, here, ?_⟩
    have noKeyword := inside.isKeyword word other t (mem_of_getElem? here)
    cases kind : t.kind <;> simp_all [Token.isKeywordLike, Token.isKeyword, Token.isNameLike, Kind.isNameLike]
  simp only [routineKind?, noKeyword _ "Function" (by decide), noKeyword _ "Sub" (by decide),
    noKeyword _ "Let" (by decide), noKeyword _ "Set" (by decide), Bool.false_eq_true, if_false] at found
  split_ifs at found with property get
  · obtain ⟨property, name⟩ := (Bool.and_eq_true ..).mp property
    exact ⟨named _ _ (by decide) property, named _ _ (by decide) get, name⟩
  · exact absurd rfl found
  · exact absurd rfl found

/-- A line that starts with a name opens no routine, even if the name is `Property` or `Default`. -/
theorem opening?_none_of_named (named : IsNamedLine tokens b) (endLine : Nat) : opening? ⟨tokens, endLine⟩ = none := by
  obtain ⟨first, rest, rfl, isName, apart⟩ := named.starts
  have noKind (offset : Nat) (early : offset ≤ 1) : routineKind? ⟨first :: rest, endLine⟩ offset = none := by
    by_contra found
    obtain ⟨one, two, three⟩ := names_of_routineKind? named.inside found
    obtain ⟨second, third⟩ : Cursor.holdsAt ⟨first :: rest, endLine⟩ 1 Token.isNameLike = true ∧
        Cursor.holdsAt ⟨first :: rest, endLine⟩ 2 Token.isNameLike = true := by
      rcases Nat.le_one_iff_eq_zero_or_eq_one.mp early with rfl | rfl
      · exact ⟨two, three⟩
      · exact ⟨one, two⟩
    rcases rest with _ | ⟨u, _ | ⟨v, more⟩⟩
    · cases second
    · cases third
    · exact Bool.false_ne_true ((apart u v more rfl second).symm.trans third)
  have noKeyword := isKeyword_of_isNameLike isName
  have offset : (if Cursor.isKeywordLikeAt ⟨first :: rest, endLine⟩ 0 "Default" then 1 else 0) ≤ 1 := by split <;> simp
  simp [opening?, noKeyword, noKind _ offset]

/-- A list of variables opens no routine, even if its first variable is `Property` or `Default`. -/
theorem opening?_none_of_declaration (access : word = "Public" ∨ word = "Private") (name t : Token)
    (named : name.isNameLike = true) (mark : t.kind ≠ .keyword ∧ t.kind ≠ .softKeyword) (more : List Token)
    (endLine : Nat) : opening? ⟨ofKeyword word line :: name :: t :: more, endLine⟩ = none := by
  have noKeyword := isKeyword_of_isNameLike named
  have noWord (word : String) : t.isKeyword word = false := by simp [Token.isKeyword, mark]
  have noLike (word : String) : t.isKeywordLike word = false := by simp [Token.isKeywordLike, mark]
  have opens : sameWord word "Public" = true ∨ sameWord word "Public" = false ∧ sameWord word "Private" = true := by
    rcases access with rfl | rfl <;> decide
  have kindHere : routineKind? ⟨ofKeyword word line :: name :: t :: more, endLine⟩ 1 = none :=
    (routineKind?_append [_] _ endLine).trans (routineKind?_none_of_second name more endLine
      (noKeyword _) (noKeyword _) t (noLike _) (noWord _) (noWord _))
  have kindNext : routineKind? ⟨ofKeyword word line :: name :: t :: more, endLine⟩ 2 = none :=
    (routineKind?_append [_, _] _ endLine).trans (routineKind?_none_of_first t more endLine
      (noWord _) (noWord _) (noLike _))
  rw [opening?]
  cases isDefault : name.isKeywordLike "Default" <;>
    simp [Cursor.isKeywordLikeAt, opens, isDefault, kindHere, kindNext]

/-! ### The first token settles the construct -/

/-- The parser at a place in the order gets what all earlier ones decline. -/
theorem gives_firstOf {rest : List Token} (listed : (constructs body)[place]? = some (construct, p))
    (given : Gives some p tokens rest x)
    (declined : ∀ pair ∈ (constructs body).take place, Reads pair.2 tokens none tokens) :
    Gives id (firstOf (constructs body)) tokens rest x := by
  obtain ⟨within, found⟩ := List.getElem?_eq_some_iff.mp listed
  have split : constructs body =
      (constructs body).take place ++ (construct, p) :: (constructs body).drop (place + 1) := by
    rw [← found, getElem_cons_drop, take_append_drop]
  rw [split]
  exact gives_firstOf_append given _ _ declined

theorem reads_firstOf {rest : List Token} (listed : (constructs body)[place]? = some (construct, p))
    (read : Reads p tokens (some b) rest)
    (declined : ∀ pair ∈ (constructs body).take place, Reads pair.2 tokens none tokens) :
    Reads (firstOf (constructs body)) tokens b rest :=
  gives_firstOf (x := some b) place listed read declined

/-- The parsers between two places decline a statement whose first token is none of their words. -/
theorem declined_between (body : Body) (start place : Nat) (early : place ≤ 15) (t : Token) (rest : List Token)
    (noRoutine : 3 < place → ∀ endLine, opening? ⟨t :: rest, endLine⟩ = none)
    (others : ∀ construct ∈ (constructOrder.take place).drop start,
      ∀ word ∈ openingWords construct, t.isKeyword word = false) :
    ∀ pair ∈ ((constructs body).take place).drop start, Reads pair.2 (t :: rest) none (t :: rest) := by
  intro pair member
  have listed : pair.1 ∈ (constructOrder.take place).drop start := by
    rw [← constructs_order body, ← map_take, ← map_drop]
    exact mem_map_of_mem member
  have before : pair.1 ∈ constructOrder.take place := mem_of_mem_drop listed
  have plain : Construct.statement ∉ constructOrder.take 15 := by decide
  have noStatement : pair.1 ≠ .statement := by
    rintro same
    rw [same] at before
    exact plain (take_subset_take_left _ early before)
  have routineLater : Construct.routine ∉ constructOrder.take 3 := by decide
  refine declines body t rest pair (mem_of_mem_take (mem_of_mem_drop member)) noStatement ?_
    (others pair.1 listed)
  intro same
  refine noRoutine (Nat.lt_of_not_le fun early => routineLater ?_)
  rw [same] at before
  exact take_subset_take_left _ early before

theorem gives_blockAt {rest after : List Token} (starts : t.kind = .keyword ∨ t.isNameLike = true)
    (given : Gives id (firstOf (constructs body)) (t :: rest) after x) :
    Gives some (blockAt body t) (t :: rest) after x := by
  have code : blockAt body t = do return some (← firstOf (constructs body)) := by
    unfold blockAt
    cases kind : t.kind <;> simp_all [Token.isNameLike, Kind.isNameLike]
  rw [code, ← Option.bind_fun_some x]
  exact given.bind fun b _ => reads_pure _ _

theorem reads_blockAt {rest after : List Token} (starts : t.kind = .keyword ∨ t.isNameLike = true)
    (read : Reads (firstOf (constructs body)) (t :: rest) b after) :
    Reads (blockAt body t) (t :: rest) (some b) after :=
  gives_blockAt (x := some b) starts read

/-! ### What follows a statement -/

theorem routineKind?_closed (closed : Closed after) (front tokens : List Token) (line line' : Nat) :
    routineKind? ⟨front ++ (tokens ++ after), line⟩ front.length =
      routineKind? ⟨front ++ tokens, line'⟩ front.length := by
  rw [routineKind?_append, routineKind?_append]
  rcases after with _ | ⟨stop, more⟩
  · rw [append_nil]
    rfl
  · have kind : stop.kind = .terminator := beq_iff_eq.mp closed
    -- no more than three tokens are looked at
    rcases tokens with _ | ⟨a, _ | ⟨b, _ | ⟨c, rest⟩⟩⟩ <;>
      simp [routineKind?, Cursor.isKeywordAt, Cursor.isKeywordLikeAt, Cursor.holdsAt, peekAt?, Token.isKeyword,
        Token.isKeywordLike, Token.isNameLike, kind, Kind.isNameLike]

/-- Whether a routine starts is seen in the statement: what closes it is none of the words that are looked for. -/
theorem opening?_closed (closed : Closed after) (rest : List Token) (line line' : Nat) :
    opening? ⟨t :: (rest ++ after), line⟩ = opening? ⟨t :: rest, line'⟩ := by
  have here := routineKind?_closed closed [] (t :: rest) line line'
  have next := routineKind?_closed closed [t] rest line line'
  simp only [nil_append, cons_append, length_nil, length_singleton] at here next
  cases access : t.isKeyword "Public" || !t.isKeyword "Public" && t.isKeyword "Private" with
  | false =>
    simp only [opening?, isKeyword_cons, access, Bool.false_eq_true, if_false, Cursor.isKeywordLikeAt, holdsAt_zero]
    split
    · rw [next]
    · rw [here]
  | true =>
    simp only [opening?, isKeyword_cons, access, if_true]
    rcases rest with _ | ⟨u, more⟩
    · have unseen : Cursor.isKeywordLikeAt ⟨t :: ([] ++ after), line⟩ 1 "Default" = false := by
        rcases after with _ | ⟨stop, later⟩
        · rfl
        · simp [Cursor.isKeywordLikeAt, Token.isKeywordLike, beq_iff_eq.mp closed]
      rw [unseen]
      exact congrArg (Option.map _) next
    · have last := routineKind?_closed closed [t, u] more line line'
      simp only [Cursor.isKeywordLikeAt, cons_append, nil_append, holdsAt_succ, holdsAt_zero] at last ⊢
      split
      · exact congrArg (Option.map _) last
      · exact congrArg (Option.map _) next

/-! ### Plain statements -/

/-- How a parser of plain statements ends: it declines the statement, or what it gives does not depend on what closes
the statement. -/
def Settles (p : Parser (Option Block)) (tokens after : List Token) : Option (Option Block) → Prop
  | none => Reads p (tokens ++ after) none (tokens ++ after)
  | some x => Gives some p (tokens ++ after) (after.drop 1) x

theorem Takes.settles {f : List Token → Option (Except Fault Block)} (takes : Takes p f)
    (inside : ∀ u ∈ tokens, u.isTerminator = false) (closed : Closed after) :
    Settles p tokens after ((f tokens).map Except.toOption) := by
  cases made : f tokens with
  | none => exact takes.declines fun _ => by rw [Cursor.statement, (cut_closed inside closed).1, made]
  | some result => exact takes.gives inside closed made

/-- What `Exit` leaves. -/
def exitOf : List Token → Option (Option Block)
  | [] => none
  | t :: rest =>
    if t.isKeyword "Exit" then
      some ((rest.head?.bind fun u => exitWords.find? (u.isKeywordLike ·.1)).bind fun entry =>
        if (rest.drop 1).isEmpty then some (.exit entry.2 t.line) else none)
    else none

theorem settles_exit (inside : ∀ u ∈ t :: rest, u.isTerminator = false) (closed : Closed after) :
    Settles exit (t :: rest) after (exitOf (t :: rest)) := by
  rw [exitOf]
  split
  next opens =>
    have sees (line : Nat) : (exitWords.find? (Cursor.isKeywordLikeAt ⟨t :: rest ++ after, line⟩ 1 ·.1)) =
        rest.head?.bind fun u => exitWords.find? (u.isKeywordLike ·.1) := by
      rcases rest with _ | ⟨u, more⟩
      · rcases after with _ | ⟨stop, later⟩
        · rfl
        · exact find?_eq_none.mpr fun _ _ => by
            simp [Cursor.isKeywordLikeAt, Token.isKeywordLike, beq_iff_eq.mp closed]
      · rfl
    show Gives some exit _ _ _
    refine (reads_view (a := true) fun _ => opens).gives ((reads_view fun _ => rfl).gives ((reads_view sees).gives ?_))
    rcases rest with _ | ⟨u, more⟩
    · exact gives_throw
    rw [head?_cons, Option.bind_some]
    cases exitWords.find? (u.isKeywordLike ·.1) with
    | none => exact gives_throw
    | some entry =>
      refine (reads_advance [t, u] _ 2 rfl).gives ?_
      rcases more with _ | ⟨v, more⟩
      · rcases after with _ | ⟨stop, later⟩
        · exact reads_pure _ _
        · exact reads_ending closed later
      · have goesOn : v.isTerminator = false := inside v (by simp)
        have fails : Gives id expectTerminator (v :: (more ++ after)) [] none := by
          refine (reads_view (a := some v) fun _ => rfl).gives ?_
          simp only [goesOn]
          exact gives_throw
        exact fails.bind (y := fun _ => none) fun _ made => by cases made
  next other => exact reads_none_of_guard fun _ => by simpa using other

/-- The constructs that plain statements can be. -/
def plainConstructs : List Construct :=
  [.newInstance, .exit, .randomize, .call, .statement]

/-- What each parser of plain statements makes of the tokens of one, if it does not decline. -/
def plainOf? (tokens : List Token) : Construct → Option (Option Block)
  | .newInstance => (instanceOf tokens).map Except.toOption
  | .exit => exitOf tokens
  | .randomize => (openedBy "Randomize" seedOf tokens).map Except.toOption
  | .call => (openedBy "Call" callOf tokens).map Except.toOption
  | .statement => (statementOf tokens).map Except.toOption
  | _ => none

/-- What is made of the tokens of a plain statement: the first parser that does not decline decides. -/
def plainOf (tokens : List Token) (order : List Construct) : Option Block :=
  (order.findSome? (plainOf? tokens)).join

theorem gives_plainOf (entries : List (Construct × Parser (Option Block)))
    (settles : ∀ pair ∈ entries, Settles pair.2 tokens after (plainOf? tokens pair.1)) :
    Gives id (firstOf entries) (tokens ++ after) (after.drop 1) (plainOf tokens (entries.map (·.1))) := by
  induction entries with
  | nil => exact fun _ _ => by cases tokens ++ after <;> exact ⟨_, _, rfl⟩
  | cons pair entries ih =>
    obtain ⟨here, others⟩ := forall_mem_cons.mp settles
    rw [plainOf, map_cons, findSome?_cons]
    cases made : plainOf? tokens pair.1 with
    | none =>
      rw [made] at here
      exact here.gives (ih others)
    | some x =>
      rw [made] at here
      exact gives_firstOf_append here [] entries (forall_mem_nil _)

/-- The words that open an assignment, a call, `Exit` or `Randomize`. -/
def plainOpenings : List String :=
  ["Set", "Let", "Call", "Exit", "Randomize"]

/-- The tokens of one assignment, one call, one `Exit` or one `Randomize`, which need not be well formed. -/
structure IsPlain (tokens : List Token) : Prop where
  opens : tokens.head?.any (fun t => t.isNameLike || plainOpenings.any t.isKeyword) = true
  inside : ∀ t ∈ tokens, t.isTerminator = false
  noRoutine : opening? ⟨tokens, 0⟩ = none

theorem isPlain_keyword {word : String} (opens : word ∈ plainOpenings) (line : Nat)
    (inside : ∀ t ∈ tokens, t.isTerminator = false) : IsPlain (ofKeyword word line :: tokens) where
  opens := by simpa using ⟨word, opens, sameWord_self word⟩
  inside := forall_mem_cons.mpr ⟨rfl, inside⟩
  noRoutine := by
    have apart : ∀ word ∈ plainOpenings, ∀ other ∈ routineWords, sameWord word other = false := by decide
    exact opening?_none_of_keyword (t := ofKeyword word line) rfl (apart word opens) tokens 0

theorem IsNamedLine.isPlain (named : IsNamedLine tokens b) : IsPlain tokens where
  opens := by
    obtain ⟨first, rest, rfl, isName, -⟩ := named.starts
    simp [isName]
  inside := named.inside.open_end
  noRoutine := opening?_none_of_named named 0

/-- What is made of an assignment or a call that no other construct takes. -/
theorem plainOf_statement (made : statementOf (t :: rest) = some (.ok b))
    (others : ∀ word ∈ ["Exit", "Randomize", "Call"], t.isKeyword word = false) :
    plainOf (t :: rest) constructOrder = some b := by
  simp only [forall_mem_cons] at others
  obtain ⟨noExit, noRandomize, noCall, -⟩ := others
  simp only [plainOf, constructOrder, findSome?_cons, plainOf?, exitOf, openedBy, noExit, noRandomize, noCall, made]
  cases new : instanceOf (t :: rest) with
  | none => rfl
  | some result =>
    obtain rfl := Option.some.inj ((statementOf_of_instanceOf new).symm.trans made)
    rfl

theorem plainOf_randomize (line : Nat) (tokens : List Token) :
    plainOf (ofKeyword "Randomize" line :: tokens) constructOrder = (seedOf line tokens).toOption := by
  simp +decide [plainOf, constructOrder, findSome?_cons, plainOf?, instanceOf, exitOf, openedBy]
  rfl

theorem plainOf_call (line : Nat) (tokens : List Token) :
    plainOf (ofKeyword "Call" line :: tokens) constructOrder = (callOf line tokens).toOption := by
  simp +decide [plainOf, constructOrder, findSome?_cons, plainOf?, instanceOf, exitOf, openedBy]
  rfl

theorem IsNamedLine.plainOf (named : IsNamedLine tokens b) : plainOf tokens constructOrder = some b := by
  have made := named.made
  obtain ⟨first, rest, rfl, isName, -⟩ := named.starts
  exact plainOf_statement made fun word _ => isKeyword_of_isNameLike isName word

/-- No word with which a plain statement starts is one of some other words. -/
theorem isKeyword_of_plain {words : List String}
    (opens : t.isNameLike = true ∨ ∃ word ∈ plainOpenings, t.isKeyword word = true)
    (apart : ∀ word ∈ plainOpenings, ∀ other ∈ words, sameWord word other = false) :
    ∀ word ∈ words, t.isKeyword word = false := by
  intro other listed
  rcases opens with named | ⟨word, opening, opens⟩
  · exact isKeyword_of_isNameLike named other
  · exact (isKeyword_of_same opens other).trans (apart word opening other listed)

/-- What a plain statement gives is settled by its tokens, whatever closes it. No body ends at its first token. -/
theorem IsPlain.gives (plain : IsPlain tokens) : ∃ t rest, tokens = t :: rest ∧
    (∀ word ∈ closingWords, t.isKeyword word = false) ∧ ∀ body after, Closed after →
      Gives some (blockAt body t) (tokens ++ after) (after.drop 1) (plainOf tokens constructOrder) := by
  obtain ⟨t, opened, opens⟩ := (Option.any_eq_true ..).mp plain.opens
  obtain ⟨rest, rfl⟩ := head?_eq_some_iff.mp opened
  have opens : t.isNameLike = true ∨ ∃ word ∈ plainOpenings, t.isKeyword word = true := by
    simpa [plainOpenings] using opens
  have starts : t.kind = .keyword ∨ t.isNameLike = true := by
    rcases opens with named | ⟨word, -, opens⟩
    · exact .inr named
    · exact .inl (Token.isWord_of_isKeyword opens).1
  refine ⟨t, rest, rfl, isKeyword_of_plain opens (by decide), fun body after closed => gives_blockAt starts ?_⟩
  have noRoutine (line : Nat) : opening? ⟨t :: (rest ++ after), line⟩ = none :=
    (opening?_closed closed rest line 0).trans plain.noRoutine
  have apart : ∀ construct ∈ constructOrder, construct ∉ plainConstructs →
      ∀ word ∈ plainOpenings, ∀ other ∈ openingWords construct, sameWord word other = false := by decide +kernel
  have listed (pair : Construct × Parser (Option Block)) (member : pair ∈ constructs body) : pair.1 ∈ constructOrder :=
    constructs_order body ▸ mem_map_of_mem member
  rw [← constructs_order body]
  refine gives_plainOf (constructs body) fun ⟨construct, p⟩ member => ?_
  by_cases known : construct ∈ plainConstructs
  · simp only [plainConstructs, mem_cons, not_mem_nil, or_false] at known
    rcases known with rfl | rfl | rfl | rfl | rfl
    · obtain rfl : p = newInstance := by simpa [constructs] using member
      exact takes_newInstance.settles plain.inside closed
    · obtain rfl : p = exit := by simpa [constructs] using member
      exact settles_exit plain.inside closed
    · obtain rfl : p = randomize := by simpa [constructs] using member
      exact takes_randomize.settles plain.inside closed
    · obtain rfl : p = callStatement := by simpa [constructs] using member
      exact takes_callStatement.settles plain.inside closed
    · obtain rfl : p = statement := by simpa [constructs] using member
      exact takes_statement.settles plain.inside closed
  · have none : plainOf? (t :: rest) construct = none := by
      cases construct <;> first | rfl | exact absurd (by decide) known
    have noStatement : construct ≠ .statement := fun same => known (same ▸ by decide)
    rw [none]
    exact declines body t _ _ member noStatement (fun _ => noRoutine)
      (isKeyword_of_plain opens (apart construct (listed _ member) known))

end VbSharp.Parser
