import VbSharp.Proofs.Block.Running
import VbSharp.Proofs.Expr.Reading

/-!
# Plain statements as functions of their tokens

The parsers of plain statements look at the tokens up to the next terminator and at nothing else. Each of them declines
or passes over the whole statement, and which of the two it does, with what block or fault, is a function of these
tokens. For the two parsers that know `Set` the functions are compared: the one of new instances declines, or it answers
what the one of assignments and calls answers.
-/
namespace VbSharp.Parser

open List Cursor

variable {p : Parser (Option Block)} {f : List Token → Option (Except Fault Block)} {tokens after : List Token}
  {r r' : Reader} {b : Block}

variable {result : Except Fault Block}

/-- The statement before these tokens is over. -/
def Closed (after : List Token) : Prop :=
  after.head?.all Token.isTerminator = true

/-- How a parser of statements ends that declines, passes over the statement at the cursor, or fails. -/
inductive Answers (r : Reader) : Option (Except Fault Block) → EStateM.Result Fault Reader (Option Block) → Prop where
  | declined : Answers r none (.ok none r)
  | made (b : Block) : Answers r (some (.ok b)) (.ok (some b) { r with cursor := r.cursor.afterStatement })
  | failed (fault : Fault) (r' : Reader) : Answers r (some (.error fault)) (.error fault r')

/-- What the parser does is a function of the tokens of the statement at the cursor. -/
def Takes (p : Parser (Option Block)) (f : List Token → Option (Except Fault Block)) : Prop :=
  ∀ r, Answers r (f r.cursor.statement) (p r)

namespace Takes

theorem of_ok (takes : Takes p f) (ok : p r = .ok (some b) r') : f r.cursor.statement = some (.ok b) := by
  have answers := takes r
  rw [ok] at answers
  generalize f r.cursor.statement = made at answers ⊢
  cases answers
  rfl

theorem declines (takes : Takes p f) (unmade : ∀ endLine, f (Cursor.statement ⟨tokens, endLine⟩) = none) :
    Reads p tokens none tokens := by
  intro endLine log
  have answers := takes ⟨⟨tokens, endLine⟩, log⟩
  rw [unmade] at answers
  generalize p ⟨⟨tokens, endLine⟩, log⟩ = result at answers ⊢
  cases answers
  exact ⟨log, rfl⟩

section Closed

variable (takes : Takes p f) (inside : ∀ t ∈ tokens, t.isTerminator = false) (closed : Closed after)
include takes inside closed

theorem answers (endLine : Nat) (log : List Construct) : Answers ⟨⟨tokens ++ after, endLine⟩, log⟩ (f tokens)
    (p ⟨⟨tokens ++ after, endLine⟩, log⟩) := by
  have here := takes ⟨⟨tokens ++ after, endLine⟩, log⟩
  rwa [Cursor.statement, (cut_closed inside closed).1] at here

theorem gives (made : f tokens = some result) : Gives some p (tokens ++ after) (after.drop 1) result.toOption := by
  have left (endLine : Nat) : afterStatement ⟨tokens ++ after, endLine⟩ = ⟨after.drop 1, endLine⟩ := by
    rw [afterStatement, (cut_closed inside closed).2, skipTerminator_closed closed]
  have here := takes.answers inside closed
  rw [made] at here
  cases result with
  | ok b =>
    intro endLine log
    refine ⟨log, ?_⟩
    rw [← left]
    have answers := here endLine log
    generalize p ⟨⟨tokens ++ after, endLine⟩, log⟩ = result at answers
    cases answers
    rfl
  | error fault =>
    intro endLine log
    have answers := here endLine log
    generalize p ⟨⟨tokens ++ after, endLine⟩, log⟩ = result at answers
    cases answers
    exact ⟨fault, _, rfl⟩

end Closed
end Takes

/-! ### The parsers -/

/-- `Set x = New Thing` -/
def instanceOf : List Token → Option (Except Fault Block)
  | [] => none
  | first :: rest =>
    if !first.isKeyword "Set" then none
    else match splitAtEquals 0 rest with
      | some (left, [new, className]) =>
        if !(new.isKeyword "New" && className.isNameLike) then none
        else some ((target left first.line).map (.assignment .object · [.new className]))
      | _ => none

/-- An assignment or a call. -/
def statementOf : List Token → Option (Except Fault Block)
  | [] => none
  | first :: rest =>
    if first.kind = .keyword then
      match unsupportedStatements.find? first.isWord with
      | some word => some (.error (.unsupported first.lineNumber (.statement word)))
      | none => (assignKind? first).map fun kind =>
        match splitAtEquals 0 rest with
        | none => .error (.malformed first.lineNumber .assignmentWithoutEquals)
        | some (left, right) => assignment kind left right first.line
    else if first.isNameLike then some (namedStatement (first :: rest) first.line)
    else none

/-- A statement that a word of its own opens. -/
def openedBy (word : String) (f : Nat → List Token → Except Fault Block) : List Token → Option (Except Fault Block)
  | [] => none
  | first :: rest => if first.isKeyword word then some (f first.line rest) else none

/-- What `Call` calls. -/
def callOf (line : Nat) (tokens : List Token) : Except Fault Block := do
  let e ← Expr.read tokens line
  if Expr.isChain e then return .call e true else throw (.malformed (line + 1) .callOfNothing)

/-- The seed behind `Randomize`. -/
def seedOf (line : Nat) (tokens : List Token) : Except Fault Block :=
  if tokens.isEmpty then .ok (.randomize none line)
  else (Expr.read tokens line).map fun e => .randomize (some e) line

theorem statement_cons {t : Token} (goesOn : t.isTerminator = false) (rest : List Token) (endLine : Nat) :
    Cursor.statement ⟨t :: rest, endLine⟩ = t :: Cursor.statement ⟨rest, endLine⟩ ∧
      afterStatement ⟨t :: rest, endLine⟩ = afterStatement ⟨rest, endLine⟩ := by
  simp [Cursor.statement, afterStatement, goesOn]

theorem view_bind {α β : Type} (f : Cursor → α) (next : α → Parser β) (r : Reader) :
    (view f >>= next) r = next (f r.cursor) r := rfl

theorem answers_lift {s : Reader} (moved : s = { r with cursor := r.cursor.afterStatement }) :
    Answers r (some result) ((some <$> lift result : Parser (Option Block)) s) := by
  subst moved
  cases result with
  | error fault => exact .failed fault _
  | ok b => exact .made b

theorem takes_newInstance : Takes newInstance instanceOf := by
  intro r
  unfold newInstance
  rw [view_bind]
  cases r.cursor.statement with
  | nil => exact .declined
  | cons first rest =>
    simp only [instanceOf]
    cases first.isKeyword "Set" with
    | false => exact .declined
    | true =>
      rcases splitAtEquals 0 rest with _ | ⟨left, _ | ⟨new, _ | ⟨className, _ | ⟨_, _⟩⟩⟩⟩
      case none | some.nil | some.cons.nil | some.cons.cons.cons => exact .declined
      case some.cons.cons.nil =>
        simp only
        cases new.isKeyword "New" && className.isNameLike with
        | false => exact .declined
        | true =>
          cases target left first.line with
          | error fault => exact .failed fault r
          | ok e => exact .made _

theorem takes_statement : Takes statement statementOf := by
  rintro ⟨⟨tokens, endLine⟩, log⟩
  unfold statement
  rw [view_bind]
  cases tokens with
  | nil => exact .declined
  | cons first rest =>
    by_cases isEnd : first.isTerminator = true
    · have kind : first.kind = .terminator := beq_iff_eq.mp isEnd
      simp only [Cursor.statement, takeWhile_cons, isEnd, peek?_cons, kind, Token.isNameLike, Kind.isNameLike]
      exact .declined
    · obtain ⟨taken, left⟩ := statement_cons (Bool.eq_false_iff.mpr isEnd) rest endLine
      simp only [taken, peek?_cons, statementOf]
      by_cases keyword : first.kind = .keyword
      · simp only [keyword, if_true]
        cases unsupportedStatements.find? first.isWord with
        | some word => exact .failed _ _
        | none =>
          cases assignKind? first with
          | none => exact .declined
          | some kind =>
            have moved : Reader.mk (afterStatement ⟨rest, endLine⟩) log =
                ⟨afterStatement ⟨first :: rest, endLine⟩, log⟩ := by rw [left]
            show Answers _ (some (match splitAtEquals 0 (Cursor.statement ⟨rest, endLine⟩) with
              | none => _
              | some (left, right) => _)) ((match splitAtEquals 0 (Cursor.statement ⟨rest, endLine⟩) with
              | none => _
              | some (left, right) => _ : Parser (Option Block)) _)
            cases splitAtEquals 0 (Cursor.statement ⟨rest, endLine⟩) with
            | none => exact .failed _ _
            | some sides => exact answers_lift moved
      · simp only [keyword, if_false]
        cases first.isNameLike with
        | false => exact .declined
        | true =>
          rw [← taken]
          exact answers_lift rfl

theorem takes_opened {word : String} {next : Nat → List Token → Parser (Option Block)}
    {f : Nat → List Token → Except Fault Block} (each : ∀ {line tokens r s},
      s = { r with cursor := r.cursor.afterStatement } → Answers r (some (f line tokens)) (next line tokens s)) :
    Takes (do
      if !(← view (·.isKeyword word)) then return none
      let line ← view Cursor.line
      move (·.advance 1)
      next line (← takeStatement)) (openedBy word f) := by
  rintro ⟨⟨tokens, endLine⟩, log⟩
  rw [view_bind]
  cases tokens with
  | nil => exact .declined
  | cons first rest =>
    cases opens : first.isKeyword word with
    | false =>
      simp only [isKeyword_cons, opens]
      have declines : openedBy word f (Cursor.statement ⟨first :: rest, endLine⟩) = none := by
        rw [Cursor.statement, takeWhile_cons]
        split
        · exact if_neg (by simp [opens])
        · rfl
      rw [declines]
      exact .declined
    | true =>
      obtain ⟨taken, left⟩ := statement_cons (Token.isTerminator_of_isKeyword opens) rest endLine
      simp only [isKeyword_cons, taken, openedBy, opens, if_true]
      exact each (by rw [left]; rfl)

theorem takes_callStatement : Takes callStatement (openedBy "Call" callOf) := by
  refine takes_opened fun {line tokens r s} moved => ?_
  subst moved
  unfold callOf expression
  cases Expr.read tokens line with
  | error fault => exact .failed fault _
  | ok e =>
    show Answers r (some (if Expr.isChain e then _ else _)) ((if !Expr.isChain e then _ else _ : Parser (Option Block)) _)
    cases Expr.isChain e with
    | false => exact .failed _ _
    | true => exact .made _

theorem takes_randomize : Takes randomize (openedBy "Randomize" seedOf) := by
  refine takes_opened fun {line tokens r s} moved => ?_
  subst moved
  unfold seedOf expression
  cases tokens with
  | nil => exact .made _
  | cons t rest =>
    cases Expr.read (t :: rest) line with
    | error fault => exact .failed fault _
    | ok e => exact .made _

/-! ### New instances -/

/-- An instance that is made of the tokens is what an assignment makes of them. -/
theorem statementOf_of_instanceOf (made : instanceOf tokens = some result) : statementOf tokens = some result := by
  cases tokens with
  | nil => cases made
  | cons first rest =>
    simp only [instanceOf] at made
    split at made
    · cases made
    next isSet =>
      rcases cut : splitAtEquals 0 rest with _ | ⟨left, _ | ⟨new, _ | ⟨className, _ | ⟨_, _⟩⟩⟩⟩ <;>
        simp only [cut] at made
      case none | some.nil | some.cons.nil | some.cons.cons.cons => cases made
      case some.cons.cons.nil =>
        split at made
        · cases made
        next isNew =>
          obtain rfl := Option.some.inj made
          obtain ⟨isNew, named⟩ : new.isKeyword "New" = true ∧ className.isNameLike = true := by simpa using isNew
          obtain ⟨keyword, word⟩ := Token.isWord_of_isKeyword (show first.isKeyword "Set" = true by simpa using isSet)
          have supported : unsupportedStatements.find? first.isWord = none := by
            rw [word]
            decide
          have opens : assignKind? first = some .object := by
            simp only [assignKind?, word]
            decide
          simp only [statementOf, keyword, if_true, supported, opens, Option.map_some, cut, assignment,
            Expr.read_new isNew named]
          cases target left first.line <;> rfl

/-- Where the parser of new instances makes a block, the parser of assignments makes the same and leaves the cursor at
the same place, and where it fails that one fails for the same reason. -/
theorem newInstance_agrees_with_statement (r : Reader) :
    (∀ b r', newInstance r = .ok (some b) r' → statement r = .ok (some b) r') ∧
      ∀ fault r', newInstance r = .error fault r' → ∃ r'', statement r = .error fault r'' := by
  have instances := takes_newInstance r
  have statements := takes_statement r
  cases made : instanceOf r.cursor.statement with
  | none =>
    rw [made] at instances
    generalize newInstance r = result at instances ⊢
    cases instances
    exact ⟨nofun, nofun⟩
  | some result =>
    rw [statementOf_of_instanceOf made] at statements
    rw [made] at instances
    generalize newInstance r = one at instances ⊢
    generalize statement r = other at statements ⊢
    cases instances with
    | made b =>
      cases statements
      exact ⟨fun _ _ ok => ok, nofun⟩
    | failed fault =>
      cases statements
      refine ⟨nofun, ?_⟩
      rintro _ _ ⟨⟩
      exact ⟨_, rfl⟩

/-- The tokens of `Set a(i = 1).b = New Thing`, with another token in the place of `a`. -/
def instanceTokens (first : Token) : List Token :=
  [⟨.keyword, "Set", 0⟩, first, ⟨.openBracket, "(", 0⟩, ⟨.name, "i", 0⟩, ⟨.comparison, "=", 0⟩, ⟨.number, "1", 0⟩,
    ⟨.closeBracket, ")", 0⟩, ⟨.member, ".", 0⟩, ⟨.name, "b", 0⟩, ⟨.comparison, "=", 0⟩, ⟨.keyword, "New", 0⟩,
    ⟨.name, "Thing", 0⟩]

theorem newInstance_agrees_with_statement_compared :
    (∃ b r', newInstance ⟨⟨instanceTokens ⟨.name, "a", 0⟩, 0⟩, []⟩ = .ok (some b) r' ∧
      statement ⟨⟨instanceTokens ⟨.name, "a", 0⟩, 0⟩, []⟩ = .ok (some b) r') ∧
    ∃ fault r' r'', newInstance ⟨⟨instanceTokens ⟨.comma, ",", 0⟩, 0⟩, []⟩ = .error fault r' ∧
      statement ⟨⟨instanceTokens ⟨.comma, ",", 0⟩, 0⟩, []⟩ = .error fault r'' := by
  have made : (instanceOf (instanceTokens ⟨.name, "a", 0⟩)).map (·.toOption.isSome) = some true := by decide +kernel
  have failed : (instanceOf (instanceTokens ⟨.comma, ",", 0⟩)).map (·.toOption.isSome) = some false := by decide +kernel
  obtain ⟨result, made, isOk⟩ := Option.map_eq_some_iff.mp made
  obtain ⟨result', failed, isError⟩ := Option.map_eq_some_iff.mp failed
  obtain ⟨b, isOk⟩ := Option.isSome_iff_exists.mp isOk
  have read := takes_newInstance.gives (by decide) (rfl : Closed []) made
  have unread := takes_newInstance.gives (by decide) (rfl : Closed []) failed
  rw [isOk, append_nil] at read
  rw [Option.isNone_iff_eq_none.mp (Option.isSome_eq_false_iff.mp isError), append_nil] at unread
  obtain ⟨log, read⟩ := read 0 []
  obtain ⟨fault, r', unread⟩ := unread 0 []
  obtain ⟨r'', same⟩ := (newInstance_agrees_with_statement _).2 _ _ unread
  exact ⟨⟨b, _, read, (newInstance_agrees_with_statement _).1 _ _ read⟩, fault, r', r'', unread, same⟩

end VbSharp.Parser
