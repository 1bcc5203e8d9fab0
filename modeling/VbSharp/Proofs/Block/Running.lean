import VbSharp.Block.Parse

/-!
# Runs of the statement parsers

A parser reads some tokens if it passes over them with a given answer, whatever line is reported at the
end and whatever has been recognised before. Runs compose: the rules below follow the steps of which the
parsers are made, so a construct is followed through its text without opening the state.
-/
namespace VbSharp

variable {test : Token → Bool} {fault : Fault} {after statement before : List Token} {stop : Token}
  {blocks : List Block}

namespace Token

variable {t : Token} {word : String}

theorem isTerminator_of_isKeyword (keyword : t.isKeyword word = true) : t.isTerminator = false := by
  simp only [isKeyword, Bool.and_eq_true, beq_iff_eq] at keyword
  simp [isTerminator, keyword.1]

theorem isWord_of_isKeyword (keyword : t.isKeyword word = true) : t.kind = .keyword ∧ t.isWord = sameWord word := by
  simp only [isKeyword, isWord, Bool.and_eq_true, beq_iff_eq] at keyword
  refine ⟨keyword.1, funext fun other => ?_⟩
  rw [isWord, sameWord, sameWord_iff.mp keyword.2, sameWord]

theorem isTerminator_of_isKeywordLike (given : t.isKeywordLike word = true) : t.isTerminator = false := by
  simp only [isKeywordLike, Bool.and_eq_true, Bool.or_eq_true, beq_iff_eq] at given
  rcases given.1 with kind | kind <;> simp [isTerminator, kind]

theorem isTerminator_of_isNameLike (named : t.isNameLike = true) : t.isTerminator = false := by
  cases kind : t.kind <;> simp_all [isNameLike, Kind.isNameLike, isTerminator]

theorem isTerminator_of_isLineEnd (isEnd : t.isLineEnd = true) : t.isTerminator = true := by
  simp only [isLineEnd, Bool.and_eq_true] at isEnd
  exact isEnd.1

theorem isLineEnd_of_isTerminator (goesOn : t.isTerminator = false) : t.isLineEnd = false := by
  simp only [isTerminator] at goesOn
  simp [isLineEnd, goesOn]

end Token

namespace Cursor

variable (t : Token) (rest : List Token) (endLine : Nat)

@[simp] theorem line_cons : line ⟨t :: rest, endLine⟩ = t.line := rfl

@[simp] theorem peek?_cons : peek? ⟨t :: rest, endLine⟩ = some t := rfl

@[simp] theorem holdsAt_zero (test : Token → Bool) : holdsAt ⟨t :: rest, endLine⟩ 0 test = test t := rfl

@[simp] theorem holdsAt_succ (offset : Nat) (test : Token → Bool) :
    holdsAt ⟨t :: rest, endLine⟩ (offset + 1) test = holdsAt ⟨rest, endLine⟩ offset test := by
  simp [holdsAt, peekAt?]

@[simp] theorem isKeyword_cons (word : String) : isKeyword ⟨t :: rest, endLine⟩ word = t.isKeyword word := rfl

end Cursor

namespace Parser

open List

variable {α β : Type}

/-- The parser turns the tokens into an answer and leaves the rest of them. -/
def Reads (p : Parser α) (tokens : List Token) (a : α) (rest : List Token) : Prop :=
  ∀ (endLine : Nat) (log : List Construct), ∃ log', p ⟨⟨tokens, endLine⟩, log⟩ = .ok a ⟨⟨rest, endLine⟩, log'⟩

/-! ### Steps -/

theorem reads_pure (a : α) (tokens : List Token) : Reads (pure a) tokens a tokens :=
  fun _ log => ⟨log, rfl⟩

theorem Reads.bind {p : Parser α} {f : α → Parser β} {tokens between rest : List Token} {a : α} {b : β}
    (first : Reads p tokens a between) (second : Reads (f a) between b rest) : Reads (p >>= f) tokens b rest := by
  intro endLine log
  obtain ⟨log₁, first⟩ := first endLine log
  obtain ⟨log₂, second⟩ := second endLine log₁
  refine ⟨log₂, ?_⟩
  show EStateM.bind p f _ = _
  simp only [EStateM.bind, first, second]

theorem reads_view {f : Cursor → α} {tokens : List Token} {a : α}
    (sees : ∀ endLine, f ⟨tokens, endLine⟩ = a) : Reads (view f) tokens a tokens := by
  intro endLine log
  exact ⟨log, by rw [← sees endLine]; rfl⟩

theorem reads_view_rest (f : List Token → α) (tokens : List Token) :
    Reads (view fun c => f c.rest) tokens (f tokens) tokens :=
  reads_view fun _ => rfl

theorem reads_line (tokens : List Token) (filled : tokens ≠ []) :
    ∃ line, Reads (view Cursor.line) tokens line tokens := by
  obtain ⟨t, rest, rfl⟩ := exists_cons_of_ne_nil filled
  exact ⟨t.line, reads_view fun _ => rfl⟩

theorem reads_move {f : Cursor → Cursor} {tokens rest : List Token}
    (moves : ∀ endLine, f ⟨tokens, endLine⟩ = ⟨rest, endLine⟩) : Reads (move f) tokens () rest := by
  intro endLine log
  exact ⟨log, by rw [← moves endLine]; rfl⟩

theorem reads_lift {result : Except Fault α} {a : α} (ok : result = .ok a) (tokens : List Token) :
    Reads (lift result) tokens a tokens := by
  rw [ok]
  exact reads_pure a tokens

theorem reads_advance (passed rest : List Token) (count : Nat) (all : passed.length = count) :
    Reads (move (·.advance count)) (passed ++ rest) () rest :=
  reads_move fun _ => by simp [Cursor.advance, ← all]

theorem reads_advance_one (t : Token) (rest : List Token) : Reads (move (·.advance 1)) (t :: rest) () rest :=
  reads_move fun _ => rfl

theorem Reads.guarded {test : Cursor → Bool} {p : Parser (Option β)} {tokens rest : List Token} {answer : Option β}
    (here : ∀ endLine, test ⟨tokens, endLine⟩ = true) (read : Reads p tokens answer rest) :
    Reads (view test >>= fun found => if !found then pure none else p) tokens answer rest :=
  .bind (reads_view here) (by simpa using read)

/-- The same test with the token that opens the construct passed over. -/
theorem Reads.opened {test : Cursor → Bool} {t : Token} {next : Nat → Parser (Option β)} {tokens rest : List Token}
    {answer : Option β} (here : ∀ endLine, test ⟨t :: tokens, endLine⟩ = true)
    (read : Reads (next t.line) tokens answer rest) :
    Reads (view test >>= fun found => if !found then pure none else
      view Cursor.line >>= fun line => move (·.advance 1) >>= fun _ => next line) (t :: tokens) answer rest :=
  .guarded here (.bind (reads_view fun _ => rfl) (.bind (reads_advance_one _ _) read))

theorem reads_none_of_guard {test : Cursor → Bool} {p : Parser (Option β)} {tokens : List Token}
    (elsewhere : ∀ endLine, test ⟨tokens, endLine⟩ = false) :
    Reads (view test >>= fun found => if !found then pure none else p) tokens none tokens :=
  .bind (reads_view elsewhere) (by simpa using reads_pure none tokens)

/-! ### Success or failure -/

section Outcome

variable {γ δ : Type} {tokens between rest : List Token} {p : Parser α} {f : α → Parser β} {g : γ → β} {h : δ → α}

/-- The parser fails on the tokens. -/
def Fails (p : Parser α) (tokens : List Token) : Prop :=
  ∀ (endLine : Nat) (log : List Construct), ∃ fault r, p ⟨⟨tokens, endLine⟩, log⟩ = .error fault r

/-- What a parser gives on the tokens: an answer, made by `h`, or a failure. -/
def Gives (h : δ → α) (p : Parser α) (tokens rest : List Token) : Option δ → Prop
  | some d => Reads p tokens (h d) rest
  | none => Fails p tokens

theorem Gives.bind {x : Option δ} {y : δ → Option γ} (first : Gives h p tokens between x)
    (later : ∀ d, x = some d → Gives g (f (h d)) between rest (y d)) : Gives g (p >>= f) tokens rest (x.bind y) := by
  cases x with
  | none =>
    intro endLine log
    obtain ⟨fault, r, failed⟩ := first endLine log
    refine ⟨fault, r, ?_⟩
    show EStateM.bind p f _ = _
    simp only [EStateM.bind, failed]
  | some d =>
    have later := later d rfl
    rw [Option.bind_some]
    generalize y d = z at later
    cases z with
    | some c => exact Reads.bind first later
    | none =>
      intro endLine log
      obtain ⟨log', read⟩ := first endLine log
      obtain ⟨fault, r, failed⟩ := later endLine log'
      refine ⟨fault, r, ?_⟩
      show EStateM.bind p f _ = _
      simp only [EStateM.bind, read, failed]

theorem Reads.gives {a : α} {x : Option γ} (first : Reads p tokens a between)
    (later : Gives g (f a) between rest x) : Gives g (p >>= f) tokens rest x :=
  Gives.bind (h := id) (x := some a) (y := fun _ => x) first fun _ same => Option.some.inj same ▸ later

theorem gives_throw : Gives h (throw fault) tokens rest none :=
  fun _ _ => ⟨fault, _, rfl⟩

theorem gives_lift (result : Except Fault α) : Gives id (lift result) tokens tokens result.toOption := by
  cases result with
  | ok a => exact reads_pure a tokens
  | error fault => exact gives_throw (h := id)

end Outcome

/-! ### What a run that succeeds has done -/

section Inversion

variable {a : α} {b : β} {r r' : Reader}

theorem except_bind_iff {x : Except Fault α} {f : α → Except Fault β} :
    x >>= f = .ok b ↔ ∃ a, x = .ok a ∧ f a = .ok b := by
  cases x <;> simp [bind, Except.bind]

theorem except_pure_iff {answer : α} : (pure answer : Except Fault α) = .ok a ↔ answer = a := by
  simp [pure, Except.pure]

theorem ok_bind_iff {p : Parser α} {f : α → Parser β} :
    (p >>= f) r = .ok b r' ↔ ∃ a between, p r = .ok a between ∧ f a between = .ok b r' := by
  show EStateM.bind p f r = _ ↔ _
  unfold EStateM.bind
  cases p r with
  | ok a between => simp [and_assoc]
  | error fault stopped => simp

theorem ok_pure_iff {answer : α} : (pure answer : Parser α) r = .ok a r' ↔ answer = a ∧ r = r' :=
  EStateM.Result.ok.injEq .. ▸ Iff.rfl

theorem not_ok_throw : ¬(throw fault : Parser α) r = .ok a r' :=
  fun ok => by cases ok

end Inversion

/-! ### Statements and their ends -/

theorem takeWhile_cut (before rest : List Token) (stop : Token) (inside : ∀ t ∈ before, test t = false)
    (stops : test stop = true) : (before ++ stop :: rest).takeWhile (!test ·) = before := by
  rw [takeWhile_append_of_pos fun t member => by simp [inside t member]]
  simp [stops]

theorem dropWhile_cut (before rest : List Token) (stop : Token) (inside : ∀ t ∈ before, test t = false)
    (stops : test stop = true) : (before ++ stop :: rest).dropWhile (!test ·) = stop :: rest := by
  rw [dropWhile_append_of_pos fun t member => by simp [inside t member]]
  simp [stops]

theorem cut_closed (inside : ∀ t ∈ before, test t = false) (closed : after.head?.all test = true) :
    (before ++ after).takeWhile (!test ·) = before ∧ (before ++ after).dropWhile (!test ·) = after := by
  have goOn : ∀ t ∈ before, (!test t) = true := by simpa using inside
  rw [takeWhile_append_of_pos goOn, dropWhile_append_of_pos goOn]
  cases after with
  | nil => simp
  | cons stop rest => simp [show test stop = true from closed]

theorem skipTerminator_closed (closed : after.head?.all Token.isTerminator = true) (endLine : Nat) :
    Cursor.skipTerminator ⟨after, endLine⟩ = ⟨after.drop 1, endLine⟩ := by
  cases after with
  | nil => rfl
  | cons stop rest => exact if_pos closed

theorem drop_cut (before rest : List Token) (stop : Token) :
    (before ++ stop :: rest).drop (before.length + 1) = rest := by
  rw [append_cons]
  exact drop_left' (by simp)

theorem afterStatement_eq (statement rest : List Token) (stop : Token) (endLine : Nat)
    (inside : ∀ t ∈ statement, t.isTerminator = false) (stops : stop.isTerminator = true) :
    Cursor.afterStatement ⟨statement ++ stop :: rest, endLine⟩ = ⟨rest, endLine⟩ := by
  rw [Cursor.afterStatement, dropWhile_cut statement rest stop inside stops]
  simp [Cursor.skipTerminator, stops]

theorem reads_takeStatement {rest : List Token} (inside : ∀ t ∈ statement, t.isTerminator = false)
    (stops : stop.isTerminator = true) : Reads takeStatement (statement ++ stop :: rest) statement rest :=
  .bind (reads_view fun _ => takeWhile_cut statement rest stop inside stops)
    (.bind (reads_move fun _ => afterStatement_eq statement rest stop _ inside stops)
      (reads_pure _ _))

theorem reads_takeStatement_nil (stops : stop.isTerminator = true) (rest : List Token) :
    Reads takeStatement (stop :: rest) [] rest :=
  reads_takeStatement (forall_mem_nil _) stops

theorem reads_skipTerminator (stops : stop.isTerminator = true) (rest : List Token) :
    Reads (move Cursor.skipTerminator) (stop :: rest) () rest :=
  reads_move fun _ => by simp [Cursor.skipTerminator, stops]

theorem reads_expect {what : String} {t : Token} (passes : test t = true) (rest : List Token) :
    Reads (expect test what) (t :: rest) t rest := by
  refine .bind (reads_view (a := some t) fun _ => rfl) ?_
  simp only [passes, if_true]
  exact .bind (reads_move fun _ => rfl) (reads_pure t rest)

theorem reads_expectTerminator (stops : stop.isTerminator = true) (rest : List Token) :
    Reads expectTerminator (stop :: rest) () rest := by
  refine .bind (reads_view (a := some stop) fun _ => rfl) ?_
  simp only [stops, if_true]
  exact reads_move fun _ => rfl

theorem reads_ending {a : α} (stops : stop.isTerminator = true) (rest : List Token) :
    Reads (do expectTerminator; return a) (stop :: rest) a rest :=
  .bind (reads_expectTerminator stops rest) (reads_pure _ _)

theorem reads_next? (t : Token) (rest : List Token) : Reads next? (t :: rest) (some t) rest :=
  .bind (reads_view (a := some t) fun _ => rfl) (.bind (reads_move fun _ => rfl) (reads_pure _ _))

/-! ### Bodies -/

theorem reads_bodyUntil {body : Body} {ends : Ends} {tokens rest : List Token} {found : Nat}
    (read : Reads (body ends) tokens (blocks, some found) rest) (openedOn : Nat) :
    Reads (bodyUntil body ends openedOn) tokens (blocks, found) rest :=
  .bind read (reads_pure _ _)

theorem reads_bodyThrough {body : Body} {words : List String} {tokens rest : List Token} (ending : List Token)
    (length : ending.length = words.length) (read : Reads (body [words]) tokens (blocks, some 0) (ending ++ rest))
    (openedOn : Nat) : Reads (bodyThrough body words openedOn) tokens blocks rest :=
  .bind (reads_bodyUntil read openedOn)
    (.bind (reads_advance ending rest words.length length) (reads_pure _ _))

/-- Tokens that stand on their own are parsed from their start, and the cursor returns. -/
theorem inlineBlocks_apply (body : Body) (tokens : List Token) (r : Reader) :
    inlineBlocks body tokens r =
      match body [] ⟨.ofTokens tokens, r.recognised⟩ with
      | .ok answer s => .ok answer.1 { s with cursor := r.cursor }
      | .error fault s => .error fault { s with cursor := r.cursor } := by
  have opened (next : Cursor → Reader → Parser (List Block)) :
      (do let outer ← view id; move fun _ => .ofTokens tokens; next outer (← get) : Parser (List Block)) r =
        next r.cursor ⟨.ofTokens tokens, r.recognised⟩ ⟨.ofTokens tokens, r.recognised⟩ := rfl
  refine (opened _).trans ?_
  unfold EStateM.run
  cases body [] ⟨.ofTokens tokens, r.recognised⟩ <;> rfl

/-! ### The choice of a construct -/

theorem gives_firstOf_append {p : Parser (Option Block)} {construct : Construct} {tokens rest : List Token}
    {x : Option Block} (given : Gives some p tokens rest x) (earlier later : List (Construct × Parser (Option Block)))
    (declined : ∀ pair ∈ earlier, Reads pair.2 tokens none tokens) :
    Gives id (firstOf (earlier ++ (construct, p) :: later)) tokens rest x := by
  induction earlier with
  | nil =>
    rw [← Option.bind_fun_some x]
    exact given.bind fun b _ _ log => ⟨construct :: log, rfl⟩
  | cons pair earlier ih =>
    obtain ⟨first, others⟩ := forall_mem_cons.mp declined
    exact first.gives (ih others)

end Parser
end VbSharp
