import VbSharp.Proofs.Block.Pace

/-!
# Constructs in two runs

Every construct keeps pace if the parsers of its bodies do. A construct starts within a line and, where it is
recognised, leaves both runs where the next statement may start, with fewer tokens before them. The budgets of the two
runs need not be the same, as long as each has a turn for every token.
-/
namespace VbSharp.Pace

open List Token Cursor
open VbSharp.Parser

variable {ends : Ends}

variable {found offset budget' budget words : Nat} {t u : Token}

variable {L : Likeness} {P : Pace L} {n m : Nat} {c d : Cursor} {body body' : Body} {l l' : Nat} {e f : Expr}

/-! ### Bodies -/

/-- What a parser of bodies hands back: alike blocks, and which end was found. -/
def AlikeBody {α : Type} (L : Likeness) (x y : List Block × α) : Prop :=
  Forall₂ (Block.Alike L) x.1 y.1 ∧ x.2 = y.2

/-- The cursors stand on one of the ends, and its line goes on behind it. -/
structure EndsAt (P : Pace L) (ends : Ends) (n found : Nat) (c d : Cursor) : Prop where
  here : P.Inside n c d
  filled : 0 < c.rest.length
  listed : found < ends.length
  behind : ∀ words, ends[found]? = some words →
    P.Inside (n - words.length) (c.advance words.length) (d.advance words.length)

theorem Inside.endsAt (here : P.Inside n c d) (filled : 0 < c.rest.length) (seen : Parser.endAt? ends c = some found) :
    P.EndsAt ends n found c d := by
  obtain ⟨listed, starts, -⟩ := findIdx?_eq_some_iff_getElem.mp seen
  refine ⟨here, filled, listed, fun words same => ?_⟩
  rw [getElem?_eq_getElem listed, Option.some.injEq] at same
  exact (here.startsWith words).2 (same ▸ starts)

theorem EndsAt.pos (stands : P.EndsAt ends n found c d) : 0 < n :=
  Nat.lt_of_lt_of_le stands.filled stands.here.short

theorem EndsAt.exact (stands : P.EndsAt ends n found c d) :
    P.EndsAt ends c.rest.length found c d where
  here := ⟨stands.here.stands, Nat.le_refl _⟩
  filled := stands.filled
  listed := stands.listed
  behind words same := ⟨(stands.behind words same).stands, by simp [Cursor.advance]⟩

theorem endAt?_of_comment (worded : [] ∉ ends) (next : c.peek? = some t) (code : ∀ word, t.isKeyword word = false) :
    Parser.endAt? ends c = none := by
  refine findIdx?_eq_none_iff.mpr fun words listed => ?_
  obtain ⟨first, others, rfl⟩ := exists_cons_of_ne_nil (ne_of_mem_of_not_mem listed worded)
  have unseen : c.isKeyword first = false := by
    rw [Cursor.isKeyword, Cursor.isKeywordAt, holdsAt_eq]
    exact (congrArg (Option.any _) next).trans (code first)
  simp [Cursor.startsWith, unseen]

theorem Between.endAt? (here : P.Between n c d) (next : c.peek? = some t) (worded : [] ∉ ends) :
    Parser.endAt? ends c = Parser.endAt? ends d ∧ ∀ {found}, Parser.endAt? ends c = some found → P.Inside n c d := by
  obtain ⟨u, next', looks, inside | ⟨shown, -⟩⟩ := P.turn here.stands next
  · have inside : P.Inside n c d := ⟨inside, here.short⟩
    exact ⟨inside.endAt? ends, fun _ => inside⟩
  · have code (word : String) : t.isKeyword word = false := by rcases shown with kind | kind <;> simp [Token.isKeyword, kind]
    have unseen := endAt?_of_comment worded next code
    rw [unseen, endAt?_of_comment worded next' fun word => (looks.isKeyword word).symm.trans (code word)]
    exact ⟨rfl, nofun⟩

/-- Two parsers of bodies that keep pace from at most `n` tokens on. -/
structure Bodies (P : Pace L) (n : Nat) (body body' : Body) : Prop where
  ended (ends : Ends) {l l' m : Nat} {c d : Cursor} (lines : l' = l + L.shift) (short : m ≤ n) (here : P.Between m c d)
    (worded : [] ∉ ends) :
    P.Follows (bodyUntil body ends l) (bodyUntil body' ends l') c d fun x y r s =>
      AlikeBody L x y ∧ P.EndsAt ends m x.2 r s
  inline {tokens others : List Token} (alike : AlikeLines L true tokens others) (short : tokens.length ≤ n)
    (c d : Cursor) :
    P.Follows (inlineBlocks body tokens) (inlineBlocks body' others) c d fun x y r s =>
      Forall₂ (Block.Alike L) x y ∧ r = c ∧ s = d

theorem follows_bodyThrough (bodies : P.Bodies n body body') {words : List String} (lines : l' = l + L.shift)
    (here : P.Between n c d) (worded : [] ∉ [words] := by decide) :
    P.Follows (bodyThrough body words l) (bodyThrough body' words l') c d fun x y r s =>
      Forall₂ (Block.Alike L) x y ∧ P.Inside n r s := by
  refine (bodies.ended _ lines (Nat.le_refl n) here worded).bind ?_
  rintro ⟨blocks, found⟩ ⟨others, _⟩ r s ⟨⟨alike, rfl⟩, stands⟩
  obtain rfl : found = 0 := Nat.lt_one_iff.mp stands.listed
  exact follows_move (follows_pure ⟨alike, (stands.behind words rfl).mono (Nat.sub_le ..)⟩)

/-! ### Definitions and declarations -/

/-- What is left by a parser that recognises a construct in both runs or declines in both. -/
inductive Leaves (P : Pace L) (n : Nat) (c d : Cursor) : Option Block → Option Block → Cursor → Cursor → Prop where
  | declined : Leaves P n c d none none c d
  | made {a b : Block} {r s : Cursor} (alike : a.Alike L b) (left : P.Between n r s) :
    Leaves P n c d (some a) (some b) r s

theorem follows_keyword {word : String} {next next' : Nat → Parser (Option Block)} (here : P.Inside (n + 1) c d)
    (later : ∀ {l l' r s}, l' = l + L.shift → P.Inside n r s → P.Follows (next l) (next' l') r s (P.Leaves n c d)) :
    P.Follows
      (do if !(← view (·.isKeyword word)) then return none
          let line ← view Cursor.line
          move (·.advance 1)
          next line)
      (do if !(← view (·.isKeyword word)) then return none
          let line ← view Cursor.line
          move (·.advance 1)
          next' line) c d (P.Leaves n c d) :=
  follows_guard (here.isKeyword word) .declined fun found =>
    follows_view (follows_move (later here.line (Inside.behindKeyword (k := 0) here found)))

theorem follows_optionExplicit (here : P.Inside (n + 1) c d) :
    P.Follows optionExplicit optionExplicit c d (P.Leaves n c d) := by
  obtain ⟨same, left⟩ := here.both (·.isKeyword "Option") (·.isKeywordLike "Explicit") (fun alike => alike.isKeyword _)
    (fun alike => alike.isKeywordLike _) (fun _ => isTerminator_of_isKeyword) fun _ => isTerminator_of_isKeywordLike
  refine follows_guard same .declined fun found => follows_move ?_
  exact (follows_expectTerminator (left found)).bind fun left => follows_pure (.made .optionExplicit left)

theorem follows_classDefinition (bodies : P.Bodies n body body') (here : P.Inside (n + 1) c d) :
    P.Follows (classDefinition body) (classDefinition body') c d (P.Leaves n c d) := by
  refine follows_keyword here fun lines here => (follows_expectName here).bind fun ⟨name, _, here⟩ => ?_
  refine (follows_expectTerminator here).bind fun left => ?_
  refine (follows_bodyThrough bodies lines (left.mono (Nat.sub_le ..))).bind fun ⟨blocks, here⟩ => ?_
  refine (follows_expectTerminator here).bind fun left => ?_
  refine follows_lift (checkMembers_alike name {} blocks).ok_left fun checked => ?_
  exact follows_pure (.made (.classDefinition name blocks checked.2) left)

theorem holdsAt_of_terminator {test : Token → Bool} (isEnd : c.holdsAt offset (!·.isTerminator) = false)
    (stays : ∀ t, test t = true → t.isTerminator = false) : c.holdsAt offset test = false := by
  rw [← Bool.not_eq_true] at isEnd ⊢
  intro holds
  obtain ⟨t, found, passed⟩ := (Option.any_eq_true ..).mp holds
  exact isEnd ((Option.any_eq_true ..).mpr ⟨t, found, by simp [stays t passed]⟩)

theorem Inside.routineKind? (here : P.Inside n (c.advance offset) (d.advance offset)) :
    Parser.routineKind? c offset = Parser.routineKind? d offset := by
  have property := here.isKeywordLikeAt "Property"
  unfold Parser.routineKind?
  simp only [here.isKeywordAt]
  cases found : c.isKeywordLikeAt offset "Property" with
  | false => simp [← property, found]
  | true =>
    have second := here.behindKeywordLike found
    simp only [← property, found, second.isKeywordAt, second.isKeywordLikeAt]
    -- a name is looked for behind the accessor word only, which ends no statement
    cases inside : c.holdsAt (offset + 1) (!·.isTerminator) with
    | true =>
      have third : c.holdsAt (offset + 2) Token.isNameLike = d.holdsAt (offset + 2) Token.isNameLike :=
        (second.behind (by simp) inside).holdsAt fun alike => alike.isNameLike
      rw [third]
    | false =>
      have word (word : String) : d.isKeywordAt (offset + 1) word = false :=
        (second.isKeywordAt word).symm.trans (holdsAt_of_terminator inside fun _ => isTerminator_of_isKeyword)
      have wordLike (word : String) : d.isKeywordLikeAt (offset + 1) word = false :=
        (second.isKeywordLikeAt word).symm.trans (holdsAt_of_terminator inside fun _ => isTerminator_of_isKeywordLike)
      simp [word, wordLike]

theorem Inside.behindKind {kind : RoutineKind} (here : P.Inside n (c.advance offset) (d.advance offset))
    (given : Parser.routineKind? c offset = some (kind, words)) :
    P.Inside (n - 1) (c.advance (offset + words)) (d.advance (offset + words)) := by
  unfold Parser.routineKind? at given
  split_ifs at given with function sub property get «let» «set»
  · cases given
    exact here.behindKeyword function
  · cases given
    exact here.behindKeyword sub
  all_goals
    cases given
    have second := here.behindKeywordLike (Bool.and_eq_true .. ▸ property).1
  · exact (second.behindKeywordLike get).mono (Nat.sub_le ..)
  · exact (second.behindKeyword «let»).mono (Nat.sub_le ..)
  · exact (second.behindKeyword «set»).mono (Nat.sub_le ..)

/-- How many words of access stand at the cursor. -/
def afterAccess (c : Cursor) : Nat :=
  if c.isKeyword "Public" || (!c.isKeyword "Public" && c.isKeyword "Private") then 1 else 0

/-- How many words stand before those that say the kind of a routine. -/
def afterDefault (c : Cursor) : Nat :=
  if c.isKeywordLikeAt (afterAccess c) "Default" then afterAccess c + 1 else afterAccess c

theorem opening?_eq (c : Cursor) : Parser.opening? c = (Parser.routineKind? c (afterDefault c)).map fun (kind, words) =>
    ⟨kind, !(!c.isKeyword "Public" && c.isKeyword "Private"), c.isKeywordLikeAt (afterAccess c) "Default",
      afterDefault c + words⟩ := rfl

theorem Inside.behindAccess (here : P.Inside n c d) :
    P.Inside n (c.advance (afterAccess c)) (d.advance (afterAccess c)) := by
  unfold afterAccess
  split
  next access =>
    have word {word : String} (found : c.isKeyword word = true) : P.Inside n (c.advance 1) (d.advance 1) :=
      (behindKeyword (k := 0) here found).mono (Nat.sub_le ..)
    rcases (Bool.or_eq_true ..).mp access with found | found
    · exact word found
    · exact word ((Bool.and_eq_true ..).mp found).2
  next => exact here

theorem Inside.behindDefault (here : P.Inside n c d) :
    P.Inside n (c.advance (afterDefault c)) (d.advance (afterDefault c)) := by
  unfold afterDefault
  split
  next found => exact (here.behindAccess.behindKeywordLike found).mono (Nat.sub_le ..)
  next => exact here.behindAccess

theorem Inside.opening? (here : P.Inside n c d) : Parser.opening? c = Parser.opening? d := by
  have access : afterAccess c = afterAccess d := by
    rw [afterAccess, here.isKeyword, here.isKeyword, afterAccess]
  have default := here.behindAccess.isKeywordLikeAt "Default"
  have offset : afterDefault c = afterDefault d := by
    rw [afterDefault, default, access, afterDefault]
  rw [opening?_eq, opening?_eq, here.behindDefault.routineKind?, default, offset, access, here.isKeyword, here.isKeyword]

theorem follows_passing (here : P.Inside n c d) :
    P.Follows passing passing c d fun x y r s => x = y ∧ P.Inside n r s := by
  have word {word : String} (found : c.isKeyword word = true) : P.Inside n (c.advance 1) (d.advance 1) :=
    (Inside.behindKeyword (k := 0) here found).mono (Nat.sub_le ..)
  refine follows_ask (here.isKeyword _) ?_
  split
  next byVal => exact follows_move (follows_pure ⟨rfl, word byVal⟩)
  next =>
    refine follows_ask (here.isKeyword _) ?_
    split
    next byRef => exact follows_move (follows_pure ⟨rfl, word byRef⟩)
    next => exact follows_pure ⟨rfl, here⟩

theorem isTerminator_of_kind {k : Kind} (other : k ≠ .terminator) (t : Token) (found : (t.kind == k) = true) :
    t.isTerminator = false := by
  rw [beq_iff_eq] at found
  simpa [Token.isTerminator, found] using other

theorem follows_parameter (here : P.Inside n c d) :
    P.Follows parameter parameter c d fun x y r s => x.Alike L y ∧ 0 < n ∧ P.Inside (n - 1) r s := by
  refine (follows_passing here).bind fun {passing _ _ _} ⟨same, here⟩ => ?_
  subst same
  refine (follows_expectName here).bind fun {t u r s} ⟨name, pos, here⟩ => ?_
  obtain ⟨same, left⟩ := here.both (·.kind == .openBracket) (·.kind == .closeBracket) (fun alike => by rw [alike.kind])
    (fun alike => by rw [alike.kind]) (isTerminator_of_kind nofun) (isTerminator_of_kind nofun)
  refine follows_ask same ?_
  split
  next isArray => exact follows_move (follows_pure ⟨⟨rfl, name, rfl⟩, pos, (left isArray).mono (Nat.sub_le ..)⟩)
  next => exact follows_pure ⟨⟨rfl, name, rfl⟩, pos, here⟩

theorem follows_parameterList (enough : n < budget) (enough' : n < budget') (here : P.Inside n c d) :
    P.Follows (parameterList budget) (parameterList budget') c d fun x y r s =>
      Forall₂ (Parameter.Alike L) x y ∧ P.Inside n r s := by
  induction budget generalizing budget' n c d with
  | zero => omega
  | succ budget ih =>
    obtain ⟨budget', rfl⟩ := Nat.exists_eq_add_of_lt enough'
    refine (follows_parameter here).bind ?_
    rintro _ _ r s ⟨first, pos, here⟩
    have line := here.line
    refine (follows_next? here).bind ?_
    rintro _ _ _ _ ⟨heads, next, next', rfl, rfl⟩
    cases heads with
    | none =>
      have stays {c : Cursor} (done : none = c.peek?) : (c.advance 1).line = c.line := by
        simp [Cursor.line, Cursor.advance, rest_of_peek?_none done.symm]
      refine follows_view (follows_throw (.reported .unbalancedBrackets ?_))
      rw [stays next, stays next']
      omega
    | some alike =>
      simp only [alike.kind]
      split_ifs with comma close
      · have left := here.pass next.symm (isTerminator_of_kind (k := .comma) (by simp) _ (by simp [alike.kind, comma]))
        exact (ih (by omega) (by omega) left).bind fun rest =>
          follows_pure ⟨.cons first rest.1, rest.2.mono (by omega)⟩
      · have left := here.pass next.symm (isTerminator_of_kind (k := .closeBracket) (by simp) _ (by simp [alike.kind, close]))
        exact follows_pure ⟨.cons first .nil, left.mono (by omega)⟩
      · exact follows_throw (.malformed alike.lineNumber (by simp only [Problem.mapText, alike.text]))

theorem follows_parameters (here : P.Inside n c d) :
    P.Follows parameters parameters c d fun x y r s => Forall₂ (Parameter.Alike L) x y ∧ P.Inside n r s := by
  have bracket {c d : Cursor} (here : P.Inside n c d) (kind : Kind) (other : kind ≠ .terminator) :
      c.holdsAt 0 (·.kind == kind) = d.holdsAt 0 (·.kind == kind) ∧
        (c.holdsAt 0 (·.kind == kind) = true → P.Inside n (c.advance 1) (d.advance 1)) :=
    ⟨Inside.holdsAt (k := 0) here fun alike => by rw [alike.kind], fun found =>
      (Inside.behind (k := 0) here (isTerminator_of_kind other) found).mono (Nat.sub_le ..)⟩
  obtain ⟨same, left⟩ := bracket here .openBracket nofun
  refine follows_ask same ?_
  cases opens : c.holdsAt 0 (·.kind == .openBracket) with
  | false => exact follows_pure ⟨.nil, here⟩
  | true =>
    have inner := left opens
    obtain ⟨same, left⟩ := bracket inner .closeBracket nofun
    refine follows_move (follows_ask same ?_)
    split
    next closes => exact follows_move (follows_pure ⟨.nil, left closes⟩)
    next =>
      have exactly : P.Inside (c.advance 1).rest.length (c.advance 1) (d.advance 1) := ⟨inner.stands, Nat.le_refl _⟩
      have enough := Nat.lt_succ_of_le (P.longer inner.stands)
      refine follows_view ((follows_parameterList (Nat.lt_succ_self _) enough exactly).mono ?_)
      exact fun ⟨parameters, left⟩ => ⟨parameters, left.mono inner.short⟩

theorem follows_routine (bodies : P.Bodies n body body') (here : P.Inside (n + 1) c d) :
    P.Follows (routine body) (routine body') c d (P.Leaves n c d) := by
  refine follows_ask here.opening? ?_
  cases given : Parser.opening? c with
  | none => exact follows_pure .declined
  | some opening =>
    obtain ⟨⟨kind, words⟩, found, rfl⟩ := Option.map_eq_some_iff.mp ((opening?_eq c).symm.trans given)
    refine follows_view (follows_move ((follows_expectName (here.behindDefault.behindKind found)).bind ?_))
    rintro _ _ _ _ ⟨name, -, left⟩
    refine (follows_parameters left).bind fun ⟨parameters, left⟩ => ?_
    refine (follows_expectTerminator left).bind fun left => ?_
    have worded : [] ∉ [kind.endWords] := by cases kind <;> decide
    refine (follows_bodyThrough bodies here.line (left.mono (Nat.sub_le ..)) worded).bind fun ⟨blocks, left⟩ => ?_
    refine (follows_expectTerminator left).bind fun left => ?_
    exact follows_pure (.made (.routine ⟨rfl, name, rfl, rfl, parameters⟩ blocks) left)

theorem Inside.declarationKind? (here : P.Inside n c d) : Parser.declarationKind? c = Parser.declarationKind? d := by
  unfold Parser.declarationKind?
  simp only [← here.isKeyword]
  cases resize : c.isKeyword "ReDim" with
  | false => simp
  | true => rw [(behindKeyword (k := 0) here resize).isKeywordAt]

theorem Inside.behindDeclarationKind {kind : DeclarationKind} (here : P.Inside n c d)
    (given : Parser.declarationKind? c = some (kind, words)) :
    P.Inside (n - 1) (c.advance words) (d.advance words) := by
  have word {word : String} (found : c.isKeyword word = true) : P.Inside (n - 1) (c.advance 1) (d.advance 1) :=
    behindKeyword (k := 0) here found
  unfold Parser.declarationKind? at given
  split_ifs at given with isDim isReDim preserve isPrivate isPublic <;> cases given
  · exact word isDim
  · exact ((word isReDim).behindKeyword preserve).mono (Nat.sub_le ..)
  · exact word isReDim
  · exact word isPrivate
  · exact word isPublic

theorem follows_declaration (here : P.Inside (n + 1) c d) : P.Follows declaration declaration c d (P.Leaves n c d) := by
  have lines := here.line
  refine follows_ask here.declarationKind? ?_
  cases given : Parser.declarationKind? c with
  | none => exact follows_pure .declined
  | some found =>
    refine follows_view (follows_move ((follows_takeStatement (here.behindDeclarationKind given)).bind ?_))
    rintro _ _ _ _ ⟨tokens, left⟩
    refine follows_lift (variableList_alike lines tokens) fun {vars others} alike => ?_
    have unsized : vars.any (·.bounds.isNone) = others.any (·.bounds.isNone) := by
      refine forall₂_any alike fun {v w} same => ?_
      have bounds := same.bounds
      generalize v.bounds = one at bounds ⊢
      generalize w.bounds = other at bounds ⊢
      cases bounds <;> rfl
    simp only [unsized]
    refine follows_check (.malformed (by omega) rfl) fun _ => ?_
    exact follows_pure (.made (.declaration alike lines) (left.mono (Nat.sub_le ..)))

/-! ### Plain statements -/

theorem follows_newInstance (here : P.Inside (n + 1) c d) : P.Follows newInstance newInstance c d (P.Leaves n c d) := by
  refine follows_view ?_
  obtain ⟨statement, behind⟩ := here.statement
  generalize c.statement = tokens at statement ⊢
  generalize d.statement = others at statement ⊢
  cases statement with
  | nil => exact follows_pure .declined
  | @cons first other tokens more same later =>
    have cut := splitAtEquals_alike later 0
    simp only [same.isKeyword]
    split
    · exact follows_pure .declined
    · generalize splitAtEquals 0 tokens = one at cut ⊢
      generalize splitAtEquals 0 more = two at cut ⊢
      cases cut with
      | none => exact follows_pure .declined
      | @some x y parts =>
        obtain ⟨left, right⟩ := x
        obtain ⟨left', right'⟩ := y
        obtain ⟨lefts, rights⟩ : Forall₂ (Token.Alike L) left left' ∧ Forall₂ (Token.Alike L) right right' := parts
        -- exactly two tokens stand behind the sign, the word and the class
        match right, right', rights with
        | [new, className], [new', className'], .cons word (.cons named .nil) =>
          simp only [word.isKeyword, named.isNameLike]
          split
          · exact follows_pure .declined
          · refine follows_lift (target_alike lefts same.line) fun target => follows_move (follows_pure ?_)
            exact .made (.assignment target (.mk (.new named) .nil)) behind
        | [], [], .nil => exact follows_pure .declined
        | [_], [_], .cons _ .nil => exact follows_pure .declined
        | _ :: _ :: _ :: _, _ :: _ :: _ :: _, .cons _ (.cons _ (.cons _ _)) => exact follows_pure .declined

theorem follows_randomize (here : P.Inside (n + 1) c d) : P.Follows randomize randomize c d (P.Leaves n c d) := by
  refine follows_keyword here fun lines here => (follows_takeStatement here).bind fun ⟨tokens, left⟩ => ?_
  have left := left.mono (Nat.sub_le n 1)
  rw [forall₂_isEmpty tokens]
  split
  · exact follows_pure (.made (.randomize .none lines) left)
  · exact follows_expression tokens lines fun seed => follows_pure (.made (.randomize (.some seed) lines) left)

theorem follows_callStatement (here : P.Inside (n + 1) c d) :
    P.Follows callStatement callStatement c d (P.Leaves n c d) := by
  refine follows_keyword here fun lines here => (follows_takeStatement here).bind fun ⟨tokens, left⟩ => ?_
  refine follows_expression tokens lines fun called => ?_
  simp only [called.isChain]
  refine follows_check (.malformed (by omega) rfl) fun _ => ?_
  exact follows_pure (.made (.call called) (left.mono (Nat.sub_le ..)))

theorem follows_statement (here : P.Inside (n + 1) c d) : P.Follows statement statement c d (P.Leaves n c d) := by
  refine follows_view ?_
  obtain ⟨done, done'⟩ | ⟨first, other, next, next', same⟩ := here.next
  · rw [done, done']
    exact follows_pure .declined
  have refused : unsupportedStatements.find? first.isWord = unsupportedStatements.find? other.isWord := by
    simp only [show first.isWord = other.isWord from funext same.isWord]
  simp only [next, next', same.kind, same.isNameLike, refused, assignKind?_alike same]
  split
  next keyword =>
    split
    · exact follows_throw (.same (by simp only [Fault.shift, Fault.mapText, same.lineNumber]))
    · split
      · exact follows_pure .declined
      next kind _ =>
        have left := here.pass next (isTerminator_of_kind (k := .keyword) (by simp) _ (by simp [same.kind, keyword]))
        refine follows_move ((follows_takeStatement left).bind ?_)
        rintro tokens more _ _ ⟨taken, left⟩
        have cut := splitAtEquals_alike taken 0
        generalize splitAtEquals 0 tokens = one at cut ⊢
        generalize splitAtEquals 0 more = two at cut ⊢
        cases cut with
        | none => exact follows_throw (.malformed same.lineNumber rfl)
        | some parts =>
          exact follows_lift (assignment_alike kind parts.1 parts.2 same.line) fun block =>
            follows_pure (.made block (left.mono (Nat.sub_le ..)))
  · split
    · refine (follows_takeStatement here).bind fun read => ?_
      exact follows_lift (namedStatement_alike read.1 same.line) fun block => follows_pure (.made block read.2)
    · exact follows_pure .declined

/-! ### Control flow -/

theorem follows_conditionThen (here : P.Inside n c d) :
    P.Follows conditionThen conditionThen c d fun x y r s => x.Alike L y ∧ P.Inside n r s := by
  have lines := here.line
  have taken := here.statement.1
  have condition : Forall₂ (Token.Alike L) (c.statement.takeWhile (!·.isKeyword "Then"))
      (d.statement.takeWhile (!·.isKeyword "Then")) :=
    forall₂_takeWhile taken fun same => congrArg not (same.isKeyword _)
  refine follows_view (follows_view ?_)
  simp only [← condition.length_eq, ← taken.length_eq]
  refine follows_check (.malformed (by omega) rfl) fun found => follows_expression condition lines fun e => ?_
  have shorter := ( takeWhile_prefix (!Token.isKeyword · "Then") (l := c.statement)).length_le
  exact follows_move (follows_pure ⟨e, (here.advance (by omega)).mono (Nat.sub_le ..)⟩)

section

variable (bodies : P.Bodies n body body')
include bodies

theorem follows_alternative (lines : l' = l + L.shift) (enough : m ≤ budget) (enough' : m ≤ budget') (short : m ≤ n)
    (stands : P.EndsAt clauseEnds m found c d) :
    P.Follows (alternative body l budget found) (alternative body' l' budget' found) c d fun x y r s =>
      x.Alike L y ∧ P.Between n r s := by
  have pos := stands.pos
  induction budget generalizing budget' found m c d with
  | zero => omega
  | succ budget ih =>
    obtain ⟨budget', rfl⟩ := Nat.exists_eq_add_of_le' (Nat.le_trans pos enough')
    match found with
    | 0 =>
      have left : P.Inside (m - 1) (c.advance 1) (d.advance 1) := stands.behind _ rfl
      refine follows_move ((follows_conditionThen left).bind fun ⟨condition, left⟩ => ?_)
      refine (follows_expectTerminator left).bind fun left => ?_
      refine (bodies.ended clauseEnds lines (by omega) left (by decide)).bind ?_
      rintro ⟨blocks, found⟩ ⟨others, _⟩ r s ⟨⟨alike, rfl⟩, stands⟩
      refine (ih (by omega) (by omega) (by omega) stands stands.pos).bind fun ⟨rest, left⟩ => ?_
      exact follows_pure ⟨.elseIf condition alike rest, left⟩
    | 1 =>
      have left : P.Inside (m - 1) (c.advance 1) (d.advance 1) := stands.behind _ rfl
      refine (follows_bodyThrough bodies lines (left.skipTerminator.mono (by omega))).bind fun ⟨blocks, left⟩ => ?_
      exact (follows_expectTerminator left).bind fun left => follows_pure ⟨.otherwise blocks, left⟩
    | found + 2 =>
      obtain rfl : found = 0 := by
        have := stands.listed
        simp only [clauseEnds, length_cons, length_nil] at this
        omega
      have left : P.Inside (m - 2) (c.advance 2) (d.advance 2) := stands.behind _ rfl
      refine follows_move ((follows_expectTerminator left).bind fun left => ?_)
      exact follows_pure ⟨.none, left.mono (by omega)⟩

theorem follows_longBranch (condition : e.Alike L f) (lines : l' = l + L.shift) (left : P.Between n c d) :
    P.Follows (longBranch body e l) (longBranch body' f l') c d fun x y r s => x.Alike L y ∧ P.Between n r s := by
  refine (bodies.ended _ lines (Nat.le_refl n) left (by decide)).bind ?_
  rintro ⟨blocks, found⟩ ⟨others, _⟩ r s ⟨⟨alike, rfl⟩, stands⟩
  have longer := P.longer stands.here.stands
  refine follows_view ((follows_alternative bodies lines (Nat.le_refl _) longer stands.here.short stands.exact).bind ?_)
  exact fun ⟨rest, left⟩ => follows_pure ⟨.branch condition alike rest, left⟩

theorem follows_shortBranch (condition : e.Alike L f) (lines : l' = l + L.shift) (here : P.Inside n c d) :
    P.Follows (shortBranch body e l) (shortBranch body' f l') c d fun x y r s => x.Alike L y ∧ P.Between n r s := by
  refine (follows_takeLine here).bind ?_
  rintro tokens others r s ⟨short, taken, left⟩
  have thenPart : AlikeLines L true (tokens.takeWhile (!·.isKeyword "Else")) (others.takeWhile (!·.isKeyword "Else")) :=
    taken.takeWhile fun same => congrArg not (same.isKeyword _)
  have elsePart : AlikeLines L true (tokens.dropWhile (!·.isKeyword "Else")) (others.dropWhile (!·.isKeyword "Else")) :=
    taken.dropWhile fun same => congrArg not (same.isKeyword _)
  -- the parts of the line are no longer than the line, so the bodies keep pace on them too
  have shortThen := ( takeWhile_prefix (!Token.isKeyword · "Else") (l := tokens)).length_le
  have shortElse := (dropWhile_suffix (!Token.isKeyword · "Else") (l := tokens)).length_le
  simp only [forall₂_isEmpty thenPart.resembles]
  refine follows_check (.malformed (by omega) rfl) fun _ => ?_
  refine (bodies.inline thenPart (by omega) r s).bind ?_
  rintro _ _ _ _ ⟨blocks, rfl, rfl⟩
  generalize tokens.dropWhile (!·.isKeyword "Else") = one at elsePart shortElse ⊢
  generalize others.dropWhile (!·.isKeyword "Else") = other at elsePart ⊢
  cases elsePart.resembles with
  | nil => exact follows_pure ⟨.branch condition blocks .none, left⟩
  | cons _ _ =>
    rw [length_cons] at shortElse
    refine (bodies.inline elsePart.tail (by omega) _ _).bind ?_
    rintro _ _ _ _ ⟨others, rfl, rfl⟩
    exact follows_pure ⟨.branch condition blocks (.otherwise others), left⟩

theorem follows_branch (here : P.Inside (n + 1) c d) : P.Follows (branch body) (branch body') c d (P.Leaves n c d) := by
  refine follows_keyword here fun lines here => (follows_conditionThen here).bind fun {_ _ r s} ⟨condition, here⟩ => ?_
  have ended : r.peek?.all Token.isTerminator = s.peek?.all Token.isTerminator := by
    obtain ⟨done, done'⟩ | ⟨t, u, next, next', alike⟩ := here.next
    · rw [done, done']
    · rw [next, next', Option.all_some, Option.all_some, alike.isTerminator]
  refine follows_view ?_
  rw [ended]
  split
  · refine follows_move ((follows_longBranch bodies condition lines here.skipTerminator).bind fun ⟨block, left⟩ => ?_)
    exact follows_pure (.made block left)
  · exact (follows_shortBranch bodies condition lines here).bind fun ⟨block, left⟩ => follows_pure (.made block left)

theorem follows_doLoop (here : P.Inside (n + 1) c d) : P.Follows (doLoop body) (doLoop body') c d (P.Leaves n c d) := by
  refine follows_keyword here fun lines here => (follows_takeStatement here).bind fun ⟨tokens, left⟩ => ?_
  refine follows_lift (loopCondition_alike tokens lines) fun first => ?_
  refine (bodies.ended [["Loop"]] lines (Nat.sub_le n 1) left (by decide)).bind ?_
  rintro ⟨blocks, found⟩ ⟨others, _⟩ r s ⟨⟨alike, rfl⟩, stands⟩
  obtain rfl : found = 0 := Nat.lt_one_iff.mp stands.listed
  have lastLines := stands.here.line
  refine follows_view (follows_move ((follows_takeStatement (stands.behind _ rfl)).bind fun ⟨tokens, left⟩ => ?_))
  refine follows_lift (loopCondition_alike tokens lastLines) fun last => ?_
  refine follows_lift (loopTest_alike first last lastLines) fun test => ?_
  exact follows_pure (.made (.doLoop test alike lines) (left.mono (by omega)))

theorem follows_whileLoop (here : P.Inside (n + 1) c d) :
    P.Follows (whileLoop body) (whileLoop body') c d (P.Leaves n c d) := by
  refine follows_keyword here fun lines here => (follows_takeStatement here).bind fun ⟨tokens, left⟩ => ?_
  refine follows_expression tokens lines fun condition => ?_
  refine (follows_bodyThrough bodies lines (left.mono (Nat.sub_le ..))).bind fun ⟨blocks, here⟩ => ?_
  exact (follows_expectTerminator here).bind fun left => follows_pure (.made (.whileLoop condition blocks lines) left)

theorem follows_forBody (lines : l' = l + L.shift) (left : P.Between n c d) :
    P.Follows (forBody body l) (forBody body' l') c d fun x y r s =>
      Forall₂ (Block.Alike L) x y ∧ P.Between n r s := by
  refine (follows_bodyThrough bodies lines left).bind fun ⟨blocks, here⟩ => ?_
  exact (follows_takeStatement here).bind fun ⟨_, left⟩ => follows_pure ⟨blocks, left.mono (Nat.sub_le ..)⟩

theorem follows_forLoop (here : P.Inside (n + 1) c d) :
    P.Follows (forLoop body) (forLoop body') c d (P.Leaves n c d) := by
  refine follows_keyword here fun {_ _ r s} lines here => follows_ask (here.isKeyword _) ?_
  cases each : r.isKeyword "Each" with
  | true =>
    refine follows_move ((follows_expectName (Inside.behindKeyword (k := 0) here each)).bind fun ⟨name, _, here⟩ => ?_)
    refine (follows_takeStatement here).bind fun ⟨tokens, left⟩ => ?_
    refine follows_lift (forCollection_alike tokens lines) fun collection => ?_
    refine (follows_forBody bodies lines (left.mono (by omega))).bind fun ⟨blocks, left⟩ => ?_
    exact follows_pure (.made (.forEach name collection blocks) left)
  | false =>
    refine (follows_expectName here).bind fun ⟨name, _, here⟩ => ?_
    refine (follows_takeStatement here).bind fun ⟨tokens, left⟩ => ?_
    refine follows_lift (forRange_alike tokens lines) fun ⟨first, last, step⟩ => ?_
    refine (follows_forBody bodies lines (left.mono (by omega))).bind fun ⟨blocks, left⟩ => ?_
    exact follows_pure (.made (.forLoop name first last step blocks) left)

omit bodies in
theorem follows_caseValues (here : P.Inside m c d) (left : P.Inside n (c.advance 1) (d.advance 1)) :
    P.Follows caseValues caseValues c d fun x y r s => Forall₂ (Expr.Alike L) x y ∧ P.Between n r s := by
  have lines := here.line
  refine follows_view (follows_move (follows_ask (left.isKeyword _) ?_))
  split
  next isElse =>
    refine follows_move ((follows_takeStatement (Inside.behindKeyword (k := 0) left isElse)).bind fun ⟨_, left⟩ => ?_)
    exact follows_pure ⟨.nil, left.mono (by omega)⟩
  next =>
    refine (follows_takeStatement left).bind fun ⟨tokens, left⟩ => ?_
    refine follows_lift (Expr.readList_alike tokens) fun values => ?_
    rw [forall₂_isEmpty values]
    refine follows_check (.malformed (by omega) rfl) fun _ => ?_
    exact follows_pure ⟨values, left.mono (Nat.sub_le ..)⟩

theorem follows_caseList (lines : l' = l + L.shift) (enough : m ≤ budget) (enough' : m ≤ budget') (short : m ≤ n)
    (stands : P.EndsAt caseEnds m found c d) :
    P.Follows (caseList body l budget found) (caseList body' l' budget' found) c d fun x y r s =>
      x.Alike L y ∧ P.Inside n (r.advance 2) (s.advance 2) := by
  have pos := stands.pos
  induction budget generalizing budget' found m c d with
  | zero => omega
  | succ budget ih =>
    obtain ⟨budget', rfl⟩ := Nat.exists_eq_add_of_le' (Nat.le_trans pos enough')
    match found with
    | 0 =>
      refine (follows_caseValues stands.here (stands.behind _ rfl)).bind fun ⟨values, left⟩ => ?_
      refine (bodies.ended caseEnds lines (Nat.le_trans (Nat.sub_le ..) short) left (by decide)).bind ?_
      rintro ⟨blocks, found⟩ ⟨others, _⟩ r s ⟨⟨alike, rfl⟩, stands⟩
      have pos := stands.pos
      simp only [length_cons, length_nil] at stands pos
      refine (ih (by omega) (by omega) (by omega) stands pos).bind fun ⟨rest, left⟩ => ?_
      exact follows_pure ⟨.case values alike rest, left⟩
    | found + 1 =>
      obtain rfl : found = 0 := by
        have := stands.listed
        simp only [caseEnds, length_cons, length_nil] at this
        omega
      exact follows_pure ⟨.none, (stands.behind ["End", "Select"] rfl).mono (Nat.le_trans (Nat.sub_le ..) short)⟩

theorem follows_select (here : P.Inside (n + 1) c d) : P.Follows (select body) (select body') c d (P.Leaves n c d) := by
  have lines := here.line
  obtain ⟨same, left⟩ := here.both (·.isKeyword "Select") (·.isKeyword "Case") (fun alike => alike.isKeyword _)
    (fun alike => alike.isKeyword _) (fun _ => isTerminator_of_isKeyword) fun _ => isTerminator_of_isKeyword
  refine follows_guard same .declined fun found => follows_view (follows_move ?_)
  refine (follows_takeStatement (left found)).bind fun ⟨tokens, left⟩ => ?_
  refine follows_expression tokens lines fun subject => ?_
  refine (bodies.ended caseEnds lines (Nat.sub_le n 1) left (by decide)).bind ?_
  rintro ⟨leading, found⟩ ⟨others, _⟩ r s ⟨⟨alike, rfl⟩, stands⟩
  have silent : leading.all isSilent = others.all isSilent :=
    forall₂_all alike fun same => by cases same <;> rfl
  have longer := P.longer stands.here.stands
  have short := Nat.le_trans stands.here.short (Nat.sub_le n 1)
  simp only [silent]
  refine follows_check (.malformed (by omega) rfl) fun _ => follows_view ?_
  refine (follows_caseList bodies lines (Nat.le_refl _) longer short stands.exact).bind fun ⟨cases, left⟩ => ?_
  refine follows_move ((follows_expectTerminator left).bind fun left => ?_)
  exact follows_pure (.made (.select subject cases lines) left)

theorem follows_withTarget (here : P.Inside (n + 1) c d) :
    P.Follows (withTarget body) (withTarget body') c d (P.Leaves n c d) := by
  refine follows_keyword here fun lines here => (follows_takeStatement here).bind fun ⟨tokens, left⟩ => ?_
  refine follows_expression tokens lines fun target => ?_
  refine (follows_bodyThrough bodies lines (left.mono (Nat.sub_le ..))).bind fun ⟨blocks, here⟩ => ?_
  exact (follows_expectTerminator here).bind fun left => follows_pure (.made (.withTarget target blocks lines) left)

end

theorem follows_exit (here : P.Inside (n + 1) c d) : P.Follows exit exit c d (P.Leaves n c d) := by
  have lines := here.line
  refine follows_guard (here.isKeyword _) .declined fun keyword => follows_view ?_
  have second := Inside.behindKeyword (k := 0) here keyword
  refine follows_ask (by simp only [second.isKeywordLikeAt]) ?_
  cases found : exitWords.find? fun entry => c.isKeywordLikeAt 1 entry.1 with
  | none => exact follows_throw (.malformed (by omega) rfl)
  | some answer =>
    have word : c.isKeywordLikeAt 1 answer.1 = true := by simpa using find?_some found
    have left := (second.behindKeywordLike word).mono (Nat.sub_le n 1)
    exact follows_move ((follows_expectTerminator left).bind fun left => follows_pure (.made (.exit lines) left))

/-- What is said behind `On Error` stands in one statement. -/
theorem Inside.errorMode? (here : P.Inside n (c.advance 2) (d.advance 2)) :
    Parser.errorMode? c = Parser.errorMode? d := by
  unfold Parser.errorMode?
  simp only [here.isKeywordAt]
  cases inside : c.holdsAt 2 (!·.isTerminator) with
  | true =>
    have left := here.behind (by simp) inside
    have zero : c.holdsAt 3 (·.text == "0") = d.holdsAt 3 (·.text == "0") :=
      left.holdsAt fun alike => alike.text_beq (show "0".toList.all (!·.isAlpha) = true by decide)
    simp only [left.isKeywordAt, zero]
  | false =>
    have word (word : String) : d.isKeywordAt 2 word = false :=
      (here.isKeywordAt word).symm.trans (holdsAt_of_terminator inside fun _ => isTerminator_of_isKeyword)
    simp [word]

theorem Inside.behindErrorMode {mode : ErrorMode} (here : P.Inside n (c.advance 2) (d.advance 2))
    (given : Parser.errorMode? c = some mode) : Expects L P.between (c.advance 4) (d.advance 4) := by
  unfold Parser.errorMode? at given
  split_ifs at given with resume goto
  · obtain ⟨first, second⟩ := (Bool.and_eq_true ..).mp resume
    exact P.expects ((here.behindKeyword first).behindKeyword second).stands
  · obtain ⟨first, second⟩ := (Bool.and_eq_true ..).mp goto
    rw [holdsAt_eq] at second
    obtain ⟨t, next, zero⟩ := (Option.any_eq_true ..).mp second
    -- whatever is written `0` ends no line
    have onward := P.onward (here.behindKeyword first).stands next (by simp_all [Token.isLineEnd])
    rwa [advance_advance, advance_advance] at onward

theorem follows_onError (here : P.Inside (n + 1) c d) : P.Follows onError onError c d (P.Leaves n c d) := by
  have lines := here.line
  obtain ⟨same, left⟩ := here.both (·.isKeyword "On") (·.isKeywordLike "Error") (fun alike => alike.isKeyword _)
    (fun alike => alike.isKeywordLike _) (fun _ => isTerminator_of_isKeyword) fun _ => isTerminator_of_isKeywordLike
  refine follows_guard same .declined fun found => follows_view (follows_ask (left found).errorMode? ?_)
  cases given : Parser.errorMode? c with
  | none => exact follows_throw (.malformed (by omega) rfl)
  | some mode =>
    have left := (left found).behindErrorMode given
    have short : (c.advance 4).rest.length ≤ n := Nat.le_trans (here.length_advance 4) (by omega)
    refine follows_move ((follows_expectTerminator_of left short).bind fun left => ?_)
    exact follows_pure (.made (.onError lines) left)

/-! ### Blocks -/

theorem follows_firstOf {ps qs : List (Construct × Parser (Option Block))} (here : P.Inside (n + 1) c d)
    (each : Forall₂ (fun p q => P.Follows p.2 q.2 c d (P.Leaves n c d)) ps qs) :
    P.Follows (firstOf ps) (firstOf qs) c d fun x y r s => x.Alike L y ∧ P.Between n r s := by
  have lines := here.line
  induction each with
  | nil =>
    refine follows_view ?_
    obtain ⟨done, done'⟩ | ⟨t, u, next, next', alike⟩ := here.next
    · rw [done, done']
      exact follows_view (follows_throw (.malformed (by omega) rfl))
    · rw [next, next']
      exact follows_throw (.malformed alike.lineNumber (by simp only [Problem.mapText, alike.text]))
  | cons first _ ih =>
    refine first.bind fun left => ?_
    cases left with
    | declined => exact ih
    | made alike left => exact fun _ _ => .ok ⟨alike, left⟩ -- only the log has changed

theorem follows_constructs (bodies : P.Bodies n body body') (here : P.Inside (n + 1) c d) :
    Forall₂ (fun p q => P.Follows p.2 q.2 c d (P.Leaves n c d)) (constructs body) (constructs body') :=
  .cons (follows_optionExplicit here) <| .cons (follows_newInstance here) <|
  .cons (follows_classDefinition bodies here) <| .cons (follows_routine bodies here) <|
  .cons (follows_declaration here) <| .cons (follows_doLoop bodies here) <| .cons (follows_whileLoop bodies here) <|
  .cons (follows_forLoop bodies here) <| .cons (follows_branch bodies here) <| .cons (follows_select bodies here) <|
  .cons (follows_exit here) <| .cons (follows_onError here) <| .cons (follows_randomize here) <|
  .cons (follows_callStatement here) <| .cons (follows_withTarget bodies here) <| .cons (follows_statement here) .nil

/-- A turn passes over a token at least. -/
theorem follows_blockAt (bodies : P.Bodies n body body') (here : P.Between (n + 1) c d) (next : c.peek? = some t)
    (next' : d.peek? = some u) :
    P.Follows (blockAt body t) (blockAt body' u) c d fun x y r s =>
      Option.Rel (Block.Alike L) x y ∧ P.Between n r s := by
  obtain ⟨_, found, looks, turn⟩ := P.turn here.stands next
  cases next'.symm.trans found
  have within (code : ¬(t.kind = .comment ∨ t.kind = .inlineComment)) : P.Inside (n + 1) c d :=
    ⟨turn.resolve_right fun comment => code comment.1, here.short⟩
  have comment (shown : t.kind = .comment ∨ t.kind = .inlineComment) (inline : Bool) :
      P.Follows (do move fun c => (c.advance 1).skipTerminator; return some (.comment t.text inline))
        (do move fun c => (c.advance 1).skipTerminator; return some (.comment u.text inline)) c d fun x y r s =>
          Option.Rel (Block.Alike L) x y ∧ P.Between n r s := by
    have passed : L.noted t ∧ P.between (c.advance 1).skipTerminator (d.advance 1).skipTerminator := by
      rcases turn with inside | ⟨-, passed⟩
      · have stays : t.isTerminator = false := by rcases shown with kind | kind <;> simp [Token.isTerminator, kind]
        obtain ⟨alike, left⟩ := P.inner inside next next' stays
        exact ⟨L.noted_of_known alike.known, (Inside.skipTerminator ⟨left, Nat.le_refl _⟩).stands⟩
      · exact passed
    have short : (c.advance 1).skipTerminator.rest.length ≤ n := by
      have := here.short
      rw [rest_of_peek? next, length_cons] at this
      exact Nat.le_trans (length_skipTerminator _) (by omega)
    exact follows_move (follows_pure ⟨.some (.comment shown passed.1 looks.text), passed.2, short⟩)
  unfold blockAt
  rw [looks.isLineEnd, ← looks.kind]
  split
  next kind =>
    refine follows_move (follows_pure ⟨?_, (within (by simp [kind])).leave⟩)
    split
    · exact .some .blankLine
    · exact .none
  next kind => exact comment (.inl kind) _
  next kind => exact comment (.inr kind) _
  next noComment noInline =>
    have inside := within (not_or.mpr ⟨noComment, noInline⟩)
    refine (follows_firstOf inside (follows_constructs bodies inside)).bind fun made => ?_
    exact follows_pure ⟨.some made.1, made.2⟩

end VbSharp.Pace
