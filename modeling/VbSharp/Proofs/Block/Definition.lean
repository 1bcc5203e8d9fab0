import VbSharp.Proofs.Block.Printing

/-!
# Reading definitions and declarations

Lists of variables and routines are read from their printed lines, given that the parser of bodies reads what
stands between the first line and the last. The members of a class have different names.
-/
namespace VbSharp.Parser

open List PrintStyle VbSharp.Expr

variable (style : PrintStyle)

variable (line : Nat) (v : Variable) (kind : DeclarationKind) (vars : List Variable) (p : Parameter)
  (ps : List Parameter) (header : Header)

/-! ### Lists of variables -/

theorem mem_intersperse {part comma : List Token} {parts : List (List Token)}
    (member : part ∈ parts.intersperse comma) : part ∈ parts ∨ part = comma := by
  induction parts with
  | nil => simp at member
  | cons first parts ih =>
    cases parts with
    | nil => exact .inl (by simpa using member)
    | cons next parts =>
      simp only [intersperse_cons_cons, mem_cons] at member ih ⊢
      rcases member with first | comma | later
      · exact .inl (.inl first)
      · exact .inr comma
      · rcases ih later with found | comma
        · exact .inl (.inr found)
        · exact .inr comma

theorem separated_cons_cons (part next : List Token) (parts : List (List Token)) :
    style.separated (part :: next :: parts) = part ++ commaMark style.line :: style.separated (next :: parts) := by
  simp [separated]

theorem separated_singleton (part : List Token) : style.separated [part] = part := by
  simp [separated]

theorem bounds_print (wellFormed : v.isWellFormed = true) (after : List Token)
    (stops : ∀ t ∈ after.head?, t.kind ≠ .openBracket) :
    bounds ((v.bounds.elim [] fun es => style.inBrackets (printList style.line es)) ++ after) =
      .ok (v.bounds, after) := by
  obtain ⟨name, found⟩ := v
  simp only [Variable.isWellFormed, Bool.and_eq_true] at wellFormed
  cases found with
  | none =>
    cases after with
    | nil => rfl
    | cons t after => simp [bounds, stops t rfl]
  | some es =>
    have printable : ∀ e ∈ es, e.isPrintable = true := by simpa using wellFormed.2
    have balanced := isBalanced_printList style.line es
      (allWellFormed_of_printable es printable)
    have closed := closeGroup_append (printList style.line es) after (closeMark style.line) 0
      balanced rfl
    have opens : (openMark style.line).kind = .openBracket := rfl
    simp [bounds, PrintStyle.inBrackets, opens, closed, readList_print style.line es printable, Except.map]

/-- What follows the bounds of a variable decides what comes next. -/
theorem variableList_of_bounds (name : Token) (rest after : List Token) (found : Option (List Expr)) :
    name.isNameLike = true → bounds rest = .ok (found, after) → variableList line (name :: rest) =
        match after with
        | [] => .ok [⟨name, found⟩]
        | t :: more =>
          if t.kind = .comma then (variableList line more).map (⟨name, found⟩ :: ·)
          else .error (.malformed t.lineNumber (.strayInDeclaration t.text)) := by
  intro named ok
  rw [variableList.eq_def]
  simp only [named, Bool.not_true, Bool.false_eq_true, if_false]
  split
  next fault failed => simp [ok] at failed
  next found' after' read =>
    obtain ⟨rfl, rfl⟩ := Prod.mk.inj (Except.ok.inj (ok.symm.trans read))
    cases after <;> rfl

theorem name_of_isWellFormed {v : Variable} (wellFormed : v.isWellFormed = true) : v.name.isNameLike = true := by
  simp only [Variable.isWellFormed, Bool.and_eq_true] at wellFormed
  exact wellFormed.1

theorem variableList_cons (wellFormed : v.isWellFormed = true) :
    variableList line (style.variableTokens v) = .ok [v] ∧
      ∀ more, variableList line (style.variableTokens v ++ commaMark style.line :: more) =
        (variableList line more).map (v :: ·) := by
  have named := name_of_isWellFormed wellFormed
  constructor
  · have found := bounds_print style v wellFormed [] (by simp)
    rw [append_nil] at found
    exact variableList_of_bounds line v.name _ [] v.bounds named found
  · intro more
    have found := bounds_print style v wellFormed (commaMark style.line :: more)
      (by simp [commaMark])
    exact variableList_of_bounds line v.name _ _ v.bounds named found

theorem variableList_print (some_variable : vars ≠ []) (wellFormed : ∀ v ∈ vars, v.isWellFormed = true) :
    variableList line (style.separated (vars.map style.variableTokens)) = .ok vars := by
  induction vars with
  | nil => contradiction
  | cons v vars ih =>
    obtain ⟨first, others⟩ := forall_mem_cons.mp wellFormed
    have read := variableList_cons style line v first
    cases vars with
    | nil => simpa [separated_singleton] using read.1
    | cons next vars =>
      rw [map_cons, map_cons, separated_cons_cons, read.2, ← map_cons, ih (by simp) others]
      rfl

theorem variables_open (wellFormed : ∀ v ∈ vars, v.isWellFormed = true) :
    ∀ t ∈ style.separated (vars.map style.variableTokens), t.isTerminator = false := by
  intro t member
  obtain ⟨part, found, inside⟩ := mem_flatten.mp member
  rcases mem_intersperse found with found | rfl
  · obtain ⟨v, isVariable, rfl⟩ := mem_map.mp found
    have fits := wellFormed v isVariable
    simp only [Variable.isWellFormed, Bool.and_eq_true] at fits
    rcases mem_cons.mp inside with rfl | inside
    · exact Token.isTerminator_of_isNameLike fits.1
    · cases bounds : v.bounds with
      | none => simp [bounds] at inside
      | some es =>
        have printable : ∀ e ∈ es, e.isPrintable = true := by simpa [bounds] using fits.2
        have open_end := (standInside_printList style.line es printable).open_end
        simp only [bounds, Option.elim_some, PrintStyle.inBrackets, mem_cons, mem_append,
          not_mem_nil, or_false] at inside
        rcases inside with rfl | inside | rfl
        · rfl
        · exact open_end t inside
        · rfl
  · obtain rfl : t = commaMark style.line := by simpa using inside
    rfl

theorem declarationKind?_print (line : Nat) (name : Token) (named : name.isNameLike = true) (rest : List Token)
    (endLine : Nat) :
    declarationKind? ⟨style.declarationWords kind line ++ name :: rest, endLine⟩ =
      some (kind, (style.declarationWords kind line).length) := by
  have noWord := Token.isKeyword_of_isNameLike named "Preserve"
  match kind with
  | .dim | .privateField | .publicField =>
    simp +decide [declarationKind?, declarationWords]
  | .reDim false | .reDim true =>
    simp +decide [declarationKind?, declarationWords, Cursor.isKeywordAt, noWord]

theorem reads_declaration (line : Nat) (some_variable : vars ≠ [])
    (wellFormed : ∀ v ∈ vars, v.isWellFormed = true ∧ (kind.isReDim = true → v.bounds.isSome = true))
    (rest : List Token) :
    Reads declaration (style.block (.declaration kind vars line) ++ rest)
      (some (.declaration kind vars line)) rest := by
  have fits : ∀ v ∈ vars, v.isWellFormed = true := fun v member => (wellFormed v member).1
  have read := variableList_print style line vars some_variable fits
  have inside := variables_open style vars fits
  -- nothing is missing where the declaration resizes arrays
  have sized : (kind.isReDim && vars.any (·.bounds.isNone)) = false := by
    rw [Bool.and_eq_false_imp]
    intro resizes
    rw [any_eq_false]
    intro v member
    obtain ⟨es, sized⟩ := Option.isSome_iff_exists.mp ((wellFormed v member).2 resizes)
    simp [sized]
  obtain ⟨v, others, rfl⟩ := exists_cons_of_ne_nil some_variable
  have named := name_of_isWellFormed (fits v (by simp))
  obtain ⟨more, starts⟩ : ∃ more, style.separated ((v :: others).map style.variableTokens) = v.name :: more := by
    cases others <;> exact ⟨_, by simp [separated, variableTokens]; rfl⟩
  have opens : ∀ endLine, Cursor.line ⟨style.declarationWords kind line ++
      (style.separated ((v :: others).map style.variableTokens) ++ Token.lineEnd style.line :: rest),
      endLine⟩ = line := by
    intro endLine
    match kind with
    | .dim | .reDim true | .reDim false | .privateField | .publicField => rfl
  rw [PrintStyle.block, lineOf_append, append_assoc]
  refine .bind (reads_view (a := some (kind, (style.declarationWords kind line).length)) ?_) ?_
  · intro endLine
    rw [starts]
    exact declarationKind?_print style kind line v.name named _ endLine
  · refine .bind (reads_view opens) (.bind (reads_advance _ _ _ rfl) ?_)
    refine .bind (reads_takeStatement inside rfl) (.bind (reads_lift read rest) ?_)
    simp only [sized, Bool.false_eq_true, if_false]
    exact reads_pure _ _

/-! ### Routines -/

theorem reads_passing (passing : Passing) (name : Token) (named : name.isNameLike = true) (rest : List Token) :
    Reads Parser.passing ((match passing with
      | .byRef => [style.keyword "ByRef"]
      | .byVal => [style.keyword "ByVal"]
      | .unspecified => []) ++ name :: rest) passing (name :: rest) := by
  cases passing with
  | byVal =>
    refine .bind (reads_view (a := true) fun _ => by simp) ?_
    exact .bind (reads_advance_one _ _) (reads_pure _ _)
  | byRef =>
    refine .bind (reads_view (a := false) fun _ => by simp +decide) ?_
    refine .bind (reads_view (a := true) fun _ => by simp) ?_
    exact .bind (reads_advance_one _ _) (reads_pure _ _)
  | unspecified =>
    have noWord := Token.isKeyword_of_isNameLike named
    refine .bind (reads_view (a := false) fun _ => noWord "ByVal") ?_
    exact .bind (reads_view (a := false) fun _ => noWord "ByRef") (reads_pure _ _)

theorem reads_parameter (named : p.name.isNameLike = true) (t : Token) (stops : t.kind ≠ .openBracket)
    (rest : List Token) : Reads parameter (style.parameterTokens p ++ t :: rest) p (t :: rest) := by
  rw [parameterTokens, append_assoc, cons_append]
  refine .bind (reads_passing style p.passing p.name named _) ?_
  refine .bind (reads_expect named _) ?_
  obtain ⟨passing, name, isArray⟩ := p
  cases isArray with
  | true =>
    refine .bind (reads_view (a := true) fun _ => rfl) ?_
    exact .bind (reads_advance [_, _] _ 2 rfl) (reads_pure _ _)
  | false =>
    refine .bind (reads_view (a := false) fun _ => by simp [stops]) ?_
    exact reads_pure _ _

theorem reads_parameterList (some_parameter : ps ≠ []) (named : ∀ p ∈ ps, p.name.isNameLike = true) (budget : Nat)
    (enough : ps.length ≤ budget) (rest : List Token) :
    Reads (parameterList budget)
      (style.separated (ps.map style.parameterTokens) ++ closeMark style.line :: rest) ps rest := by
  induction ps generalizing budget with
  | nil => contradiction
  | cons p ps ih =>
    obtain ⟨budget, rfl⟩ := Nat.exists_eq_add_of_lt (Nat.lt_of_lt_of_le (Nat.zero_lt_succ _) enough)
    obtain ⟨first, others⟩ := forall_mem_cons.mp named
    rw [Nat.zero_add, parameterList]
    cases ps with
    | nil =>
      rw [map_singleton, separated_singleton]
      refine .bind (reads_parameter style p first _ (by simp [closeMark]) rest) ?_
      exact .bind (reads_next? _ rest) (reads_pure _ _)
    | cons next ps =>
      have later := ih (by simp) others budget (by simpa using enough)
      rw [map_cons, map_cons, separated_cons_cons, append_assoc, cons_append]
      refine .bind (reads_parameter style p first _ (by simp [commaMark]) _) ?_
      refine .bind (reads_next? _ _) ?_
      exact .bind later (reads_pure _ _)

theorem length_le_separated (parts : List (List Token)) (filled : ∀ part ∈ parts, part ≠ []) :
    parts.length ≤ (style.separated parts).length := by
  induction parts with
  | nil => simp
  | cons part parts ih =>
    obtain ⟨first, others⟩ := forall_mem_cons.mp filled
    have positive := length_pos_of_ne_nil first
    cases parts with
    | nil =>
      rw [separated_singleton, length_singleton]
      omega
    | cons next parts =>
      have := ih others
      rw [separated_cons_cons, length_append]
      simp only [length_cons] at this ⊢
      omega

theorem parameters_start (named : p.name.isNameLike = true) :
    ∃ t more, style.separated ((p :: ps).map style.parameterTokens) = t :: more ∧ t.kind ≠ .closeBracket := by
  have starts : ∃ t more, style.parameterTokens p = t :: more ∧ t.kind ≠ .closeBracket := by
    unfold parameterTokens
    cases p.passing with
    | byRef => exact ⟨_, _, rfl, Kind.noConfusion⟩
    | byVal => exact ⟨_, _, rfl, Kind.noConfusion⟩
    | unspecified =>
      refine ⟨p.name, _, rfl, ?_⟩
      intro closes
      simp [Token.isNameLike, closes, Kind.isNameLike] at named
  obtain ⟨t, more, starts, noBracket⟩ := starts
  cases ps with
  | nil => exact ⟨t, more, by simp [separated_singleton, starts], noBracket⟩
  | cons next ps =>
    exact ⟨t, _, by rw [map_cons, map_cons, separated_cons_cons, starts]; rfl, noBracket⟩

theorem reads_parameters (named : ∀ p ∈ ps, p.name.isNameLike = true) (rest : List Token) :
    Reads parameters (style.parameterList ps ++ Token.lineEnd style.line :: rest) ps
      (Token.lineEnd style.line :: rest) := by
  unfold PrintStyle.parameterList
  split
  next bare =>
    obtain ⟨rfl, -⟩ : ps = [] ∧ style.writesBrackets = false := by simpa using bare
    exact .bind (reads_view (a := false) fun _ => rfl) (reads_pure _ _)
  next =>
    simp only [PrintStyle.inBrackets, cons_append, append_assoc, nil_append]
    refine .bind (reads_view (a := true) fun _ => rfl) (.bind (reads_advance_one _ _) ?_)
    cases ps with
    | nil =>
      refine .bind (reads_view (a := true) fun _ => rfl) ?_
      exact .bind (reads_advance_one _ _) (reads_pure _ _)
    | cons p ps =>
      have filled : ∀ part ∈ (p :: ps).map style.parameterTokens, part ≠ [] := by
        simp [parameterTokens]
      -- the budget is the number of tokens, and each parameter has at least one
      have enough := length_le_separated style _ filled
      obtain ⟨t, more, starts, noBracket⟩ := parameters_start style p ps (named p (by simp))
      refine .bind (reads_view (a := false) fun _ => by rw [starts]; simp [noBracket]) ?_
      refine .bind (reads_view_rest length _) ?_
      refine reads_parameterList style (p :: ps) (by simp) named _ ?_ _
      simp only [length_map, length_append] at enough ⊢
      omega

theorem holdsAt_append (words rest : List Token) (offset endLine : Nat) (test : Token → Bool) :
    Cursor.holdsAt ⟨words ++ rest, endLine⟩ (words.length + offset) test =
      Cursor.holdsAt ⟨rest, endLine⟩ offset test := by
  simp [Cursor.holdsAt, Cursor.peekAt?, getElem?_append_right]

theorem routineKind?_append (words rest : List Token) (endLine : Nat) :
    routineKind? ⟨words ++ rest, endLine⟩ words.length = routineKind? ⟨rest, endLine⟩ 0 := by
  have here (test : Token → Bool) := holdsAt_append words rest 0 endLine test
  have next (test : Token → Bool) := holdsAt_append words rest 1 endLine test
  have third (test : Token → Bool) := holdsAt_append words rest 2 endLine test
  simp only [Nat.add_zero] at here
  simp only [routineKind?, Cursor.isKeywordAt, Cursor.isKeywordLikeAt, here, next, third, Nat.zero_add]

/-- The words of a kind are followed by the routine's name, so they are taken for what they are. -/
theorem routineKind?_print (kind : RoutineKind) (name : Token) (named : name.isNameLike = true)
    (rest : List Token) (endLine : Nat) :
    routineKind? ⟨style.kindWords kind ++ name :: rest, endLine⟩ 0 = some (kind, (style.kindWords kind).length) := by
  cases kind <;>
    simp +decide [routineKind?, kindWords, Cursor.isKeywordAt, Cursor.isKeywordLikeAt, named]

/-- A routine's kind is told by none of the words that may stand before it. -/
theorem kindWords_start (kind : RoutineKind) (rest : List Token) :
    ∃ t more, style.kindWords kind ++ rest = t :: more ∧ t.isKeyword "Public" = false ∧
      t.isKeyword "Private" = false ∧ t.isKeywordLike "Default" = false := by
  cases kind <;> exact ⟨_, _, rfl, by simp +decide, by simp +decide, by simp +decide⟩

/-- The words before those of the kind say who may use the routine and whether it is the default. -/
theorem opening?_front (isPublic isDefault : Bool) (t : Token) (more : List Token) (endLine : Nat)
    (noPublic : t.isKeyword "Public" = false) (noPrivate : t.isKeyword "Private" = false)
    (noDefault : t.isKeywordLike "Default" = false) :
    let front := style.accessWords isPublic ++ if isDefault then [style.softKeyword "Default"] else []
    opening? ⟨front ++ t :: more, endLine⟩ = (routineKind? ⟨t :: more, endLine⟩ 0).map
      fun (kind, words) => ⟨kind, isPublic, isDefault, front.length + words⟩ := by
  intro front
  have other : sameWord "Private" "Public" = false := by decide
  rw [← routineKind?_append front]
  cases isPublic <;> cases isDefault <;> cases said : style.writesPublic <;>
    simp [front, said, accessWords, opening?, Cursor.isKeywordLikeAt, noPublic, noPrivate, noDefault, other]

theorem opening?_print (named : header.name.isNameLike = true) (rest : List Token) :
    ∃ words, style.headerTokens header ++ rest =
        words ++ header.name :: (style.parameterList header.parameters ++ rest) ∧
      ∀ endLine, opening? ⟨style.headerTokens header ++ rest, endLine⟩ =
        some ⟨header.kind, header.isPublic, header.isDefault, words.length⟩ := by
  refine ⟨(style.accessWords header.isPublic ++ if header.isDefault then
    [style.softKeyword "Default"] else []) ++ style.kindWords header.kind,
    by simp [headerTokens], fun endLine => ?_⟩
  have found := routineKind?_print style header.kind header.name named
    (style.parameterList header.parameters ++ rest) endLine
  obtain ⟨t, more, starts, noPublic, noPrivate, noDefault⟩ := kindWords_start style header.kind
    (header.name :: (style.parameterList header.parameters ++ rest))
  have opened := opening?_front style header.isPublic header.isDefault t more endLine noPublic
    noPrivate noDefault
  rw [← starts, found] at opened
  simpa [headerTokens, Nat.add_assoc] using opened

theorem reads_routine (body : List Block) (named : header.name.isNameLike = true)
    (namedParameters : ∀ p ∈ header.parameters, p.name.isNameLike = true) (parseBody : Body) (rest : List Token)
    (read : Reads (parseBody [header.kind.endWords])
      (style.blocks body ++ (style.lineOf (style.endWords header.kind) ++ rest)) (body, some 0)
      (style.lineOf (style.endWords header.kind) ++ rest)) :
    Reads (routine parseBody) (style.block (.routine header body) ++ rest) (some (.routine header body)) rest := by
  obtain ⟨words, starts, opened⟩ := opening?_print style header named
    (Token.lineEnd style.line :: (style.blocks body ++ (style.lineOf (style.endWords header.kind) ++ rest)))
  have length : (style.endWords header.kind).length = header.kind.endWords.length := by
    cases header.kind <;> rfl
  rw [PrintStyle.block, append_assoc, lineOf_append, append_assoc]
  refine .bind (reads_view opened) ?_
  rw [starts]
  obtain ⟨openedOn, line⟩ := reads_line (words ++ header.name ::
    (style.parameterList header.parameters ++ Token.lineEnd style.line :: (style.blocks body ++
      (style.lineOf (style.endWords header.kind) ++ rest)))) (by simp)
  refine .bind line (.bind (reads_advance words _ _ rfl) ?_)
  refine .bind (reads_expect named _) (.bind (reads_parameters style _ namedParameters _) ?_)
  refine .bind (reads_expectTerminator rfl _) ?_
  rw [lineOf_append] at read ⊢
  refine .bind (reads_bodyThrough _ length read openedOn) ?_
  exact reads_ending rfl rest

/-! ### Classes -/

theorem takes_add (seen : Members) (a b : Header) : (seen.add a).takes b = (a.clashes b || seen.takes b) := by
  cases first : a.kind.isProperty <;> cases second : b.kind.isProperty <;>
    simp only [Members.takes, Members.add, Header.clashes, first, second, sameWord] <;> grind

/-- A class is accepted exactly if no member has a name that an earlier one has taken. -/
theorem checkMembers_ok_iff (className : Token) (seen : Members) (body : List Block) :
    checkMembers className seen body = .ok () ↔ (∀ h ∈ memberHeaders body, seen.takes h = false) ∧
        (memberHeaders body).Pairwise fun a b => a.clashes b = false := by
  induction body generalizing seen with
  | nil => simp [checkMembers, memberHeaders]
  | cons b body ih =>
    cases b with
    | routine header _ =>
      rw [checkMembers, memberHeaders, pairwise_cons, forall_mem_cons]
      split
      next taken => simp [taken]
      next free =>
        rw [ih]
        simp only [takes_add, Bool.or_eq_false_iff]
        grind
    | _ => exact ih seen

end VbSharp.Parser
