import VbSharp.Proofs.Block.Control

/-!
# Parsing inverts printing

Every well formed tree of blocks is parsed from its printed tokens. The induction is on the tree. A body
is read with any budget that covers its tokens, up to an end that the tokens behind it spell; each
construct uses up at least the token that opens it, so the budget that is left covers its body.
-/
namespace VbSharp

open List PrintStyle

variable {body : List Block} {target value : Expr}
namespace Parser

variable (style : PrintStyle)

variable {style}

variable (kind : DeclarationKind)

/-! ### Blocks that start with a keyword -/

theorem blockReads_optionExplicit : BlockReads style .optionExplicit := by
  refine blockReads_keyword style "Option" style.line 0 (by decide) rfl (fun _ => rfl) fun _ rest _ => ?_
  refine .guarded (fun _ => by simp [PrintStyle.block, Cursor.isKeywordLikeAt]) ?_
  refine .bind (reads_advance [_, _] _ 2 rfl) ?_
  exact reads_ending rfl rest

theorem blockReads_randomize (seed : Option Expr) (line : Nat)
    (printable : seed.all Expr.isPrintable = true) : BlockReads style (.randomize seed line) := by
  cases seed with
  | none => exact blockReads_plain (isPlain_keyword (by decide) line (forall_mem_nil _)) (plainOf_randomize line []) rfl
  | some e =>
    have filled := Expr.print_ne_nil style.line e ((Expr.isPrintable_iff e).mp printable).1
    have read := Expr.read_print style.line line e printable
    have inside := (Expr.standInside_print style.line e printable).open_end
    refine blockReads_plain (isPlain_keyword (by decide) line inside) ((plainOf_randomize line _).trans ?_) rfl
    simp [seedOf, filled, read, Except.map, Except.toOption]

theorem blockReads_callStatement (e : Expr) (printable : e.isPrintable = true)
    (chain : Expr.isChain e = true) : BlockReads style (.call e true) := by
  have read := Expr.read_print style.line style.line e printable
  have inside := (Expr.standInside_print style.line e printable).open_end
  refine blockReads_plain (isPlain_keyword (by decide) style.line inside) ((plainOf_call style.line _).trans ?_) rfl
  simp [callOf, read, chain, bind, Except.bind, pure, Except.pure, Except.toOption]

theorem blockReads_class (bodyReads : BlocksRead style body) (name : Token) (named : name.isNameLike = true)
    (differ : checkMembers name {} body = .ok ()) : BlockReads style (.classDefinition name body) := by
  refine blockReads_enclosed bodyReads "Class" style.line 2 (by decide) "End" ["Class"] (by decide) rfl (fun _ => rfl)
    (by simp [Cursor.startsWith, Cursor.isKeywordLikeAt]) fun parseBody rest read => ?_
  refine .opened (fun _ => by simp) ?_
  refine .bind (reads_expect named _) (.bind (reads_expectTerminator rfl _) ?_)
  refine .bind (reads_bodyThrough [_, _] rfl read _) (.bind (reads_expectTerminator rfl rest) ?_)
  exact .bind (reads_lift differ rest) (reads_pure _ _)

/-! ### Blocks that start with a word of several constructs -/

theorem blockReads_assignment (kind : AssignKind) (printableTarget : target.isPrintable = true)
    (chain : Expr.isChain target = true) (printable : value.isPrintable = true) :
    BlockReads style (.assignment kind target value) := by
  have inside := assignment_open style printableTarget printable
  have made {word : String} := statementOf_print style printableTarget chain printable kind word style.line
  cases kind with
  | value =>
    cases said : style.writesLet with
    | false =>
      have named := isNamedLine_assignment style target value printableTarget chain printable
      refine blockReads_plain named.isPlain named.plainOf ?_
      simp [PrintStyle.block, assignmentWords, said]
    | true =>
      have made := @made "Let" (by decide) (by simp [assignKind?, Token.isWord, Token.ofKeyword])
      refine blockReads_plain (isPlain_keyword (by decide) style.line inside) (plainOf_statement made ?_) ?_
      · simp +decide
      · simp [PrintStyle.block, assignmentWords, said]
  | object =>
    have made := @made "Set" (by decide) (by simp +decide [assignKind?, Token.isWord, Token.ofKeyword])
    refine blockReads_plain (isPlain_keyword (by decide) style.line inside) (plainOf_statement made ?_) rfl
    simp +decide

theorem blockReads_blankLine : BlockReads style .blankLine := by
  intro budget rest _
  refine ⟨Token.lineEnd style.line, rest, rfl, fun word _ => rfl, ?_⟩
  exact .bind (reads_advance_one _ _) (reads_pure _ _)

theorem blockReads_comment (text : String) (inline : Bool) : BlockReads style (.comment text inline) := by
  intro budget rest _
  cases inline with
  | true =>
    refine ⟨⟨.inlineComment, text, style.line⟩, Token.lineEnd style.line :: rest, rfl, fun word _ => rfl, ?_⟩
    exact .bind (reads_move fun _ => rfl) (reads_pure _ _)
  | false =>
    refine ⟨⟨.comment, text, style.line⟩, Token.lineEnd style.line :: rest, rfl, fun word _ => rfl, ?_⟩
    exact .bind (reads_move fun _ => rfl) (reads_pure _ _)

theorem variables_start (v : Variable) (vars : List Variable) (rest : List Token) :
    ∃ t more, style.separated ((v :: vars).map style.variableTokens) ++ Token.lineEnd style.line :: rest =
      v.name :: t :: more ∧ t.kind ≠ .keyword ∧ t.kind ≠ .softKeyword := by
  obtain ⟨name, bounds⟩ := v
  -- a bracket, a comma or the end of the line
  cases bounds <;> cases vars <;> exact ⟨_, _, rfl, Kind.noConfusion, Kind.noConfusion⟩

theorem blockReads_field (word : String) (vars : List Variable) (line : Nat)
    (access : word = "Public" ∨ word = "Private")
    (words : style.declarationWords kind line = [Token.ofKeyword word line]) (some_variable : vars ≠ [])
    (wellFormed : ∀ v ∈ vars, v.isWellFormed = true ∧ (kind.isReDim = true → v.bounds.isSome = true)) :
    BlockReads style (.declaration kind vars line) := by
  intro budget rest _
  have read := reads_declaration style kind vars line some_variable wellFormed rest
  obtain ⟨v, others, rfl⟩ := exists_cons_of_ne_nil some_variable
  have named := name_of_isWellFormed (wellFormed v (by simp)).1
  obtain ⟨t, more, starts, mark⟩ := @variables_start style v others rest
  have printed : style.block (.declaration kind (v :: others) line) ++ rest =
      Token.ofKeyword word line :: v.name :: t :: more := by
    rw [PrintStyle.block, lineOf_append, append_assoc, starts, words]
    rfl
  have noClose : ∀ other ∈ closingWords, sameWord word other = false := by
    rcases access with rfl | rfl <;> decide
  have noOther : ∀ construct ∈ (constructOrder.take 4).drop 0, ∀ other ∈ openingWords construct,
      sameWord word other = false := by
    rcases access with rfl | rfl <;> decide
  rw [printed] at read ⊢
  refine ⟨_, _, rfl, noClose, reads_blockAt (.inl rfl) ?_⟩
  -- the parser of routines is asked first and knows the word, so it has to decline by what follows
  exact reads_firstOf 4 rfl read (declined_between _ 0 4 (by simp) _ _
    (fun _ => opening?_none_of_declaration word line access v.name t named mark more) noOther)

theorem blockReads_declaration (vars : List Variable) (line : Nat) (some_variable : vars ≠ [])
    (wellFormed : ∀ v ∈ vars, v.isWellFormed = true ∧ (kind.isReDim = true → v.bounds.isSome = true)) :
    BlockReads style (.declaration kind vars line) := by
  have read (rest : List Token) := reads_declaration style kind vars line some_variable wellFormed rest
  cases kind with
  | dim =>
    exact blockReads_keyword style "Dim" line 4 (by decide) rfl (fun _ => rfl) fun _ rest _ => read rest
  | reDim preserve =>
    cases preserve <;>
      exact blockReads_keyword style "ReDim" line 4 (by decide) rfl (fun _ => rfl) fun _ rest _ => read rest
  | privateField =>
    exact blockReads_field _ "Private" vars line (.inr rfl) rfl some_variable wellFormed
  | publicField =>
    exact blockReads_field _ "Public" vars line (.inl rfl) rfl some_variable wellFormed

theorem header_start (header : Header) :
    ∃ t more word, style.headerTokens header = t :: more ∧ word ∈ routineWords ∧
      (t = .ofKeyword word style.line ∨ t = .ofSoftKeyword word style.line) := by
  unfold headerTokens accessWords
  cases header.isPublic with
  | false => exact ⟨_, _, "Private", rfl, by decide, .inl rfl⟩
  | true =>
    cases style.writesPublic with
    | true => exact ⟨_, _, "Public", rfl, by decide, .inl rfl⟩
    | false =>
      cases header.isDefault with
      | true => exact ⟨_, _, "Default", rfl, by decide, .inr rfl⟩
      | false =>
        cases header.kind with
        | function => exact ⟨_, _, "Function", rfl, by decide, .inl rfl⟩
        | sub => exact ⟨_, _, "Sub", rfl, by decide, .inl rfl⟩
        | propertyGet | propertyLet | propertySet =>
          exact ⟨_, _, "Property", rfl, by decide, .inr rfl⟩

theorem startsWith_endWords (kind : RoutineKind) (rest : List Token) (endLine : Nat) :
    Cursor.startsWith ⟨style.endWords kind ++ rest, endLine⟩ kind.endWords = true := by
  cases kind <;>
    simp [PrintStyle.endWords, RoutineKind.endWords, Cursor.startsWith, Cursor.isKeywordLikeAt]

theorem blockReads_routine (bodyReads : BlocksRead style body) (header : Header) (named : header.name.isNameLike = true)
    (namedParameters : ∀ p ∈ header.parameters, p.name.isNameLike = true) :
    BlockReads style (.routine header body) := by
  intro budget rest enough
  have closing : AreClosing [header.kind.endWords] := by
    cases header.kind <;> exact areClosing_single _ (by decide)
  have stops : StopsAt [header.kind.endWords] (style.lineOf (style.endWords header.kind) ++ rest) (some 0) := by
    rw [lineOf_append]
    exact stopsAt_single (by simp) (startsWith_endWords header.kind _)
  have read := reads_routine style header body named namedParameters _ rest
    (bodyReads budget _ _ _ closing stops (by simp [PrintStyle.block, PrintStyle.lineOf] at enough ⊢; omega))
  obtain ⟨t, more, word, starts, opens, isWord⟩ := @header_start style header
  have noOther : ∀ word ∈ routineWords, ∀ other ∈ closingWords ++
      (constructOrder.take 3).flatMap openingWords, sameWord word other = false := by decide
  have noWord : ∀ other ∈ closingWords ++ (constructOrder.take 3).flatMap openingWords, t.isKeyword other = false := by
    intro other member
    rcases isWord with rfl | rfl
    · exact noOther word opens other member
    · rfl
  obtain ⟨more, printed⟩ : ∃ more, style.block (.routine header body) ++ rest = t :: more := by
    rw [PrintStyle.block, starts]
    exact ⟨_, rfl⟩
  rw [printed] at read ⊢
  refine ⟨t, more, rfl, fun other closes => noWord other (mem_append_left _ closes), ?_⟩
  refine reads_blockAt ?_ (reads_firstOf 3 rfl read (declined_between _ 0 3 (by simp) _ _ (by simp) ?_))
  · rcases isWord with rfl | rfl
    · exact .inl rfl
    · exact .inr rfl
  · intro construct listed other opens
    exact noWord other (mem_append_right _ (mem_flatMap.mpr ⟨construct, listed, opens⟩))

/-! ### Whole trees -/

mutual

theorem block_reads : ∀ b : Block, b.isWellFormed = true → BlockReads style b
  | .blankLine, _ => blockReads_blankLine
  | .comment text inline, _ => blockReads_comment text inline
  | .optionExplicit, _ => blockReads_optionExplicit
  | .exit kind line, _ => blockReads_exit style kind line
  | .onError mode line, _ => blockReads_onError style mode line
  | .randomize seed line, fit => blockReads_randomize seed line fit
  | .declaration kind vars line, fit => by
    simp only [Block.isWellFormed, Bool.and_eq_true, all_eq_true, Bool.or_eq_true,
      Bool.not_eq_true', isEmpty_eq_false_iff] at fit
    refine blockReads_declaration kind vars line fit.1 fun v member => ⟨(fit.2 v member).1, ?_⟩
    intro resizes
    simpa [resizes] using (fit.2 v member).2
  | .classDefinition name body, fit => by
    simp only [Block.isWellFormed, Bool.and_eq_true, decide_eq_true_eq] at fit
    have differ := (checkMembers_ok_iff name {} body).mpr ⟨fun h _ => by simp [Members.takes], fit.2⟩
    exact blockReads_class (blocks_read body fit.1.2) name fit.1.1 differ
  | .routine header body, fit => by
    simp only [Block.isWellFormed, Bool.and_eq_true, all_eq_true] at fit
    exact blockReads_routine (blocks_read body fit.2) header fit.1.1 fit.1.2
  | .branch condition body others, fit => by
    simp only [Block.isWellFormed, Bool.and_eq_true] at fit
    exact blockReads_branch fit.1.1 (blocks_read body fit.1.2) (alternative_reads others fit.2)
  | .call e true, fit => by
    simp only [Block.isWellFormed, Bool.and_eq_true] at fit
    exact blockReads_callStatement e fit.1.1 fit.1.2
  | .call e false, fit => by
    simp only [Block.isWellFormed, Bool.and_eq_true, Bool.false_or] at fit
    have named := isNamedLine_bareCall style e fit.1.1 fit.1.2 fit.2
    exact blockReads_plain named.isPlain named.plainOf rfl
  | .assignment kind target value, fit => by
    simp only [Block.isWellFormed, Bool.and_eq_true] at fit
    exact blockReads_assignment kind fit.1.1 fit.1.2 fit.2
  | .doLoop test body line, fit => by
    simp only [Block.isWellFormed, Bool.and_eq_true, all_eq_true] at fit
    exact blockReads_doLoop (blocks_read body fit.2) test line fit.1
  | .whileLoop condition body line, fit => by
    simp only [Block.isWellFormed, Bool.and_eq_true] at fit
    exact blockReads_whileLoop (blocks_read body fit.2) condition line fit.1
  | .forLoop counter first last step body, fit => by
    simp only [Block.isWellFormed, Bool.and_eq_true] at fit
    obtain ⟨⟨⟨⟨named, printableFirst⟩, printableLast⟩, printableStep⟩, inner⟩ := fit
    exact blockReads_forLoop (blocks_read body inner) counter first last step named printableFirst
      printableLast printableStep
  | .forEach item collection body, fit => by
    simp only [Block.isWellFormed, Bool.and_eq_true] at fit
    exact blockReads_forEach (blocks_read body fit.2) item collection fit.1.1 fit.1.2
  | .select subject cs line, fit => by
    simp only [Block.isWellFormed, Bool.and_eq_true] at fit
    exact blockReads_select line fit.1 (cases_read cs fit.2)
  | .withTarget target body line, fit => by
    simp only [Block.isWellFormed, Bool.and_eq_true] at fit
    exact blockReads_withTarget (blocks_read body fit.2) target line fit.1

theorem blocks_read : ∀ bs : List Block, allWellFormed bs = true → BlocksRead style bs
  | [], _ => blocksRead_nil style
  | b :: bs, fit => by
    simp only [allWellFormed, Bool.and_eq_true] at fit
    exact blocksRead_cons style b bs (block_reads b fit.1) (blocks_read bs fit.2)

theorem alternative_reads : ∀ others : Alternative, others.isWellFormed = true → AlternativeReads style others
  | .none, _ => alternativeReads_none
  | .elseIf condition body others, fit => by
    simp only [Alternative.isWellFormed, Bool.and_eq_true] at fit
    exact alternativeReads_elseIf fit.1.1 (blocks_read body fit.1.2) (alternative_reads others fit.2)
  | .otherwise body, fit => alternativeReads_otherwise (blocks_read body fit)

theorem cases_read : ∀ cs : Cases, cs.isWellFormed = true → CasesRead style cs
  | .none, _ => casesRead_none
  | .case values body others, fit => by
    simp only [Cases.isWellFormed, Bool.and_eq_true, all_eq_true] at fit
    exact casesRead_case fit.1.1 (blocks_read body fit.1.2) (cases_read others fit.2)

end

end Parser

/-- Every well formed program is parsed from its printed tokens, in each style. -/
theorem parseBlocks_inverts_print (style : PrintStyle) (program : List Block)
    (wellFormed : allWellFormed program = true) :
    parseBlocks (style.blocks program) = .ok program := by
  have read := @Parser.blocks_read style program wellFormed (style.blocks program).length []
    [] none (by simp [Parser.AreClosing]) rfl (by simp)
  rw [append_nil] at read
  have run : Parser.Reads (Parser.blocks []) (style.blocks program) (program, none) [] :=
    .bind (Parser.reads_view_rest length _) read
  obtain ⟨log, run⟩ := run (Cursor.ofTokens (style.blocks program)).endLine []
  have start : Reader.ofTokens (style.blocks program) = ⟨⟨style.blocks program,
    (Cursor.ofTokens (style.blocks program)).endLine⟩, []⟩ := rfl
  rw [parseBlocks, EStateM.run, start, run]

/-- A class with a field `Property` and a default property `Default`, whose body calls `Property Get`
without brackets, is parsed from its text. -/
theorem parseBlocks_inverts_print_property :
    allWellFormed [.classDefinition ⟨.name, "Box", 0⟩
      [.declaration .privateField [⟨⟨.softKeyword, "Property", 0⟩, none⟩] 0,
        .routine ⟨.propertyGet, ⟨.softKeyword, "Default", 0⟩, true, true, []⟩
          [.branch [.call [⟨.name, "a", 0⟩] []]
            [.call [.call [⟨.softKeyword, "Property", 0⟩] [[.call [⟨.softKeyword, "Get", 0⟩] []]]] false]
            (.otherwise [.exit .property 0])]]] = true ∧
    parseBlocks (PrintStyle.blocks ⟨0, false, false, false⟩ [.classDefinition ⟨.name, "Box", 0⟩
      [.declaration .privateField [⟨⟨.softKeyword, "Property", 0⟩, none⟩] 0,
        .routine ⟨.propertyGet, ⟨.softKeyword, "Default", 0⟩, true, true, []⟩
          [.branch [.call [⟨.name, "a", 0⟩] []]
            [.call [.call [⟨.softKeyword, "Property", 0⟩] [[.call [⟨.softKeyword, "Get", 0⟩] []]]] false]
            (.otherwise [.exit .property 0])]]]) =
      .ok [.classDefinition ⟨.name, "Box", 0⟩
        [.declaration .privateField [⟨⟨.softKeyword, "Property", 0⟩, none⟩] 0,
          .routine ⟨.propertyGet, ⟨.softKeyword, "Default", 0⟩, true, true, []⟩
            [.branch [.call [⟨.name, "a", 0⟩] []]
              [.call [.call [⟨.softKeyword, "Property", 0⟩] [[.call [⟨.softKeyword, "Get", 0⟩] []]]] false]
              (.otherwise [.exit .property 0])]]] :=
  ⟨by decide, parseBlocks_inverts_print _ _ (by decide)⟩

end VbSharp
