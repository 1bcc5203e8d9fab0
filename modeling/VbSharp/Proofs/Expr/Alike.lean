import VbSharp.Proofs.Expr.WordOrder
import VbSharp.Proofs.Token.AlikeNumeral

/-!
# Expressions of alike tokens

Expressions are alike if they are built alike from alike tokens. Alike tokens are read as alike expressions, or both
readers fail alike: the reader looks at the kind of a token, at the words it forms and at nothing else. Of a word behind
a point it does not even look at the kind. So the tokens may have other words there, and then the expressions differ in
the names of their calls only.
-/
namespace VbSharp

open List

variable {other line final last : Nat}

mutual

/-- Segments that are built alike, with related names. A call names something. -/
inductive Segment.Related (L : Likeness) (N : Token → Token → Prop) : Segment → Segment → Prop where
  | call {names others : List Token} {es fs : List Expr} (filled : names ≠ [])
    (named : Forall₂ N names others) (given : Forall₂ (Expr.Related L N) es fs) :
    Segment.Related L N (.call names es) (.call others fs)
  | value {t u : Token} (literal : t.isLiteral = true) (alike : t.Alike L u) :
    Segment.Related L N (.value t) (.value u)
  | operator {t u : Token} (alike : t.Alike L u) : Segment.Related L N (.operator t) (.operator u)
  | bracketed {e f : Expr} (inner : Expr.Related L N e f) : Segment.Related L N (.bracketed e) (.bracketed f)
  | new {t u : Token} (alike : t.Alike L u) : Segment.Related L N (.new t) (.new u)

/-- Expressions that are built alike, with related names. There is at least one segment. -/
inductive Expr.Related (L : Likeness) (N : Token → Token → Prop) : Expr → Expr → Prop where
  | mk {s t : Segment} {rest more : List Segment} (first : Segment.Related L N s t)
    (later : Forall₂ (Segment.Related L N) rest more) : Expr.Related L N (s :: rest) (t :: more)

end

/-- Segments that are built alike. -/
abbrev Segment.Alike (L : Likeness) : Segment → Segment → Prop :=
  Segment.Related L (Token.Alike L)

/-- Expressions that are built alike. -/
abbrev Expr.Alike (L : Likeness) : Expr → Expr → Prop :=
  Expr.Related L (Token.Alike L)

/-- Tokens that are alike, up to words behind points. -/
inductive RelatedTokens (L : Likeness) (W : Token → Token → Prop) : List Token → List Token → Prop where
  | nil : RelatedTokens L W [] []
  | cons {t u : Token} {a b : List Token} (same : t.Alike L u) (later : RelatedTokens L W a b) :
    RelatedTokens L W (t :: a) (u :: b)
  | member {p q w v : Token} {a b : List Token} (isPoint : q.kind = .member) (points : p.Alike L q) (words : W w v)
    (later : RelatedTokens L W a b) : RelatedTokens L W (p :: w :: a) (q :: v :: b)

/-- Related words can name a member, and names are related if they are alike or such words. -/
structure Likeness.Naming (L : Likeness) (W N : Token → Token → Prop) : Prop where
  alike : ∀ {t u}, t.Alike L u → N t u
  named : ∀ {w v}, W w v → N w v
  left : ∀ {w v}, W w v → w.canNameMember = true
  right : ∀ {w v}, W w v → v.canNameMember = true
  line : ∀ {w v}, W w v → v.line = w.line + L.shift

theorem Likeness.naming (L : Likeness) : L.Naming (fun _ _ => False) (Token.Alike L) :=
  ⟨id, nofun, nofun, nofun, nofun⟩

variable {L : Likeness} {W N : Token → Token → Prop} {e f : Expr}

theorem Expr.Related.segments (alike : e.Related L N f) : Forall₂ (Segment.Related L N) e f := by
  cases alike with
  | mk first later => exact .cons first later

theorem Expr.related_of_segments (filled : e ≠ []) (alike : Forall₂ (Segment.Related L N) e f) : e.Related L N f := by
  cases alike with
  | nil => exact absurd rfl filled
  | cons first later => exact .mk first later

mutual

theorem Segment.Alike.line : ∀ {s t : Segment}, s.Alike L t → t.line = s.line + L.shift
  | .call (_ :: _) _, _, .call _ (.cons same _) _ => same.line
  | .call [] _, _, .call filled _ _ => absurd rfl filled
  | .value _, _, .value _ alike => alike.line
  | .operator _, _, .operator alike => alike.line
  | .new _, _, .new alike => alike.line
  | .bracketed _, _, .bracketed inner => Expr.Alike.line inner

theorem Expr.Alike.line : ∀ {e f : List Segment}, Expr.Alike L e f → Expr.line f = Expr.line e + L.shift
  | _ :: _, _, .mk first _ => Segment.Alike.line first

end

theorem Expr.Alike.isChain (alike : e.Alike L f) : Expr.isChain e = Expr.isChain f := by
  have segments := alike.segments
  unfold Expr.isChain
  rw [forall₂_isEmpty segments, forall₂_all segments]
  intro s t same
  cases same <;> rfl

namespace Likeness.Results

variable {α β : Type} {R S : α → β → Prop} {x : Except Fault α} {y : Except Fault β}

/-- What holds of the results themselves may be used to relate them. -/
theorem of_ok (first : L.Results R x y) (weaker : ∀ {a b}, x = .ok a → R a b → S a b) : L.Results S x y := by
  cases first with
  | ok related => exact .ok (weaker rfl related)
  | error alike => exact .error alike

end Likeness.Results

/-! ### Brackets -/

variable {tokens others part parts : List Token}

namespace RelatedTokens

theorem of_alike (alike : Forall₂ (Token.Alike L) tokens others) : RelatedTokens L W tokens others := by
  induction alike with
  | nil => exact .nil
  | cons same _ ih => exact .cons same ih

theorem alike (related : RelatedTokens L (fun _ _ => False) tokens others) : Forall₂ (Token.Alike L) tokens others := by
  induction related with
  | nil => exact .nil
  | cons same _ ih => exact .cons same ih
  | member _ _ words => exact words.elim

theorem append {a b c d : List Token} (first : RelatedTokens L W a b) (second : RelatedTokens L W c d) :
    RelatedTokens L W (a ++ c) (b ++ d) := by
  induction first with
  | nil => exact second
  | cons same _ ih => exact .cons same ih
  | member isPoint points words _ ih => exact .member isPoint points words ih

theorem isEmpty_eq (related : RelatedTokens L W tokens others) : tokens.isEmpty = others.isEmpty := by
  cases related <;> rfl

theorem lastLineNumber_eq (related : RelatedTokens L W tokens others) (naming : L.Naming W N) (filled : tokens ≠ []) :
    lastLineNumber others = lastLineNumber tokens + L.shift := by
  unfold lastLineNumber
  induction related with
  | nil => exact absurd rfl filled
  | cons same later ih =>
    cases later with
    | nil => exact same.lineNumber
    | cons | member => simpa [getLast?_cons_cons] using ih (cons_ne_nil _ _)
  | member isPoint points words later ih =>
    cases later with
    | nil => simp [Token.lineNumber, naming.line words, Nat.add_right_comm]
    | cons | member => simpa [getLast?_cons_cons] using ih (cons_ne_nil _ _)

end RelatedTokens

/-- Points and words are no brackets, nor do they separate arguments. -/
theorem argumentDepth_member {p w : Token} (isPoint : p.kind = .member) (word : w.canNameMember = true) (depth : Nat) :
    argumentDepth depth [p, w] = some depth := by
  cases kind : w.kind <;> simp_all [argumentStep, depthStep, Token.canNameMember, Token.isNameLike, Kind.isNameLike]

theorem closeGroup_related (naming : L.Naming W N) (related : RelatedTokens L W tokens others) (depth : Nat) :
    Option.Rel (fun x y => RelatedTokens L W x.1 y.1 ∧ RelatedTokens L W x.2 y.2) (closeGroup depth tokens)
      (closeGroup depth others) := by
  induction related generalizing depth with
  | nil => exact .none
  | @cons t u _ _ same later ih =>
    have step : depthStep depth t = depthStep depth u := by simp only [depthStep, same.kind]
    cases next : depthStep depth u with
    | none =>
      rw [closeGroup_stop (step.trans next), closeGroup_stop next]
      exact .some ⟨.nil, later⟩
    | some deeper =>
      exact rel_closeGroup (x := [t]) (y := [u]) (by simp [step, next]) (by simp [next]) (.cons same) (ih deeper)
  | member isPoint points words later ih =>
    have nested {p u : Token} (isPoint : p.kind = .member) (word : u.canNameMember = true) :=
      depthAfter_of_argumentDepth _ _ _ (argumentDepth_member isPoint word depth)
    exact rel_closeGroup (nested (points.kind.trans isPoint) (naming.left words)) (nested isPoint (naming.right words))
      (.member isPoint points words) (ih depth)

/-- Two parts of a token list that are alike. -/
def AlikeParts (L : Likeness) (x y : List Token × List Token) : Prop :=
  Forall₂ (Token.Alike L) x.1 y.1 ∧ Forall₂ (Token.Alike L) x.2 y.2

theorem closeGroup_alike (alike : Forall₂ (Token.Alike L) tokens others) (depth : Nat) :
    Option.Rel (AlikeParts L) (closeGroup depth tokens) (closeGroup depth others) := by
  have group := closeGroup_related L.naming (.of_alike alike) depth
  generalize closeGroup depth tokens = first at group ⊢
  generalize closeGroup depth others = second at group ⊢
  cases group with
  | none => exact .none
  | some related => exact .some ⟨related.1.alike, related.2.alike⟩

theorem rel_consPart {t u : Token} {x y : Option (List Token × List Token)} (alike : t.Alike L u)
    (related : Option.Rel (AlikeParts L) x y) : Option.Rel (AlikeParts L)
      (x.map fun (inner, after) => (t :: inner, after)) (y.map fun (inner, after) => (u :: inner, after)) := by
  cases related with
  | none => exact .none
  | some related => exact .some ⟨.cons alike related.1, related.2⟩

theorem cutArguments_related (naming : L.Naming W N) (lines : final = last + L.shift)
    (related : RelatedTokens L W tokens others) (depth : Nat) (opened : RelatedTokens L W part.reverse parts.reverse) :
    L.Results (Forall₂ (RelatedTokens L W)) (cutArguments last depth part tokens)
      (cutArguments final depth parts others) := by
  induction related generalizing depth part parts with
  | nil =>
    unfold cutArguments
    rw [← isEmpty_reverse, opened.isEmpty_eq, isEmpty_reverse]
    split_ifs
    · exact .error (.reported .unbalancedBrackets lines)
    · exact .error (.malformed lines rfl)
    · exact .ok (.cons opened .nil)
  | @cons t u _ _ same _ ih =>
    have more : RelatedTokens L W (t :: part).reverse (u :: parts).reverse := by
      simpa using opened.append (.cons same .nil)
    unfold cutArguments
    rw [same.kind, ← isEmpty_reverse, opened.isEmpty_eq, isEmpty_reverse]
    split
    · exact ih _ more
    · split
      · exact .error (.reported .unbalancedBrackets same.lineNumber)
      · exact ih _ more
    · split_ifs
      · exact ih _ more
      · exact .error (.reported .orphanedComma same.lineNumber)
      · exact (ih 0 .nil).map fun rest => .cons opened rest
    · exact ih _ more
  | @member p q w v a b isPoint points words _ ih =>
    have more : RelatedTokens L W ([p, w].reverse ++ part).reverse ([q, v].reverse ++ parts).reverse := by
      simpa using opened.append (.member isPoint points words .nil)
    have left := cutArguments_append last [p, w] a part depth depth
      (argumentDepth_member (points.kind.trans isPoint) (naming.left words) depth)
    have right := cutArguments_append final [q, v] b parts depth depth
      (argumentDepth_member isPoint (naming.right words) depth)
    exact left ▸ right ▸ ih depth more

theorem splitArguments_related (naming : L.Naming W N) (related : RelatedTokens L W tokens others) :
    L.Results (Forall₂ (RelatedTokens L W)) (splitArguments tokens) (splitArguments others) := by
  unfold splitArguments
  rw [← related.isEmpty_eq]
  by_cases empty : tokens = []
  · simp only [empty, isEmpty_nil, if_true]
    exact .ok .nil
  · have filled : tokens.isEmpty = false := by simpa using empty
    simp only [filled, Bool.false_eq_true, if_false]
    exact cutArguments_related naming (related.lastLineNumber_eq naming empty) related 0 .nil

/-! ### Reading -/

namespace Expr

/-- Readers that stand at the same place, behind related names. -/
inductive Place.Related (L : Likeness) (N : Token → Token → Prop) : Place → Place → Prop where
  | operand : Related L N .operand .operand
  | name {names others : List Token} (filled : names ≠ []) (named : Forall₂ N names others) :
    Related L N (.name names) (.name others)
  | point {names others : List Token} {line other : Nat} (filled : names ≠ [])
    (named : Forall₂ N names others) (lines : other = line + L.shift) :
    Related L N (.point names line) (.point others other)
  | arguments : Related L N .arguments .arguments
  | pointAfterArguments {line other : Nat} (lines : other = line + L.shift) :
    Related L N (.pointAfterArguments line) (.pointAfterArguments other)
  | value : Related L N .value .value

variable {place next : Place} {done more : List Segment} {t u : Token}

theorem settle_related (places : place.Related L N next) (segments : Forall₂ (Segment.Related L N) done more) :
    Forall₂ (Segment.Related L N) (settle place done) (settle next more) := by
  cases places with
  | name filled alike => exact .cons (.call filled alike .nil) segments
  | operand | point | arguments | pointAfterArguments | value => exact segments

theorem addOperand_related {operand other : Segment} (places : place.Related L N next)
    (segments : Forall₂ (Segment.Related L N) done more) (operands : operand.Related L N other) (alike : t.Alike L u) :
    L.Results (Forall₂ (Segment.Related L N)) (addOperand place done operand t) (addOperand next more other u) := by
  have refused : Fault.Alike L (.malformed t.lineNumber (.expectedOperator t.text))
      (.malformed u.lineNumber (.expectedOperator u.text)) :=
    .malformed alike.lineNumber (by simp only [Problem.mapText, alike.text])
  cases places with
  | operand => exact .ok (.cons operands segments)
  | name | point | arguments | pointAfterArguments | value => exact .error refused

theorem only_related {es fs : List Expr} (lines : other = line + L.shift)
    (alike : Forall₂ (Expr.Related L N) es fs) : L.Results (Expr.Related L N) (only line es) (only other fs) := by
  cases alike with
  | nil => exact .error (.malformed (by omega) rfl)
  | cons first later =>
    cases later with
    | nil => exact .ok first
    | cons second last => exact .error (.malformed (by omega) rfl)

theorem readParts_related {parts pieces : List (List Token)} (alike : Forall₂ (RelatedTokens L W) parts pieces)
    (each : ∀ part ∈ parts, ∀ piece, RelatedTokens L W part piece →
      L.Results (Forall₂ (Segment.Related L N)) (readFrom .operand [] part) (readFrom .operand [] piece)) :
    L.Results (Forall₂ (Forall₂ (Segment.Related L N))) (readParts parts) (readParts pieces) := by
  induction alike with
  | nil =>
    rw [readParts]
    exact .ok .nil
  | cons same _ ih =>
    obtain ⟨first, later⟩ := forall_mem_cons.mp each
    rw [readParts, readParts]
    exact (first _ same).bind fun e => (ih later).bind fun es => .ok (.cons e es)

theorem readList_related_of (naming : L.Naming W N) (related : RelatedTokens L W tokens others)
    (each : ∀ part, part.length ≤ tokens.length → ∀ piece, RelatedTokens L W part piece →
      L.Results (Forall₂ (Segment.Related L N)) (readFrom .operand [] part) (readFrom .operand [] piece)) :
    L.Results (Forall₂ (Expr.Related L N)) (readList tokens) (readList others) := by
  have raw : L.Results (Forall₂ (Forall₂ (Segment.Related L N))) (readList tokens) (readList others) := by
    have cut := splitArguments_related naming related
    have short {parts : List (List Token)} (ok : splitArguments tokens = .ok parts) :=
      infix_of_joined parts tokens ((splitArguments_ok_iff _ _).mp ok).1
    rw [readList_eq, readList_eq]
    generalize splitArguments tokens = first at cut short ⊢
    generalize splitArguments others = second at cut ⊢
    cases cut with
    | error fault => exact .error fault
    | ok parts => exact readParts_related parts fun part member => each part (short rfl part member).length_le
  -- the reader hands on well formed expressions, and these are not empty
  refine raw.of_ok fun {es fs} ok segments => ?_
  obtain ⟨-, -, -, wellFormed⟩ := listAccepted_of_readList ok
  have fit := (allWellFormed_iff es).mp wellFormed
  clear ok wellFormed raw
  induction segments with
  | nil => exact .nil
  | cons same _ ih =>
    obtain ⟨first, later⟩ := forall_mem_cons.mp fit
    refine .cons (related_of_segments ?_ same) (ih later)
    rintro rfl
    simp [isWellFormed] at first

theorem readFrom_related (naming : L.Naming W N) (places : place.Related L N next)
    (segments : Forall₂ (Segment.Related L N) done more) (related : RelatedTokens L W tokens others) :
    L.Results (Forall₂ (Segment.Related L N)) (readFrom place done tokens) (readFrom next more others) := by
  -- brackets start a run of their own, on fewer tokens
  induction bound : tokens.length using Nat.strongRecOn generalizing place next done more tokens others with
  | ind count ih =>
    cases related with
    | nil =>
      rw [readFrom.eq_def place, readFrom.eq_def next]
      cases places with
      | point _ _ lines | pointAfterArguments lines => exact .error (.malformed (by omega) rfl)
      | operand | arguments | value => exact .ok (rel_reverse segments)
      | name filled alike => exact .ok (rel_reverse (settle_related (.name filled alike) segments))
    | @member p q w v rest behind isPoint points words later =>
      have starts : p.kind = .member := points.kind.trans isPoint
      have goOn {names others : List Token} (filled : names ≠ []) (named : Forall₂ N names others) :=
        ih rest.length (by simp at bound; omega) (.name filled named) segments later rfl
      cases places with
      | name filled named =>
        rw [readFrom_of_step (.point starts), readFrom_of_step (.point isPoint),
          readFrom_of_step (.member (naming.left words)), readFrom_of_step (.member (naming.right words))]
        exact goOn (by simp) (rel_append named (.cons (naming.named words) .nil))
      | arguments =>
        rw [readFrom_of_step (.pointAfterArguments starts), readFrom_of_step (.pointAfterArguments isPoint),
          readFrom_of_step (.memberAfterArguments (naming.left words)),
          readFrom_of_step (.memberAfterArguments (naming.right words))]
        exact goOn (cons_ne_nil _ _) (.cons (naming.named words) .nil)
      | operand | value | point | pointAfterArguments =>
        -- a point may not stand here, whatever follows it
        have noWord : q.canNameMember = false := by
          simp [Token.canNameMember, Token.isNameLike, Kind.isNameLike, isPoint]
        rw [readFrom.eq_def, readFrom.eq_def _ more]
        simp only [starts, isPoint, points.canNameMember, noWord, Bool.false_eq_true, if_false]
        first
        | exact .error (.reported (.unsupported · .memberOfWith) points.lineNumber)
        | exact .error (.malformed points.lineNumber (by simp only [Problem.mapText, Option.map_some, points.text]))
    | @cons t u rest behind same later =>
      rw [length_cons] at bound
      rw [readFrom.eq_def place, readFrom.eq_def next]
      have goOn {place next : Place} {done more : List Segment} (places : place.Related L N next)
          (segments : Forall₂ (Segment.Related L N) done more) :
          L.Results (Forall₂ (Segment.Related L N)) (readFrom place done rest) (readFrom next more behind) :=
        ih _ (by omega) places segments later rfl
      have here := places
      have member : Fault.Alike L (.malformed t.lineNumber (.expectedMember (some t.text)))
          (.malformed u.lineNumber (.expectedMember (some u.text))) :=
        .malformed same.lineNumber (by simp only [Problem.mapText, Option.map_some, same.text])
      cases places with
      | point filled named _ =>
        simp only [same.canNameMember]
        split
        · exact goOn (.name (by simp) (rel_append named (.cons (naming.alike same) .nil))) segments
        · exact .error member
      | pointAfterArguments _ =>
        simp only [same.canNameMember]
        split
        · exact goOn (.name (cons_ne_nil _ _) (.cons (naming.alike same) .nil)) segments
        · exact .error member
      | operand | name filled names | arguments | value =>
        have operatorDue : Fault.Alike L (.malformed t.lineNumber (.expectedOperator t.text))
            (.malformed u.lineNumber (.expectedOperator u.text)) :=
          .malformed same.lineNumber (by simp only [Problem.mapText, same.text])
        -- a token of a kind that stands between statements is never known to stand in one
        have outer (stray : t.isInner = false) : L.lax := (L.inner same.known).resolve_right (by simp [stray])
        simp only [same.kind]
        cases kind : u.kind with
        | member =>
          first
          | exact goOn (.point filled names same.line) segments
          | exact goOn (.pointAfterArguments same.line) segments
          | exact .error (.reported (.unsupported · .memberOfWith) same.lineNumber)
        | name | softKeyword =>
          first
          | exact goOn (.name (cons_ne_nil _ _) (.cons (naming.alike same) .nil)) segments
          | exact .error operatorDue
        | string | number | date | constant =>
          have literal : t.isLiteral = true := by simp [Token.isLiteral, same.kind, kind]
          exact (addOperand_related here segments (.value literal same) same).bind fun done => goOn .value done
        | arithmetic | comparison | logical =>
          exact goOn .operand (.cons (.operator same) (settle_related here segments))
        | closeBracket => exact .error (.reported .unbalancedBrackets same.lineNumber)
        | comma => exact .error (.reported .orphanedComma same.lineNumber)
        | point =>
          exact .error (.same (by simp only [Fault.shift, Fault.mapText, same.lineNumber])
            (.inl (outer (by simp [Token.isInner, same.kind, kind]))))
        | terminator | comment | inlineComment | raw =>
          exact .error (.same (by simp only [Fault.shift, Defect.shift, Fault.mapText, Defect.mapText, same.lineNumber])
            (.inl (outer (by simp [Token.isInner, same.kind, kind]))))
        | openBracket =>
          have group := closeGroup_related naming later 0
          simp only
          split
          next found =>
            split
            next => exact .error (.reported .unbalancedBrackets same.lineNumber)
            next _ _ opposite =>
              rw [found, opposite] at group
              cases group
          next inner after found =>
            have shorter := closeGroup_length found
            split
            next opposite =>
              rw [found, opposite] at group
              cases group
            next inner' after' opposite =>
              rw [found, opposite] at group
              cases group with
              | some related =>
                obtain ⟨inside, outside⟩ : RelatedTokens L W inner inner' ∧ RelatedTokens L W after after' := related
                have list := readList_related_of naming inside fun part short piece pieces =>
                  ih _ (by omega) .operand .nil pieces rfl
                have goOnBehind {place next : Place} {done more : List Segment} (places : place.Related L N next)
                    (segments : Forall₂ (Segment.Related L N) done more) :
                    L.Results (Forall₂ (Segment.Related L N)) (readFrom place done after) (readFrom next more after') :=
                  ih _ (by omega) places segments outside rfl
                first
                | exact .error (.reported (.unsupported · .chainedCall) same.lineNumber)
                | exact list.bind fun given => goOnBehind .arguments (.cons (.call filled names given) segments)
                | exact list.bind fun es => (only_related same.line es).bind fun e =>
                    (addOperand_related here segments (.bracketed e) same).bind fun done => goOnBehind .value done
        | keyword =>
          simp only [same.isWord]
          split
          · cases later with
            | nil => exact .error (.malformed same.lineNumber rfl)
            | member isPoint points _ _ =>
              simp only [Token.isNameLike, points.kind, isPoint, Kind.isNameLike, Bool.false_eq_true, if_false]
              exact .error (.malformed same.lineNumber rfl)
            | @cons className other after after' named last =>
              simp only [named.isNameLike]
              split
              · rw [length_cons] at bound
                refine (addOperand_related here segments (.new named) same).bind fun done => ?_
                exact ih after.length (by omega) .value done last rfl
              · exact .error (.malformed same.lineNumber rfl)
          · exact .error (.malformed same.lineNumber (by simp only [Problem.mapText, same.text]))

theorem readList_related (naming : L.Naming W N) (related : RelatedTokens L W tokens others) :
    L.Results (Forall₂ (Expr.Related L N)) (readList tokens) (readList others) :=
  readList_related_of naming related fun _ _ _ pieces => readFrom_related naming .operand .nil pieces

theorem read_related (naming : L.Naming W N) (related : RelatedTokens L W tokens others)
    (lines : other = line + L.shift) : L.Results (Expr.Related L N) (read tokens line) (read others other) :=
  (readList_related naming related).bind fun es => only_related lines es

theorem readList_alike (alike : Forall₂ (Token.Alike L) tokens others) :
    L.Results (Forall₂ (Expr.Alike L)) (readList tokens) (readList others) :=
  readList_related L.naming (.of_alike alike)

theorem read_alike (alike : Forall₂ (Token.Alike L) tokens others) (lines : other = line + L.shift) :
    L.Results (Expr.Alike L) (read tokens line) (read others other) :=
  read_related L.naming (.of_alike alike) lines

end Expr

end VbSharp
