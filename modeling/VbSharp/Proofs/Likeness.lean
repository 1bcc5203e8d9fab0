import VbSharp.Proofs.Text.LetterCase
import VbSharp.Proofs.Transducer
import VbSharp.Token.Atom

/-!
# Scripts that are alike

Two scripts are alike if their characters look the same one by one, the look being one that tells everything apart
but the case of letters, and if the lines of the second one are counted from a later line. What is made of them is
compared in the same way: tokens, results and faults.

Dates are the exception. How a date is read may depend on its letters, so alike tokens have the same dates.
-/
namespace VbSharp

open List

variable {mark : String} {c d : Char} {n m : Nat} {f g : Fault}

/-! ### Further down the script -/

/-- The token so many lines further down. -/
def Token.shift (n : Nat) (t : Token) : Token :=
  { t with line := t.line + n }

/-- The defect so many lines further down. -/
def Defect.shift (n : Nat) : Defect → Defect
  | .unreadableNumber line text => .unreadableNumber (line + n) text
  | .strayToken line kind => .strayToken (line + n) kind
  | .notALiteral line text => .notALiteral (line + n) text
  | .emptyChain => .emptyChain

/-- The same cause of failure so many lines further down. -/
def Fault.shift (n : Nat) : Fault → Fault
  | .unclosedString line => .unclosedString (line + n)
  | .unclosedDate line => .unclosedDate (line + n)
  | .unclosedScript line => .unclosedScript (line + n)
  | .brokenContinuation line => .brokenContinuation (line + n)
  | .invalidNumber line text => .invalidNumber (line + n) text
  | .unbalancedBrackets line => .unbalancedBrackets (line + n)
  | .orphanedComma line => .orphanedComma (line + n)
  | .unresolvedPoint line => .unresolvedPoint (line + n)
  | .invalidDate line text => .invalidDate (line + n) text
  | .malformed line problem => .malformed (line + n) problem
  | .missingEnd line expected => .missingEnd (line + n) expected
  | .duplicateMember line className member => .duplicateMember (line + n) className member
  | .unsupported line gap => .unsupported (line + n) gap
  | .inconsistent defect => .inconsistent (defect.shift n)

/-- Tokens, or a fault, so many lines further down. -/
def shiftResult (n : Nat) (result : Except Fault (List Token)) : Except Fault (List Token) :=
  (result.map (·.map (Token.shift n))).mapError (Fault.shift n)

/-! ### Lists whose items are related -/

section Lists

variable {α β : Type} {R : α → β → Prop} {as : List α} {bs : List β} {p : α → Bool} {q : β → Bool}

section

variable (related : Forall₂ R as bs)
include related

theorem forall₂_takeWhile (agree : ∀ {a b}, R a b → p a = q b) : Forall₂ R (as.takeWhile p) (bs.takeWhile q) := by
  induction related with
  | nil => exact .nil
  | cons same _ ih =>
    rw [takeWhile_cons, takeWhile_cons, agree same]
    split
    · exact .cons same ih
    · exact .nil

theorem forall₂_dropWhile (agree : ∀ {a b}, R a b → p a = q b) : Forall₂ R (as.dropWhile p) (bs.dropWhile q) := by
  induction related with
  | nil => exact .nil
  | cons same rest ih =>
    rw [dropWhile_cons, dropWhile_cons, agree same]
    split
    · exact ih
    · exact .cons same rest

theorem forall₂_all (agree : ∀ {a b}, R a b → p a = q b) : as.all p = bs.all q := by
  induction related with
  | nil => rfl
  | cons same _ ih => rw [all_cons, all_cons, agree same, ih]

theorem forall₂_any (agree : ∀ {a b}, R a b → p a = q b) : as.any p = bs.any q := by
  induction related with
  | nil => rfl
  | cons same _ ih => rw [any_cons, any_cons, agree same, ih]

theorem forall₂_isEmpty : as.isEmpty = bs.isEmpty := by
  cases related <;> rfl

theorem forall₂_head? : Option.Rel R as.head? bs.head? := by
  cases related with
  | nil => exact .none
  | cons same _ => exact .some same

theorem forall₂_getLast? : Option.Rel R as.getLast? bs.getLast? := by
  rw [← head?_reverse, ← head?_reverse]
  exact forall₂_head? (forall₂_reverse_iff.mpr related)

theorem forall₂_map_eq {γ : Type} {f : α → γ} {g : β → γ} (agree : ∀ {a b}, R a b → f a = g b) : as.map f = bs.map g := by
  induction related with
  | nil => rfl
  | cons same _ ih => rw [map_cons, map_cons, agree same, ih]

end

theorem rel_any {a : Option α} {b : Option β} (related : Option.Rel R a b) (agree : ∀ {a b}, R a b → p a = q b) :
    a.any p = b.any q := by
  cases related with
  | none => rfl
  | some same => exact agree same

theorem rel_map_eq {γ : Type} {a : Option α} {b : Option β} {f : α → γ} {g : β → γ} (related : Option.Rel R a b)
    (agree : ∀ {a b}, R a b → f a = g b) : a.map f = b.map g := by
  cases related with
  | none => rfl
  | some same => exact congrArg some (agree same)

end Lists

/-- Whether a script can cause the fault: it does not say that a stage was handed what the stages before it never
produce. -/
def Fault.IsForeseen (fault : Fault) : Prop :=
  fault.category ≠ .internal

/-- Whether the token is of a kind that stands inside statements. -/
def Token.isInner (t : Token) : Bool :=
  match t.kind with
  | .terminator | .comment | .inlineComment | .raw | .point => false
  | _ => true

/-- A way for two scripts to be alike: how a character looks, by how many lines the second script stands further
down, and what is known of the tokens of the first one. -/
structure Likeness where
  view : Char → Char
  shift : Nat
  /-- Whether `Option Explicit` may stand in a class. -/
  optionInClass : Prop
  known : Token → Prop
  /-- What is known of comments. -/
  noted : Token → Prop := known
  /-- Whether a fault may be one that no script can cause. -/
  lax : Prop := True
  /-- Nothing but the case of letters is overlooked. -/
  sound : ∀ {a b}, view a = view b → a.toLower = b.toLower
  noted_of_known : ∀ {t}, known t → noted t := by exact id
  inner : ∀ {t}, known t → lax ∨ t.isInner = true := by exact fun _ => .inl trivial

/-- Letters look the same in either case. -/
def Likeness.letters : Likeness where
  view := Char.toLower
  shift := 0
  optionInClass := True
  known _ := True
  sound := id

/-- Nothing is asked of the tokens or the faults. -/
class Likeness.IsFree (L : Likeness) : Prop where
  known : ∀ t, L.known t
  lax : L.lax

instance : Likeness.letters.IsFree :=
  ⟨fun _ => trivial, trivial⟩

namespace Likeness

variable (L : Likeness) {a b : String}

/-- The characters look the same. -/
def Looks (a b : Char) : Prop :=
  L.view a = L.view b

/-- How a text looks. -/
def text (s : String) : String :=
  String.ofList (s.toList.map L.view)

variable {L}

theorem text_eq_iff : L.text a = L.text b ↔ Forall₂ L.Looks a.toList b.toList := by
  change _ ↔ Forall₂ (fun c d => L.view c = L.view d) a.toList b.toList
  rw [← forall₂_map_right_iff, ← forall₂_map_left_iff, forall₂_eq_eq_eq]
  exact String.ofList_inj

theorem text_of_view (same : L.view = id) : L.text = id := by
  funext s
  rw [text, same, map_id, String.ofList_toList, id]

theorem text_append : L.text (a ++ b) = L.text a ++ L.text b := by
  simp [text]

theorem text_ofList {cs ds : List Char} (looks : Forall₂ L.Looks cs ds) :
    L.text (String.ofList cs) = L.text (String.ofList ds) := by
  rw [text_eq_iff, String.toList_ofList, String.toList_ofList]
  exact looks

theorem foldCase_eq (same : L.text a = L.text b) : foldCase a = foldCase b := by
  have looks := text_eq_iff.mp same
  have folded : Forall₂ (fun c d => c.toLower = d.toLower) a.toList b.toList := looks.imp fun _ _ => L.sound
  rw [← forall₂_map_right_iff, ← forall₂_map_left_iff, forall₂_eq_eq_eq] at folded
  exact congrArg String.ofList folded

/-- A function that takes no notice of letter case does not tell characters apart that look the same. -/
theorem Looks.eq {α : Type} {f : Char → α} (looks : L.Looks c d) (caseless : Caseless f) : f c = f d :=
  caseless.eq (L.sound looks)

theorem Looks.beq (looks : L.Looks c d) (mark : Char) (plain : mark.isAlpha = false := by decide) :
    (c == mark) = (d == mark) :=
  looks.eq (caseless_beq plain)

end Likeness

/-! ### Faults -/

/-- The problem with its texts changed. -/
def Problem.mapText (f : String → String) : Problem → Problem
  | .hexOutOfRange digits => .hexOutOfRange (f digits)
  | .expectedOperator found => .expectedOperator (f found)
  | .expectedMember found => .expectedMember (found.map f)
  | .strayKeyword word => .strayKeyword (f word)
  | .expected what found => .expected (f what) (found.map f)
  | .expectedStatementEnd found => .expectedStatementEnd (f found)
  | .expectedMark word => .expectedMark (f word)
  | .unknownStatement found => .unknownStatement (f found)
  | .expectedVariable found => .expectedVariable (found.map f)
  | .strayInDeclaration found => .strayInDeclaration (f found)
  | .strayInParameters found => .strayInParameters (f found)
  | .expectedLoopTest found => .expectedLoopTest (f found)
  | .cannotStartOperand operator => .cannotStartOperand (f operator)
  | .cannotJoinOperands operator => .cannotJoinOperands (f operator)
  | .notCallable constant => .notCallable (f constant)
  | .classAsValue name => .classAsValue (f name)
  | .argumentCount name wanted given => .argumentCount (f name) wanted given
  | .unassignable name => .unassignable (f name)
  | problem => problem

/-- The gap with its text changed. -/
def Gap.mapText (f : String → String) : Gap → Gap
  | .statement word => .statement (f word)
  | gap => gap

/-- The defect with its text changed. -/
def Defect.mapText (f : String → String) : Defect → Defect
  | .unreadableNumber line text => .unreadableNumber line (f text)
  | .notALiteral line text => .notALiteral line (f text)
  | defect => defect

/-- The same cause of failure on the same line, with its texts changed. -/
def Fault.mapText (f : String → String) : Fault → Fault
  | .invalidNumber line text => .invalidNumber line (f text)
  | .invalidDate line text => .invalidDate line (f text)
  | .malformed line problem => .malformed line (problem.mapText f)
  | .missingEnd line expected => .missingEnd line (f expected)
  | .duplicateMember line className member => .duplicateMember line (f className) (f member)
  | .unsupported line gap => .unsupported line (gap.mapText f)
  | .inconsistent defect => .inconsistent (defect.mapText f)
  | fault => fault

theorem Fault.shift_zero (f : Fault) : f.shift 0 = f := by
  cases f with
  | inconsistent defect => cases defect <;> rfl
  | _ => rfl

theorem shiftResult_zero (result : Except Fault (List Token)) : shiftResult 0 result = result := by
  cases result with
  | error f => exact congrArg Except.error f.shift_zero
  | ok tokens => exact congrArg Except.ok (map_id tokens)

theorem Fault.mapText_id (f : Fault) : f.mapText id = f := by
  cases f with
  | malformed line problem => cases problem <;> simp [Fault.mapText, Problem.mapText]
  | unsupported line gap => cases gap <;> rfl
  | inconsistent defect => cases defect <;> rfl
  | _ => rfl

variable {L : Likeness}

/-- The same cause of failure with texts that look the same, so many lines further down. Where `Option Explicit`
stands in a class, no line is known and the first one is reported. -/
inductive Fault.Alike (L : Likeness) : Fault → Fault → Prop where
  | same {f g : Fault} (looks : (f.shift L.shift).mapText L.text = g.mapText L.text)
    (foreseen : L.lax ∨ f.IsForeseen := by right; rintro ⟨⟩) : Alike L f g
  | optionInClass (found : L.optionInClass) : Alike L (.malformed 1 .strayInClass) (.malformed 1 .strayInClass)

theorem Fault.Alike.malformed {p q : Problem} (lines : n = m + L.shift) (looks : p.mapText L.text = q.mapText L.text) :
    Fault.Alike L (.malformed m p) (.malformed n q) :=
  .same (by simp [Fault.shift, Fault.mapText, lines, looks])

/-- A fault that says on which line it is and nothing of the script's texts. -/
theorem Fault.Alike.reported (f : Nat → Fault) (lines : n = m + L.shift)
    (shifted : ∀ k, (f k).shift L.shift = f (k + L.shift) := by intro k; rfl)
    (plain : ∀ k, (f k).mapText L.text = f k := by intro k; rfl)
    (foreseen : L.lax ∨ (f m).IsForeseen := by right; rintro ⟨⟩) : (f m).Alike L (f n) :=
  .same (by rw [shifted, plain, plain, lines]) foreseen

theorem Fault.Alike.mapText (level : L.shift = 0) (alike : f.Alike L g) : f.mapText L.text = g.mapText L.text := by
  cases alike with
  | same looks =>
    rw [level, Fault.shift_zero] at looks
    exact looks
  | optionInClass => rfl

/-! ### Tokens -/

/-- Two tokens of one kind that look the same, the second so many lines further down. -/
structure Token.Resembles (L : Likeness) (t u : Token) : Prop where
  kind : t.kind = u.kind
  text : L.text t.text = L.text u.text
  line : u.line = t.line + L.shift

/-- Tokens that look the same; dates are spelled the same. -/
structure Token.Alike (L : Likeness) (t u : Token) : Prop extends Token.Resembles L t u where
  date : t.kind = .date → t.text = u.text
  known : L.known t

namespace Token.Resembles

variable {t u : Token} (alike : t.Resembles L u)
include alike

variable (word : String)

theorem lineNumber : u.lineNumber = t.lineNumber + L.shift := by
  simp only [Token.lineNumber, alike.line, Nat.add_right_comm]

theorem isWord : t.isWord word = u.isWord word := by
  simp only [Token.isWord, sameWord, Likeness.foldCase_eq alike.text]

theorem text_beq (plain : mark.toList.all (!·.isAlpha) = true) : (t.text == mark) = (u.text == mark) := by
  rw [← foldCase_beq t.text plain, Likeness.foldCase_eq alike.text, foldCase_beq u.text plain]

theorem text_eq_iff (plain : mark.toList.all (!·.isAlpha) = true) : t.text = mark ↔ u.text = mark := by
  rw [← beq_iff_eq, alike.text_beq plain, beq_iff_eq]

theorem text_all {p : Char → Bool} (caseless : Caseless p) : t.text.toList.all p = u.text.toList.all p :=
  forall₂_all (Likeness.text_eq_iff.mp alike.text) fun looks => looks.eq caseless

theorem text_any {p : Char → Bool} (caseless : Caseless p) : t.text.toList.any p = u.text.toList.any p :=
  forall₂_any (Likeness.text_eq_iff.mp alike.text) fun looks => looks.eq caseless

theorem isKeyword : t.isKeyword word = u.isKeyword word := by
  simp only [Token.isKeyword, alike.kind, alike.isWord]

theorem isKeywordLike : t.isKeywordLike word = u.isKeywordLike word := by
  simp only [Token.isKeywordLike, alike.kind, alike.isWord]

theorem isNameLike : t.isNameLike = u.isNameLike := by
  simp only [Token.isNameLike, alike.kind]

theorem mayPrecedeSign : t.mayPrecedeSign = u.mayPrecedeSign := by
  simp only [Token.mayPrecedeSign, alike.kind]

theorem isTerminator : t.isTerminator = u.isTerminator := by
  simp only [Token.isTerminator, alike.kind]

theorem isLineEnd : t.isLineEnd = u.isLineEnd := by
  simp only [Token.isLineEnd, alike.kind, alike.text_beq (show "\n".toList.all (!·.isAlpha) = true by decide)]

theorem isEquals : t.isEquals = u.isEquals := by
  simp only [Token.isEquals, alike.kind, alike.text_beq (show "=".toList.all (!·.isAlpha) = true by decide)]

theorem canNameMember : t.canNameMember = u.canNameMember := by
  simp only [Token.canNameMember, alike.isNameLike, alike.kind, alike.text_all caseless_isAlpha]

theorem nameKey : nameKey t.text = nameKey u.text := by
  rw [← nameKey_foldCase, Likeness.foldCase_eq alike.text, nameKey_foldCase]

theorem identifier : identifier t.text = identifier u.text :=
  identifier_eq_of_nameKey_eq alike.nameKey

end Token.Resembles

/-! ### Results -/

/-- Both are results that are related, or both are faults that are alike. -/
inductive Likeness.Results {α β : Type} (L : Likeness) (R : α → β → Prop) : Except Fault α → Except Fault β → Prop where
  | ok {a : α} {b : β} (related : R a b) : Results L R (.ok a) (.ok b)
  | error {f g : Fault} (alike : f.Alike L g) : Results L R (.error f) (.error g)

namespace Likeness.Results

variable {α β γ δ : Type} {R : α → β → Prop} {S : γ → δ → Prop} {x : Except Fault α} {y : Except Fault β}

theorem bind {f : α → Except Fault γ} {g : β → Except Fault δ} (first : L.Results R x y)
    (next : ∀ {a b}, R a b → L.Results S (f a) (g b)) : L.Results S (x >>= f) (y >>= g) := by
  cases first with
  | ok related => exact next related
  | error alike => exact .error alike

theorem ok_left (first : L.Results R x y) : L.Results (fun a b => R a b ∧ x = .ok a) x y := by
  cases first with
  | ok related => exact .ok ⟨related, rfl⟩
  | error alike => exact .error alike

theorem map {f : α → γ} {g : β → δ} (first : L.Results R x y) (next : ∀ {a b}, R a b → S (f a) (g b)) :
    L.Results S (x.map f) (y.map g) := by
  cases first with
  | ok related => exact .ok (next related)
  | error alike => exact .error alike

theorem mapM {as : List α} {bs : List β} {f : α → Except Fault γ} {g : β → Except Fault δ}
    (related : Forall₂ R as bs) (each : ∀ {a b}, R a b → L.Results S (f a) (g b)) :
    L.Results (Forall₂ S) (as.mapM f) (bs.mapM g) := by
  induction related with
  | nil => exact .ok .nil
  | cons same _ ih =>
    rw [mapM_cons, mapM_cons]
    exact (each same).bind fun first => ih.bind fun rest => .ok (.cons first rest)

end Likeness.Results

/-- The same texts so many lines further down. -/
def Likeness.lower (n : Nat) : Likeness where
  view := id
  shift := n
  optionInClass := False
  known _ := True
  sound same := congrArg Char.toLower same

instance (n : Nat) : (Likeness.lower n).IsFree :=
  ⟨fun _ => trivial, trivial⟩

theorem forall₂_eq_shift {tokens others : List Token} (exact : L.view = id)
    (alike : Forall₂ (Token.Resembles L) tokens others) : others = tokens.map (Token.shift L.shift) := by
  rw [← forall₂_eq_eq_eq, forall₂_map_right_iff]
  refine alike.flip.imp fun t u same => ?_
  have texts := same.text
  rw [Likeness.text_of_view exact] at texts
  cases t
  obtain ⟨rfl, -, rfl⟩ := same
  cases texts
  rfl

theorem Likeness.Results.eq_shiftResult {R : Token → Token → Prop} {x y : Except Fault (List Token)}
    (alike : (Likeness.lower n).Results (Forall₂ R) x y) (resemble : ∀ {t u}, R t u → t.Resembles (.lower n) u) :
    y = shiftResult n x := by
  cases alike with
  | ok related => exact congrArg Except.ok (forall₂_eq_shift rfl (related.imp fun _ _ => resemble))
  | error alike =>
    cases alike with
    | same looks =>
      rw [Likeness.text_of_view rfl, Fault.mapText_id, Fault.mapText_id] at looks
      exact congrArg Except.error looks.symm
    | optionInClass found => exact found.elim

/-! ### Computations with a state -/

/-- Both end with related results in related states, or both fail alike. -/
inductive Likeness.Outcomes {σ α β : Type} (L : Likeness) (S : σ → σ → Prop) (R : α → β → Prop) :
    EStateM.Result Fault σ α → EStateM.Result Fault σ β → Prop where
  | ok {a : α} {b : β} {s t : σ} (related : R a b) (states : S s t) : Outcomes L S R (.ok a s) (.ok b t)
  | error {f g : Fault} {s t : σ} (alike : f.Alike L g) : Outcomes L S R (.error f s) (.error g t)

/-- The computations go in step: from related states they come to related results in related states. -/
def Likeness.InStep {σ α β : Type} (L : Likeness) (S : σ → σ → Prop) (R : α → β → Prop) (p : EStateM Fault σ α)
    (q : EStateM Fault σ β) : Prop :=
  ∀ s t, S s t → L.Outcomes S R (p s) (q t)

namespace Likeness.InStep

variable {σ α β γ δ : Type} {S : σ → σ → Prop} {R : α → β → Prop} {T : γ → δ → Prop} {p : EStateM Fault σ α}
  {q : EStateM Fault σ β}

theorem done {a : α} {b : β} (related : R a b) : L.InStep S R (pure a) (pure b) :=
  fun _ _ states => .ok related states

theorem failed (alike : f.Alike L g) : L.InStep S R (throw f) (throw g) :=
  fun _ _ _ => .error alike

theorem bind {f : α → EStateM Fault σ γ} {g : β → EStateM Fault σ δ} (first : L.InStep S R p q)
    (later : ∀ {a b}, R a b → L.InStep S T (f a) (g b)) : L.InStep S T (p >>= f) (q >>= g) := by
  intro s t states
  have ended := first s t states
  change L.Outcomes S T (EStateM.bind p f s) (EStateM.bind q g t)
  unfold EStateM.bind
  generalize p s = one at ended ⊢
  generalize q t = other at ended ⊢
  cases ended with
  | ok related states => exact later related _ _ states
  | error alike => exact .error alike

theorem check {c : Prop} [Decidable c] {next : γ → EStateM Fault σ α} {last : γ → EStateM Fault σ β}
    (alike : f.Alike L g) (passed : L.InStep S R p q) :
    L.InStep S R (if c then throw f >>= next else p) (if c then throw g >>= last else q) := by
  split
  · exact fun _ _ _ => .error alike
  · exact passed

end Likeness.InStep

/-! ### Machines -/

/-- The machine does alike things in alike states with alike items. -/
structure Transducer.Keeps {σ α β : Type} (m : Transducer σ α β Fault) (L : Likeness) (I : α → α → Prop)
    (S : σ → σ → Prop) (O : β → β → Prop) : Prop where
  step : ∀ {s t a b rest more}, S s t → I a b → Forall₂ I rest more →
    L.Results (fun x y => Forall₂ O x.1 y.1 ∧ S x.2 y.2) (m.step s a rest) (m.step t b more)
  finish : ∀ {s t}, S s t → L.Results (Forall₂ O) (m.finish s) (m.finish t)

theorem Transducer.Keeps.run {σ α β : Type} {m : Transducer σ α β Fault} {I : α → α → Prop} {S : σ → σ → Prop}
    {O : β → β → Prop} (keeps : m.Keeps L I S O) {s t : σ} {items others : List α} (states : S s t)
    (alike : Forall₂ I items others) : L.Results (Forall₂ O) (m.run s items) (m.run t others) := by
  induction alike generalizing s t with
  | nil =>
    rw [run_nil, run_nil]
    exact keeps.finish states
  | cons same rest ih =>
    rw [run_cons, run_cons]
    refine (keeps.step states same rest).bind fun {x y} ⟨written, next⟩ => ?_
    exact (ih next).map fun later => rel_append written later

end VbSharp
