import Mathlib.Control.Monad.Basic
import VbSharp.Program
import VbSharp.Proofs.Expr.Joining
import VbSharp.Proofs.Token.NumeralSign
import VbSharp.Proofs.Token.SignRun

/-!
# A minus sign before a power

The sign `-` binds less tightly than `^`, so `-a ^ 2` is the negative of a power. Whether the sign is still
there when operators are grouped is settled before: where an operand is due, a numeral takes the sign in, and
`-2 ^ 2` is the power of a negative number.
-/
namespace VbSharp

open List Sign VbSharp.Expr Run
open Numeral (isSign isUnsigned negated)
open Sign (converted leadsOperand)

variable {minus number t name : Token} {scanned : List Token}

/-- Tokens that are read as an expression with that tree. -/
def IsReadAs (tokens : List Token) (tree : Tree (Operand Expr)) : Prop :=
  ∃ e, (∀ line, Expr.read tokens line = .ok e) ∧ Expr.tree e = .ok tree

theorem IsReadAs.unique {tokens : List Token} {a b : Tree (Operand Expr)} (first : IsReadAs tokens a)
    (second : IsReadAs tokens b) : a = b := by
  obtain ⟨e, read, tree⟩ := first
  obtain ⟨e', read', tree'⟩ := second
  obtain rfl := Except.ok.inj ((read 0).symm.trans (read' 0))
  exact Except.ok.inj (tree.symm.trans tree')

/-- The tokens of a script hold a part that is read as the tree, with the other tokens behind it. -/
def Run.Holds (script : String) (part after : List Token) (tree : Tree (Operand Expr)) : Prop :=
  IsReadAs part tree ∧ ∃ front log, (Run.tokens script).run [] = .ok (front ++ (part ++ after)) log

/-- A script in which a minus sign stands behind some tokens and before a base, the sign `^` and an
exponent. -/
structure SpellsPower (script : String) (before : List Token) (minus base caret : Token)
    (exponent after : List Token) : Prop where
  spells : ∃ behind joined more, scanTokens script = .ok (before ++ minus :: behind) ∧
    joinNumerals before = .ok joined ∧ joinNumerals behind = .ok (base :: caret :: more) ∧
    combineOperators more = exponent ++ after
  isMinus : Numeral.isMinus minus = true
  isCaret : caret.kind = .arithmetic ∧ caret.text = "^"

/-- What becomes of a number that takes in a sign: a negative number, or if that sign and the one before it
cancel out a call. -/
inductive TakesSign (minus number : Token) : List Token → Operand Expr → Prop where
  | literal : TakesSign minus number [negated minus number] (.value (negated minus number))
  | call : TakesSign minus number (converted number.text minus.line)
      (.chain [([.ofWord "CDbl" minus.line], [[.value ⟨.number, number.text, minus.line⟩]])])

/-! ### Reading powers -/

section Power

variable {tokens exponent : List Token} {caret : Token} {o x : Operand Expr}

theorem isReadAs_power (base : IsReadAs tokens (.operand o)) (operand : IsReadAs exponent (.operand x))
    (isCaret : caret.kind = .arithmetic ∧ caret.text = "^") :
    IsReadAs (tokens ++ caret :: exponent) (.binary .power caret (.operand o) (.operand x)) := by
  obtain ⟨a, readBase, treeBase⟩ := base
  obtain ⟨b, readExponent, treeExponent⟩ := operand
  have operator : caret.isOperator = true := by simp [Token.isOperator, Kind.isOperator, isCaret.1]
  have power : BinaryOp.ofToken? caret = some .power := by
    rw [BinaryOp.ofToken?, isCaret.2]
    decide
  obtain ⟨itemsBase, -⟩ := tree_ok_iff.mp treeBase
  obtain ⟨itemsExponent, -⟩ := tree_ok_iff.mp treeExponent
  refine ⟨_, fun line => read_join operator (readBase line) (readExponent line), tree_ok_iff.mpr ⟨?_, ?_⟩⟩
  · rw [Tree.items, items_join, itemsBase, itemsExponent]
  · simp [Tree.IsGrouped, power, Tree.leftSpine, Tree.rightSpine]

theorem isReadAs_negatedPower (base : IsReadAs tokens (.operand o)) (operand : IsReadAs exponent (.operand x))
    (isCaret : caret.kind = .arithmetic ∧ caret.text = "^") (isMinus : Numeral.isMinus minus = true) :
    IsReadAs (minus :: (tokens ++ caret :: exponent))
      (.unary .negate minus (.binary .power caret (.operand o) (.operand x))) := by
  obtain ⟨e, read, tree⟩ := isReadAs_power base operand isCaret
  simp only [Numeral.isMinus, Bool.and_eq_true, beq_iff_eq] at isMinus
  have operator : minus.isOperator = true := by simp [Token.isOperator, Kind.isOperator, isMinus.1]
  have negate : UnaryOp.ofToken? minus = some .negate := by simp [UnaryOp.ofToken?, isMinus.2]
  obtain ⟨items, grouped⟩ := tree_ok_iff.mp tree
  refine ⟨_, fun line => read_operator operator (read line), tree_ok_iff.mpr ⟨?_, negate, grouped, ?_⟩⟩
  · exact congrArg (Item.operator minus :: ·) items
  · simp [Tree.leftSpine, UnaryOp.strength, BinaryOp.strength]

end Power

theorem isReadAs_number (kind : number.kind = .number) : IsReadAs [number] (.operand (.value number)) :=
  ⟨[.value number], fun _ => read_literal (by simp [Token.isLiteral, kind]), tree_ok_iff.mpr ⟨rfl, trivial⟩⟩

theorem isReadAs_name (named : name.isNameLike = true) : IsReadAs [name] (.operand (.chain [([name], [])])) :=
  ⟨[.call [name] []], fun _ => read_name named, tree_ok_iff.mpr ⟨rfl, trivial⟩⟩

theorem TakesSign.isReadAs {tokens : List Token} {o : Operand Expr} (takes : TakesSign minus number tokens o) :
    IsReadAs tokens (.operand o) := by
  cases takes with
  | literal => exact isReadAs_number rfl
  | call =>
    have argument : (⟨.number, number.text, minus.line⟩ : Token).isLiteral = true := rfl
    exact ⟨_, fun _ => read_call rfl rfl rfl (read_literal argument), tree_ok_iff.mpr ⟨rfl, trivial⟩⟩

/-! ### Combining the signs -/

/-- Behind a run of signs a negative number keeps its sign, or is wrapped in a call if the signs cancel
out. -/
theorem applyTo_negated (r : Sign.Run) (positive : 0 < r.count) (unsigned : isUnsigned number = true) :
    r.applyTo (negated minus number) =
      if r.negative then converted number.text minus.line else [negated minus number] := by
  -- with the sign of the number there are at least two, so a positive result is never a bare number
  have several : 1 < r.count + 1 := by omega
  have plain : number.text.toList.dropWhile (· == '-') = number.text.toList := by
    cases letters : number.text.toList with
    | nil => rfl
    | cons c rest =>
      have other : c ≠ '-' := fun minus => by simp [isUnsigned, letters, minus] at unsigned
      simp [other]
  cases negative : r.negative <;> simp [Sign.Run.applyTo, negated, converted, negative, plain, several]

theorem TakesSign.of_isFolded {tokens : List Token} (unsigned : isUnsigned number = true)
    (folded : IsFolded (negated minus number) tokens) : ∃ o, TakesSign minus number tokens o := by
  rcases folded with rfl | ⟨r, positive, rfl⟩
  · exact ⟨_, .literal⟩
  · rw [applyTo_negated r positive unsigned]
    split
    · exact ⟨_, .call⟩
    · exact ⟨_, .literal⟩

theorem TakesSign.plain {tokens : List Token} {o : Operand Expr} (takes : TakesSign minus number tokens o) :
    tokens ≠ [] ∧ ∀ t ∈ tokens, t.kind ≠ .comparison := by
  cases takes with
  | literal => simp [negated]
  | call =>
    have word : Kind.ofWord "CDbl" ≠ .comparison := by decide
    have start : Kind.ofWord "(" ≠ .comparison := by decide
    have close : Kind.ofWord ")" ≠ .comparison := by decide
    simp [converted, Token.ofWord, word, start, close]

theorem Run.tokens_ok {script : String} {joined : List Token} (scan : scanTokens script = .ok scanned)
    (join : joinNumerals scanned = .ok joined) :
    ∃ log, (Run.tokens script).run [] = .ok (combineOperators joined) log := by
  unfold Run.tokens
  rw [scan]
  simp only [Run.lift, EStateM.run_bind, EStateM.run_pure, Run.report]
  simp [join]

/-- A token that is no sign and part of no number. -/
def isWord (t : Token) : Bool :=
  !isSign t && t.kind != .number && t.kind != .point

section Parts

variable {script : String} {before joined more part exponent after written : List Token} {caret : Token}
  {tree : Tree (Operand Expr)}

/-- A part that is found when signs are combined stays in one piece. -/
theorem Run.holds_of_combineRuns (scan : scanTokens script = .ok scanned) (join : joinNumerals scanned = .ok joined)
    (isCaret : caret.kind = .arithmetic ∧ caret.text = "^") (combined : combineOperators more = exponent ++ after)
    (plain : part ≠ [] ∧ ∀ t ∈ part, t.kind ≠ .comparison) (found : combineRuns true none joined =
      written ++ (part ++ combineRuns false none (caret :: more)))
    (read : IsReadAs (part ++ caret :: exponent) tree) : Holds script (part ++ caret :: exponent) after tree := by
  obtain ⟨log, ran⟩ := tokens_ok scan join
  have notComparison : caret.kind ≠ .comparison := by simp [isCaret.1]
  -- behind the sign `^` an operand is due, so its operands are combined as if nothing stood before them
  have afterCaret : combineRuns false none (caret :: more) = caret :: combineRuns true none more := by
    have plainCaret : isSign caret = false := by simp [isSign, isCaret]
    have due : caret.mayPrecedeSign = true := by
      simp [Token.mayPrecedeSign, Kind.mayPrecedeSign, Kind.isOperator, isCaret.1]
    rw [combineRuns_plain false plainCaret, due]
  -- the part holds no comparison, so none is fused into it or over it
  have whole : combineOperators joined = fuseComparisons written ++ (part ++ caret :: combineOperators more) := by
    obtain ⟨first, others, rfl⟩ := exists_cons_of_ne_nil plain.1
    have all : ∀ t ∈ first :: others ++ [caret], t.kind ≠ .comparison :=
      forall_mem_append.mpr ⟨plain.2, by simpa using notComparison⟩
    calc combineOperators joined
        = fuseComparisons
            (written ++ first :: (others ++ caret :: combineRuns true none more)) := by
          rw [combineOperators, found, afterCaret, cons_append]
      _ = fuseComparisons written ++ fuseComparisons (first :: others ++ [caret] ++ combineRuns true none more) := by
          rw [fuseComparisons_append _ _ (plain.2 first mem_cons_self)]
          simp
      _ = fuseComparisons written ++ (first :: others ++ caret :: combineOperators more) := by
          rw [fuseComparisons_plain _ _ all, combineOperators]
          simp
  refine ⟨read, fuseComparisons written, log, ran.trans ?_⟩
  rw [whole, combined]
  simp

theorem combineRuns_behind_word (word : before.getLast?.all isWord = true)
    (join : joinNumerals before = .ok joined) (rest : List Token) : ∃ written, combineRuns true none (joined ++ rest) =
        written ++ combineRuns (leadsOperand true before) none rest := by
  rcases eq_nil_or_concat before with rfl | ⟨front, t, rfl⟩
  · obtain rfl : [] = joined := Except.ok.inj join
    exact ⟨[], rfl⟩
  · simp only [concat_eq_append] at word join ⊢
    simp only [getLast?_concat, Option.all_some, isWord, Bool.and_eq_true, Bool.not_eq_true', bne_iff_ne] at word
    obtain ⟨⟨noSign, noNumber⟩, noPoint⟩ := word
    obtain ⟨others, rfl⟩ := joinNumerals_last ⟨noNumber, noPoint⟩ join
    rw [append_assoc, singleton_append, combineRuns_behind _ _ _ _ noSign noNumber]
    simp [leadsOperand]

theorem isWord_of_due (due : leadsOperand true before = true)
    (plain : before.getLast?.all (!isSign ·) = true) : before.getLast?.all isWord = true := by
  cases last : before.getLast? with
  | none => rfl
  | some t =>
    simp only [leadsOperand, last, Option.map_some, Option.getD_some] at due
    simp only [last, Option.all_some] at plain ⊢
    have kinds : t.kind ≠ .number ∧ t.kind ≠ .point := by
      constructor <;> intro kind <;>
        simp [Token.mayPrecedeSign, Kind.mayPrecedeSign, Kind.isOperator, kind] at due
    simp [isWord, plain, kinds]

/-- Where an operand is due, a negative number keeps its sign or loses it to the one before. -/
theorem exists_takesSign (unsigned : isUnsigned number = true) (due : leadsOperand true before = true)
    (join : joinNumerals before = .ok joined) (rest : List Token) :
    ∃ written tokens o, TakesSign minus number tokens o ∧
      (before.getLast?.all (!isSign ·) = true → tokens = [negated minus number]) ∧
      combineRuns true none (joined ++ negated minus number :: rest) =
        written ++ (tokens ++ combineRuns false none rest) := by
  cases plain : before.getLast?.all (!isSign ·) with
  | true =>
    -- no run is open before the number, which is passed on as it is
    obtain ⟨written, same⟩ :=
      combineRuns_behind_word (isWord_of_due due plain) join (negated minus number :: rest)
    have noSign : isSign (negated minus number) = false := rfl
    exact ⟨written, _, _, .literal, fun _ => rfl, same⟩
  | false =>
    rcases eq_nil_or_concat before with rfl | ⟨front, t, rfl⟩
    · cases plain
    · simp only [concat_eq_append, getLast?_concat, Option.all_some, Bool.not_eq_false'] at plain join
      have kinds : t.kind ≠ .number ∧ t.kind ≠ .point := by
        constructor <;> intro kind <;> simp [isSign, kind] at plain
      obtain ⟨others, rfl⟩ := joinNumerals_last kinds join
      -- the sign before the number is the last of a run, which takes the number in
      have kind : (negated minus number).kind = .number := rfl
      obtain ⟨written, tokens, folded, same⟩ :=
        combineRuns_behind_sign true none others rest plain kind
      obtain ⟨o, takes⟩ := TakesSign.of_isFolded unsigned folded
      exact ⟨written, tokens, o, takes, by simp, by simpa using same⟩

end Parts

theorem kinds_of_isNameLike (named : t.isNameLike = true) : isSign t = false ∧
    t.mayPrecedeSign = false ∧ t.kind ≠ .number ∧ t.kind ≠ .point ∧ t.kind ≠ .comparison := by
  cases kind : t.kind <;>
    simp_all [Token.isNameLike, Kind.isNameLike, isSign, Token.mayPrecedeSign, Kind.mayPrecedeSign, Kind.isOperator]

theorem combineRuns_minus (isMinus : Numeral.isMinus minus = true) (leading : Bool) (plain : isSign t = false)
    (operand : t.mayPrecedeSign = false) (kind : leading = true → t.kind ≠ .number) (rest : List Token) :
    combineRuns leading none (minus :: t :: rest) = [minus, t] ++ combineRuns false none rest := by
  have sign : isSign minus = true := Numeral.isSign_of_isMinus isMinus
  simp only [Numeral.isMinus, Bool.and_eq_true, beq_iff_eq] at isMinus
  have same : (⟨.arithmetic, "-", minus.line⟩ : Token) = minus := by rw [← isMinus.1, ← isMinus.2]
  cases leading with
  | true =>
    simp [combineRuns, sign, plain, operand, kind, Sign.Run.prefixTokens, Sign.Run.ofSign, isNegative, isMinus.2, same]
  | false =>
    simp [combineRuns, sign, plain, operand, Sign.Run.infixToken, Sign.Run.ofSign, isNegative, isMinus.2, same]

/-- What a minus sign before a power does. Where an operand is due, a literal takes the sign in and the power
is that of a negative number, whatever the strengths of the operators say. Behind a name, which may be the
word `Step`, and before a variable the sign negates the power. -/
theorem minus_before_power {script : String} {before exponent after : List Token} {minus base caret : Token}
    {x : Operand Expr} (spelled : SpellsPower script before minus base caret exponent after)
    (operand : IsReadAs exponent (.operand x)) :
    (base.kind = .number → isUnsigned base = true → leadsOperand true before = true →
      ∃ tokens o, TakesSign minus base tokens o ∧
        (before.getLast?.all (!isSign ·) = true → tokens = [negated minus base]) ∧
        Holds script (tokens ++ caret :: exponent) after
          (.binary .power caret (.operand o) (.operand x))) ∧
    (base.kind = .number → isUnsigned base = true → before.getLast?.any Token.isNameLike = true →
      Holds script (minus :: base :: caret :: exponent) after
        (.unary .negate minus (.binary .power caret (.operand (.value base)) (.operand x)))) ∧
    (base.isNameLike = true → leadsOperand true before = true → before.getLast?.all (!isSign ·) = true →
      Holds script (minus :: base :: caret :: exponent) after
        (.unary .negate minus (.binary .power caret (.operand (.chain [([base], [])])) (.operand x)))) := by
  obtain ⟨⟨behind, joined, more, scan, joinBefore, joinBehind, combined⟩, isMinus, isCaret⟩ := spelled
  have minusKind : minus.kind ≠ .comparison := by
    simp only [Numeral.isMinus, Bool.and_eq_true, beq_iff_eq] at isMinus
    simp [isMinus.1]
  refine ⟨fun number unsigned due => ?_, fun number unsigned behindName => ?_, fun named due plain => ?_⟩
  · -- the sign is gone before the tokens are grouped: it is part of the number
    have join := joinNumerals_sign_number joinBefore isMinus joinBehind number unsigned due
    obtain ⟨written, tokens, o, takes, single, found⟩ :=
      exists_takesSign unsigned due joinBefore (caret :: more)
    exact ⟨tokens, o, takes, single, holds_of_combineRuns scan join isCaret combined takes.plain found
      (isReadAs_power takes.isReadAs operand isCaret)⟩
  · -- the sign is passed on and keeps its place between the name and the number
    obtain ⟨name, last, named⟩ := (Option.any_eq_true _ _).mp behindName
    obtain ⟨noSign, isOperand, noNumber, noPoint, -⟩ := kinds_of_isNameLike named
    have notDue : leadsOperand true before = false := by simp [leadsOperand, last, isOperand]
    have word : before.getLast?.all isWord = true := by simp [last, isWord, noSign, noNumber, noPoint]
    have join := joinNumerals_sign_behind joinBefore isMinus joinBehind notDue
    obtain ⟨written, same⟩ := combineRuns_behind_word word joinBefore (minus :: base :: caret :: more)
    have plain : isSign base = false := by simp [isSign, number]
    have baseOperand : base.mayPrecedeSign = false := by
      simp [Token.mayPrecedeSign, Kind.mayPrecedeSign, Kind.isOperator, number]
    rw [notDue, combineRuns_minus isMinus false plain baseOperand (by simp)] at same
    exact holds_of_combineRuns scan join isCaret combined (by simp [minusKind, number]) same
      (isReadAs_negatedPower (isReadAs_number number) operand isCaret isMinus)
  · -- a name takes in no sign, so the two are grouped by their strengths
    have join := joinNumerals_sign_name joinBefore isMinus joinBehind named due
    obtain ⟨written, same⟩ :=
      combineRuns_behind_word (isWord_of_due due plain) joinBefore (minus :: base :: caret :: more)
    obtain ⟨noSign, isOperand, noNumber, -, noComparison⟩ := kinds_of_isNameLike named
    rw [combineRuns_minus isMinus _ noSign isOperand (fun _ => noNumber)] at same
    exact holds_of_combineRuns scan join isCaret combined (by simp [minusKind, noComparison]) same
      (isReadAs_negatedPower (isReadAs_name named) operand isCaret isMinus)

/-- The script `x = -2 ^ 2` assigns the square of minus two. -/
theorem minus_before_power_square :
    SpellsPower "x = -2 ^ 2" [.ofWord "x" 0, .ofWord "=" 0] (.ofWord "-" 0) (.ofWord "2" 0) (.ofWord "^" 0)
      [.ofWord "2" 0] [] ∧
    Holds "x = -2 ^ 2" [⟨.number, "-2", 0⟩, .ofWord "^" 0, .ofWord "2" 0] []
      (.binary .power (.ofWord "^" 0) (.operand (.value ⟨.number, "-2", 0⟩))
        (.operand (.value (.ofWord "2" 0)))) := by
  have spelled : SpellsPower "x = -2 ^ 2" [.ofWord "x" 0, .ofWord "=" 0] (.ofWord "-" 0) (.ofWord "2" 0)
      (.ofWord "^" 0) [.ofWord "2" 0] [] :=
    ⟨⟨[.ofWord "2" 0, .ofWord "^" 0, .ofWord "2" 0], [.ofWord "x" 0, .ofWord "=" 0], [.ofWord "2" 0],
      rfl, rfl, by decide +kernel, rfl⟩, rfl, rfl, rfl⟩
  obtain ⟨literal, -, -⟩ := minus_before_power spelled (isReadAs_number rfl)
  obtain ⟨tokens, o, takes, single, holds⟩ := literal rfl rfl rfl
  obtain rfl := single rfl
  cases takes with
  | literal => exact ⟨spelled, holds⟩

/-- The whole of `-2 ^ 2` is not the negative of a power. -/
theorem negative_square_ne_negated_power : ∃ tokens log, (Run.tokens "-2 ^ 2").run [] = .ok tokens log ∧
    ¬IsReadAs tokens (.unary .negate (.ofWord "-" 0) (.binary .power (.ofWord "^" 0)
      (.operand (.value (.ofWord "2" 0))) (.operand (.value (.ofWord "2" 0))))) := by
  have scan : scanTokens "-2 ^ 2" = .ok [.ofWord "-" 0, .ofWord "2" 0, .ofWord "^" 0, .ofWord "2" 0] := rfl
  have join : joinNumerals [.ofWord "-" 0, .ofWord "2" 0, .ofWord "^" 0, .ofWord "2" 0] =
      .ok [⟨.number, "-2", 0⟩, .ofWord "^" 0, .ofWord "2" 0] := by decide +kernel
  obtain ⟨log, ran⟩ := tokens_ok scan join
  have power : IsReadAs ([⟨.number, "-2", 0⟩] ++ .ofWord "^" 0 :: [.ofWord "2" 0])
      (.binary .power (.ofWord "^" 0) (.operand (.value ⟨.number, "-2", 0⟩))
        (.operand (.value (.ofWord "2" 0)))) :=
    isReadAs_power (isReadAs_number rfl) (isReadAs_number rfl) ⟨rfl, rfl⟩
  refine ⟨_, log, ran, fun negated => ?_⟩
  cases power.unique negated

end VbSharp
