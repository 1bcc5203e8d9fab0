import VbSharp.Number.Integer
import VbSharp.Proofs.Expr.Joining
import VbSharp.Proofs.Token.SignRun

/-!
# The value of an expression with runs of signs

Sums and products of integers are given a value twice: from their tokens as they are written, where each sign
before an operand negates it or does nothing and binds tighter than `*`, and from the tree that is built once
the runs of signs have been combined. The two values are the same.
-/
namespace VbSharp

open List Sign VbSharp.Expr Token

variable {above line : Nat}

/-- The integer that a number token spells with digits and perhaps a minus sign before them. -/
def Token.integer? (t : Token) : Option Int :=
  if t.kind = .number then
    match t.text.toList with
    | '-' :: digits => (natural? digits).map fun n : Nat => -(n : Int)
    | digits => (natural? digits).map fun n : Nat => (n : Int)
  else none

namespace Arithmetic

open Sign (negates runOf Combines magnitude isSigned converted)

/-- Whether the token is the arithmetic operator with that text. -/
def IsMark (t : Token) (text : String) : Prop :=
  t.kind = .arithmetic ∧ t.text = text

/-- How tightly the parts of an expression hold together. -/
inductive Level where
  | atom
  | factor
  | product
  | sum

/-- The tokens write an integer expression, which has the value if variables have the values that `env` gives
them. Signs before an operand bind tighter than `*`. -/
inductive Means (env : Token → Int) : Level → List Token → Int → Prop where
  | name {t : Token} (named : t.isNameLike = true) : Means env .atom [t] (env t)
  | number {t : Token} {n : Int} (spells : t.integer? = some n) : Means env .atom [t] n
  | brackets {start close : Token} {inner : List Token} {n : Int} (opens : start.kind = .openBracket)
    (closes : close.kind = .closeBracket) (body : Means env .sum inner n) :
    Means env .atom (start :: (inner ++ [close])) n
  | unsigned {tokens : List Token} {n : Int} (operand : Means env .atom tokens n) :
    Means env .factor tokens n
  | plus {sign : Token} {tokens : List Token} {n : Int} (isPlus : IsMark sign "+")
    (operand : Means env .factor tokens n) : Means env .factor (sign :: tokens) n
  | minus {sign : Token} {tokens : List Token} {n : Int} (isMinus : IsMark sign "-")
    (operand : Means env .factor tokens n) : Means env .factor (sign :: tokens) (-n)
  | factor {tokens : List Token} {n : Int} (operand : Means env .factor tokens n) :
    Means env .product tokens n
  | times {left right : List Token} {star : Token} {a b : Int} (first : Means env .product left a)
    (isStar : IsMark star "*") (second : Means env .factor right b) :
    Means env .product (left ++ star :: right) (a * b)
  | product {tokens : List Token} {n : Int} (operand : Means env .product tokens n) :
    Means env .sum tokens n
  | add {left right : List Token} {sign : Token} {a b : Int} (first : Means env .sum left a)
    (isPlus : IsMark sign "+") (second : Means env .product right b) :
    Means env .sum (left ++ sign :: right) (a + b)
  | subtract {left right : List Token} {sign : Token} {a b : Int} (first : Means env .sum left a)
    (isMinus : IsMark sign "-") (second : Means env .product right b) :
    Means env .sum (left ++ sign :: right) (a - b)

/-- The tree has the value if variables have the values that `env` gives them. A call of `CDbl` leaves its
argument as it is. -/
inductive Evaluates (env : Token → Int) : Tree (Operand Expr) → Int → Prop where
  | name {t : Token} : Evaluates env (.operand (.chain [([t], [])])) (env t)
  | number {t : Token} {n : Int} (spells : t.integer? = some n) : Evaluates env (.operand (.value t)) n
  | brackets {e : Expr} {tree : Tree (Operand Expr)} {n : Int} (built : Expr.tree e = .ok tree)
    (inner : Evaluates env tree n) : Evaluates env (.operand (.bracketed e)) n
  | convert {t : Token} {e : Expr} {tree : Tree (Operand Expr)} {n : Int}
    (isConversion : t.isWord "CDbl" = true) (built : Expr.tree e = .ok tree)
    (argument : Evaluates env tree n) : Evaluates env (.operand (.chain [([t], [e])])) n
  | negate {token : Token} {tree : Tree (Operand Expr)} {n : Int} (operand : Evaluates env tree n) :
    Evaluates env (.unary .negate token tree) (-n)
  | multiply {token : Token} {left right : Tree (Operand Expr)} {a b : Int}
    (first : Evaluates env left a) (second : Evaluates env right b) :
    Evaluates env (.binary .multiply token left right) (a * b)
  | add {token : Token} {left right : Tree (Operand Expr)} {a b : Int}
    (first : Evaluates env left a) (second : Evaluates env right b) :
    Evaluates env (.binary .add token left right) (a + b)
  | subtract {token : Token} {left right : Tree (Operand Expr)} {a b : Int}
    (first : Evaluates env left a) (second : Evaluates env right b) :
    Evaluates env (.binary .subtract token left right) (a - b)

variable {env : Token → Int}

variable {t sign star start close : Token} {tokens left right inner : List Token} {n a b : Int}
  {tree : Tree (Operand Expr)} {bound looser k : Nat} {digits : List Char}

theorem Evaluates.unique {m : Int} (first : Evaluates env tree n) (second : Evaluates env tree m) : n = m := by
  induction first generalizing m with
  | name =>
    cases second
    rfl
  | number spells =>
    cases second with
    | number other => exact Option.some.inj (spells.symm.trans other)
  | brackets built _ ih =>
    cases second with
    | brackets other inner =>
      obtain rfl := Except.ok.inj (built.symm.trans other)
      exact ih inner
  | convert _ built _ ih =>
    cases second with
    | convert _ other inner =>
      obtain rfl := Except.ok.inj (built.symm.trans other)
      exact ih inner
  | negate _ ih =>
    cases second with
    | negate operand => rw [ih operand]
  | multiply _ _ ihLeft ihRight =>
    cases second with
    | multiply left right => rw [ihLeft left, ihRight right]
  | add _ _ ihLeft ihRight =>
    cases second with
    | add left right => rw [ihLeft left, ihRight right]
  | subtract _ _ ihLeft ihRight =>
    cases second with
    | subtract left right => rw [ihLeft left, ihRight right]

/-! ### Trees that hold together -/

/-- No operator on the outside of the tree is looser than the bound. -/
def IsTight (bound : Nat) (tree : Tree (Operand Expr)) : Prop :=
  (∀ op ∈ tree.leftSpine, bound ≤ op.strength) ∧
    ∀ op ∈ tree.rightSpine, ∀ next : BinaryOp, next.strength ≤ bound → op.bindsBefore next

theorem isTight_operand (bound : Nat) (a : Operand Expr) : IsTight bound (.operand a) := by
  simp [IsTight, Tree.leftSpine, Tree.rightSpine]

theorem IsTight.mono (tight : IsTight bound tree) (le : looser ≤ bound) : IsTight looser tree :=
  ⟨fun op member => le.trans (tight.1 op member), fun op member next loose => tight.2 op member next (loose.trans le)⟩

theorem isGrouped_negate (token : Token) (isMinus : token.text = "-") (grouped : tree.IsGrouped)
    (tight : IsTight UnaryOp.negate.strength tree) :
    (Tree.unary .negate token tree).IsGrouped ∧ IsTight UnaryOp.negate.strength (.unary .negate token tree) := by
  have sign : UnaryOp.ofToken? token = some .negate := by simp [UnaryOp.ofToken?, isMinus]
  refine ⟨⟨sign, grouped, tight.1⟩, by simp [Tree.leftSpine], ?_⟩
  refine forall_mem_cons.mpr ⟨fun next loose => ?_, tight.2⟩
  -- no operator between two operands is exactly as strong as the sign
  cases next <;> simp_all [AnyOp.bindsBefore, BinaryOp.strength, UnaryOp.strength]

theorem isGrouped_binary {op : BinaryOp} {token : Token} {left right : Tree (Operand Expr)}
    (infixed : BinaryOp.ofToken? token = some op) (looser : op.strength < above) (groupedLeft : left.IsGrouped)
    (groupedRight : right.IsGrouped) (tightLeft : IsTight op.strength left) (tightRight : IsTight above right) :
    (Tree.binary op token left right).IsGrouped ∧ IsTight op.strength (.binary op token left right) := by
  refine ⟨⟨infixed, groupedLeft, groupedRight, ?_, ?_⟩, ?_, ?_⟩
  · exact fun a member => tightLeft.2 a member op le_rfl
  · exact fun b member => looser.trans_le (tightRight.1 b member)
  · exact forall_mem_cons.mpr ⟨le_rfl, tightLeft.1⟩
  · exact forall_mem_cons.mpr ⟨fun next loose => loose, (tightRight.mono looser.le).2⟩

/-! ### Reading combined tokens -/

/-- The tokens are read as a tree that has the value and holds together up to the bound. -/
def ReadAs (env : Token → Int) (bound : Nat) (tokens : List Token) (n : Int) : Prop :=
  ∃ e tree, (∀ line, Expr.read tokens line = .ok e) ∧ tree.items = Expr.items e ∧ tree.IsGrouped ∧
    IsTight bound tree ∧ Evaluates env tree n ∧ ∀ t ∈ tokens, t.kind ≠ .comparison

theorem ReadAs.mono (read : ReadAs env bound tokens n) (le : looser ≤ bound) : ReadAs env looser tokens n := by
  obtain ⟨e, tree, read, same, grouped, tight, value, plain⟩ := read
  exact ⟨e, tree, read, same, grouped, tight.mono le, value, plain⟩

theorem readAs_name (bound : Nat) (named : t.isNameLike = true) : ReadAs env bound [t] (env t) := by
  refine ⟨[.call [t] []], .operand (.chain [([t], [])]), fun _ => read_name named, rfl, trivial,
    isTight_operand _ _, .name, ?_⟩
  cases kind : t.kind <;> simp_all [Token.isNameLike, Kind.isNameLike]

theorem readAs_number (bound : Nat) (spells : t.integer? = some n) : ReadAs env bound [t] n := by
  have number : t.kind = .number := by
    by_contra other
    simp [integer?, other] at spells
  have literal : t.isLiteral = true := by simp [Token.isLiteral, number]
  exact ⟨[.value t], .operand (.value t), fun _ => read_literal literal, rfl, trivial,
    isTight_operand _ _, .number spells, by simp [number]⟩

theorem ReadAs.brackets (bound : Nat) {any : Nat} (body : ReadAs env any inner n) (opens : start.kind = .openBracket)
    (closes : close.kind = .closeBracket) : ReadAs env bound (start :: (inner ++ [close])) n := by
  obtain ⟨e, tree, read, same, grouped, -, value, plain⟩ := body
  refine ⟨[.bracketed e], .operand (.bracketed e), fun line => read_brackets opens closes (read line),
    rfl, trivial, isTight_operand _ _, .brackets (tree_ok_iff.mpr ⟨same, grouped⟩) value, ?_⟩
  simpa [opens, closes, or_imp, forall_and] using plain

/-- A number in a call of `CDbl`. -/
theorem readAs_converted (bound : Nat) {digits : String} (spells : integer? ⟨.number, digits, line⟩ = some n) :
    ReadAs env bound (converted digits line) n := by
  have argument : ReadAs env 0 [⟨.number, digits, line⟩] n := readAs_number 0 spells
  obtain ⟨e, tree, read, same, grouped, -, value, -⟩ := argument
  refine ⟨[.call [.ofWord "CDbl" line] [e]], .operand (.chain [([.ofWord "CDbl" line], [e])]),
    fun _ => read_call rfl rfl rfl (read _), rfl, trivial, isTight_operand _ _,
    .convert ?_ (tree_ok_iff.mpr ⟨same, grouped⟩) value, ?_⟩
  · simp [Token.ofWord, Token.isWord, sameWord]
  · have word : Kind.ofWord "CDbl" ≠ .comparison := by decide
    have start : Kind.ofWord "(" ≠ .comparison := by decide
    have close : Kind.ofWord ")" ≠ .comparison := by decide
    simp [converted, Token.ofWord, word, start, close]

theorem ReadAs.negate (operand : ReadAs env UnaryOp.negate.strength tokens n) :
    ReadAs env UnaryOp.negate.strength (⟨.arithmetic, "-", line⟩ :: tokens) (-n) := by
  obtain ⟨e, tree, read, same, grouped, tight, value, plain⟩ := operand
  have sign : (⟨.arithmetic, "-", line⟩ : Token).isOperator = true := rfl
  obtain ⟨grouped, tight⟩ := isGrouped_negate ⟨.arithmetic, "-", line⟩ rfl grouped tight
  exact ⟨_, .unary .negate ⟨.arithmetic, "-", line⟩ tree, fun _ => read_operator sign (read _),
    congrArg (Item.operator _ :: ·) same, grouped, tight, .negate value, by simpa using plain⟩

theorem ReadAs.join (op : BinaryOp) (first : ReadAs env op.strength left a) (second : ReadAs env above right b)
    (looser : op.strength < above) (isOperator : t.kind = .arithmetic) (infixed : BinaryOp.ofToken? t = some op)
    (value : ∀ l r, Evaluates env l a → Evaluates env r b → Evaluates env (.binary op t l r) n) :
    ReadAs env op.strength (left ++ t :: right) n := by
  obtain ⟨e, l, readLeft, sameLeft, groupedLeft, tightLeft, valueLeft, plainLeft⟩ := first
  obtain ⟨e', r, readRight, sameRight, groupedRight, tightRight, valueRight, plainRight⟩ := second
  have operator : t.isOperator = true := by simp [Token.isOperator, Kind.isOperator, isOperator]
  obtain ⟨grouped, tight⟩ :=
    isGrouped_binary infixed looser groupedLeft groupedRight tightLeft tightRight
  refine ⟨_, .binary op t l r, fun _ => read_join operator (readLeft _) (readRight _), ?_, grouped,
    tight, value l r valueLeft valueRight, ?_⟩
  · rw [Tree.items, items_join, sameLeft, sameRight]
  · exact forall_mem_append.mpr ⟨plainLeft, forall_mem_cons.mpr ⟨by simp [isOperator], plainRight⟩⟩

/-! ### Numbers with a sign -/

/-- The value with its sign changed, or as it is. -/
def negateIf (negative : Bool) (n : Int) : Int :=
  if negative then -n else n

theorem negateIf_mul (negative : Bool) (n m : Int) : negateIf negative n * m = negateIf negative (n * m) := by
  cases negative with
  | false => rfl
  | true => exact Int.neg_mul n m

theorem negateIf_negates (sign : Token) (signs : List Token) (n : Int) :
    negateIf (isNegative sign) (negateIf (negates signs) n) = negateIf (negates (sign :: signs)) n := by
  cases first : isNegative sign <;> cases others : negates signs <;>
    simp [negateIf, negates, first, others]

theorem IsMark.plus (isPlus : IsMark t "+") : Numeral.isSign t = true ∧ isNegative t = false := by
  simp [Numeral.isSign, isNegative, isPlus.1, isPlus.2]

theorem IsMark.minus (isMinus : IsMark t "-") : Numeral.isSign t = true ∧ isNegative t = true := by
  simp [Numeral.isSign, isNegative, isMinus.1, isMinus.2]

theorem exists_of_natural? (spells : natural? digits = some k) : ∃ c rest, digits = c :: rest ∧ c ≠ '-' := by
  unfold natural? at spells
  split at spells
  · cases spells
  next plain =>
    cases digits with
    | nil => simp at plain
    | cons c rest =>
      refine ⟨c, rest, rfl, ?_⟩
      rintro rfl
      simp [show Char.isDigit '-' = false by decide] at plain

theorem integer?_unsigned (spells : natural? digits = some k) (line : Nat) :
    integer? ⟨.number, String.ofList digits, line⟩ = some (k : Int) := by
  obtain ⟨c, rest, rfl, plain⟩ := exists_of_natural? spells
  simp only [integer?, if_true, String.toList_ofList]
  split
  next same => exact absurd (cons.inj same).1 plain
  · simp [spells]

/-- A number is digits, perhaps with a sign before them that counts. -/
theorem exists_digits (spells : t.integer? = some n) :
    t.kind = .number ∧ ∃ digits k, natural? digits = some k ∧ magnitude t = String.ofList digits ∧
      n = negateIf (isSigned t) k := by
  unfold integer? at spells
  split at spells
  next number =>
    refine ⟨number, ?_⟩
    split at spells
    next digits text =>
      obtain ⟨k, read, rfl⟩ := Option.map_eq_some_iff.mp spells
      obtain ⟨c, rest, rfl, plain⟩ := exists_of_natural? read
      refine ⟨_, k, read, ?_, ?_⟩
      · simp [magnitude, text, plain]
      · simp [negateIf, isSigned, text]
    next digits plainText =>
      obtain ⟨k, read, rfl⟩ := Option.map_eq_some_iff.mp spells
      obtain ⟨c, rest, text, plain⟩ := exists_of_natural? read
      refine ⟨_, k, read, ?_, ?_⟩
      · simp [magnitude, text, plain]
      · simp [negateIf, isSigned, text, plain]
  · cases spells

/-- A number behind a run has its value, with the sign changed if the run is negative. -/
theorem readAs_applyTo (bound : Nat) (spells : t.integer? = some n) (r : Sign.Run) :
    ReadAs env bound (r.applyTo t) (negateIf r.negative n) := by
  obtain ⟨-, digits, k, read, text, rfl⟩ := exists_digits spells
  rcases applyTo_cases r t with ⟨negative, same⟩ | ⟨negative, same⟩
  · have value : negateIf r.negative (negateIf (isSigned t) k) = -(k : Int) := by
      cases run : r.negative <;> cases signed : isSigned t <;> simp_all [negateIf]
    rw [same, value, text]
    exact readAs_number bound (by simp [integer?, read])
  · have value : negateIf r.negative (negateIf (isSigned t) k) = (k : Int) := by
      cases run : r.negative <;> cases signed : isSigned t <;> simp_all [negateIf]
    rw [value]
    rcases same with same | same <;> rw [same, text]
    · exact readAs_converted bound (integer?_unsigned read t.line)
    · exact readAs_number bound (integer?_unsigned read t.line)

/-! ### Combining keeps the value -/

/-- The tokens are combined to tokens that are read with the value. -/
def IsCombined (env : Token → Int) (bound : Nat) (tokens : List Token) (n : Int) : Prop :=
  ∃ out, Combines tokens out ∧ ReadAs env bound out n

/-- Whether tokens start with something else than a sign. -/
def IsPlain (tokens : List Token) : Prop :=
  ∃ t rest, tokens = t :: rest ∧ Numeral.isSign t = false

/-- An operand before which signs may stand: a number, or anything that takes no sign in. -/
structure AtomFits (env : Token → Int) (tokens : List Token) (n : Int) : Prop where
  combined : IsCombined env UnaryOp.negate.strength tokens n
  starts : (∃ t, tokens = [t] ∧ t.integer? = some n) ∨
    ∃ t rest, tokens = t :: rest ∧ Numeral.isSign t = false ∧ t.kind ≠ .number

/-- Signs and an operand. -/
def FactorFits (env : Token → Int) (tokens : List Token) (n : Int) : Prop :=
  ∃ signs body m, tokens = signs ++ body ∧ (∀ s ∈ signs, Numeral.isSign s = true) ∧
    AtomFits env body m ∧ n = negateIf (negates signs) m

/-- A product keeps its value, and so does what is left of it when the signs that start it are taken away: a
run between two operands takes in the signs of the second one. -/
structure ProductFits (env : Token → Int) (tokens : List Token) (n : Int) : Prop where
  combined : IsCombined env BinaryOp.multiply.strength tokens n
  signed : ∃ signs body m, tokens = signs ++ body ∧ (∀ s ∈ signs, Numeral.isSign s = true) ∧
    IsPlain body ∧ IsCombined env BinaryOp.multiply.strength body m ∧ n = negateIf (negates signs) m

theorem isSign_number (spells : t.integer? = some n) : Numeral.isSign t = false := by
  simp [Numeral.isSign, (exists_digits spells).1]

theorem AtomFits.isPlain (fits : AtomFits env tokens n) : IsPlain tokens := by
  rcases fits.starts with ⟨t, rfl, spells⟩ | ⟨t, rest, rfl, plain, -⟩
  · exact ⟨t, [], rfl, isSign_number spells⟩
  · exact ⟨t, rest, rfl, plain⟩

theorem atomFits_name (named : t.isNameLike = true) : AtomFits env [t] (env t) := by
  have plain : Numeral.isSign t = false ∧ t.mayPrecedeSign = false ∧ t.kind ≠ .number := by
    cases kind : t.kind <;> simp_all [Token.isNameLike, Kind.isNameLike, Numeral.isSign,
      Token.mayPrecedeSign, Kind.mayPrecedeSign, Kind.isOperator]
  exact ⟨⟨[t], combines_token plain.1 plain.2.1, readAs_name _ named⟩, .inr ⟨t, [], rfl, plain.1, plain.2.2⟩⟩

theorem atomFits_number (spells : t.integer? = some n) : AtomFits env [t] n := by
  have number := (exists_digits spells).1
  have operand : t.mayPrecedeSign = false := by
    simp [Token.mayPrecedeSign, Kind.mayPrecedeSign, Kind.isOperator, number]
  exact ⟨⟨[t], combines_token (isSign_number spells) operand, readAs_number _ spells⟩, .inl ⟨t, rfl, spells⟩⟩

theorem atomFits_brackets (opens : start.kind = .openBracket) (closes : close.kind = .closeBracket)
    (body : IsCombined env bound inner n) : AtomFits env (start :: (inner ++ [close])) n := by
  obtain ⟨out, combines, read⟩ := body
  refine ⟨⟨_, combines.brackets opens closes, read.brackets _ opens closes⟩, .inr ⟨start, _, rfl, ?_, by simp [opens]⟩⟩
  simp [Numeral.isSign, opens]

theorem FactorFits.prepend (fits : FactorFits env tokens n) (isSign : Numeral.isSign sign = true) :
    FactorFits env (sign :: tokens) (negateIf (isNegative sign) n) := by
  obtain ⟨signs, body, m, rfl, all, atom, rfl⟩ := fits
  exact ⟨sign :: signs, body, m, rfl, forall_mem_cons.mpr ⟨isSign, all⟩, atom, negateIf_negates sign signs m⟩

/-- A run before an operand: it is folded into a number, and a minus sign stands before anything else. -/
theorem FactorFits.isCombined (fits : FactorFits env tokens n) : IsCombined env UnaryOp.negate.strength tokens n := by
  obtain ⟨signs, body, m, rfl, all, atom, rfl⟩ := fits
  cases signs with
  | nil => exact atom.combined
  | cons sign signs =>
    rw [← runOf_negative]
    rcases atom.starts with ⟨t, rfl, spells⟩ | ⟨t, rest, starts, plain, other⟩
    · exact ⟨_, combines_number all (exists_digits spells).1, readAs_applyTo _ spells _⟩
    · obtain ⟨out, combines, read⟩ := atom.combined
      refine ⟨_, combines.underRun all starts plain other, ?_⟩
      cases negative : (runOf sign signs).negative with
      | false => simpa [Sign.Run.prefixTokens, negative, negateIf] using read
      | true => simpa [Sign.Run.prefixTokens, negative, negateIf] using read.negate

theorem FactorFits.product (fits : FactorFits env tokens n) : ProductFits env tokens n := by
  have looser : BinaryOp.multiply.strength ≤ UnaryOp.negate.strength := by decide
  have weaken {tokens : List Token} {n : Int} (tight : IsCombined env UnaryOp.negate.strength tokens n) :
      IsCombined env BinaryOp.multiply.strength tokens n := by
    obtain ⟨out, combines, read⟩ := tight
    exact ⟨out, combines, read.mono looser⟩
  refine ⟨weaken fits.isCombined, ?_⟩
  obtain ⟨signs, body, m, rfl, all, atom, rfl⟩ := fits
  exact ⟨signs, body, m, rfl, all, atom.isPlain, weaken atom.combined, rfl⟩

theorem IsCombined.times (first : IsCombined env BinaryOp.multiply.strength left a) (isStar : IsMark star "*")
    (second : IsCombined env UnaryOp.negate.strength right b) :
    IsCombined env BinaryOp.multiply.strength (left ++ star :: right) (a * b) := by
  obtain ⟨outLeft, combinesLeft, readLeft⟩ := first
  obtain ⟨outRight, combinesRight, readRight⟩ := second
  have operator : star.isOperator = true := by simp [Token.isOperator, Kind.isOperator, isStar.1]
  have plain : Numeral.isSign star = false := by simp [Numeral.isSign, isStar.1, isStar.2]
  have infixed : BinaryOp.ofToken? star = some .multiply := by
    rw [BinaryOp.ofToken?, isStar.2]
    rfl
  exact ⟨_, combinesLeft.join combinesRight operator plain,
    .join .multiply readLeft readRight (by decide) isStar.1 infixed fun l r => .multiply⟩

/-- The signs that start a product are those that start its first factor. -/
theorem ProductFits.times (first : ProductFits env left a) (isStar : IsMark star "*")
    (second : FactorFits env right b) : ProductFits env (left ++ star :: right) (a * b) := by
  refine ⟨first.combined.times isStar second.isCombined, ?_⟩
  obtain ⟨signs, body, m, rfl, all, ⟨t, rest, rfl, plain⟩, combined, rfl⟩ := first.signed
  refine ⟨signs, (t :: rest) ++ star :: right, m * b, by simp, all, ⟨t, rest ++ star :: right, rfl, plain⟩,
    combined.times isStar second.isCombined, ?_⟩
  exact negateIf_mul _ m b

theorem ProductFits.isCombined (fits : ProductFits env tokens n) : IsCombined env BinaryOp.add.strength tokens n := by
  obtain ⟨out, combines, read⟩ := fits.combined
  exact ⟨out, combines, read.mono (by decide)⟩

theorem IsCombined.run (first : IsCombined env BinaryOp.add.strength left a) (isSign : Numeral.isSign sign = true)
    (second : ProductFits env right b) :
    IsCombined env BinaryOp.add.strength (left ++ sign :: right) (a + negateIf (isNegative sign) b) := by
  obtain ⟨outLeft, combinesLeft, readLeft⟩ := first
  obtain ⟨signs, body, m, rfl, all, ⟨t, rest, starts, plain⟩, ⟨out, combines, read⟩, rfl⟩ := second.signed
  have every : ∀ s ∈ sign :: signs, Numeral.isSign s = true := forall_mem_cons.mpr ⟨isSign, all⟩
  refine ⟨_, combinesLeft.joinRun every combines starts plain, ?_⟩
  have text : BinaryOp.ofToken? (runOf sign signs).infixToken =
      some (if negates (sign :: signs) then .subtract else .add) := by
    rw [BinaryOp.ofToken?, Sign.Run.infixToken, runOf_negative]
    cases negates (sign :: signs) with
    | false => exact (by decide : BinaryOp.words.lookup (foldCase "+") = some .add)
    | true => exact (by decide : BinaryOp.words.lookup (foldCase "-") = some .subtract)
  rw [negateIf_negates]
  cases negative : negates (sign :: signs) with
  | false =>
    rw [negative] at text
    exact .join .add readLeft read (by decide) rfl text fun l r => .add
  | true =>
    rw [negative] at text
    exact .join .subtract readLeft read (by decide) rfl text fun l r => .subtract

/-- What combining keeps of the tokens of each level. -/
def Fits (env : Token → Int) : Level → List Token → Int → Prop
  | .atom => AtomFits env
  | .factor => FactorFits env
  | .product => ProductFits env
  | .sum => IsCombined env BinaryOp.add.strength

theorem fits_of_means {level : Level} (means : Means env level tokens n) : Fits env level tokens n := by
  induction means with
  | name named => exact atomFits_name named
  | number spells => exact atomFits_number spells
  | brackets opens closes _ ih => exact atomFits_brackets opens closes ih
  | unsigned _ ih => exact ⟨[], _, _, rfl, by simp, ih, rfl⟩
  | plus isPlus _ ih => simpa [Fits, isPlus.plus.2, negateIf] using FactorFits.prepend ih isPlus.plus.1
  | minus isMinus _ ih => simpa [Fits, isMinus.minus.2, negateIf] using FactorFits.prepend ih isMinus.minus.1
  | factor _ ih => exact FactorFits.product ih
  | times _ isStar _ ihLeft ihRight => exact ProductFits.times ihLeft isStar ihRight
  | product _ ih => exact ProductFits.isCombined ih
  | add _ isPlus _ ihLeft ihRight =>
    simpa [Fits, isPlus.plus.2, negateIf] using IsCombined.run ihLeft isPlus.plus.1 ihRight
  | subtract _ isMinus _ ihLeft ihRight =>
    simpa [Fits, isMinus.minus.2, negateIf, Int.sub_eq_add_neg] using
      IsCombined.run ihLeft isMinus.minus.1 ihRight

/-- Combining the runs of signs of an expression keeps its value: the combined tokens are read, a tree is
built from them, and its only value is the one of the tokens as they were written. -/
theorem combineOperators_keeps_value (env : Token → Int) (tokens : List Token) (n : Int)
    (means : Means env .sum tokens n) (line : Nat) :
    ∃ e tree, Expr.read (combineOperators tokens) line = .ok e ∧ Expr.tree e = .ok tree ∧
      ∀ m, Evaluates env tree m ↔ m = n := by
  obtain ⟨out, combines, e, tree, read, same, grouped, -, value, plain⟩ := fits_of_means means
  refine ⟨e, tree, ?_, tree_ok_iff.mpr ⟨same, grouped⟩, fun m => ⟨fun other => other.unique value, ?_⟩⟩
  · rw [combines.combineOperators plain]
    exact read line
  · rintro rfl
    exact value

/-- The tokens of `- + -5 * a - - (b)`, where the number has a sign of its own. -/
def signedSum : List Token :=
  [⟨.arithmetic, "-", 0⟩, ⟨.arithmetic, "+", 0⟩, ⟨.number, "-5", 0⟩, ⟨.arithmetic, "*", 0⟩, ⟨.name, "a", 0⟩,
    ⟨.arithmetic, "-", 0⟩, ⟨.arithmetic, "-", 0⟩, ⟨.openBracket, "(", 0⟩, ⟨.name, "b", 0⟩, ⟨.closeBracket, ")", 0⟩]

/-- The values of its variables. -/
def signedSumValues (t : Token) : Int :=
  if t.text = "a" then 3 else 4

theorem combineOperators_keeps_value_signedSum :
    Means signedSumValues .sum signedSum 19 ∧
      ∃ e tree, Expr.read (combineOperators signedSum) 0 = .ok e ∧ Expr.tree e = .ok tree ∧
        ∀ m, Evaluates signedSumValues tree m ↔ m = 19 := by
  have number : integer? ⟨.number, "-5", 0⟩ = some (-5) := by decide
  have first : Means signedSumValues .product (signedSum.take 5) (-(-5) * 3) :=
    .times (.factor (.minus ⟨rfl, rfl⟩ (.plus ⟨rfl, rfl⟩ (.unsigned (.number number)))))
      ⟨rfl, rfl⟩ (.unsigned (.name rfl))
  have second : Means signedSumValues .product (signedSum.drop 6) (-4) :=
    .factor (.minus ⟨rfl, rfl⟩ (.unsigned
      (.brackets rfl rfl (.product (.factor (.unsigned (.name rfl)))))))
  have minus : IsMark ⟨.arithmetic, "-", 0⟩ "-" := ⟨rfl, rfl⟩
  have means := Means.subtract (.product first) minus second
  exact ⟨means, combineOperators_keeps_value _ signedSum 19 means 0⟩

end Arithmetic
end VbSharp
