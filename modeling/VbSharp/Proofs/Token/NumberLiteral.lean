import VbSharp.CSharp.Term
import VbSharp.Proofs.Token.NameForms
import VbSharp.Proofs.Token.NumeralParts
import VbSharp.Proofs.Token.NumeralSettled
import VbSharp.Proofs.Token.SignNormal

/-!
# Number literals

The numbers of a script are spelled like decimal numerals: a digit stands behind every point that is not the last
character, and folding signs into a number leaves its digits alone. The generated code writes such a numeral as a
literal of the same value. The exception is a numeral that ends in its point: it is written as it is, although no
literal ends like that.
-/
namespace VbSharp

open List
open Decimal

variable {t u : Token} {text : String} {tokens parts out : List Token}

variable (n : Spelling)

/-! ### Literals -/

namespace CSharp

/-- The literals of the generated code and their values: numerals that do not end in a point, and whole numbers with
the suffix of a double. -/
inductive Denotes : List Char → ℚ → Prop where
  | numeral (n : Spelling) (complete : ∀ digits, n.mantissa ≠ .pointed digits) : Denotes n.text n.value
  | double (n : Spelling) {digits : Digits} (whole : n.mantissa = .whole digits) (plain : n.exponent = none) :
    Denotes (n.text ++ ['D']) n.value

theorem exists_last_digits (complete : ∀ digits, n.mantissa ≠ .pointed digits) :
    ∃ (front : List Char) (d : Digits), n.text = front ++ d.chars := by
  unfold Spelling.text Spelling.exponentText
  generalize (if n.negative = true then ['-'] else []) = sign
  cases n.exponent with
  | some e => exact ⟨sign ++ n.mantissa.text ++ e.mark :: e.sign.toList, e.digits, by simp [Exponent.text]⟩
  | none =>
    cases shape : n.mantissa with
    | whole d => exact ⟨sign, d, append_nil _⟩
    | pointed d => exact absurd shape (complete d)
    | full b d => exact ⟨sign ++ (b.chars ++ ['.']), d, by simp [Mantissa.text, Mantissa.before, Mantissa.behind]⟩
    | fraction d => exact ⟨sign ++ ['.'], d, by simp [Mantissa.text, Mantissa.before, Mantissa.behind]⟩

theorem Denotes.getLast? {text : List Char} {value : ℚ} (denotes : Denotes text value) : text.getLast? ≠ some '.' := by
  cases denotes with
  | numeral n complete =>
    obtain ⟨front, d, same⟩ := exists_last_digits n complete
    rw [same, getLast?_append_of_ne_nil _ d.filled]
    intro last
    cases all_eq_true.mp d.only _ (mem_of_getLast? last)
  | double => simp

/-- A suffix is written behind whole numbers only. -/
theorem numberLiteral_cases (same : text.toList = n.text) : (numberLiteral text).toList = n.text ∨
    (∃ digits, n.mantissa = .whole digits) ∧ n.exponent = none ∧ (numberLiteral text).toList = n.text ++ ['D'] := by
  unfold numberLiteral
  split
  · exact .inl same
  next unmarked =>
    rw [same] at unmarked
    have whole : ∃ digits, n.mantissa = .whole digits := by
      cases shape : n.mantissa with
      | whole digits => exact ⟨digits, rfl⟩
      | pointed | full | fraction => exact absurd (by simp [Spelling.text, shape, Mantissa.text]) unmarked
    have plain : n.exponent = none := by
      cases shape : n.exponent with
      | none => rfl
      | some e =>
        rcases e.isMark with mark | mark <;>
          exact absurd (by simp [Spelling.text, Spelling.exponentText, shape, Exponent.text, mark]) unmarked
    split
    · split
      · exact .inl same
      · exact .inr ⟨whole, plain, by simp [same]⟩
    · exact .inr ⟨whole, plain, by simp [same]⟩

theorem denotes_numberLiteral (same : text.toList = n.text) (complete : ∀ digits, n.mantissa ≠ .pointed digits) :
    Denotes (numberLiteral text).toList n.value := by
  rcases numberLiteral_cases n same with plain | ⟨⟨digits, whole⟩, plain, suffixed⟩
  · rw [plain]
    exact .numeral n complete
  · rw [suffixed]
    exact .double n whole plain

theorem not_denotes_numberLiteral (same : text.toList = n.text) {digits : Digits}
    (pointed : n.mantissa = .pointed digits) (value : ℚ) : ¬ Denotes (numberLiteral text).toList value := by
  rcases numberLiteral_cases n same with plain | ⟨⟨_, whole⟩, -⟩
  · rw [plain]
    intro denotes
    refine denotes.getLast? ?_
    simp [Spelling.text, Spelling.exponentText, n.ends digits pointed, pointed, Mantissa.text, Mantissa.behind]
  · cases pointed.symm.trans whole

end CSharp

/-! ### The words of numerals -/

theorem isNumberWord_of_ofWord (number : Kind.ofWord text = .number) : isNumberWord text = true := by
  by_contra other
  simp only [Kind.ofWord, other, apply_ite (· = Kind.number), reduceCtorEq, if_false, ite_self] at number

theorem eq_of_ofWord_point (point : Kind.ofWord text = .point) : text = "." := by
  by_contra other
  simp only [Kind.ofWord, beq_eq_false_iff_ne.mpr other, apply_ite (· = Kind.point), reduceCtorEq, Bool.false_eq_true,
    if_false, ite_self] at point

/-- A digit comes first, and there is no point. -/
def StartsInDigit (text : List Char) : Prop :=
  '.' ∉ text ∧ ∃ c ∈ text.head?, c.isDigit = true

theorem startsInDigit_of_digits {digits : List Char} (only : ∀ c ∈ digits, c.isDigit = true) (filled : digits ≠ []) :
    StartsInDigit digits := by
  obtain ⟨c, rest, rfl⟩ := exists_cons_of_ne_nil filled
  exact ⟨fun point => (by cases only _ point), c, rfl, only c mem_cons_self⟩

theorem startsInDigit_of_isNumberWord (number : isNumberWord text = true) : StartsInDigit text.toList := by
  simp only [isNumberWord, Bool.and_eq_true, Bool.not_eq_true', isEmpty_eq_false_iff, all_eq_true] at number
  obtain ⟨⟨filled, digits⟩, exponent⟩ := number
  have split := takeWhile_append_dropWhile (p := fun c => !(c == 'e' || c == 'E')) (l := text.toList)
  have stops := head?_dropWhile_not (fun c => !(c == 'e' || c == 'E')) text.toList
  generalize text.toList.dropWhile _ = back at split exponent stops
  rw [← split]
  obtain ⟨noPoint, c, first, digit⟩ := startsInDigit_of_digits digits filled
  refine ⟨?_, c, mem_head?_append_of_mem_head? first, digit⟩
  rw [mem_append, not_or]
  refine ⟨noPoint, ?_⟩
  -- what is left starts with a mark, and digits follow
  cases back with
  | nil => exact not_mem_nil
  | cons mark back =>
    rw [mem_cons, not_or]
    exact ⟨fun same => by simp [← same] at stops, fun point => by cases exponent _ point⟩

/-- The numbers and points of a script as they are before numerals are joined. -/
structure Token.IsPiece (t : Token) : Prop where
  number : t.kind = .number → StartsInDigit t.text.toList
  point : t.kind = .point → t.text = "."

theorem Atom.Form.isPiece (form : Form t) : t.IsPiece := by
  cases form with
  | word | mark =>
    exact ⟨fun number => startsInDigit_of_isNumberWord (isNumberWord_of_ofWord number), eq_of_ofWord_point⟩
  | lineEnd | escaped => exact ⟨nofun, nofun⟩
  | number n =>
    refine ⟨fun _ => ?_, nofun⟩
    rw [decimalText, String.toList_ofList]
    exact startsInDigit_of_digits (fun c => Nat.isDigit_of_mem_toDigits (by decide) (by decide)) Nat.toDigits_ne_nil

theorem isPiece_of_mem {script : String} (ok : scanTokens script = .ok tokens) (member : t ∈ tokens) : t.IsPiece where
  number isNumber := (form_of_mem ok member (by rw [isNumber]; rfl)).isPiece.number isNumber
  point isPoint := (form_of_mem ok member (by rw [isPoint]; rfl)).isPiece.point isPoint

/-! ### Joined numerals -/

/-- A number whose text is a numeral. -/
def Token.IsSpelled (t : Token) : Prop :=
  ∃ n : Spelling, t.text.toList = n.text

namespace Numeral

variable {signed : Bool} {next : Option Token} {front : List Token} {number : Token}

/-- A point has digits behind it or nothing. -/
def Follows (a c : Char) : Prop :=
  a = '.' → c.isDigit = true

theorem Core.isChain (core : Core parts next) : parts.IsChain fun p q => p.kind = .point → q.kind = .number := by
  have pointed {lead behind : List Token} {d : Token} (pointed : Pointed lead) (number : d.kind = .number)
      (later : (d :: behind).IsChain fun p q => p.kind = .point → q.kind = .number) :
      (lead ++ d :: behind).IsChain fun p q => p.kind = .point → q.kind = .number := by
    cases pointed with
    | bare => exact .cons_cons (fun _ => number) later
    | digits other _ _ point => exact .cons_cons (by simp [other]) (.cons_cons (fun _ => number) later)
  have noPoint {d : Token} (number : d.kind = .number) : d.kind ≠ .point := by simp [number]
  cases core with
  | whole => exact .singleton _
  | pointed pointed =>
    cases pointed with
    | digits number => simp [noPoint number]
  | fraction lead plain => exact pointed lead plain.1 (.singleton _)
  | @exponent _ d sign e _ leads _ isSign digits =>
    have signed : sign.kind ≠ .point := by
      intro point
      simp [Numeral.isSign, point] at isSign
    have later : [d, sign, e].IsChain fun p q => p.kind = .point → q.kind = .number := by
      simp [noPoint leads.number, signed]
    cases leads with
    | first => exact later
    | behind lead plain => exact pointed lead plain.1 later

theorem kind_of_mem_point (part : isPart t = true) (piece : t.IsPiece) (point : '.' ∈ t.text.toList) :
    t.kind = .point := by
  simp only [isPart, Bool.or_eq_true, beq_iff_eq] at part
  rcases part with (number | sign) | isPoint
  · exact absurd point (piece.number number).1
  · simp only [isSign, Bool.and_eq_true, Bool.or_eq_true, beq_iff_eq] at sign
    rcases sign.2 with same | same <;> simp [same] at point
  · exact isPoint

theorem isChain_text (part : isPart t = true) (piece : t.IsPiece) : t.text.toList.IsChain Follows := by
  by_cases point : '.' ∈ t.text.toList
  · rw [piece.point (kind_of_mem_point part piece point)]
    exact .singleton _
  · refine isChain_iff_forall_rel_of_append_cons_cons.mpr fun a c before behind same isPoint => absurd ?_ point
    simp [same, isPoint]

theorem isChain_textOf (chain : parts.IsChain fun p q => p.kind = .point → q.kind = .number)
    (only : ∀ t ∈ parts, isPart t = true) (pieces : ∀ t ∈ parts, t.IsPiece) :
    (textOf parts).toList.IsChain Follows := by
  rw [textOf, String.toList_ofList]
  induction chain with
  | nil => exact .nil
  | singleton t => simpa using isChain_text (only t (by simp)) (pieces t (by simp))
  | @cons_cons p q rest behind chain ih =>
    obtain ⟨part, only⟩ := forall_mem_cons.mp only
    obtain ⟨piece, pieces⟩ := forall_mem_cons.mp pieces
    refine isChain_append.mpr ⟨isChain_text part piece, ih only pieces, ?_⟩
    -- a point ends a part only if it is all of it, and then digits follow
    rintro x last y first rfl
    have number := behind (kind_of_mem_point part piece (mem_of_getLast? last))
    obtain ⟨c, starts, digit⟩ := ((pieces q mem_cons_self).number number).2
    obtain rfl := Option.mem_unique first (mem_head?_append_of_mem_head? starts)
    exact digit

/-- What is read as a finite number is a numeral, unless it starts with a plus sign or has an exponent directly behind
its point. -/
theorem isSpelled_of_finite (finite : (Quantity.read? t.text).any Quantity.isFinite = true)
    (noPlus : t.text.toList.head? ≠ some '+') (chain : t.text.toList.IsChain Follows) : t.IsSpelled := by
  obtain ⟨sign, m, e, isSign, same⟩ := exists_of_finite finite
  have ends : ∀ digits, m = .pointed digits → e = none := by
    rintro digits rfl
    cases e with
    | none => rfl
    | some e =>
      have text : (Mantissa.pointed digits).text = digits.chars ++ ['.'] := rfl
      rw [same, text, Option.map_some, Option.getD_some, Exponent.text, append_assoc, ← append_assoc] at chain
      have digit := (isChain_append_cons_cons.mp chain).2.1 rfl
      rcases e.isMark with mark | mark <;> rw [mark] at digit <;> cases digit
  refine ⟨⟨sign == some '-', m, e, ends⟩, ?_⟩
  rw [same, Spelling.text, append_assoc]
  cases sign with
  | none => rfl
  | some c =>
    rcases isSign c rfl with rfl | rfl
    · exact absurd (congrArg head? same) noPlus
    · rfl

theorem Core.isSpelled (core : Core parts next) (begins : Begins signed front parts.head?)
    (joined : join (front ++ parts) = .ok number) (pieces : ∀ t ∈ front ++ parts, t.IsPiece) : number.IsSpelled := by
  obtain ⟨rfl, finite⟩ := join_ok joined
  cases parts with
  | nil => cases begins
  | cons u parts =>
    have only := forall_mem_append.mpr ⟨begins.only, core.only⟩
    cases begins with
    | number isNumber =>
      refine isSpelled_of_finite finite ?_ (isChain_textOf core.isChain only pieces)
      obtain ⟨c, starts, digit⟩ := ((pieces u mem_cons_self).number isNumber).2
      have first : c ∈ (textOf (u :: parts)).toList.head? := by
        simpa [textOf] using mem_head?_append_of_mem_head? starts
      rintro plus
      cases Option.mem_unique first plus
      cases digit
    | point _ isPoint =>
      refine isSpelled_of_finite finite ?_ (isChain_textOf core.isChain only pieces)
      simp [textOf, (pieces u mem_cons_self).point isPoint]
    | @minus sign _ _ isMinus =>
      have chain : (sign :: u :: parts).IsChain fun p q => p.kind = .point → q.kind = .number :=
        .cons_cons (by simp [isMinus_iff.mp isMinus]) core.isChain
      refine isSpelled_of_finite finite ?_ (isChain_textOf chain only pieces)
      simp [textOf, (isMinus_iff.mp isMinus).2]

theorem Joined.isSpelled (joined : Joined signed tokens out) (pieces : ∀ t ∈ tokens, t.IsPiece) :
    ∀ t ∈ out.map settlePoint, t.kind = .number → t.IsSpelled := by
  have passed (t : Token) (noNumber : t.kind ≠ .number) : (settlePoint t).kind = .number → (settlePoint t).IsSpelled :=
    fun number => absurd number (kind_settlePoint_number noNumber)
  induction joined with
  | nil => nofun
  | pass noNumber _ _ ih =>
    exact forall_mem_cons.mpr ⟨passed _ noNumber, ih (forall_mem_cons.mp pieces).2⟩
  | sign isMinus _ _ ih =>
    refine forall_mem_cons.mpr ⟨passed _ ?_, ih (forall_mem_cons.mp pieces).2⟩
    simp [isMinus_iff.mp isMinus]
  | point begins point _ _ ih =>
    rw [append_cons, forall_mem_append] at pieces
    rw [append_cons, map_append, forall_mem_append, forall_mem_map]
    refine ⟨fun t member => passed t ?_, ih pieces.2⟩
    cases begins with
    | number | point => simp_all
    | minus _ isMinus =>
      have sign := (isMinus_iff.mp isMinus).1
      simp only [singleton_append, mem_cons, not_mem_nil, or_false] at member
      rcases member with rfl | rfl
      · simp [sign]
      · simp [point]
  | number begins core joined _ ih =>
    obtain ⟨parts, later⟩ := forall_mem_append.mp pieces
    refine forall_mem_cons.mpr ⟨fun _ => ?_, ih later⟩
    rw [settlePoint_number joined]
    exact core.isSpelled begins joined parts

end Numeral

/-! ### Signs -/

namespace Sign

theorem isSpelled_magnitude (spelled : t.IsSpelled) {made : Token}
    (same : made.text = "-" ++ magnitude t ∨ made.text = magnitude t) : made.IsSpelled := by
  obtain ⟨n, text⟩ := spelled
  obtain ⟨c, rest, body, first⟩ := head_text n
  have digits : (magnitude t).toList = n.mantissa.text ++ n.exponentText := by
    have stops : (c == '-') = false := by
      rcases first with digit | rfl
      · rw [beq_eq_false_iff_ne]
        rintro rfl
        cases digit
      · rfl
    rw [magnitude, String.toList_ofList, text, Spelling.text, append_assoc, body]
    cases n.negative <;> simp [stops]
  rcases same with same | same
  · exact ⟨{ n with negative := true }, by simp [same, digits, Spelling.text, Spelling.exponentText]⟩
  · exact ⟨{ n with negative := false }, by simp [same, digits, Spelling.text, Spelling.exponentText]⟩

theorem isSpelled_applyTo (r : Run) (spelled : t.IsSpelled) : ∀ u ∈ r.applyTo t, u.kind = .number → u.IsSpelled := by
  rcases applyTo_cases r t with ⟨-, same⟩ | ⟨-, same | same⟩
  · rw [same]
    exact forall_mem_singleton.mpr fun _ => isSpelled_magnitude spelled (.inl rfl)
  · rw [same, converted, forall_mem_cons, forall_mem_cons, forall_mem_cons, forall_mem_singleton]
    refine ⟨?_, ?_, fun _ => isSpelled_magnitude spelled (.inr rfl), ?_⟩ <;> rintro ⟨⟩
  · rw [same]
    exact forall_mem_singleton.mpr fun _ => isSpelled_magnitude spelled (.inr rfl)

theorem isSpelled_combineRuns (leading : Bool) (run : Option Run)
    (spelled : ∀ t ∈ tokens, t.kind = .number → t.IsSpelled) :
    ∀ t ∈ combineRuns leading run tokens, t.kind = .number → t.IsSpelled := by
  have signs (leading : Bool) (r : Run) :
      ∀ t ∈ (if leading then r.prefixTokens else [r.infixToken]), t.kind = .number → t.IsSpelled := by
    unfold Run.prefixTokens Run.infixToken
    split_ifs <;> simp
  fun_induction combineRuns leading run tokens with
  | case1 => nofun
  | case2 r => exact signs true r
  | case3 leading r behind => simpa [behind] using signs leading r
  | case4 leading t rest isSign ih | case6 leading t rest r isSign ih => exact ih (forall_mem_cons.mp spelled).2
  | case5 leading t rest noSign ih =>
    obtain ⟨first, others⟩ := forall_mem_cons.mp spelled
    exact forall_mem_cons.mpr ⟨first, ih others⟩
  | case7 leading t rest r noSign number out ih =>
    obtain ⟨first, others⟩ := forall_mem_cons.mp spelled
    have number : t.kind = .number := by simpa using (Bool.and_eq_true_iff.mp number).2
    exact forall_mem_append.mpr ⟨isSpelled_applyTo r (first number), ih others⟩
  | case8 leading t rest r noSign other out ih =>
    obtain ⟨first, others⟩ := forall_mem_cons.mp spelled
    exact forall_mem_append.mpr ⟨signs leading r, forall_mem_cons.mpr ⟨first, ih others⟩⟩

theorem mem_fuseComparisons (member : t ∈ fuseComparisons tokens) (other : t.kind ≠ .comparison) : t ∈ tokens := by
  induction tokens using fuseComparisons.induct with
  | case1 a b rest fused joint ih =>
    rcases mem_cons.mp (fuseComparisons_some joint rest ▸ member) with rfl | later
    · exact absurd (isFused_of_fused? joint).2.1 other
    · exact mem_cons_of_mem _ (mem_cons_of_mem _ (ih later))
  | case2 a b rest apart ih =>
    rcases mem_cons.mp (fuseComparisons_none apart rest ▸ member) with rfl | later
    · exact mem_cons_self
    · exact mem_cons_of_mem _ (ih later)
  | case3 tokens short => exact fuseComparisons_short short ▸ member

end Sign

open Numeral CSharp

/-- The numbers of a script are numerals, and the literal that is written for one denotes its value, unless the numeral
ends in its point: then no literal looks like what is written. -/
theorem numberLiteral_denotes_numeral (script : String) (tokens joined : List Token)
    (scanned : scanTokens script = .ok tokens) (made : joinNumerals tokens = .ok joined) (t : Token)
    (member : t ∈ combineOperators joined) (number : t.kind = .number) :
    (∃ n : Spelling, t.text.toList = n.text) ∧ ∀ n : Spelling, t.text.toList = n.text →
      ((∀ digits, n.mantissa ≠ .pointed digits) → Denotes (numberLiteral t.text).toList n.value) ∧
      (∀ digits, n.mantissa = .pointed digits → ∀ value, ¬ Denotes (numberLiteral t.text).toList value) := by
  obtain ⟨written, joins, rfl⟩ := joinNumerals_iff.mp made
  have spelled := joins.isSpelled fun t => isPiece_of_mem scanned
  have kept := Sign.mem_fuseComparisons member (by simp [number])
  refine ⟨Sign.isSpelled_combineRuns true none spelled t kept number, fun n same => ?_⟩
  exact ⟨denotes_numberLiteral n same, fun _ => not_denotes_numberLiteral n same⟩

/-- A number beyond 32 bits is written with a suffix, and the signs before it cancel out. -/
theorem numberLiteral_denotes_numeral_suffixed :
    scanTokens "--3000000000" = .ok [.ofWord "-" 0, .ofWord "-" 0, .ofWord "3000000000" 0] ∧
    joinNumerals [.ofWord "-" 0, .ofWord "-" 0, .ofWord "3000000000" 0] =
      .ok [.ofWord "-" 0, ⟨.number, "-3000000000", 0⟩] ∧
    numberLiteral "3000000000" = "3000000000D" ∧ ∃ value, Denotes "3000000000D".toList value := by
  have scanned : scanTokens "--3000000000" = .ok [.ofWord "-" 0, .ofWord "-" 0, .ofWord "3000000000" 0] := by
    decide +kernel
  have made : joinNumerals [.ofWord "-" 0, .ofWord "-" 0, .ofWord "3000000000" 0] =
      .ok [.ofWord "-" 0, ⟨.number, "-3000000000", 0⟩] := by
    decide +kernel
  have written : numberLiteral "3000000000" = "3000000000D" := by decide +kernel
  refine ⟨scanned, made, written, ?_⟩
  obtain ⟨⟨n, same⟩, denotes⟩ :=
    numberLiteral_denotes_numeral _ _ _ scanned made ⟨.number, "3000000000", 0⟩ (by decide +kernel) rfl
  rw [← written]
  refine ⟨n.value, (denotes n same).1 fun digits pointed => ?_⟩
  have point : '.' ∈ n.text := by simp [Spelling.text, pointed, Mantissa.text]
  rw [← same] at point
  exact absurd point (by decide +kernel)

/-- A number that ends in its point is written into the program as it is. -/
theorem numberLiteral_of_last_point :
    (compile {} "Dim x\nx = 5.").toOption.map Program.body =
      some [⟨0, "object x = null;"⟩, .blank, ⟨0, "x = _.VAL(5.);"⟩] ∧
    numberLiteral "5." = "5." ∧ ∀ value, ¬ Denotes "5.".toList value :=
  ⟨by decide +kernel, by decide +kernel, fun _ denotes => denotes.getLast? (by decide +kernel)⟩

end VbSharp
