import Mathlib.Data.List.Forall2
import VbSharp.Proofs.Token.NumeralSign

/-!
# What becomes of each token

Joining numerals neither loses nor moves a token. The tokens can be cut into runs, one for each token that comes out: a
token that stands for itself, a point that selects a member, or the parts of a numeral.
-/
namespace VbSharp.Numeral

open List

variable {run a b c d : List Token} {t : Token}

/-- Digits, signs and points are what numerals are made of. -/
def isPart (t : Token) : Bool :=
  t.kind == .number || isSign t || t.kind == .point

/-- What comes out for some tokens in a row. -/
inductive Makes : List Token → Token → Prop where
  | itself (t : Token) (other : t.kind ≠ .point) : Makes [t] t
  | member (t : Token) (point : t.kind = .point) : Makes [t] { t with kind := .member }
  | number (parts : List Token) (digits : hasDigits parts = true) (only : ∀ t ∈ parts, isPart t = true) :
    Makes parts ⟨.number, textOf parts, lineOf parts⟩

theorem Makes.ne_nil (makes : Makes run t) : run ≠ [] := by
  cases makes with
  | itself | member => exact cons_ne_nil _ _
  | number _ digits _ =>
    rintro rfl
    cases digits

theorem Makes.kind_ne_point (makes : Makes run t) : t.kind ≠ .point := by
  cases makes with
  | itself _ other => exact other
  | member | number => nofun

theorem of_forall₂_makes {runs : List (List Token)} {out : List Token} (made : Forall₂ Makes runs out) :
    [] ∉ runs ∧ ∀ t ∈ out, t.kind ≠ .point := by
  induction made with
  | nil => simp
  | cons makes _ ih =>
    rw [mem_cons, not_or]
    exact ⟨⟨makes.ne_nil.symm, ih.1⟩, forall_mem_cons.mpr ⟨makes.kind_ne_point, ih.2⟩⟩

theorem makes_settlePoint (t : Token) : Makes [t] (settlePoint t) := by
  unfold settlePoint
  split
  next point => exact .member t point
  next other => exact .itself t other

/-! ### Cutting tokens into runs -/

/-- The tokens can be cut into runs that make the others. -/
def Cuts (tokens out : List Token) : Prop :=
  ∃ runs : List (List Token), runs.flatten = tokens ∧ Forall₂ Makes runs out

theorem Cuts.nil : Cuts [] [] :=
  ⟨[], rfl, .nil⟩

theorem Cuts.append (first : Cuts a b) (second : Cuts c d) : Cuts (a ++ c) (b ++ d) := by
  obtain ⟨runs, rfl, made⟩ := first
  obtain ⟨others, rfl, more⟩ := second
  exact ⟨runs ++ others, flatten_append, rel_append made more⟩

theorem Makes.cuts (makes : Makes run t) : Cuts run [t] :=
  ⟨[run], append_nil run, .cons makes .nil⟩

theorem cuts_settlePoint (tokens : List Token) : Cuts tokens (tokens.map settlePoint) := by
  induction tokens with
  | nil => exact .nil
  | cons t tokens ih => exact (makes_settlePoint t).cuts.append ih

/-! ### The parts of a numeral -/

theorem isPart_of_isSign (sign : isSign t = true) : isPart t = true := by
  simp [isPart, sign]

theorem isPart_of_number (number : t.kind = .number) : isPart t = true := by
  simp [isPart, number]

theorem isPart_of_point (point : t.kind = .point) : isPart t = true := by
  simp [isPart, point]

variable {signed : Bool} {tokens out front parts : List Token} {number : Token} {next : Option Token}

theorem Pointed.only (pointed : Pointed parts) : ∀ t ∈ parts, isPart t = true := by
  cases pointed with
  | bare point => simp [isPart_of_point point]
  | digits number _ _ point => simp [isPart_of_number number, isPart_of_point point]

theorem Core.only (core : Core parts next) : ∀ t ∈ parts, isPart t = true := by
  cases core with
  | whole number => simp [isPart_of_number number]
  | pointed pointed => exact pointed.only
  | fraction pointed plain =>
    exact forall_mem_append.mpr ⟨pointed.only, by simp [isPart_of_number plain.1]⟩
  | exponent leads _ sign digits =>
    refine forall_mem_append.mpr ⟨?_, ?_⟩
    · cases leads with
      | first => exact forall_mem_nil _
      | behind pointed => exact pointed.only
    · have number := leads.number
      simp [isPart_of_number number, isPart_of_isSign sign, isPart_of_number digits.1]

theorem Core.hasDigits (core : Core parts next) : hasDigits parts = true := by
  cases core with
  | whole number => simp [Numeral.hasDigits, number]
  | pointed pointed =>
    cases pointed with
    | digits number => simp [Numeral.hasDigits, number]
  | fraction _ plain => simp [Numeral.hasDigits, plain.1]
  | exponent _ _ _ digits => simp [Numeral.hasDigits, digits.1]

theorem Begins.only (begins : Begins signed front next) : ∀ t ∈ front, isPart t = true := by
  cases begins with
  | number | point => exact forall_mem_nil _
  | minus _ isMinus => simp [isPart_of_isSign (isSign_of_isMinus isMinus)]

theorem Core.cuts (core : Core parts next) (begins : Begins signed front parts.head?)
    (joined : join (front ++ parts) = .ok number) : Cuts (front ++ parts) [settlePoint number] := by
  obtain ⟨rfl, -⟩ := join_ok joined
  have digits : Numeral.hasDigits (front ++ parts) = true := by
    have digits := core.hasDigits
    unfold Numeral.hasDigits at digits ⊢
    rw [any_append, digits, Bool.or_true]
  exact (Makes.number _ digits (forall_mem_append.mpr ⟨begins.only, core.only⟩)).cuts

theorem Joined.cuts (joined : Joined signed tokens out) : Cuts tokens (out.map settlePoint) := by
  induction joined with
  | nil => exact .nil
  | pass _ _ _ ih | sign _ _ _ ih => exact (makes_settlePoint _).cuts.append ih
  | point _ _ _ _ ih =>
    rw [map_append]
    exact (cuts_settlePoint _).append ((makes_settlePoint _).cuts.append ih)
  | number begins core joined _ ih => exact (core.cuts begins joined).append ih

end VbSharp.Numeral

namespace VbSharp

open Numeral

/-- The tokens are cut into runs, none of them empty and one for each token that comes out, which is the only token of
its run, or that point made to select a member, or the numeral that the run spells. No other points are left. -/
theorem joinNumerals_conserves_tokens (tokens out : List Token) (joined : joinNumerals tokens = .ok out) :
    (∃ runs : List (List Token), runs.flatten = tokens ∧ [] ∉ runs ∧ List.Forall₂ Makes runs out) ∧
      ∀ t ∈ out, t.kind ≠ .point := by
  obtain ⟨written, made, rfl⟩ := joinNumerals_iff.mp joined
  obtain ⟨runs, flat, made⟩ := made.cuts
  obtain ⟨filled, settled⟩ := of_forall₂_makes made
  exact ⟨⟨runs, flat, filled, made⟩, settled⟩

/-- A numeral of six tokens in brackets, and a member of what the brackets give. -/
theorem joinNumerals_conserves_tokens_bracketed :
    joinNumerals [.ofWord "(" 0, .ofWord "-" 0, .ofWord "1" 0, .ofWord "." 0, .ofWord "5E" 0, .ofWord "-" 1,
        .ofWord "3" 1, .ofWord ")" 1, .ofWord "." 1, .ofWord "b" 1] =
      .ok [.ofWord "(" 0, ⟨.number, "-1.5E-3", 0⟩, .ofWord ")" 1, ⟨.member, ".", 1⟩, .ofWord "b" 1] ∧
    (∃ runs : List (List Token), runs.flatten = [.ofWord "(" 0, .ofWord "-" 0, .ofWord "1" 0, .ofWord "." 0,
        .ofWord "5E" 0, .ofWord "-" 1, .ofWord "3" 1, .ofWord ")" 1, .ofWord "." 1, .ofWord "b" 1] ∧ [] ∉ runs ∧
      List.Forall₂ Makes runs
        [.ofWord "(" 0, ⟨.number, "-1.5E-3", 0⟩, .ofWord ")" 1, ⟨.member, ".", 1⟩, .ofWord "b" 1]) := by
  refine ⟨?joined, (joinNumerals_conserves_tokens _ _ ?joined).1⟩
  decide +kernel

end VbSharp
