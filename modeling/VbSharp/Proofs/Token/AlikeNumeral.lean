import VbSharp.Proofs.Token.Alike

/-!
# Numerals and signs of alike tokens

Alike tokens are joined and combined alike: numerals end at the same places, have the same value and look the same,
and runs of signs count the same.
-/
namespace VbSharp

open List Likeness

variable {L : Likeness} {t u : Token}

theorem Token.Resembles.mem_text (alike : t.Resembles L u) (mark : Char) (plain : mark.isAlpha = false := by decide) :
    mark ∈ t.text.toList ↔ mark ∈ u.text.toList := by
  have same := alike.text_any (caseless_beq plain)
  rw [Bool.eq_iff_iff] at same
  simpa using same

theorem Token.Resembles.text_head? (alike : t.Resembles L u) (mark : Char) (plain : mark.isAlpha = false := by decide) :
    (t.text.toList.head? == some mark) = (u.text.toList.head? == some mark) :=
  head?_beq_eq (Likeness.text_eq_iff.mp alike.text) mark plain

namespace Numeral

variable {parts others : List Token}

theorem isMinus_eq (alike : t.Alike L u) : isMinus t = isMinus u := by
  simp only [isMinus, alike.kind, alike.text_beq (show "-".toList.all (!·.isAlpha) = true by decide)]

theorem isSign_eq (alike : t.Alike L u) : isSign t = isSign u := by
  simp only [isSign, alike.kind, alike.text_beq (show "-".toList.all (!·.isAlpha) = true by decide),
    alike.text_beq (show "+".toList.all (!·.isAlpha) = true by decide)]

theorem endsInMark_eq (alike : t.Alike L u) : endsInMark t = endsInMark u :=
  endsInMark_eq_of_foldCase (foldCase_eq alike.text)

theorem hasDigits_eq (alike : Forall₂ (Token.Alike L) parts others) : hasDigits parts = hasDigits others :=
  forall₂_any alike fun same => by rw [same.kind]

theorem hasPoint_eq (alike : Forall₂ (Token.Alike L) parts others) : hasPoint parts = hasPoint others := by
  refine forall₂_any alike fun same => ?_
  have point := same.mem_text '.'
  rw [← contains_iff_mem, ← contains_iff_mem, ← Bool.eq_iff_iff] at point
  rw [same.kind, point]

theorem textOf_alike (alike : Forall₂ (Token.Alike L) parts others) : L.text (textOf parts) = L.text (textOf others) :=
  text_ofList (rel_flatMap alike fun _ _ same => Likeness.text_eq_iff.mp same.text)

/-- Parts of an unfinished numeral that are alike. There is at least one. -/
structure AlikeParts (L : Likeness) (parts others : List Token) : Prop where
  filled : parts ≠ []
  alike : Forall₂ (Token.Alike L) parts others

theorem AlikeParts.single (alike : t.Alike L u) : AlikeParts L [t] [u] :=
  ⟨cons_ne_nil _ _, .cons alike .nil⟩

theorem AlikeParts.concat (parts' : AlikeParts L parts others) (alike : t.Alike L u) :
    AlikeParts L (parts ++ [t]) (others ++ [u]) :=
  ⟨by simp, rel_append parts'.alike (.cons alike .nil)⟩

theorem AlikeParts.lineOf (alike : AlikeParts L parts others) : lineOf others = lineOf parts + L.shift := by
  obtain ⟨filled, alike⟩ := alike
  cases alike with
  | nil => exact absurd rfl filled
  | cons same _ => exact same.line

/-- Scans that have read as much of a numeral, with alike parts. -/
inductive State.Alike (L : Likeness) : State → State → Prop where
  | idle {signed} : Alike L (.idle signed) (.idle signed)
  | minus {t u : Token} (alike : t.Alike L u) : Alike L (.minus t) (.minus u)
  | whole {parts others : List Token} (alike : AlikeParts L parts others) : Alike L (.whole parts) (.whole others)
  | fraction {parts others : List Token} (alike : AlikeParts L parts others) : Alike L (.fraction parts) (.fraction others)
  | exponentMark {parts others : List Token} (alike : AlikeParts L parts others) : Alike L (.exponentMark parts) (.exponentMark others)
  | exponentSign {parts others : List Token} (alike : AlikeParts L parts others) : Alike L (.exponentSign parts) (.exponentSign others)

/-- What a step writes is alike, and the scans stay alike. -/
def Stepped (L : Likeness) (x y : List Token × State) : Prop :=
  Forall₂ (Token.Alike L) x.1 y.1 ∧ x.2.Alike L y.2

theorem afterDigits_alike (parts' : AlikeParts L parts others) (alike : t.Alike L u) :
    (afterDigits parts t).Alike L (afterDigits others u) := by
  unfold afterDigits
  rw [endsInMark_eq alike]
  split
  · exact .exponentMark parts'
  · exact .whole parts'

theorem join_alike [L.IsFree] (alike : AlikeParts L parts others) : L.Results (Token.Alike L) (join parts) (join others) := by
  have text := textOf_alike alike.alike
  have value : Quantity.read? (textOf parts) = Quantity.read? (textOf others) := by
    rw [← read?_foldCase, foldCase_eq text, read?_foldCase]
  unfold join
  simp only [value]
  split
  · exact .ok ⟨⟨rfl, text, alike.lineOf⟩, nofun, Likeness.IsFree.known _⟩
  · refine .error (.same ?_ (.inl Likeness.IsFree.lax))
    simp only [Fault.shift, Defect.shift, Fault.mapText, Defect.mapText, text, alike.lineOf, Nat.add_right_comm]

theorem idleStep_alike (signed : Bool) (alike : t.Alike L u) : Stepped L (idleStep signed t) (idleStep signed u) := by
  unfold idleStep
  simp only [alike.kind, isMinus_eq alike]
  split_ifs
  · exact ⟨.nil, afterDigits_alike (.single alike) alike⟩
  · exact ⟨.nil, .minus alike⟩
  · exact ⟨.nil, .fraction (.single alike)⟩
  · rw [alike.mayPrecedeSign]
    exact ⟨.cons alike .nil, .idle⟩

theorem release_alike (parts' : AlikeParts L parts others) (alike : t.Alike L u) :
    Stepped L (release parts t) (release others u) := by
  have last : parts.getLast?.map Token.mayPrecedeSign = others.getLast?.map Token.mayPrecedeSign :=
    rel_map_eq (forall₂_getLast? parts'.alike) fun same => same.mayPrecedeSign
  unfold release
  rw [last]
  obtain ⟨out, next⟩ := idleStep_alike ((others.getLast?.map Token.mayPrecedeSign).getD true) alike
  exact ⟨rel_append parts'.alike out, next⟩

theorem close_alike [L.IsFree] (parts' : AlikeParts L parts others) (alike : t.Alike L u) :
    L.Results (Stepped L) (close parts t) (close others u) := by
  have joined := join_alike parts'
  unfold close
  generalize join parts = first at joined ⊢
  generalize join others = second at joined ⊢
  cases joined with
  | ok number =>
    obtain ⟨out, next⟩ := idleStep_alike false alike
    exact .ok ⟨.cons number out, next⟩
  | error fault => exact .error fault

theorem complete_alike [L.IsFree] (alike : AlikeParts L parts others) :
    L.Results (Stepped L) (complete parts) (complete others) :=
  (join_alike alike).map fun number => ⟨.cons number .nil, .idle⟩

theorem secondPoint_alike (parts' : AlikeParts L parts others) (alike : t.Alike L u) :
    (secondPoint parts t).Alike L (secondPoint others u) := by
  refine .same ?_
  simp only [secondPoint, Fault.shift, Fault.mapText, text_append, textOf_alike parts'.alike, alike.text,
    alike.lineNumber]

theorem step_alike [L.IsFree] {s r : State} (states : s.Alike L r) (alike : t.Alike L u) :
    L.Results (Stepped L) (step s t) (step r u) := by
  have line := alike.lineNumber
  cases states with
  | idle => exact .ok (idleStep_alike _ alike)
  | minus sign =>
    have head : t.text.toList.head? = some '-' ↔ u.text.toList.head? = some '-' := by
      rw [← beq_iff_eq, alike.text_head? '-', beq_iff_eq]
    simp only [step, alike.kind, ne_eq, head]
    split_ifs
    · exact .ok ⟨.nil, afterDigits_alike ((AlikeParts.single sign).concat alike) alike⟩
    · exact .ok ⟨.nil, .fraction ((AlikeParts.single sign).concat alike)⟩
    · exact .ok (release_alike (.single sign) alike)
  | whole parts =>
    simp only [step, alike.kind, hasPoint_eq parts.alike]
    split_ifs
    · exact .error (secondPoint_alike parts alike)
    · exact .ok ⟨.nil, .fraction (parts.concat alike)⟩
    · exact close_alike parts alike
  | fraction parts =>
    simp only [step, alike.kind, alike.mem_text '.', alike.mem_text '-', endsInMark_eq alike, hasDigits_eq parts.alike]
    split_ifs
    · exact .error (secondPoint_alike parts alike)
    · exact .ok ⟨.nil, .exponentMark (parts.concat alike)⟩
    · exact complete_alike (parts.concat alike)
    · exact close_alike parts alike
    · exact .ok (release_alike parts alike)
  | exponentMark parts =>
    simp only [step, isSign_eq alike]
    split_ifs
    · exact .ok ⟨.nil, .exponentSign (parts.concat alike)⟩
    · exact .error (.same (by simp only [Fault.shift, Fault.mapText, textOf_alike parts.alike, line]))
  | exponentSign parts =>
    simp only [step, alike.kind, alike.text_all caseless_isDigit]
    split_ifs
    · exact complete_alike (parts.concat alike)
    · exact .error (.same (by simp only [Fault.shift, Fault.mapText, textOf_alike parts.alike, line]))

theorem finish_alike [L.IsFree] {s r : State} (states : s.Alike L r) :
    L.Results (Forall₂ (Token.Alike L)) (finish s) (finish r) := by
  have single {parts others : List Token} (alike : AlikeParts L parts others) :
      L.Results (Forall₂ (Token.Alike L)) ((join parts).map fun number => [number])
        ((join others).map fun number => [number]) :=
    (join_alike alike).map fun number => .cons number .nil
  cases states with
  | idle => exact .ok .nil
  | minus sign => exact .ok (.cons sign .nil)
  | whole parts =>
    simp only [finish]
    exact single parts
  | fraction parts =>
    simp only [finish, hasDigits_eq parts.alike]
    split
    · exact single parts
    · exact .ok parts.alike
  | exponentMark parts | exponentSign parts =>
    refine .error (.same ?_)
    simp only [Fault.shift, Fault.mapText, textOf_alike parts.alike, parts.lineOf, Nat.add_right_comm]

theorem keeps_alike [L.IsFree] : machine.Keeps L (Token.Alike L) (State.Alike L) (Token.Alike L) where
  step states alike _ := step_alike states alike
  finish := finish_alike

theorem settlePoint_alike [L.IsFree] (alike : t.Alike L u) : (settlePoint t).Alike L (settlePoint u) := by
  unfold settlePoint
  rw [alike.kind]
  split
  · exact ⟨⟨rfl, alike.text, alike.line⟩, nofun, Likeness.IsFree.known _⟩
  · exact alike

end Numeral

theorem joinNumerals_alike [L.IsFree] {tokens others : List Token} (alike : Forall₂ (Token.Alike L) tokens others) :
    L.Results (Forall₂ (Token.Alike L)) (joinNumerals tokens) (joinNumerals others) :=
  (Numeral.keeps_alike.run .idle alike).map fun joined => rel_map (fun _ _ same => Numeral.settlePoint_alike same) joined

/-! ### Signs -/

namespace Sign

/-- Runs that count the same, the second so many lines further down. -/
structure Run.Alike (L : Likeness) (r s : Run) : Prop where
  line : s.line = r.line + L.shift
  count : r.count = s.count
  negative : r.negative = s.negative

variable {r s : Run} {tokens others : List Token}

theorem isNegative_eq (alike : t.Alike L u) : isNegative t = isNegative u :=
  alike.text_beq (by decide)

theorem Run.alike_ofSign (alike : t.Alike L u) : (Run.ofSign t).Alike L (Run.ofSign u) :=
  ⟨alike.line, rfl, isNegative_eq alike⟩

theorem Run.Alike.add (runs : r.Alike L s) (alike : t.Alike L u) : (r.add t).Alike L (s.add u) :=
  ⟨runs.line, congrArg (· + 1) runs.count, by simp only [Run.add, runs.negative, isNegative_eq alike]⟩

theorem Run.Alike.applyTo [L.IsFree] (runs : r.Alike L s) (alike : t.Alike L u) :
    Forall₂ (Token.Alike L) (r.applyTo t) (s.applyTo u) := by
  have magnitude : L.text (String.ofList (t.text.toList.dropWhile (· == '-'))) =
      L.text (String.ofList (u.text.toList.dropWhile (· == '-'))) :=
    text_ofList (forall₂_dropWhile (Likeness.text_eq_iff.mp alike.text) fun looks => looks.beq '-')
  unfold Run.applyTo
  simp only [alike.text_head? '-', runs.count, runs.negative]
  generalize (if (u.text.toList.head? == some '-') = true then s.count + 1 else s.count) = count
  split_ifs
  · refine .cons ⟨⟨rfl, ?_, alike.line⟩, nofun, Likeness.IsFree.known _⟩ .nil
    rw [text_append, magnitude, ← text_append]
  · exact .cons (Token.alike_of_line alike.line) <| .cons (Token.alike_of_line alike.line) <|
      .cons ⟨⟨rfl, magnitude, alike.line⟩, nofun, Likeness.IsFree.known _⟩ <| .cons (Token.alike_of_line alike.line) .nil
  · exact .cons ⟨⟨rfl, magnitude, alike.line⟩, nofun, Likeness.IsFree.known _⟩ .nil

theorem Run.Alike.infixToken [L.IsFree] (runs : r.Alike L s) : r.infixToken.Alike L s.infixToken := by
  unfold Run.infixToken
  rw [runs.negative]
  exact Token.alike_of_line runs.line

theorem Run.Alike.prefixTokens [L.IsFree] (runs : r.Alike L s) :
    Forall₂ (Token.Alike L) r.prefixTokens s.prefixTokens := by
  unfold Run.prefixTokens
  rw [runs.negative]
  split
  · exact .cons (Token.alike_of_line runs.line) .nil
  · exact .nil

theorem leadsOperand_eq (before : Bool) (alike : Forall₂ (Token.Alike L) tokens others) :
    leadsOperand before tokens = leadsOperand before others := by
  have last : tokens.getLast?.map Token.mayPrecedeSign = others.getLast?.map Token.mayPrecedeSign :=
    rel_map_eq (forall₂_getLast? alike) fun same => same.mayPrecedeSign
  rw [leadsOperand, leadsOperand, last]

theorem combineRuns_alike [L.IsFree] (alike : Forall₂ (Token.Alike L) tokens others) (leading : Bool) {run other : Option Run}
    (runs : Option.Rel (Run.Alike L) run other) :
    Forall₂ (Token.Alike L) (combineRuns leading run tokens) (combineRuns leading other others) := by
  induction alike generalizing leading run other with
  | nil =>
    cases runs with
    | none => exact .nil
    | some runs =>
      simp only [combineRuns]
      split
      · exact runs.prefixTokens
      · exact .cons runs.infixToken .nil
  | @cons t _ _ _ same _ ih =>
    have sign := Numeral.isSign_eq same
    cases runs with
    | none =>
      simp only [combineRuns, sign, same.mayPrecedeSign]
      split
      · exact ih leading (.some (Run.alike_ofSign same))
      · exact .cons same (ih _ .none)
    | some runs =>
      simp only [combineRuns, sign, same.kind, same.mayPrecedeSign]
      split_ifs
      · exact ih leading (.some (runs.add same))
      · have out := runs.applyTo same
        rw [leadsOperand_eq leading out]
        exact rel_append out (ih _ .none)
      · exact rel_append runs.prefixTokens (.cons same (ih _ .none))
      · exact .cons runs.infixToken (.cons same (ih _ .none))

theorem fused?_alike [L.IsFree] {a b c d : Token} (first : a.Alike L c) (second : b.Alike L d) :
    Option.Rel (Token.Alike L) (fused? a b) (fused? c d) := by
  have fused (text : String) : Token.Alike L ⟨.comparison, text, a.line⟩ ⟨.comparison, text, c.line⟩ :=
    Token.alike_of_line first.line
  unfold fused?
  simp only [first.kind, second.kind, first.text_eq_iff (show "<".toList.all (!·.isAlpha) = true by decide),
    first.text_eq_iff (show ">".toList.all (!·.isAlpha) = true by decide),
    second.text_eq_iff (show ">".toList.all (!·.isAlpha) = true by decide),
    second.text_eq_iff (show "=".toList.all (!·.isAlpha) = true by decide)]
  split_ifs
  · exact .some (fused _)
  · exact .some (fused _)
  · exact .some (fused _)
  · exact .none
  · exact .none

theorem fuseComparisons_alike [L.IsFree] (alike : Forall₂ (Token.Alike L) tokens others) :
    Forall₂ (Token.Alike L) (fuseComparisons tokens) (fuseComparisons others) := by
  fun_induction fuseComparisons tokens generalizing others with
  | case1 a b rest fused found ih =>
    obtain ⟨c, later, first, more, rfl⟩ := forall₂_cons_left_iff.mp alike
    obtain ⟨d, last, second, rest, rfl⟩ := forall₂_cons_left_iff.mp more
    have joint := fused?_alike first second
    rw [found] at joint
    rw [fuseComparisons]
    generalize fused? c d = other at joint ⊢
    cases joint with
    | some same => exact .cons same (ih rest)
  | case2 a b rest found ih =>
    obtain ⟨c, later, first, more, rfl⟩ := forall₂_cons_left_iff.mp alike
    obtain ⟨d, last, second, -, rfl⟩ := forall₂_cons_left_iff.mp more
    have joint := fused?_alike first second
    rw [found] at joint
    rw [fuseComparisons]
    generalize fused? c d = other at joint ⊢
    cases joint with
    | none => exact .cons first (ih more)
  | case3 tokens short =>
    have same : fuseComparisons others = others := by
      cases alike with
      | nil => rfl
      | cons first later =>
        cases later with
        | nil => rfl
        | cons second last => exact (short _ _ _ rfl).elim
    rw [same]
    exact alike

end Sign

/-- Signs and comparison marks of alike tokens are combined alike. -/
theorem combineOperators_alike [L.IsFree] {tokens others : List Token} (alike : Forall₂ (Token.Alike L) tokens others) :
    Forall₂ (Token.Alike L) (combineOperators tokens) (combineOperators others) :=
  Sign.fuseComparisons_alike (Sign.combineRuns_alike alike true .none)

end VbSharp
