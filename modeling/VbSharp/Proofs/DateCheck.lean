import VbSharp.Proofs.Lower.Complete
import VbSharp.Proofs.Lower.Dates

/-!
# Dates are checked before anything else runs

A lowered program lists the date literals whose day depends on the culture. The list holds exactly the texts of such
literals in the code that is lowered, each once. If there are any, the first statement of the body checks them. No
statement of a script is lowered to that check, so the first statement is the check only if there are any.
-/
namespace VbSharp

open List
open CSharp (Simple Stmt Term)

/-! ### Calls of the check -/

namespace CSharp

/-- Whether an expression calls the check of dates. -/
def Term.isDateCheck : Term → Bool
  | .support function _ => function == "VALIDATEDATELITERALS"
  | _ => false

def Simple.isDateCheck : Simple → Bool
  | .expression term => term.isDateCheck
  | _ => false

/-- Whether a statement calls the check of dates. -/
def Stmt.isDateCheck : Stmt → Bool
  | .line content _ => content.isDateCheck
  | _ => false

theorem Simple.isAction_of_isDateCheck {content : Simple} (check : content.isDateCheck = true) :
    content.isAction = true := by
  cases content with
  | expression term => rfl
  | _ => cases check

end CSharp

theorem isDateCheck_of_isLed {content : Simple} (led : content.isLed = true) : content.isDateCheck = false := by
  cases content with
  | expression term =>
    cases term with
    | support function arguments => simpa [Simple.isLed, Term.canLead, Simple.isDateCheck, Term.isDateCheck] using led
    | _ => rfl
  | _ => rfl

namespace Lower

variable {content : Simple} {source parts : List (Part Block Clause)} {out : Emission}

variable {site : Site}

theorem isDateCheck_of_isWritten {b : Block} (written : IsWritten site b content) : content.isDateCheck = false := by
  cases b with
  | call e spelled =>
    obtain ⟨notes, given⟩ := written
    exact isDateCheck_of_isLed (told_callStatement given).led
  | assignment kind target value =>
    obtain ⟨notes, given⟩ := written
    exact isDateCheck_of_isLed (told_assignment given).2.led
  | randomize seed line =>
    obtain ⟨notes, given⟩ := written
    exact isDateCheck_of_isLed (told_randomize given).led
  | exit kind line =>
    change exit site.scope kind line = .ok content at written
    unfold exit at written
    split at written
    · cases written
    · cases written
    · split at written
      · cases written
        rfl
      · cases written
  | _ => exact absurd written id

theorem Matches.exists_written {code : List (Part Simple CSharp.Head)} (related : Matches site source code)
    (listed : .line content ∈ code) : ∃ b, IsWritten site b content := by
  induction related with
  | nil => cases listed
  | line written _ ih =>
    rcases mem_cons.mp listed with same | later
    · cases same
      exact ⟨_, written⟩
    · exact ih later
  | clause _ _ _ _ ih =>
    rcases mem_cons.mp listed with other | later
    · cases other
    · exact ih later

theorem Matches.isDateCheck {site : Site} (related : Matches site parts (Stmt.listParts out.stmts)) : ∀ s ∈ out.stmts, s.isDateCheck = false := by
  intro s member
  by_contra some
  rw [Bool.not_eq_false] at some
  cases s with
  | line content remark =>
    -- a call is a part of the code, and every part is what some statement of the script becomes
    have listed : .line content ∈ Stmt.listParts out.stmts := by
      rw [Stmt.listParts_eq_flatMap]
      refine mem_flatMap.mpr ⟨_, member, ?_⟩
      rw [Stmt.parts, if_pos (Simple.isAction_of_isDateCheck some)]
      exact mem_singleton_self _
    obtain ⟨b, written⟩ := related.exists_written listed
    rw [Stmt.isDateCheck, isDateCheck_of_isWritten written] at some
    cases some
  | blank | block head body remark => cases some

theorem body_of_arrange {asClass : Bool} {dates : List String} {lowered : Lowered}
    (placed : (lowered.body, lowered.classes) = arrange asClass dates (outermostDeclarations asClass out) out)
    (none : ∀ s ∈ out.stmts, s.isDateCheck = false) :
    ∃ rest, lowered.body = dateCheck dates ++ rest ∧ ∀ s ∈ rest, s.isDateCheck = false := by
  cases asClass with
  | true =>
    -- the outermost code is in a class, and the body only runs it
    simp only [arrange, if_true, Prod.mk.injEq] at placed
    refine ⟨_, placed.1, ?_⟩
    simp only [mem_singleton, forall_eq]
    rfl
  | false =>
    simp only [arrange, Bool.false_eq_true, if_false, Prod.mk.injEq, append_assoc] at placed
    refine ⟨_, placed.1, ?_⟩
    simp only [forall_mem_append]
    refine ⟨?_, ?_, none⟩
    · rw [outermostDeclarations]
      simp only [forall_mem_append, forall_mem_map]
      exact ⟨fun _ _ => rfl, fun _ _ => rfl⟩
    · split
      · exact forall_mem_nil _
      · exact forall_mem_singleton.mpr rfl

/-! ### The dates to check -/

theorem datesToCheck_spec (notes : List Note) :
    (datesToCheck notes).Nodup ∧ ∀ text, text ∈ datesToCheck notes ↔ .date text ∈ notes := by
  refine ⟨nodup_firstTexts _, fun text => ?_⟩
  rw [datesToCheck, mem_firstTexts, mem_filterMap]
  constructor
  · rintro ⟨note, listed, found⟩
    cases note with
    | date other =>
      cases found
      exact listed
    | undeclared name => cases found
  · intro listed
    exact ⟨_, listed, rfl⟩

end Lower

/-! ### Programs -/

/-- The dates that a lowered program checks at run time are, each once, exactly the texts of the date literals that
depend on the culture, wherever they stand in the code that is lowered, and no date literal of that code is invalid.
The first statement of the body calls the check exactly if there are such dates, and then it names them in order. The
date literals of a well-formed expression are all its words that are dates. -/
theorem dates_checked_first (settings : Settings) (source : List Block) (lowered : Lower.Lowered)
    (success : lowerBlocks settings source = .ok lowered) :
    let dates := Block.listDates (Lower.dropSuperseded source)
    (∀ e : Expr, e.isWellFormed = true → Expr.dates e = (Expr.words e).filter (·.kind == .date)) ∧
      lowered.dates.Nodup ∧
      (∀ text, text ∈ lowered.dates ↔
        ∃ t ∈ dates, t.text = text ∧ Date.classify settings.culture text = .cultureDependent) ∧
      (∀ t ∈ dates, Date.classify settings.culture t.text ≠ .invalid) ∧
      (lowered.dates ≠ [] ↔ lowered.body.head?.any Stmt.isDateCheck = true) ∧
      (lowered.dates ≠ [] → lowered.body.head? =
        some (.ofSimple (.expression (.support "VALIDATEDATELITERALS" [.strings lowered.dates])))) := by
  intro dates
  obtain ⟨out, ends, placed, checked, -⟩ := Lower.exists_emission success
  have checks : Checks settings.culture dates out.notes := Lower.followed_dates.ofBlocks _ _ out ends
  obtain ⟨rest, body, others⟩ := Lower.body_of_arrange placed (Lower.blocks_match ends).isDateCheck
  obtain ⟨nodup, members⟩ := Lower.datesToCheck_spec out.notes
  rw [← checked] at nodup members
  have called : lowered.dates ≠ [] → lowered.body.head? =
      some (.ofSimple (.expression (.support "VALIDATEDATELITERALS" [.strings lowered.dates]))) := by
    intro some
    rw [body, Lower.dateCheck, if_neg (by simpa using some)]
    rfl
  refine ⟨?_, nodup, fun text => (members text).trans (checks.noted text), checks.valid, ?_, called⟩
  · intro e fit
    rw [Expr.isWellFormed, Bool.and_eq_true] at fit
    exact (Expr.dates_words .gap e fit.2).symm
  · constructor
    · intro some
      rw [called some]
      rfl
    · rintro check none
      -- without dates the body starts with another statement
      have idle : Lower.dateCheck lowered.dates = [] := by
        rw [none]
        rfl
      rw [body, idle, nil_append] at check
      obtain ⟨s, first, isCheck⟩ := (Option.any_eq_true _ _).mp check
      rw [others s (mem_of_head? first)] at isCheck
      cases isCheck

/-- A sub that is defined twice, with a date in each definition, and two dates in the outermost code. The date of the
first definition is dropped with it, and one of the others means the same day everywhere. -/
def billingProgram : List Block :=
  let name := fun text => (⟨.name, text, 0⟩ : Token)
  let value := fun text => Segment.call [name text] []
  let date := fun text => Segment.value ⟨.date, text, 0⟩
  let header : Header := ⟨.sub, name "Bill", true, false, [⟨.byRef, name "d", false⟩]⟩
  let isSame := Segment.operator ⟨.comparison, "=", 0⟩
  [.routine header [.assignment .value [value "d"] [date "5/6/2007"]], .routine header
      [.branch [value "d", isSame, date "2/3/2004"] [.assignment .value [value "d"] [date "3/4/2005"]] .none],
    .call [.call [name "Bill"] [[date "13/1/2020"]]] true, .call [.call [name "Bill"] [[date "2/3/2004"]]] true]

theorem dates_checked_first_billing :
    ∃ lowered, lowerBlocks {} billingProgram = .ok lowered ∧ "2/3/2004" ∈ lowered.dates ∧
      "3/4/2005" ∈ lowered.dates ∧ "5/6/2007" ∉ lowered.dates ∧ "13/1/2020" ∉ lowered.dates ∧
      lowered.body.head? =
        some (.ofSimple (.expression (.support "VALIDATEDATELITERALS" [.strings lowered.dates]))) := by
  have run : (lowerBlocks {} billingProgram).toOption.map (fun _ => ()) = some () := by decide +kernel
  obtain ⟨lowered, success, -⟩ := exists_of_toOption_map run
  obtain ⟨-, -, members, -, -, called⟩ := dates_checked_first {} billingProgram lowered success
  have first : "2/3/2004" ∈ lowered.dates := (members _).mpr (by decide +kernel)
  refine ⟨lowered, success, first, (members _).mpr (by decide +kernel), (members _).not.mpr (by decide +kernel),
    (members _).not.mpr (by decide +kernel), called (ne_nil_of_mem first)⟩

end VbSharp
