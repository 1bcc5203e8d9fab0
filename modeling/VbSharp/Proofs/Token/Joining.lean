import VbSharp.Token.Sign

/-!
# Joining numerals without states

The machine that joins numerals holds tokens back until it knows what they are. `Joined` says without its states what
comes out: tokens stand for themselves, a minus sign or a point that no numeral takes in does so too, and the parts of
a numeral give one number. What counts as a numeral depends on the token behind it and on whether a sign may stand at
its start. The machine succeeds exactly where `Joined` holds.
-/
namespace VbSharp.Numeral

open List

variable {d : Token} {tokens : List Token}

/-! ### Signs -/

theorem isMinus_iff {t : Token} : isMinus t = true ↔ t.kind = .arithmetic ∧ t.text = "-" := by
  simp [isMinus]

theorem isSign_of_isMinus {t : Token} (minus : isMinus t = true) : isSign t = true := by
  simp [isSign, isMinus_iff.mp minus]

theorem mayPrecedeSign_of_isMinus {t : Token} (minus : isMinus t = true) : t.mayPrecedeSign = true := by
  simp [Token.mayPrecedeSign, Kind.mayPrecedeSign, Kind.isOperator, (isMinus_iff.mp minus).1]

theorem mayPrecedeSign_of_point {t : Token} (point : t.kind = .point) : t.mayPrecedeSign = false := by
  simp [Token.mayPrecedeSign, Kind.mayPrecedeSign, Kind.isOperator, point]

/-! ### Numerals by their parts -/

/-- Digits that may stand behind a point. -/
def IsPlain (t : Token) : Prop :=
  t.kind = .number ∧ '.' ∉ t.text.toList ∧ '-' ∉ t.text.toList

/-- A point, with or without digits before it. -/
inductive Pointed : List Token → Prop where
  | bare {p : Token} (point : p.kind = .point) : Pointed [p]
  | digits {d p : Token} (number : d.kind = .number) (unmarked : endsInMark d = false)
    (first : '.' ∉ d.text.toList) (point : p.kind = .point) : Pointed [d, p]

/-- Digits and what may stand before them. -/
inductive Leads : List Token → Token → Prop where
  | first {d : Token} (number : d.kind = .number) : Leads [] d
  | behind {lead : List Token} {d : Token} (pointed : Pointed lead) (plain : IsPlain d) : Leads lead d

/-- A numeral without a sign at its start, before some token or none. -/
inductive Core : List Token → Option Token → Prop where
  | whole {d : Token} {next : Option Token} (number : d.kind = .number) (unmarked : endsInMark d = false)
    (stops : ∀ n ∈ next, n.kind ≠ .point) : Core [d] next
  | pointed {d p : Token} {next : Option Token} (pointed : Pointed [d, p])
    (stops : ∀ n ∈ next, n.kind ≠ .point ∧ ¬ IsPlain n) : Core [d, p] next
  | fraction {lead : List Token} {d : Token} {next : Option Token} (pointed : Pointed lead) (plain : IsPlain d)
    (unmarked : endsInMark d = false) : Core (lead ++ [d]) next
  | exponent {lead : List Token} {d sign e : Token} {next : Option Token} (leads : Leads lead d)
    (mark : endsInMark d = true) (isSign : isSign sign = true)
    (digits : e.kind = .number ∧ e.text.toList.all Char.isDigit = true) : Core (lead ++ [d, sign, e]) next

/-- The sign at the start of a numeral or nothing, before the first of its digits or its point. -/
inductive Begins (signed : Bool) : List Token → Option Token → Prop where
  | number {t : Token} (number : t.kind = .number) : Begins signed [] (some t)
  | point {t : Token} (due : signed = true) (point : t.kind = .point) : Begins signed [] (some t)
  | minus {sign t : Token} (due : signed = true) (isMinus : isMinus sign = true)
    (unsigned : t.kind = .number → t.text.toList.head? ≠ some '-') : Begins signed [sign] (some t)

/-- What comes out for the tokens, given whether a sign may stand at their start. -/
inductive Joined : Bool → List Token → List Token → Prop where
  | nil {signed : Bool} : Joined signed [] []
  | pass {signed : Bool} {t : Token} {rest out : List Token} (noNumber : t.kind ≠ .number)
    (noStart : signed = true → isMinus t = false ∧ t.kind ≠ .point) (later : Joined t.mayPrecedeSign rest out) :
    Joined signed (t :: rest) (t :: out)
  | sign {sign : Token} {rest out : List Token} (isMinus : isMinus sign = true)
    (stops : ∀ n ∈ rest.head?, n.kind ≠ .point ∧ (n.kind = .number → n.text.toList.head? = some '-'))
    (later : Joined true rest out) : Joined true (sign :: rest) (sign :: out)
  | point {signed : Bool} {front rest out : List Token} {p : Token} (begins : Begins signed front (some p))
    (point : p.kind = .point) (stops : ∀ n ∈ rest.head?, n.kind ≠ .point ∧ ¬ IsPlain n)
    (later : Joined false rest out) : Joined signed (front ++ p :: rest) (front ++ p :: out)
  | number {signed : Bool} {front parts rest out : List Token} {number : Token}
    (begins : Begins signed front parts.head?) (core : Core parts rest.head?)
    (joined : join (front ++ parts) = .ok number) (later : Joined false rest out) :
    Joined signed (front ++ parts ++ rest) (number :: out)

theorem Leads.number {lead : List Token} {d : Token} (leads : Leads lead d) : d.kind = .number := by
  cases leads with
  | first number => exact number
  | behind _ plain => exact plain.1

/-! ### Runs -/

variable {s next : State} {t number : Token} {parts front lead rest out : List Token} {signed : Bool}

theorem run_nil (s : State) : machine.run s [] = finish s :=
  Transducer.run_nil machine s

theorem run_cons (s : State) (t : Token) (rest : List Token) : machine.run s (t :: rest) =
    (step s t).bind fun (out, next) => (machine.run next rest).map (out ++ ·) :=
  Transducer.run_cons machine s t rest

theorem run_cons_iff (s : State) (t : Token) (rest written : List Token) :
    machine.run s (t :: rest) = .ok written ↔ ∃ out next later, step s t = .ok (out, next) ∧
      machine.run next rest = .ok later ∧ written = out ++ later := by
  rw [run_cons]
  cases step s t with
  | error fault => simp [Except.bind]
  | ok result =>
    obtain ⟨out, next⟩ := result
    cases run : machine.run next rest with
    | error fault => simp [Except.bind, run, Except.map]
    | ok later =>
      simp only [Except.bind, run, Except.map, Except.ok.injEq]
      constructor
      · rintro rfl
        exact ⟨out, next, later, rfl, run, rfl⟩
      · rintro ⟨_, _, _, same, other, rfl⟩
        obtain ⟨rfl, rfl⟩ := Prod.mk.inj same
        rw [← Except.ok.inj (run.symm.trans other)]

theorem run_held (stepped : step s t = .ok ([], next)) : machine.run s (t :: rest) = machine.run next rest := by
  rw [Transducer.run_cons, show machine.step s t rest = step s t from rfl, stepped]
  simp only [Except.bind, nil_append]
  cases machine.run next rest <;> rfl

theorem release_eq (parts : List Token) (t : Token) :
    release parts t = (parts ++ (idleStep ((parts.getLast?.map Token.mayPrecedeSign).getD true) t).1,
      (idleStep ((parts.getLast?.map Token.mayPrecedeSign).getD true) t).2) :=
  rfl

theorem close_ok_iff {parts out : List Token} {t : Token} {next : State} :
    close parts t = .ok (out, next) ↔ ∃ number, join parts = .ok number ∧
      number :: (idleStep false t).1 = out ∧ (idleStep false t).2 = next := by
  unfold close
  cases join parts with
  | error fault => simp
  | ok number => simp [Prod.ext_iff]

theorem run_closed_iff (ends : finish s = (join parts).map fun number => [number])
    (closes : ∀ t ∈ rest.head?, step s t = close parts t) :
    machine.run s rest = .ok out ↔ ∃ number later, join parts = .ok number ∧
      machine.run (.idle false) rest = .ok later ∧ out = number :: later := by
  cases rest with
  | nil =>
    rw [run_nil, run_nil, ends]
    cases join parts <;> simp [finish, Except.map, eq_comm]
  | cons t rest =>
    rw [run_cons_iff, closes t rfl]
    constructor
    · rintro ⟨_, _, later, closed, ran, rfl⟩
      obtain ⟨number, joined, rfl, rfl⟩ := close_ok_iff.mp closed
      exact ⟨number, _, joined, (run_cons_iff _ _ _ _).mpr ⟨_, _, later, rfl, ran, rfl⟩, rfl⟩
    · rintro ⟨number, later, joined, ran, rfl⟩
      obtain ⟨written, next, more, stepped, ranMore, rfl⟩ := (run_cons_iff _ _ _ _).mp ran
      have entered : idleStep false t = (written, next) := Except.ok.inj stepped
      refine ⟨number :: written, next, more, close_ok_iff.mpr ⟨number, joined, ?_, ?_⟩, ranMore, rfl⟩
      · rw [entered]
      · rw [entered]

theorem run_completed_iff (completes : step s t = complete parts) :
    machine.run s (t :: rest) = .ok out ↔ ∃ number later, join parts = .ok number ∧
      machine.run (.idle false) rest = .ok later ∧ out = number :: later := by
  rw [run_cons_iff, completes, complete]
  cases join parts with
  | error fault => simp [Except.map]
  | ok number =>
    constructor
    · rintro ⟨_, _, later, same, ran, rfl⟩
      obtain ⟨rfl, rfl⟩ := Prod.mk.inj (Except.ok.inj same)
      exact ⟨number, later, rfl, ran, rfl⟩
    · rintro ⟨_, later, ⟨⟩, ran, rfl⟩
      exact ⟨[number], _, later, rfl, ran, rfl⟩

theorem run_released_iff (filled : parts.getLast? = some t) (ends : finish s = .ok parts)
    (releases : ∀ t ∈ rest.head?, step s t = .ok (release parts t)) :
    machine.run s rest = .ok out ↔
      ∃ later, machine.run (.idle t.mayPrecedeSign) rest = .ok later ∧ out = parts ++ later := by
  cases rest with
  | nil =>
    rw [run_nil, run_nil, ends]
    simp [finish, eq_comm]
  | cons n rest =>
    rw [run_cons_iff, releases n rfl, release_eq, filled, Option.map_some, Option.getD_some]
    constructor
    · rintro ⟨_, _, later, same, ran, rfl⟩
      obtain ⟨rfl, rfl⟩ := Prod.mk.inj (Except.ok.inj same)
      exact ⟨_, (run_cons_iff _ _ _ _).mpr ⟨_, _, later, rfl, ran, rfl⟩, append_assoc ..⟩
    · rintro ⟨later, ran, rfl⟩
      obtain ⟨written, next, more, stepped, ranMore, rfl⟩ := (run_cons_iff _ _ _ _).mp ran
      have entered : idleStep t.mayPrecedeSign n = (written, next) := Except.ok.inj stepped
      exact ⟨parts ++ written, next, more, by rw [entered], ranMore, (append_assoc ..).symm⟩

/-! ### The parts of a numeral are held back -/

/-- Behind the parts the machine is in the state and has written nothing. -/
def Held (signed : Bool) (parts : List Token) (s : State) : Prop :=
  ∀ rest, machine.run (.idle signed) (parts ++ rest) = machine.run s rest

theorem Held.nil : Held signed [] (.idle signed) :=
  fun _ => rfl

theorem Held.concat (held : Held signed parts s) (stepped : step s t = .ok ([], next)) :
    Held signed (parts ++ [t]) next := by
  intro rest
  rw [append_assoc, held]
  exact run_held stepped

theorem held_minus (isMinus : isMinus t = true) : Held true [t] (.minus t) := by
  have kind : t.kind ≠ .number := by simp [(isMinus_iff.mp isMinus).1]
  exact Held.nil.concat (by simp [step, idleStep, kind, isMinus])

theorem Begins.held_number (begins : Begins signed front (some t)) (number : t.kind = .number) :
    Held signed (front ++ [t]) (afterDigits (front ++ [t]) t) := by
  cases begins with
  | number => exact Held.nil.concat (by simp [step, idleStep, number])
  | point _ point => simp [number] at point
  | minus due isMinus unsigned =>
    subst due
    apply (held_minus isMinus).concat
    rw [step, if_pos ⟨number, unsigned number⟩]
    rfl

theorem Begins.held_point (begins : Begins signed front (some t)) (point : t.kind = .point) :
    Held signed (front ++ [t]) (.fraction (front ++ [t])) := by
  cases begins with
  | number number => simp [point] at number
  | point due => exact Held.nil.concat (by simp [step, idleStep, isMinus, point, due])
  | minus due isMinus =>
    subst due
    exact (held_minus isMinus).concat (by simp [step, point])

/-- The sign at the start of a numeral counts neither as digits nor as a point. -/
theorem Begins.any_append {first : Option Token} (begins : Begins signed front first) (more : List Token) :
    hasDigits (front ++ more) = hasDigits more ∧ hasPoint (front ++ more) = hasPoint more := by
  cases begins with
  | number | point => exact ⟨rfl, rfl⟩
  | minus _ isMinus _ => simp [hasDigits, hasPoint, (isMinus_iff.mp isMinus).1]

theorem afterDigits_unmarked (unmarked : endsInMark t = false) : afterDigits parts t = .whole parts := by
  simp [afterDigits, unmarked]

theorem step_fraction_plain (plain : IsPlain t) : step (.fraction parts) t =
    if endsInMark t then .ok ([], .exponentMark (parts ++ [t])) else complete (parts ++ [t]) := by
  have noPoint : t.kind ≠ .point := by simp [plain.1]
  unfold IsPlain at plain
  rw [step, if_neg noPoint, if_pos plain]

theorem Begins.held_pointed (pointed : Pointed parts) (begins : Begins signed front parts.head?) :
    Held signed (front ++ parts) (.fraction (front ++ parts)) := by
  cases pointed with
  | bare point => exact begins.held_point point
  | @digits d p number unmarked first point =>
    have held := begins.held_number number
    rw [afterDigits_unmarked unmarked] at held
    have noPoint : hasPoint (front ++ [d]) = false := by
      rw [(begins.any_append [d]).2]
      simp [hasPoint, number, first]
    rw [append_cons]
    apply held.concat
    rw [step, if_pos point, if_neg (by simp [noPoint])]

theorem head?_pointed (pointed : Pointed lead) (more : List Token) : (lead ++ more).head? = lead.head? := by
  cases pointed <;> rfl

theorem Begins.held_marked (leads : Leads lead d) (mark : endsInMark d = true)
    (begins : Begins signed front (lead ++ [d]).head?) :
    Held signed (front ++ (lead ++ [d])) (.exponentMark (front ++ (lead ++ [d]))) := by
  cases leads with
  | first number =>
    have held := begins.held_number number
    rwa [afterDigits, if_pos mark] at held
  | behind pointed plain =>
    rw [head?_pointed pointed] at begins
    rw [← append_assoc]
    apply (begins.held_pointed pointed).concat
    rw [step_fraction_plain plain, if_pos mark]

/-- The machine writes the number of a numeral and starts anew behind it. -/
theorem Core.run_iff (core : Core parts rest.head?) (begins : Begins signed front parts.head?) :
    machine.run (.idle signed) (front ++ parts ++ rest) = .ok out ↔ ∃ number later, join (front ++ parts) = .ok number ∧
      machine.run (.idle false) rest = .ok later ∧ out = number :: later := by
  generalize behind : rest.head? = next at core
  cases core with
  | @whole d _ number unmarked stops =>
    have held := begins.held_number number
    rw [afterDigits_unmarked unmarked] at held
    subst behind
    rw [held]
    apply run_closed_iff (finish.eq_3 _)
    intro t first
    rw [step, if_neg (stops t first)]
  | @pointed d p _ pointed stops =>
    subst behind
    have digits : hasDigits (front ++ [d, p]) = true := by
      cases pointed with
      | digits number => simp [hasDigits, number]
    rw [begins.held_pointed pointed]
    apply run_closed_iff
    · rw [finish, if_pos digits]
    · intro t first
      obtain ⟨noPoint, other⟩ := stops t first
      unfold IsPlain at other
      rw [step, if_neg noPoint, if_neg other, if_pos digits]
  | @fraction lead d _ pointed plain unmarked =>
    rw [head?_pointed pointed] at begins
    rw [← append_assoc, append_assoc (front ++ lead), begins.held_pointed pointed]
    apply run_completed_iff
    rw [step_fraction_plain plain, if_neg (by simp [unmarked])]
  | @exponent lead d sign e _ leads mark isSign digits =>
    have first : (lead ++ [d, sign, e]).head? = (lead ++ [d]).head? := by
      cases lead <;> rfl
    rw [first] at begins
    have held := (begins.held_marked leads mark).concat (t := sign) (by rw [step, if_pos isSign])
    have parts : front ++ (lead ++ [d, sign, e]) = front ++ (lead ++ [d]) ++ [sign] ++ [e] := by simp
    rw [parts, append_assoc (front ++ (lead ++ [d]) ++ [sign]), held]
    apply run_completed_iff
    rw [step, if_pos digits]

/-! ### What stands for itself -/

theorem run_pass (noNumber : t.kind ≠ .number) (noStart : signed = true → isMinus t = false ∧ t.kind ≠ .point) :
    machine.run (.idle signed) (t :: rest) = (machine.run (.idle t.mayPrecedeSign) rest).map (t :: ·) := by
  have passed : idleStep signed t = ([t], .idle t.mayPrecedeSign) := by
    cases signed <;> simp_all [idleStep]
  rw [run_cons, step, passed]
  rfl

theorem run_pass_iff (noNumber : t.kind ≠ .number) (noStart : signed = true → isMinus t = false ∧ t.kind ≠ .point) :
    machine.run (.idle signed) (t :: rest) = .ok out ↔ ∃ later,
      machine.run (.idle t.mayPrecedeSign) rest = .ok later ∧ out = t :: later := by
  rw [run_pass noNumber noStart]
  cases machine.run (.idle t.mayPrecedeSign) rest <;> simp [Except.map, eq_comm]

theorem run_sign_iff (isMinus : isMinus t = true)
    (stops : ∀ n ∈ rest.head?, n.kind ≠ .point ∧ (n.kind = .number → n.text.toList.head? = some '-')) :
    machine.run (.idle true) (t :: rest) = .ok out ↔
      ∃ later, machine.run (.idle true) rest = .ok later ∧ out = t :: later := by
  have waits : machine.run (.idle true) (t :: rest) = machine.run (.minus t) rest := held_minus isMinus rest
  rw [waits, ← mayPrecedeSign_of_isMinus isMinus]
  refine run_released_iff (show [t].getLast? = some t from rfl) rfl fun n first => ?_
  obtain ⟨noPoint, signed⟩ := stops n first
  rw [step, if_neg (fun both => both.2 (signed both.1)), if_neg noPoint]

theorem Begins.run_point_iff (begins : Begins signed front (some t)) (point : t.kind = .point)
    (stops : ∀ n ∈ rest.head?, n.kind ≠ .point ∧ ¬ IsPlain n) :
    machine.run (.idle signed) (front ++ t :: rest) = .ok out ↔
      ∃ later, machine.run (.idle false) rest = .ok later ∧ out = front ++ [t] ++ later := by
  have bare : hasDigits (front ++ [t]) = false := by
    rw [(begins.any_append [t]).1]
    simp [hasDigits, point]
  rw [append_cons, begins.held_point point, ← mayPrecedeSign_of_point point]
  apply run_released_iff getLast?_concat
  · rw [finish, if_neg (by simp [bare])]
  · intro n first
    obtain ⟨noPoint, other⟩ := stops n first
    unfold IsPlain at other
    rw [step, if_neg noPoint, if_neg other, if_neg (by simp [bare])]

theorem run_of_joined (joined : Joined signed tokens out) : machine.run (.idle signed) tokens = .ok out := by
  induction joined with
  | nil => rfl
  | pass noNumber noStart _ ih => exact (run_pass_iff noNumber noStart).mpr ⟨_, ih, rfl⟩
  | sign isMinus stops _ ih => exact (run_sign_iff isMinus stops).mpr ⟨_, ih, rfl⟩
  | point begins point stops _ ih => exact (begins.run_point_iff point stops).mpr ⟨_, ih, by simp⟩
  | number begins core joined _ ih => exact (core.run_iff begins).mpr ⟨_, _, joined, ih, rfl⟩

/-! ### Nothing else comes out -/

theorem exists_of_run_exponentMark (ran : machine.run (.exponentMark parts) rest = .ok out) :
    ∃ sign e more, rest = sign :: e :: more ∧ isSign sign = true ∧
      e.kind = .number ∧ e.text.toList.all Char.isDigit = true := by
  cases rest with
  | nil => cases (run_nil _).symm.trans ran
  | cons sign rest =>
    obtain ⟨_, next, _, stepped, ranLater, -⟩ := (run_cons_iff _ _ _ _).mp ran
    rw [step] at stepped
    split at stepped
    next isSign =>
      obtain ⟨-, rfl⟩ := Prod.mk.inj (Except.ok.inj stepped)
      cases rest with
      | nil => cases (run_nil _).symm.trans ranLater
      | cons e more =>
        obtain ⟨_, _, _, stepped, -, -⟩ := (run_cons_iff _ _ _ _).mp ranLater
        rw [step] at stepped
        split at stepped
        next digits => exact ⟨sign, e, more, rfl, isSign, digits⟩
        · cases stepped
    · cases stepped

/-- The tokens start with the parts of a numeral, or with a point that no numeral takes in. -/
def StartsNumeral (signed : Bool) (tokens : List Token) : Prop :=
  (∃ front p rest, tokens = front ++ p :: rest ∧ Begins signed front (some p) ∧ p.kind = .point ∧
    ∀ n ∈ rest.head?, n.kind ≠ .point ∧ ¬ IsPlain n) ∨
  ∃ front parts rest, tokens = front ++ parts ++ rest ∧ Begins signed front parts.head? ∧ Core parts rest.head?

theorem startsNumeral_of_marked (leads : Leads lead d) (mark : endsInMark d = true)
    (begins : Begins signed front (lead ++ [d]).head?)
    (ran : machine.run (.idle signed) (front ++ (lead ++ [d]) ++ rest) = .ok out) :
    StartsNumeral signed (front ++ (lead ++ [d]) ++ rest) := by
  rw [begins.held_marked leads mark] at ran
  obtain ⟨sign, e, more, rfl, isSign, digits⟩ := exists_of_run_exponentMark ran
  refine .inr ⟨front, lead ++ [d, sign, e], more, by simp, ?_, .exponent leads mark isSign digits⟩
  cases lead <;> exact begins

theorem startsNumeral_of_pointed (pointed : Pointed lead) (begins : Begins signed front lead.head?)
    (ran : machine.run (.idle signed) (front ++ lead ++ rest) = .ok out) :
    StartsNumeral signed (front ++ lead ++ rest) := by
  have held := ran
  rw [begins.held_pointed pointed] at held
  have noPoint : ∀ n ∈ rest.head?, n.kind ≠ .point := by
    intro n first point
    obtain ⟨more, rfl⟩ := head?_eq_some_iff.mp first
    obtain ⟨_, _, _, stepped, -⟩ := (run_cons_iff _ _ _ _).mp held
    rw [step, if_pos point] at stepped
    cases stepped
  by_cases plain : ∃ n ∈ rest.head?, IsPlain n
  · obtain ⟨n, first, plain⟩ := plain
    obtain ⟨more, rfl⟩ := head?_eq_some_iff.mp first
    have head := head?_pointed pointed [n]
    have whole : front ++ lead ++ n :: more = front ++ (lead ++ [n]) ++ more := by simp
    cases mark : endsInMark n with
    | true =>
      rw [whole] at ran ⊢
      exact startsNumeral_of_marked (.behind pointed plain) mark (head ▸ begins) ran
    | false => exact .inr ⟨front, lead ++ [n], more, whole, head ▸ begins, .fraction pointed plain mark⟩
  · have stops : ∀ n ∈ rest.head?, n.kind ≠ .point ∧ ¬ IsPlain n :=
      fun n first => ⟨noPoint n first, fun isPlain => plain ⟨n, first, isPlain⟩⟩
    cases pointed with
    | bare point => exact .inl ⟨front, _, rest, by simp, begins, point, stops⟩
    | digits number unmarked first point =>
      exact .inr ⟨front, _, rest, rfl, begins, .pointed (.digits number unmarked first point) stops⟩

theorem startsNumeral_of_begins (begins : Begins signed front (some t)) (part : t.kind = .number ∨ t.kind = .point)
    (ran : machine.run (.idle signed) (front ++ [t] ++ rest) = .ok out) :
    StartsNumeral signed (front ++ [t] ++ rest) := by
  rcases part with number | point
  · cases mark : endsInMark t with
    | true => exact startsNumeral_of_marked (.first number) mark begins ran
    | false =>
      by_cases point : ∃ p ∈ rest.head?, p.kind = .point
      · obtain ⟨p, first, point⟩ := point
        obtain ⟨more, rfl⟩ := head?_eq_some_iff.mp first
        have held := ran
        rw [begins.held_number number, afterDigits_unmarked mark] at held
        obtain ⟨_, _, _, stepped, -⟩ := (run_cons_iff _ _ _ _).mp held
        rw [step, if_pos point, (begins.any_append [t]).2] at stepped
        split at stepped
        · cases stepped
        next noPoint =>
          have whole : front ++ [t] ++ p :: more = front ++ [t, p] ++ more := by simp
          have pointed : Pointed [t, p] := .digits number mark (by simpa [hasPoint, number] using noPoint) point
          rw [whole] at ran ⊢
          exact startsNumeral_of_pointed pointed begins ran
      · exact .inr ⟨front, [t], rest, rfl, begins, .whole number mark fun n first kind => point ⟨n, first, kind⟩⟩
  · exact startsNumeral_of_pointed (.bare point) begins ran

theorem joined_of_run (ran : machine.run (.idle signed) tokens = .ok out) : Joined signed tokens out := by
  induction size : tokens.length using Nat.strongRecOn generalizing signed tokens out with
  | ind n ih =>
    have numeral (starts : StartsNumeral signed tokens) : Joined signed tokens out := by
      rcases starts with ⟨front, p, rest, rfl, begins, point, stops⟩ | ⟨front, parts, rest, rfl, begins, core⟩
      · obtain ⟨later, ranLater, rfl⟩ := (begins.run_point_iff point stops).mp ran
        have shorter : rest.length < n := by
          simp only [length_append, length_cons] at size
          omega
        rw [← append_cons]
        exact .point begins point stops (ih rest.length shorter ranLater rfl)
      · obtain ⟨number, later, joined, ranLater, rfl⟩ := (core.run_iff begins).mp ran
        have shorter : rest.length < n := by
          have filled : parts ≠ [] := by cases core <;> simp
          have := length_pos_iff.mpr filled
          simp only [length_append] at size
          omega
        exact .number begins core joined (ih rest.length shorter ranLater rfl)
    cases tokens with
    | nil =>
      obtain rfl : [] = out := Except.ok.inj ((run_nil _).symm.trans ran)
      exact .nil
    | cons t rest =>
      have shorter : rest.length < n := by
        simp only [length_cons] at size
        omega
      by_cases number : t.kind = .number
      · exact numeral (startsNumeral_of_begins (Begins.number number : Begins _ [] _) (.inl number) ran)
      · by_cases start : signed = true ∧ (isMinus t = true ∨ t.kind = .point)
        · obtain ⟨rfl, minus | point⟩ := start
          · by_cases taken : ∃ n ∈ rest.head?, n.kind = .point ∨ n.kind = .number ∧ n.text.toList.head? ≠ some '-'
            · obtain ⟨n, first, part⟩ := taken
              obtain ⟨more, rfl⟩ := head?_eq_some_iff.mp first
              have begins : Begins true [t] (some n) := by
                refine .minus rfl minus fun kind => ?_
                rcases part with point | unsigned
                · simp [point] at kind
                · exact unsigned.2
              exact numeral (startsNumeral_of_begins begins (part.symm.imp And.left id) ran)
            · have stops : ∀ n ∈ rest.head?, n.kind ≠ .point ∧ (n.kind = .number → n.text.toList.head? = some '-') := by
                intro n first
                refine ⟨fun point => taken ⟨n, first, .inl point⟩, fun kind => ?_⟩
                exact Decidable.byContradiction fun unsigned => taken ⟨n, first, .inr ⟨kind, unsigned⟩⟩
              obtain ⟨later, ranLater, rfl⟩ := (run_sign_iff minus stops).mp ran
              exact .sign minus stops (ih rest.length shorter ranLater rfl)
          · exact numeral (startsNumeral_of_begins (Begins.point rfl point : Begins _ [] _) (.inr point) ran)
        · have noStart : signed = true → isMinus t = false ∧ t.kind ≠ .point := by
            intro due
            simp only [due, true_and, not_or] at start
            exact ⟨by simpa using start.1, start.2⟩
          obtain ⟨later, ranLater, rfl⟩ := (run_pass_iff number noStart).mp ran
          exact .pass number noStart (ih rest.length shorter ranLater rfl)

end VbSharp.Numeral
