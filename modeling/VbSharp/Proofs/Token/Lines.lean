import VbSharp.Proofs.Token.Alike

/-!
# Scripts line by line

Scanning a script that is cut behind a line end gives the tokens of the first part and then those of the
second, with their lines counted on. Three facts carry this. No step of the two machines looks past a line
end. Raw text that is pending at a line end may as well be a token of its own: neither the comments nor the
words behind it depend on it. And a scan that starts further down does the same further down.
-/
namespace VbSharp

open Transducer

variable (n : Nat)

/-! ### No step looks past a line end -/

namespace Atom

theorem step_congr {ahead view : List Char} (blank : ahead.head?.all isBlank = view.head?.all isBlank)
    (hex : startsHex ahead = startsHex view) (s : Scan) (c : Char) : step s c ahead = step s c view := by
  simp only [step, wordStep, blank, hex]

theorem bounds_lineEnd : machine.Bounds '\n' where
  before := by
    intro s c items rest
    refine step_congr ?_ ?_ s c
    · cases items <;> rfl
    · -- two characters are looked at, and a line end is neither letter nor digit
      match items with
      | [] => cases rest <;> rfl
      | [_] => rfl
      | _ :: _ :: _ => rfl
  here := by
    intro s rest
    show step s '\n' rest = step s '\n' []
    cases s.mode <;> rfl

/-- Where a hexadecimal number is opened its letter is to come, and the lines are counted up to a total. -/
structure Fits (total : Nat) (s : Scan) (ahead : List Char) : Prop where
  opening : s.mode = .hexOpening → startsHex ahead = true
  lines : s.line + lineFeeds ahead = total

variable {total : Nat} {c : Char} {ahead : List Char}

variable {line : Nat} {text : List Char} {out : List Token} {s next : Scan}

theorem Fits.moves (lines : line + lineFeeds (c :: ahead) = total) (moves : Moves line text c ahead out next) :
    Fits total next ahead := by
  rw [lineFeeds_cons] at lines
  cases moves with
  | lineEnd ends => exact ⟨nofun, by simp [ends] at lines ⊢; omega⟩
  | blank stays | mark stays => exact ⟨nofun, by simpa [stays] using lines⟩
  | opens mode stays opening =>
    refine ⟨?_, by simpa [stays] using lines⟩
    rintro rfl
    exact (show c = '&' ∧ startsHex _ = true by simpa using opening).2
  | letter plain =>
    have stays : c ≠ '\n' := by
      rintro rfl
      cases plain.1
    exact ⟨nofun, by simpa [stays] using lines⟩

/-- Lines are counted whatever the machine is in, since a letter follows where a number is opened. -/
theorem Fits.step (fits : Fits total s (c :: ahead)) (stepped : Atom.step s c ahead = .ok (out, next)) :
    Fits total next ahead := by
  have lines := fits.lines
  rw [lineFeeds_cons] at lines
  have other {mode : Mode} (stays : c ≠ '\n') (closed : mode ≠ .hexOpening) : Fits total ⟨s.line, mode⟩ ahead :=
    ⟨fun opening => absurd opening closed, by simpa [stays] using lines⟩
  cases steps_of_ok stepped with
  | word mode moves | number mode made moves => exact .moves fits.lines moves
  | joined mode ends => exact ⟨by rintro ⟨⟩, by simp [ends] at lines ⊢; omega⟩
  | passed mode blank stays => exact ⟨by simp [mode], by simpa [stays] using lines⟩
  | closed mode closes => exact other (by simp [closes]) (by simp)
  | inside mode opened => exact other opened.2 (by simp)
  | letter mode =>
    refine other ?_ (by simp)
    rintro rfl
    have letter := fits.opening mode
    cases ahead <;> simp [startsHex] at letter
  | digit mode isDigit =>
    refine other ?_ (by simp)
    rintro rfl
    cases isDigit

theorem Moves.word_of_lineEnd (moves : Moves line text '\n' ahead out next) : next.mode = .word [] := by
  cases moves with
  | lineEnd ends => rfl
  | blank stays | opens _ stays | mark stays => exact absurd rfl stays
  | letter plain => cases plain.1

theorem word_of_lineEnd (fits : Fits total s ('\n' :: ahead)) (stepped : Atom.step s '\n' ahead = .ok (out, next)) :
    next.mode = .word [] := by
  cases steps_of_ok stepped with
  | word mode moves | number mode made moves => exact moves.word_of_lineEnd
  | joined mode ends => rfl
  | passed mode blank stays => exact absurd rfl stays
  | closed mode closes => cases closes
  | inside mode opened => exact absurd rfl opened.2
  | letter mode =>
    have letter := fits.opening mode
    cases ahead <;> simp [startsHex] at letter
  | digit mode isDigit => cases isDigit

end Atom

/-- The words of raw text behind a line end do not depend on the text before it. -/
theorem atoms_append {first : List Char} (second : List Char) {line : Nat} {out : List Token}
    (ends : first.getLast? = some '\n') (ok : atoms (String.ofList first) line = .ok out) :
    atoms (String.ofList (first ++ second)) line =
      (atoms (String.ofList second) (line + lineFeeds first)).map (out ++ ·) := by
  obtain ⟨front, rfl⟩ := List.getLast?_eq_some_iff.mp ends
  simp only [atoms, String.toList_ofList] at ok ⊢
  obtain ⟨made, next, last, fed, ended, rfl⟩ := run_ok_iff.mp ok
  obtain ⟨_, between, _, fedFront, fedEnd, rfl⟩ := feed_append_ok_iff.mp fed
  have fits : Atom.Fits (line + lineFeeds (front ++ ['\n'])) between ['\n'] :=
    feed_invariant (P := fun _ => Atom.Fits _) Atom.Fits.step ⟨by simp, by simp⟩ fedFront
  obtain ⟨_, _, _, stepped, ⟨⟩, rfl⟩ := feed_cons_ok_iff.mp fedEnd
  have lines : next.line = line + lineFeeds (front ++ ['\n']) := (fits.step stepped).lines
  have mode := Atom.word_of_lineEnd fits stepped
  obtain ⟨line', mode'⟩ := next
  obtain rfl : mode' = .word [] := mode
  obtain rfl : line' = line + lineFeeds (front ++ ['\n']) := lines
  obtain rfl : [] = last := by simpa [Atom.machine, Atom.finish, Atom.wordTokens] using ended
  rw [run_append ((Atom.bounds_lineEnd.feed_eq _ second front).trans fed)]
  simp only [List.append_nil]

namespace Passage

open List

theorem step_congr {ahead view : List Char} (rem : completesRem ahead = completesRem view) (s : Scan)
    (c : Char) : step s c ahead = step s c view := by
  simp only [step, codeStep, rem]

theorem bounds_lineEnd : machine.Bounds '\n' where
  before := by
    intro s c items rest
    refine step_congr ?_ s c
    -- the word and one character behind it are looked at
    match items with
    | [] => cases rest <;> rfl
    | [_] => simp [completesRem]
    | [_, _] => rfl
    | _ :: _ :: _ :: _ => rfl
  here := by
    intro s rest
    show step s '\n' rest = step s '\n' []
    cases s.mode <;> rfl

/-- The lines are counted up to a total, and the pending text ends on the line of the next character. -/
structure Tracks (total : Nat) (s : Scan) (ahead : List Char) : Prop where
  lines : s.line + lineFeeds ahead = total
  pending : s.pending ≠ [] → s.line = s.start + lineFeeds s.pending

variable {total : Nat} {s next : Scan} {c : Char} {ahead : List Char} {out : List Token}

theorem Tracks.push (tracks : Tracks total s (c :: ahead)) (line : Nat)
    (counted : line = s.line + if c = '\n' then 1 else 0) : Tracks total { s.push c with line := line } ahead := by
  have lines := tracks.lines
  rw [lineFeeds_cons] at lines
  refine ⟨by simp only; omega, fun _ => ?_⟩
  simp only [Scan.push, lineFeeds_cons]
  by_cases empty : s.pending = []
  · simp [empty, lineFeeds, counted]
  · have earlier := tracks.pending empty
    rw [if_neg (by simpa using empty)]
    omega

theorem Tracks.empty {line start : Nat} {flag : Bool} {mode : Mode} (lines : line + lineFeeds ahead = total) :
    Tracks total ⟨line, [], start, flag, mode⟩ ahead :=
  ⟨lines, fun filled => absurd rfl filled⟩

theorem Moves.stays (moves : Moves s c out next) (cleared : next.pending = []) : c ≠ '\n' := by
  cases moves with
  | literal mode opens => rcases opens with ⟨rfl, -⟩ | ⟨rfl, -⟩ <;> decide
  | comment skip opens =>
    rintro rfl
    rcases opens with isMark | ⟨isLetter, -⟩
    · cases isMark
    · exact absurd isLetter (by decide)
  | lineEnd ends | other stays => cases cleared

theorem Moves.tracks (moves : Moves s c out next) (tracks : Tracks total s (c :: ahead)) : Tracks total next ahead := by
  have lines := tracks.lines
  rw [lineFeeds_cons] at lines
  have cleared := moves.stays
  cases moves with
  | literal mode opens | comment skip opens =>
    rw [if_neg (cleared rfl)] at lines
    exact .empty lines
  | lineEnd ends => exact tracks.push _ (by rw [if_pos ends])
  | other stays => exact tracks.push s.line (by rw [if_neg stays, Nat.add_zero])

theorem Tracks.step (tracks : Tracks total s (c :: ahead))
    (stepped : Passage.step s c ahead = .ok (out, next)) : Tracks total next ahead := by
  have lines := tracks.lines
  rw [lineFeeds_cons] at lines
  have other {flag : Bool} {mode : Mode} (stays : c ≠ '\n') :
      Tracks total { s with afterLiteral := flag, mode := mode } ahead :=
    ⟨by simpa [stays] using lines, tracks.pending⟩
  cases steps_of_ok stepped with
  | code mode moves => exact moves.tracks tracks
  | inside mode stays => exact other stays
  | closed mode moves => exact moves.tracks ⟨tracks.lines, tracks.pending⟩
  | dated mode closes => exact other (by simp [closes])
  | commented mode ends =>
    have code : Tracks total { s with mode := .code } (c :: ahead) := ⟨tracks.lines, tracks.pending⟩
    exact code.push _ (by rw [if_pos ends])
  | comment mode stays => exact other stays

theorem Moves.code_of_lineEnd (code : s.mode = .code) (moves : Moves s '\n' out next) :
    next.mode = .code ∧ next.pending.head? = some '\n' := by
  have cleared := moves.stays
  cases moves with
  | literal mode opens | comment skip opens => exact absurd rfl (cleared rfl)
  | lineEnd ends => exact ⟨code, rfl⟩
  | other stays => exact absurd rfl stays

/-- Behind a line end the scan is in code, with the line end as the last pending character. -/
theorem code_of_lineEnd (stepped : step s '\n' ahead = .ok (out, next)) :
    next.mode = .code ∧ next.pending.head? = some '\n' := by
  cases steps_of_ok stepped with
  | code mode moves => exact moves.code_of_lineEnd mode
  | closed mode moves => exact moves.code_of_lineEnd rfl
  | inside mode stays | comment mode stays => exact absurd rfl stays
  | dated mode closes => cases closes
  | commented mode ends => exact ⟨rfl, rfl⟩

/-! ### Pending text at a line end -/

/-- The state with text of earlier lines pending as well. -/
def Scan.onTopOf (s : Scan) (below : List Char) (start : Nat) (flag : Bool) : Scan :=
  { s with pending := s.pending ++ below, start := start, afterLiteral := flag }

/-- The line of the first pending character, or of the next one if none is pending. -/
def Scan.first (s : Scan) : Nat :=
  if s.pending = [] then s.line else s.start

theorem Mode.alike_self (mode : Mode) : mode.Alike (.lower n) mode := by
  have looks (text : List Char) : Forall₂ (Likeness.lower n).Looks text text := forall₂_same.mpr fun _ _ => rfl
  cases mode with
  | code => exact .code
  | string text => exact .string (looks text)
  | quote text => exact .quote (looks text)
  | date text => exact .date (looks text)
  | comment _ _ text => exact .comment (looks text)

/-- With nothing pending, it does not count where pending text would start, nor inside a literal what stands before
it. -/
theorem alike_of_empty {n line start start' : Nat} {flag flag' : Bool} {mode : Mode}
    (outside : mode.isLiteral = false → flag = flag') :
    Scan.Alike (.lower n) ⟨line, [], start, flag, mode⟩ ⟨line + n, [], start', flag', mode⟩ :=
  ⟨rfl, .nil, nofun, outside, mode.alike_self n⟩

theorem run_lower {n : Nat} {s t : Scan} (alike : s.Alike (.lower n) t) (cs : List Char) :
    machine.run t cs = shiftResult n (machine.run s cs) :=
  (keeps_alike.run alike (forall₂_same.mpr fun _ _ => rfl)).eq_shiftResult id

theorem rawTokens_first {s : Scan} {text : List Char} (filled : text ≠ [] → s.pending ≠ []) :
    rawTokens text s.start = rawTokens text s.first := by
  by_cases empty : text = []
  · simp [rawTokens, empty]
  · rw [Scan.first, if_neg (filled empty)]

section LineEnd

variable {below : List Char} (ends : below.head? = some '\n') (start : Nat) (flag : Bool)
include ends

theorem dropWhile_onTopOf (pending : List Char) :
    (pending ++ below).dropWhile isIndent = pending.dropWhile isIndent ++ below := by
  obtain ⟨rest, rfl⟩ := head?_eq_some_iff.mp ends
  rw [dropWhile_append]
  split_ifs with indent
  · rw [isEmpty_iff.mp indent]
    rfl
  · rfl

theorem takeWhile_onTopOf (code : List Char) : (code ++ below).takeWhile (· != '\n') = code.takeWhile (· != '\n') := by
  obtain ⟨rest, rfl⟩ := head?_eq_some_iff.mp ends
  rw [takeWhile_append]
  split_ifs with all
  · rw [( takeWhile_prefix _).eq_of_length all]
    simp
  · rfl

/-- A statement can start at the same places whether text of earlier lines is pending or not. -/
theorem atStatementStart_onTopOf (s : Scan) (plain : s.afterLiteral = false) :
    (s.onTopOf below start flag).atStatementStart = s.atStatementStart := by
  obtain ⟨rest, same⟩ := head?_eq_some_iff.mp ends
  simp only [Scan.atStatementStart, Scan.onTopOf, dropWhile_onTopOf ends]
  cases s.pending.dropWhile isIndent with
  | nil => simp [same, plain]
  | cons c code => rfl

/-- A comment cuts off the same code and is inline in the same cases. -/
theorem openComment_onTopOf (s : Scan) (plain : s.afterLiteral = false) (skip : Nat) :
    ∃ code more next next', (code ≠ [] → s.pending ≠ []) ∧ s.openComment skip = (rawTokens code s.start ++ more, next) ∧
      (s.onTopOf below start flag).openComment skip = (rawTokens (code ++ below) start ++ more, next') ∧
      next'.Alike (.lower 0) next := by
  have filled (code : List Char) : (code ++ below).isEmpty = false := by
    obtain ⟨rest, rfl⟩ := head?_eq_some_iff.mp ends
    simp
  refine ⟨s.pending.dropWhile isIndent, _, _, (s.openComment skip).2.onTopOf [] start false, ?_, rfl, ?_,
    alike_of_empty fun _ => rfl⟩
  · rintro code empty
    rw [empty] at code
    exact code rfl
  · simp only [Scan.openComment, Scan.onTopOf, dropWhile_onTopOf ends, takeWhile_onTopOf ends, filled, plain,
      Bool.false_and, Bool.and_false, append_nil]

/-- A character of code either joins the pending text or makes a token of it, and in the second case the
text of earlier lines comes with it. -/
theorem codeStep_onTopOf (s : Scan) (code : s.mode = .code) (plain : s.afterLiteral = false) (c : Char)
    (rest : List Char) :
    (∃ next, next.mode = .code ∧ next.afterLiteral = false ∧ next.first = s.first ∧ codeStep s c rest = ([], next) ∧
      codeStep (s.onTopOf below start flag) c rest = ([], next.onTopOf below start flag)) ∨
    ∃ text more next next', (text ≠ [] → s.pending ≠ []) ∧ codeStep s c rest = (rawTokens text s.start ++ more, next) ∧
      codeStep (s.onTopOf below start flag) c rest = (rawTokens (text ++ below) start ++ more, next') ∧
      next'.Alike (.lower 0) next := by
  have first (line : Nat) : Scan.first { s.push c with line := line } = s.first := by
    by_cases empty : s.pending = [] <;> simp [Scan.first, Scan.push, empty]
  have pushed : (s.onTopOf below start flag).push c = (s.push c).onTopOf below start flag := by
    obtain ⟨rest, rfl⟩ := head?_eq_some_iff.mp ends
    simp [Scan.push, Scan.onTopOf]
  have literal (mode : Mode) (isLiteral : mode.isLiteral = true) :
      ∃ text more next next', (text ≠ [] → s.pending ≠ []) ∧
        s.openLiteral mode = (rawTokens text s.start ++ more, next) ∧
        (s.onTopOf below start flag).openLiteral mode = (rawTokens (text ++ below) start ++ more, next') ∧
        next'.Alike (.lower 0) next := by
    refine ⟨s.pending, [], (s.openLiteral mode).2, ((s.onTopOf below start flag).openLiteral mode).2, id, ?_, ?_,
      alike_of_empty ?_⟩
    · simp [Scan.openLiteral]
    · simp [Scan.openLiteral, Scan.onTopOf]
    · simp [isLiteral]
  unfold codeStep
  rw [atStatementStart_onTopOf ends start flag s plain, pushed]
  split_ifs
  · exact .inr (literal _ rfl)
  · exact .inr (literal _ rfl)
  · exact .inr (openComment_onTopOf ends start flag s plain 0)
  · exact .inr (openComment_onTopOf ends start flag s plain 2)
  · exact .inl ⟨{ s.push c with line := s.line + 1 }, code, plain, first _, rfl, rfl⟩
  · exact .inl ⟨s.push c, code, plain, first s.line, rfl, rfl⟩

/-- Text of earlier lines that is pending at a line end comes out before the rest and changes nothing else:
only the raw text of the first passage grows. -/
theorem run_onTopOf (s : Scan) (code : s.mode = .code) (plain : s.afterLiteral = false) (cs : List Char) :
    ∃ (text : List Char) (later : Except Fault (List Token)),
      machine.run s cs = later.map (rawTokens text s.first ++ ·) ∧
      machine.run (s.onTopOf below start flag) cs = later.map (rawTokens (text ++ below) start ++ ·) := by
  induction cs generalizing s with
  | nil =>
    refine ⟨s.pending, .ok [], ?_, ?_⟩
    · rw [Transducer.run_nil, ← rawTokens_first id]
      simp [machine, finish, code, Except.map]
    · rw [Transducer.run_nil]
      simp [machine, finish, Scan.onTopOf, code, Except.map]
  | cons c cs ih =>
    rw [Transducer.run_cons, Transducer.run_cons]
    have own : machine.step s c cs = .ok (codeStep s c cs) := by simp [machine, step, code]
    have other : machine.step (s.onTopOf below start flag) c cs =
        .ok (codeStep (s.onTopOf below start flag) c cs) := by simp [machine, step, code, Scan.onTopOf]
    rw [own, other]
    rcases codeStep_onTopOf ends start flag s code plain c cs with
      ⟨next, code, plain, first, ownStep, otherStep⟩ |
      ⟨text, more, next, next', filled, ownStep, otherStep, alike⟩
    · obtain ⟨text, later, ran, ranToo⟩ := ih next code plain
      refine ⟨text, later, ?_, ?_⟩
      · simp only [ownStep, Except.bind, ran, first]
        cases later <;> rfl
      · simp only [otherStep, Except.bind, ranToo]
        cases later <;> rfl
    · have ended : machine.run next cs = machine.run next' cs := by rw [run_lower alike, shiftResult_zero]
      refine ⟨text, (machine.run next cs).map (more ++ ·), ?_, ?_⟩
      · simp only [ownStep, Except.bind, rawTokens_first filled]
        cases machine.run next cs <;> simp [Except.map]
      · simp only [otherStep, Except.bind, ← ended]
        cases machine.run next cs <;> simp [Except.map]

end LineEnd

end Passage

/-! ### Scripts in parts -/

/-- The words and marks of some passages. -/
def wordsOf (passages : List Token) : Except Fault (List Token) :=
  (passages.mapM Token.atoms).map List.flatten

/-- The tokens of the text that a scan is still to read. -/
def Passage.Scan.tokens (s : Passage.Scan) (text : List Char) : Except Fault (List Token) :=
  (Passage.machine.run s text).bind wordsOf

theorem scanTokens_eq (script : String) : scanTokens script = Passage.Scan.tokens {} script.toList := by
  unfold scanTokens Passage.Scan.tokens wordsOf passages
  cases Passage.machine.run {} script.toList with
  | error fault => rfl
  | ok ps =>
    cases List.mapM Token.atoms ps <;> rfl

theorem wordsOf_cons (p : Token) (ps : List Token) :
    wordsOf (p :: ps) = p.atoms.bind fun out => (wordsOf ps).map (out ++ ·) := by
  unfold wordsOf
  rw [List.mapM_cons]
  cases p.atoms with
  | error fault => rfl
  | ok out =>
    cases List.mapM Token.atoms ps <;> rfl

theorem wordsOf_cons_ok_iff {p : Token} {ps tokens : List Token} : wordsOf (p :: ps) = .ok tokens ↔
    ∃ out more, p.atoms = .ok out ∧ wordsOf ps = .ok more ∧ tokens = out ++ more := by
  rw [wordsOf_cons]
  cases p.atoms with
  | error fault => simp [Except.bind]
  | ok out => cases wordsOf ps <;> simp [Except.bind, Except.map, eq_comm]

theorem wordsOf_append (front back : List Token) :
    wordsOf (front ++ back) = (wordsOf front).bind fun out => (wordsOf back).map (out ++ ·) := by
  induction front with
  | nil =>
    show wordsOf back = (wordsOf back).map _
    cases wordsOf back <;> rfl
  | cons p front ih =>
    rw [List.cons_append, wordsOf_cons, wordsOf_cons, ih]
    cases p.atoms with
    | error fault => rfl
    | ok out =>
      cases wordsOf front with
      | error fault => rfl
      | ok more => cases wordsOf back <;> simp [Except.bind, Except.map]

theorem wordsOf_append_ok_iff {front back tokens : List Token} : wordsOf (front ++ back) = .ok tokens ↔
    ∃ out more, wordsOf front = .ok out ∧ wordsOf back = .ok more ∧ tokens = out ++ more := by
  rw [wordsOf_append]
  cases wordsOf front with
  | error fault => simp [Except.bind]
  | ok out => cases wordsOf back <;> simp [Except.bind, Except.map, eq_comm]

theorem wordsOf_rawTokens (text : List Char) (line : Nat) :
    wordsOf (Passage.rawTokens text line) = atoms (String.ofList text.reverse) line := by
  by_cases empty : text = []
  · subst empty
    rfl
  · have raw : Passage.rawTokens text line = [⟨.raw, String.ofList text.reverse, line⟩] := by
      simp [Passage.rawTokens, empty]
    rw [raw, wordsOf_cons]
    show (atoms (String.ofList text.reverse) line).bind _ = _
    cases atoms (String.ofList text.reverse) line with
    | error fault => rfl
    | ok out => exact congrArg Except.ok (List.append_nil out)

theorem atoms_shift (t : Token) : (t.shift n).atoms = shiftResult n t.atoms := by
  have alike : t.Alike (.lower n) (t.shift n) := ⟨⟨rfl, rfl, rfl⟩, fun _ => rfl, trivial⟩
  exact alike.atoms.eq_shiftResult Token.Alike.toResembles

theorem wordsOf_shift (ps : List Token) : wordsOf (ps.map (Token.shift n)) = shiftResult n (wordsOf ps) := by
  induction ps with
  | nil => rfl
  | cons p ps ih =>
    rw [List.map_cons, wordsOf_cons, wordsOf_cons, atoms_shift, ih]
    cases p.atoms with
    | error fault => rfl
    | ok out => cases wordsOf ps <;> simp [shiftResult, Except.bind, Except.map, Except.mapError]

theorem tokens_lower (text : List Char) :
    Passage.Scan.tokens { line := n } text = shiftResult n (Passage.Scan.tokens {} text) := by
  have start : Passage.Scan.Alike (.lower n) {} { line := n } := ⟨(Nat.zero_add n).symm, .nil, nofun, fun _ => rfl, .code⟩
  unfold Passage.Scan.tokens
  rw [Passage.run_lower start]
  cases Passage.machine.run {} text with
  | error fault => rfl
  | ok ps => exact wordsOf_shift n ps

/-- A scan that has come to a line end goes on as one that starts there. -/
theorem tokens_of_lineEnd {s : Passage.Scan} (text : List Char) {out : List Token} (code : s.mode = .code)
    (ends : s.pending.head? = some '\n') (lines : s.line = s.start + lineFeeds s.pending)
    (ok : wordsOf (Passage.rawTokens s.pending s.start) = .ok out) :
    s.tokens text = (shiftResult s.line (Passage.Scan.tokens {} text)).map (out ++ ·) := by
  rw [← tokens_lower]
  obtain ⟨more, later, ran, ranToo⟩ := Passage.run_onTopOf ends s.start s.afterLiteral { line := s.line } rfl rfl text
  have same : Passage.Scan.onTopOf { line := s.line } s.pending s.start s.afterLiteral = s := by
    simp [Passage.Scan.onTopOf, ← code]
  have start : Passage.Scan.first { line := s.line } = s.line := rfl
  rw [same] at ranToo
  rw [start] at ran
  have apart : wordsOf (Passage.rawTokens (more ++ s.pending) s.start) =
      (wordsOf (Passage.rawTokens more s.line)).map (out ++ ·) := by
    rw [wordsOf_rawTokens] at ok ⊢
    rw [wordsOf_rawTokens, List.reverse_append, atoms_append _ (by simpa using ends) ok, lines]
    simp [lineFeeds]
  unfold Passage.Scan.tokens
  rw [ran, ranToo]
  cases later with
  | error fault => rfl
  | ok later =>
    simp only [Except.map, Except.bind, wordsOf_append, apart]
    cases wordsOf (Passage.rawTokens more s.line) with
    | error fault => rfl
    | ok words => cases wordsOf later <;> simp

theorem tokens_ok_iff {s : Passage.Scan} {text : List Char} {tokens : List Token} :
    s.tokens text = .ok tokens ↔ ∃ ps, Passage.machine.run s text = .ok ps ∧ wordsOf ps = .ok tokens := by
  unfold Passage.Scan.tokens
  cases Passage.machine.run s text <;> simp [Except.bind]

theorem tokens_append {s next : Passage.Scan} {text rest : List Char} {made out : List Token}
    (fed : Passage.machine.feed rest s text = .ok (made, next)) (worded : wordsOf made = .ok out) :
    s.tokens (text ++ rest) = (next.tokens rest).map (out ++ ·) := by
  unfold Passage.Scan.tokens
  rw [run_append fed]
  cases Passage.machine.run next rest with
  | error fault => rfl
  | ok ps =>
    simp only [Except.map, Except.bind, wordsOf_append, worded]

/-- The tokens of a text that ends with a line are followed by those of the text behind it, counted on from
there. -/
theorem scanTokens_append {first : String} (second : String) {tokens : List Token}
    (ends : first.toList.getLast? = some '\n') (ok : scanTokens first = .ok tokens) :
    scanTokens (first ++ second) = (shiftResult (lineFeeds first.toList) (scanTokens second)).map (tokens ++ ·) := by
  obtain ⟨front, cut⟩ := List.getLast?_eq_some_iff.mp ends
  rw [scanTokens_eq] at ok ⊢
  rw [scanTokens_eq, String.toList_append, cut]
  rw [cut] at ok
  obtain ⟨ps, ran, worded⟩ := tokens_ok_iff.mp ok
  obtain ⟨made, s, last, fed, ended, rfl⟩ := run_ok_iff.mp ran
  obtain ⟨_, between, _, fedFront, fedEnd, rfl⟩ := feed_append_ok_iff.mp fed
  obtain ⟨_, _, _, stepped, ⟨⟩, rfl⟩ := feed_cons_ok_iff.mp fedEnd
  -- behind the line end the scan is in code, and what is pending comes out as the last passage
  obtain ⟨code, lineEnd⟩ := Passage.code_of_lineEnd stepped
  have tracks : Passage.Tracks (lineFeeds (front ++ ['\n'])) s [] :=
    feed_invariant (P := fun _ => Passage.Tracks (lineFeeds (front ++ ['\n']))) Passage.Tracks.step
      ⟨by simp, fun filled => absurd rfl filled⟩ fed
  have lines : s.line = lineFeeds (front ++ ['\n']) := tracks.lines
  have pending := tracks.pending (by rintro empty; simp [empty] at lineEnd)
  obtain rfl : Passage.rawTokens s.pending s.start = last := by
    simpa [Passage.machine, Passage.finish, code] using ended
  obtain ⟨out, more, wordsMade, wordsLast, rfl⟩ := wordsOf_append_ok_iff.mp worded
  have fedOn := (Passage.bounds_lineEnd.feed_eq {} second.toList front).trans fed
  rw [tokens_append fedOn wordsMade, tokens_of_lineEnd second.toList code lineEnd pending wordsLast, lines]
  cases shiftResult (lineFeeds (front ++ ['\n'])) (Passage.Scan.tokens {} second.toList) <;>
    simp [Except.map]

/-- Scanning goes line by line: behind a text that ends with a line end, a second text gives the tokens or the
fault that it gives alone, further down by as many lines as the first one has. -/
theorem scanTokens_line_by_line (first second : String) (tokens : List Token)
    (ends : first.toList.getLast? = some '\n') (ok : scanTokens first = .ok tokens) :
    (∀ more, scanTokens second = .ok more → scanTokens (first ++ second) =
      .ok (tokens ++ more.map (Token.shift (lineFeeds first.toList)))) ∧
    ∀ fault, scanTokens second = .error fault →
      scanTokens (first ++ second) = .error (fault.shift (lineFeeds first.toList)) := by
  rw [scanTokens_append second ends ok]
  constructor
  · intro more scanned
    rw [scanned]
    rfl
  · intro fault failed
    rw [failed]
    rfl

/-- A line that is continued behind a string, before a comment and before a string that is not closed. -/
theorem scanTokens_line_by_line_continued :
    scanTokens "a = \"b\" _\n" = .ok [.ofWord "a" 0, .ofWord "=" 0, ⟨.string, "b", 0⟩] ∧
    scanTokens ("a = \"b\" _\n" ++ "Rem c") =
      .ok [.ofWord "a" 0, .ofWord "=" 0, ⟨.string, "b", 0⟩, ⟨.comment, " c", 1⟩] ∧
    scanTokens ("a = \"b\" _\n" ++ "\nx = \"y") = .error (.unclosedString 3) := by
  have first : scanTokens "a = \"b\" _\n" = .ok [.ofWord "a" 0, .ofWord "=" 0, ⟨.string, "b", 0⟩] := rfl
  have comment := scanTokens_line_by_line _ "Rem c" _ rfl first
  have string := scanTokens_line_by_line _ "\nx = \"y" _ rfl first
  exact ⟨first, comment.1 [⟨.comment, " c", 0⟩] rfl, string.2 (.unclosedString 2) rfl⟩

end VbSharp
