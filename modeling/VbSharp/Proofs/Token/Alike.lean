import VbSharp.Proofs.Likeness
import VbSharp.Proofs.Token.Steps
import VbSharp.Token.Sign

/-!
# The tokens of alike scripts

Scripts that look the same are cut at the same places into tokens that look the same. The scans go in step with each
other: each looks at its characters only in ways that take no notice of letter case, so the two are always in states
that differ at most in the letters they hold and in the lines they count.
-/
namespace VbSharp

open List Likeness Token

variable {L : Likeness} {c d : Char} {rest more : List Char}

theorem head?_all_eq {p : Char → Bool} (looks : Forall₂ L.Looks rest more) (caseless : Caseless p) :
    rest.head?.all p = more.head?.all p := by
  cases looks with
  | nil => rfl
  | cons same _ => exact same.eq caseless

theorem head?_beq_eq (looks : Forall₂ L.Looks rest more) (mark : Char) (plain : mark.isAlpha = false := by decide) :
    (rest.head? == some mark) = (more.head? == some mark) := by
  cases looks with
  | nil => rfl
  | cons same _ => exact same.beq mark plain

/-! ### Passages -/

namespace Passage

/-- The scans are inside the same element, with texts that look the same. -/
inductive Mode.Alike (L : Likeness) : Mode → Mode → Prop where
  | code : Alike L .code .code
  | string {a b} (looks : Forall₂ L.Looks a b) : Alike L (.string a) (.string b)
  | quote {a b} (looks : Forall₂ L.Looks a b) : Alike L (.quote a) (.quote b)
  | date {a b} (looks : Forall₂ L.Looks a b) : Alike L (.date a) (.date b)
  | comment {inline skip a b} (looks : Forall₂ L.Looks a b) :
    Alike L (.comment inline skip a) (.comment inline skip b)

/-- Inside a string or a date. -/
def Mode.isLiteral : Mode → Bool
  | .string _ | .quote _ | .date _ => true
  | .code | .comment _ _ _ => false

/-- The scans agree in what steps look at: the line on which pending text starts does not count where there is none,
nor does inside a literal what stands before it. -/
structure Scan.Alike (L : Likeness) (s t : Scan) : Prop where
  line : t.line = s.line + L.shift
  pending : Forall₂ L.Looks s.pending t.pending
  start : s.pending ≠ [] → t.start = s.start + L.shift
  afterLiteral : s.mode.isLiteral = false → s.afterLiteral = t.afterLiteral
  mode : s.mode.Alike L t.mode

/-- What a step writes looks the same, and the scans stay alike. -/
def Stepped (L : Likeness) (x y : List Token × Scan) : Prop :=
  Forall₂ (Resembles L) x.1 y.1 ∧ x.2.Alike L y.2

variable {s t : Scan}

theorem rawTokens_alike {pending others : List Char} {start later : Nat} (looks : Forall₂ L.Looks pending others)
    (lines : pending ≠ [] → later = start + L.shift) :
    Forall₂ (Resembles L) (rawTokens pending start) (rawTokens others later) := by
  unfold rawTokens
  rw [← forall₂_isEmpty looks]
  split
  · exact .nil
  next filled => exact .cons ⟨rfl, text_ofList (rel_reverse looks), lines (by simpa using filled)⟩ .nil

theorem caseless_isIndent : Caseless isIndent := by
  intro c
  simp only [isIndent, show (c.toLower == ' ') = (c == ' ') from caseless_beq (by decide) c,
    show (c.toLower == '\t') = (c == '\t') from caseless_beq (by decide) c]

section

variable (alike : s.Alike L t)
include alike

theorem Scan.Alike.push (looks : L.Looks c d) : (s.push c).Alike L (t.push d) := by
  refine ⟨alike.line, .cons looks alike.pending, fun _ => ?_, alike.afterLiteral, alike.mode⟩
  simp only [Scan.push, ← forall₂_isEmpty alike.pending]
  split
  · exact alike.line
  next filled => exact alike.start (by simpa using filled)

theorem Scan.Alike.code : Forall₂ L.Looks (s.pending.dropWhile isIndent) (t.pending.dropWhile isIndent) :=
  forall₂_dropWhile alike.pending fun looks => looks.eq caseless_isIndent

theorem Scan.Alike.atStatementStart (outside : s.mode.isLiteral = false) : s.atStatementStart = t.atStatementStart := by
  have code := alike.code
  unfold Scan.atStatementStart
  generalize s.pending.dropWhile isIndent = before at code ⊢
  generalize t.pending.dropWhile isIndent = other at code ⊢
  cases code with
  | nil => rw [alike.afterLiteral outside]
  | cons same _ => simp only [same.beq '\n', same.beq ':']

theorem Scan.Alike.openComment (outside : s.mode.isLiteral = false) (skip : Nat) :
    Stepped L (s.openComment skip) (t.openComment skip) := by
  have tails : Forall₂ L.Looks ((s.pending.dropWhile isIndent).takeWhile (· != '\n'))
      ((t.pending.dropWhile isIndent).takeWhile (· != '\n')) :=
    forall₂_takeWhile alike.code fun looks => congrArg not (looks.beq '\n')
  have blank : ((s.pending.dropWhile isIndent).takeWhile (· != '\n')).all isBlank =
      ((t.pending.dropWhile isIndent).takeWhile (· != '\n')).all isBlank :=
    forall₂_all tails fun looks => looks.eq caseless_isBlank
  have colon : (((s.pending.dropWhile isIndent).takeWhile (· != '\n')).head? != some ':') =
      (((t.pending.dropWhile isIndent).takeWhile (· != '\n')).head? != some ':') :=
    congrArg not (head?_beq_eq tails ':')
  unfold Scan.openComment
  simp only [blank, forall₂_isEmpty alike.code, alike.afterLiteral outside, colon]
  constructor
  · have start : s.pending.dropWhile isIndent ≠ [] → t.start = s.start + L.shift := by
      intro filled
      apply alike.start
      rintro empty
      simp [empty] at filled
    apply rel_append (rawTokens_alike alike.code start)
    split
    · exact .cons ⟨rfl, rfl, alike.line⟩ .nil
    · exact .nil
  · exact ⟨alike.line, .nil, nofun, fun _ => rfl, .comment .nil⟩

theorem Scan.Alike.openLiteral {mode other : Mode} (modes : mode.Alike L other) (inside : mode.isLiteral = true) :
    Stepped L (s.openLiteral mode) (t.openLiteral other) :=
  ⟨rawTokens_alike alike.pending alike.start, alike.line, .nil, nofun, by simp [Scan.openLiteral, inside], modes⟩

theorem Scan.Alike.closeLiteral {text other : List Char} (kind : Kind) (looks : Forall₂ L.Looks text other) :
    Stepped L (s.closeLiteral kind text) (t.closeLiteral kind other) :=
  ⟨.cons ⟨rfl, text_ofList (rel_reverse looks), alike.line⟩ .nil, alike.line, alike.pending, alike.start,
    fun _ => rfl, .code⟩

theorem commentToken_alike {text other : List Char} (inline : Bool) (looks : Forall₂ L.Looks text other) :
    (s.commentToken inline text).Resembles L (t.commentToken inline other) :=
  ⟨rfl, text_ofList (rel_reverse (forall₂_dropWhile looks fun same => same.beq '\r')), alike.line⟩

omit alike in
theorem completesRem_eq (looks : Forall₂ L.Looks rest more) : completesRem rest = completesRem more := by
  cases looks with
  | nil => rfl
  | cons first later =>
    cases later with
    | nil => rfl
    | cons second last => simp only [completesRem, L.sound first, L.sound second, head?_all_eq last caseless_isBlank]

theorem codeStep_alike (outside : s.mode.isLiteral = false) (looks : L.Looks c d) (later : Forall₂ L.Looks rest more) :
    Stepped L (codeStep s c rest) (codeStep t d more) := by
  unfold codeStep
  simp only [looks.beq '\x22', looks.beq '#', looks.beq '\x27', looks.beq '\n',
    L.sound looks, alike.atStatementStart outside, completesRem_eq later]
  split_ifs
  · exact alike.openLiteral (.string .nil) rfl
  · exact alike.openLiteral (.date .nil) rfl
  · exact alike.openComment outside 0
  · exact alike.openComment outside 2
  · obtain ⟨-, pending, start, afterLiteral, mode⟩ := alike.push looks
    exact ⟨.nil, by simp only [alike.line, Nat.add_right_comm], pending, start, afterLiteral, mode⟩
  · exact ⟨.nil, alike.push looks⟩

end

theorem keeps_alike : machine.Keeps L L.Looks (Scan.Alike L) (Resembles L) where
  step := by
    rintro ⟨line, pending, start, afterLiteral, mode⟩ ⟨line', pending', start', afterLiteral', mode'⟩ c d rest more
      alike looks later
    have alike := alike
    obtain ⟨lines, pendings, starts, after, modes⟩ := alike
    change L.Results (Stepped L) (step _ c rest) (step _ d more)
    simp only at lines pendings starts after modes
    cases modes with
    | code => exact .ok (codeStep_alike alike rfl looks later)
    | string texts =>
      simp only [step, looks.beq '\x22', looks.beq '\n']
      split_ifs
      · exact .ok ⟨.nil, lines, pendings, starts, after, .quote texts⟩
      · exact .error (.reported .unclosedString (by omega))
      · exact .ok ⟨.nil, lines, pendings, starts, after, .string (.cons looks texts)⟩
    | quote texts =>
      simp only [step, looks.beq '\x22']
      split_ifs
      · exact .ok ⟨.nil, lines, pendings, starts, after, .string (.cons looks texts)⟩
      · obtain ⟨literal, closed⟩ := alike.closeLiteral .string texts
        obtain ⟨tokens, next⟩ := codeStep_alike closed rfl looks later
        exact .ok ⟨rel_append literal tokens, next⟩
    | date texts =>
      simp only [step, looks.beq '#', looks.beq '\n']
      split_ifs
      · exact .ok (alike.closeLiteral .date texts)
      · exact .error (.reported .unclosedDate (by omega))
      · exact .ok ⟨.nil, lines, pendings, starts, after, .date (.cons looks texts)⟩
    | comment texts =>
      simp only [step, looks.beq '\n']
      split_ifs
      · have ended : Scan.Alike L ⟨line, pending, start, afterLiteral, .code⟩ ⟨line', pending', start', afterLiteral', .code⟩ :=
          ⟨lines, pendings, starts, after, .code⟩
        obtain ⟨tokens, next⟩ := codeStep_alike ended rfl looks later
        exact .ok ⟨.cons (commentToken_alike alike _ texts) tokens, next⟩
      · exact .ok ⟨.nil, lines, pendings, starts, after, .comment (.cons looks texts)⟩
      · exact .ok ⟨.nil, lines, pendings, starts, after, .comment texts⟩
  finish := by
    rintro ⟨line, pending, start, afterLiteral, mode⟩ ⟨line', pending', start', afterLiteral', mode'⟩ alike
    have alike := alike
    obtain ⟨lines, pendings, starts, after, modes⟩ := alike
    simp only at lines pendings starts after modes
    cases modes with
    | code => exact .ok (rawTokens_alike pendings starts)
    | string _ => exact .error (.reported .unclosedString (by simp only [lines, Nat.add_right_comm]))
    | date _ => exact .error (.reported .unclosedDate (by simp only [lines, Nat.add_right_comm]))
    | quote texts => exact .ok (alike.closeLiteral .string texts).1
    | comment texts => exact .ok (.cons (commentToken_alike alike _ texts) .nil)

end Passage

/-! ### Words and marks -/

theorem Token.alike_ofWord [L.IsFree] {a b : String} {m n : Nat} (same : L.text a = L.text b) (lines : n = m + L.shift) :
    (Token.ofWord a m).Alike L (Token.ofWord b n) where
  kind := by
    change Kind.ofWord a = Kind.ofWord b
    rw [← ofWord_foldCase a, foldCase_eq same, ofWord_foldCase b]
  text := same
  line := lines
  date isDate := by
    have other := isOfWord_ofWord a
    rw [show Kind.ofWord a = .date from isDate] at other
    cases other
  known := Likeness.IsFree.known _

theorem Token.alike_of_line [L.IsFree] {kind : Kind} {text : String} {m n : Nat} (lines : n = m + L.shift) :
    Token.Alike L ⟨kind, text, m⟩ ⟨kind, text, n⟩ :=
  ⟨⟨rfl, rfl, lines⟩, fun _ => rfl, Likeness.IsFree.known _⟩

namespace Atom

/-- The scans are inside the same element, with texts that look the same. -/
inductive Mode.Alike (L : Likeness) : Mode → Mode → Prop where
  | word {a b} (looks : Forall₂ L.Looks a b) : Alike L (.word a) (.word b)
  | continuation : Alike L .continuation .continuation
  | escaped {a b} (looks : Forall₂ L.Looks a b) : Alike L (.escaped a) (.escaped b)
  | hexOpening : Alike L .hexOpening .hexOpening
  | hex {a b} (looks : Forall₂ L.Looks a b) : Alike L (.hex a) (.hex b)

structure Scan.Alike (L : Likeness) (s t : Scan) : Prop where
  line : t.line = s.line + L.shift
  mode : s.mode.Alike L t.mode

/-- What a step writes is alike, and the scans stay alike. -/
def Stepped (L : Likeness) (x y : List Token × Scan) : Prop :=
  Forall₂ (Token.Alike L) x.1 y.1 ∧ x.2.Alike L y.2

variable {line other : Nat} {text word : List Char}

theorem wordTokens_alike [L.IsFree] (looks : Forall₂ L.Looks text word) (lines : other = line + L.shift) :
    Forall₂ (Token.Alike L) (wordTokens text line) (wordTokens word other) := by
  unfold wordTokens
  rw [forall₂_isEmpty looks]
  split
  · exact .nil
  · exact .cons (alike_ofWord (text_ofList (rel_reverse looks)) lines) .nil

theorem startsHex_eq (looks : Forall₂ L.Looks rest more) : startsHex rest = startsHex more := by
  cases looks with
  | nil => rfl
  | cons first later =>
    cases later with
    | nil => rfl
    | cons second _ => simp only [startsHex, L.sound first, second.eq caseless_isHexDigit]

theorem caseless_marks : Caseless marks.contains := by
  refine caseless_of_letters false fun c alpha => ?_
  by_contra listed
  have member : c ∈ marks := by simpa using listed
  have plain : marks.all (!·.isAlpha) = true := by decide
  simpa [alpha] using all_eq_true.mp plain c member

theorem wordStep_alike [L.IsFree] (lines : other = line + L.shift) (texts : Forall₂ L.Looks text word)
    (looks : L.Looks c d) (later : Forall₂ L.Looks rest more) :
    Stepped L (wordStep line text c rest) (wordStep other word d more) := by
  unfold wordStep
  have blank : isBlank c = isBlank d := looks.eq caseless_isBlank
  have mark : marks.contains c = marks.contains d := looks.eq caseless_marks
  simp only [looks.beq '\n', looks.beq '_', looks.beq '[', looks.beq '&', blank, mark, forall₂_isEmpty texts,
    head?_all_eq later caseless_isBlank, startsHex_eq later]
  have words := wordTokens_alike texts lines
  split_ifs
  · exact ⟨rel_append words (.cons (alike_of_line lines) .nil),
      by simp only [lines, Nat.add_right_comm], .word .nil⟩
  · exact ⟨words, lines, .word .nil⟩
  · exact ⟨.nil, lines, .continuation⟩
  · exact ⟨.nil, lines, .escaped (.cons looks .nil)⟩
  · exact ⟨.nil, lines, .hexOpening⟩
  · have single : L.text (String.ofList [c]) = L.text (String.ofList [d]) := text_ofList (.cons looks .nil)
    exact ⟨rel_append words (.cons (alike_ofWord single lines) .nil), lines, .word .nil⟩
  · exact ⟨.nil, lines, .word (.cons looks texts)⟩

theorem hexToken_alike [L.IsFree] (looks : Forall₂ L.Looks text word) (lines : other = line + L.shift) :
    L.Results (Token.Alike L) (hexToken text line) (hexToken word other) := by
  have digits := rel_reverse looks
  have value : ofHexDigits text.reverse = ofHexDigits word.reverse := by
    have folded := foldCase_eq (text_ofList digits)
    have letters := congrArg String.toList folded
    simp only [toList_foldCase, String.toList_ofList] at letters
    rw [← ofHexDigits_map_toLower, letters, ofHexDigits_map_toLower]
  unfold hexToken
  simp only [value]
  split
  · exact .ok (alike_of_line lines)
  · refine .error (.malformed (by omega) ?_)
    simp only [Problem.mapText, text_ofList digits]

theorem keeps_alike [L.IsFree] : machine.Keeps L L.Looks (Scan.Alike L) (Token.Alike L) where
  step := by
    rintro ⟨line, mode⟩ ⟨line', mode'⟩ c d rest more ⟨lines, modes⟩ looks later
    simp only at lines modes
    change L.Results (Stepped L) (step _ c rest) (step _ d more)
    cases modes with
    | word texts => exact .ok (wordStep_alike lines texts looks later)
    | continuation =>
      have blank : isBlank c = isBlank d := looks.eq caseless_isBlank
      simp only [step, looks.beq '\n', blank]
      split_ifs
      · exact .ok ⟨.nil, by simp only [lines, Nat.add_right_comm], .word .nil⟩
      · exact .ok ⟨.nil, lines, .continuation⟩
      · exact .error (.reported .brokenContinuation (by omega))
    | escaped texts =>
      simp only [step, looks.beq ']', looks.beq '\n']
      split_ifs
      · have same := text_ofList (rel_reverse (.cons looks texts))
        exact .ok ⟨.cons ⟨⟨rfl, same, lines⟩, nofun, Likeness.IsFree.known _⟩ .nil, lines, .word .nil⟩
      · exact .error (.malformed (by omega) rfl)
      · exact .ok ⟨.nil, lines, .escaped (.cons looks texts)⟩
    | hexOpening => exact .ok ⟨.nil, lines, .hex .nil⟩
    | hex texts =>
      have digit : isHexDigit c = isHexDigit d := looks.eq caseless_isHexDigit
      simp only [step, digit]
      split_ifs
      · exact .ok ⟨.nil, lines, .hex (.cons looks texts)⟩
      · have first := hexToken_alike texts lines
        generalize hexToken _ line = result at first ⊢
        generalize hexToken _ line' = other at first ⊢
        cases first with
        | ok number =>
          obtain ⟨tokens, next⟩ := wordStep_alike lines .nil looks later
          exact .ok ⟨.cons number tokens, next⟩
        | error alike => exact .error alike
  finish := by
    rintro ⟨line, mode⟩ ⟨line', mode'⟩ ⟨lines, modes⟩
    simp only at lines modes
    cases modes with
    | word texts => exact .ok (wordTokens_alike texts lines)
    | continuation => exact .error (.reported .brokenContinuation (by simp only [lines, Nat.add_right_comm]))
    | escaped _ => exact .error (.malformed (by simp only [lines, Nat.add_right_comm]) rfl)
    | hexOpening => exact .ok .nil
    | hex texts => exact (hexToken_alike texts lines).map fun number => .cons number .nil

end Atom

/-! ### Scripts -/

/-- The dates that are written in a script, in order. -/
def dateLiterals (script : String) : List String :=
  match passages script with
  | .ok tokens => (tokens.filter (·.kind == .date)).map Token.text
  | .error _ => []

/-- Tokens that look the same are alike if their dates are spelled the same. -/
theorem forall₂_alike [L.IsFree] {tokens others : List Token} (looks : Forall₂ (Resembles L) tokens others)
    (dates : (tokens.filter (·.kind == .date)).map Token.text = (others.filter (·.kind == .date)).map Token.text) :
    Forall₂ (Token.Alike L) tokens others := by
  induction looks with
  | nil => exact .nil
  | @cons t u _ _ same _ ih =>
    by_cases isDate : t.kind = .date
    · simp only [filter_cons, isDate, ← same.kind, beq_self_eq_true, if_true, map_cons, cons.injEq] at dates
      exact .cons ⟨same, fun _ => dates.1, Likeness.IsFree.known t⟩ (ih dates.2)
    · have other : (t.kind == .date) = false := beq_eq_false_iff_ne.mpr isDate
      simp only [filter_cons, other, ← same.kind, Bool.false_eq_true, if_false] at dates
      exact .cons ⟨same, fun found => absurd found isDate, Likeness.IsFree.known t⟩ (ih dates)

theorem Token.Alike.atoms [L.IsFree] {t u : Token} (alike : t.Alike L u) :
    L.Results (Forall₂ (Token.Alike L)) t.atoms u.atoms := by
  unfold Token.atoms
  simp only [alike.kind]
  split
  · exact Atom.keeps_alike.run ⟨alike.line, .word .nil⟩ (Likeness.text_eq_iff.mp alike.text)
  · exact .ok (.cons alike .nil)

theorem passages_alike {script other : String} (level : L.shift = 0) (looks : L.text script = L.text other) :
    L.Results (Forall₂ (Resembles L)) (passages script) (passages other) :=
  Passage.keeps_alike.run ⟨by simp [level], .nil, nofun, fun _ => rfl, .code⟩ (Likeness.text_eq_iff.mp looks)

/-- Scripts that look the same and spell their dates the same have alike tokens. -/
theorem scanTokens_alike [L.IsFree] {script other : String} (level : L.shift = 0) (looks : L.text script = L.text other)
    (dates : dateLiterals script = dateLiterals other) :
    L.Results (Forall₂ (Token.Alike L)) (scanTokens script) (scanTokens other) := by
  have cut := passages_alike level looks
  unfold dateLiterals at dates
  unfold scanTokens
  generalize passages script = first at cut dates ⊢
  generalize passages other = second at cut dates ⊢
  cases cut with
  | error alike => exact .error alike
  | ok resemble =>
    have broken := Likeness.Results.mapM (forall₂_alike resemble dates) Token.Alike.atoms
    exact broken.bind fun parts => .ok (rel_flatten parts)

end VbSharp
