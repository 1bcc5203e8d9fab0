import Mathlib.Data.List.TakeWhile
import VbSharp.Proofs.Token.Forms

/-!
# Where comments stand

The first machine puts a terminator before a comment that shares its line with code. What it sees of the line
is the text that is pending, without the spaces and tabs at its end, and the kind of the last literal. The
second machine breaks that text into words later on, and may then hide the line end that the first one relied
on. So two kinds of text let a comment slip into a statement, and only these: blanks behind a literal that
are neither spaces nor tabs, and a line that an underscore continues.
-/
namespace VbSharp

open List Transducer Token

variable {text digits tail back : List Char} {ps tokens before front last after : List Token} {total line : Nat}
  {raw p t : Token}

variable (pending : List Char)

/-- Whether the token is a comment. -/
def Token.isComment (t : Token) : Bool :=
  t.kind == .comment || t.kind == .inlineComment

/-- Every comment is the first token or stands directly behind a terminator. -/
def CommentsStart (tokens : List Token) : Prop :=
  ∀ before c after, tokens = before ++ c :: after → c.isComment = true → before.getLast?.all Token.isTerminator = true

/-- A token that ends with a quote or a hash. -/
def Token.isDelimited (t : Token) : Bool :=
  t.kind == .string || t.kind == .date

/-! ### What stands before a comment -/

namespace Passage

/-- Raw text that stands behind other passages: at the start of a script, behind a literal, or at the end of a
line behind a comment. -/
def Leads (front : List Token) (text : List Char) : Prop :=
  front = [] ∨ front.getLast?.any isDelimited = true ∨ text.head? = some '\n'

/-- What can stand before a comment that is inline or not. -/
inductive Introduces (before : List Token) : Bool → Prop where
  /-- Nothing. -/
  | first : before = [] → Introduces before false
  /-- The line end that is put in front of it. -/
  | lineEnd (front : List Token) (line : Nat) : before = front ++ [Token.lineEnd line] → Introduces before true
  /-- Code that ends with a colon. -/
  | colon (front : List Token) (raw : Token) : before = front ++ [raw] → raw.kind = .raw →
    raw.text.toList.getLast? = some ':' → Introduces before true
  /-- Code whose last line is blank. -/
  | blank (front : List Token) (raw : Token) : before = front ++ [raw] → raw.kind = .raw →
    (raw.text.toList.reverse.takeWhile (· != '\n')).all isBlank = true →
    Leads front raw.text.toList → Introduces before false

/-- What has been written before the place where a scan stands. -/
def Standing (done : List Token) (s : Scan) : Prop :=
  match s.mode with
  | .code =>
    if s.afterLiteral then done.getLast?.any isDelimited = true
    else done = [] ∨ s.pending.getLast? = some '\n'
  | .string _ | .quote _ | .date _ => True
  | .comment inline _ _ => s.afterLiteral = false ∧ s.pending = [] ∧ Introduces done inline

/-- Every comment written so far was introduced. -/
def AllIntroduced (done : List Token) : Prop :=
  ∀ before c after, done = before ++ c :: after → c.isComment = true → Introduces before (c.kind == .inlineComment)

theorem AllIntroduced.concat {done : List Token} {c : Token} (all : AllIntroduced done)
    (introduced : c.isComment = true → Introduces done (c.kind == .inlineComment)) : AllIntroduced (done ++ [c]) := by
  intro before d after split comment
  rcases eq_nil_or_concat after with rfl | ⟨middle, last, rfl⟩
  · obtain ⟨rfl, same⟩ := append_inj' split rfl
    obtain rfl : c = d := by simpa using same
    exact introduced comment
  · rw [concat_eq_append, ← cons_append, ← append_assoc] at split
    obtain ⟨same, -⟩ := append_inj' split rfl
    exact all before d middle same comment

/-- Tokens that are no comments need nothing before them. -/
theorem AllIntroduced.append {done out : List Token} (all : AllIntroduced done)
    (plain : ∀ t ∈ out, t.isComment = false) : AllIntroduced (done ++ out) := by
  induction out generalizing done with
  | nil => rwa [append_nil]
  | cons t rest ih =>
    obtain ⟨first, others⟩ := forall_mem_cons.mp plain
    rw [append_cons]
    refine ih (all.concat fun comment => ?_) others
    rw [first] at comment
    cases comment

theorem isComment_rawTokens (start : Nat) : ∀ t ∈ rawTokens pending start, t.isComment = false := by
  unfold rawTokens
  split <;> simp [isComment]

/-- Dropping indentation at the end of pending text keeps how the text starts. -/
theorem getLast?_dropWhile :
    if pending.dropWhile isIndent = [] then pending.getLast? ≠ some '\n'
    else (pending.dropWhile isIndent).getLast? = pending.getLast? := by
  split
  next indent =>
    intro ends
    have dropped := dropWhile_eq_nil_iff.mp indent '\n' (mem_of_getLast? ends)
    exact absurd dropped (by decide)
  next filled =>
    obtain ⟨front, same⟩ := dropWhile_suffix isIndent (l := pending)
    have last := @getLast?_append _ front (pending.dropWhile isIndent)
    rw [same, getLast?_eq_some_getLast filled] at last
    rw [last, getLast?_eq_some_getLast filled]
    rfl

theorem rawTokens_of_ne_nil (filled : text ≠ []) (start : Nat) :
    rawTokens text start = [⟨.raw, String.ofList text.reverse, start⟩] := by
  simp [rawTokens, filled]

theorem introduces_openComment {done : List Token} {s : Scan} (code : s.mode = .code)
    (standing : Standing done s) (skip : Nat) : ∃ inline, (s.openComment skip).2.mode = .comment inline skip [] ∧
      Introduces (done ++ (s.openComment skip).1) inline := by
  simp only [Standing, code] at standing
  refine ⟨_, rfl, ?_⟩
  simp only [Scan.openComment]
  have last := getLast?_dropWhile s.pending
  generalize s.pending.dropWhile isIndent = text at last
  cases inline : !(text.takeWhile (· != '\n')).all isBlank || text.isEmpty && s.afterLiteral with
  | true =>
    by_cases colon : (text.takeWhile (· != '\n')).head? = some ':'
    · have head : text.head? = some ':' := by
        rw [head?_takeWhile] at colon
        exact (Option.filter_eq_some_iff.mp colon).1
      have filled : text ≠ [] := by
        rintro rfl
        cases head
      rw [rawTokens_of_ne_nil filled, colon]
      refine .colon done ⟨.raw, String.ofList text.reverse, s.start⟩ (by simp) rfl ?_
      simpa using head
    · refine .lineEnd (done ++ rawTokens text s.start) s.line ?_
      simp [colon]
  | false =>
    simp only [Bool.or_eq_false_iff, Bool.not_eq_false'] at inline
    obtain ⟨blank, literal⟩ := inline
    by_cases empty : text = []
    · -- nothing but indentation is pending, so the script starts here
      have plain : s.afterLiteral = false := by simpa [empty] using literal
      rw [if_pos empty] at last
      rw [plain] at standing
      obtain rfl : done = [] := standing.resolve_right last
      exact .first (by simp [empty, rawTokens])
    · rw [rawTokens_of_ne_nil empty]
      refine .blank done ⟨.raw, String.ofList text.reverse, s.start⟩ rfl rfl (by simpa using blank) ?_
      split at standing
      · exact .inr (.inl standing)
      · rcases standing with rfl | ends
        · exact .inl rfl
        · refine .inr (.inr ?_)
          rw [if_neg empty] at last
          simpa [last] using ends

/-- The scan keeps to what it may find before a comment. -/
structure Fits (done : List Token) (s : Scan) : Prop where
  introduced : AllIntroduced done
  standing : Standing done s

variable {done out : List Token} {s next : Scan} {c : Char} {rest : List Char}

theorem Fits.push (fits : Fits done s) (code : s.mode = .code) (line : Nat) :
    Fits (done ++ []) { s.push c with line := line } := by
  refine ⟨by simpa using fits.introduced, ?_⟩
  have standing := fits.standing
  simp only [Standing, code, Scan.push, append_nil] at standing ⊢
  split at standing
  · simp [*]
  · simp only [*, if_false, Bool.false_eq_true]
    exact standing.imp_right fun ends => by simp [getLast?_cons, ends]

theorem Fits.moves (fits : Fits done s) (code : s.mode = .code) (moves : Moves s c out next) : Fits (done ++ out) next := by
  cases moves with
  | literal mode opens =>
    refine ⟨fits.introduced.append (isComment_rawTokens _ _), ?_⟩
    rcases opens with ⟨-, rfl⟩ | ⟨-, rfl⟩ <;> trivial
  | comment skip opens =>
    obtain ⟨inline, mode, introduces⟩ := introduces_openComment code fits.standing skip
    refine ⟨fits.introduced.append ?_, ?_⟩
    · refine forall_mem_append.mpr ⟨isComment_rawTokens _ _, ?_⟩
      split <;> simp [isComment, Token.lineEnd]
    · simp only [Standing, mode]
      exact ⟨rfl, rfl, introduces⟩
  | lineEnd ends => exact fits.push code _
  | other stays => exact fits.push code s.line

theorem Fits.closeLiteral (fits : Fits done s) (kind : Kind) (text : List Char) (delimited : kind = .string ∨ kind = .date) :
    Fits (done ++ (s.closeLiteral kind text).1) (s.closeLiteral kind text).2 := by
  refine ⟨fits.introduced.concat fun comment => ?_, ?_⟩
  · rcases delimited with rfl | rfl <;> cases comment
  · rcases delimited with rfl | rfl <;> simp [Standing, Scan.closeLiteral, isDelimited]

theorem Fits.step (fits : Fits done s) (stepped : Passage.step s c rest = .ok (out, next)) :
    Fits (done ++ out) next := by
  have standing := fits.standing
  cases steps_of_ok stepped with
  | code mode moves => exact fits.moves mode moves
  | inside next stays within =>
    refine ⟨by simpa using fits.introduced, ?_⟩
    rcases within with ⟨text, ⟨-, ⟨-, rfl⟩ | ⟨-, rfl⟩⟩ | ⟨-, -, rfl⟩ | ⟨-, -, rfl⟩⟩ <;> trivial
  | closed mode moves =>
    -- the literal is complete, and the character is one of code behind it
    rw [← append_assoc]
    exact (fits.closeLiteral .string _ (.inl rfl)).moves rfl moves
  | dated mode closes => exact fits.closeLiteral .date _ (.inr rfl)
  | @commented inline _ _ mode ends =>
    simp only [Standing, mode] at standing
    obtain ⟨plain, empty, introduces⟩ := standing
    refine ⟨fits.introduced.concat fun _ => ?_, ?_⟩
    · cases inline <;> exact introduces
    · -- the line end is the first character of the text behind the comment
      simp [Standing, Scan.push, plain, empty, ends]
  | comment mode stays =>
    simp only [Standing, mode] at standing
    obtain ⟨plain, empty, introduces⟩ := standing
    exact ⟨by simpa using fits.introduced, plain, empty, by simpa using introduces⟩

/-- Every comment of a script is introduced by what stands before it. -/
theorem allIntroduced_passages {script : String} (ok : passages script = .ok ps) : AllIntroduced ps := by
  obtain ⟨out, s, last, fed, ended, rfl⟩ := run_ok_iff.mp ok
  have start : Fits [] {} := ⟨by simp [AllIntroduced], by simp [Standing]⟩
  have fits : Fits out s := 
    feed_invariant (P := fun done s _ => Fits done s) (fun fits stepped => fits.step stepped) start fed
  have standing := fits.standing
  replace ended : finish s = .ok last := ended
  unfold finish at ended
  cases mode : s.mode with
  | code =>
    obtain rfl : rawTokens s.pending s.start = last := by simpa [mode] using ended
    exact fits.introduced.append (isComment_rawTokens _ _)
  | string text => simp [mode] at ended
  | quote text =>
    obtain rfl : (s.closeLiteral .string text).1 = last := by simpa [mode] using ended
    exact fits.introduced.append (by simp [Scan.closeLiteral, isComment])
  | date text => simp [mode] at ended
  | comment inline skip text =>
    obtain rfl : [s.commentToken inline text] = last := by simpa [mode] using ended
    simp only [Standing, mode] at standing
    refine fits.introduced.concat fun _ => ?_
    cases inline <;> exact standing.2.2

end Passage

/-! ### The words before a comment -/

namespace Atom

variable {s next : Scan} {c : Char} {rest : List Char} {out : List Token}

theorem cut_of_atoms {front : List Char} (ok : atoms (String.ofList (front ++ back)) line = .ok out) :
    ∃ first s more, machine.feed back { line := line } front = .ok (first, s) ∧
      Fits (line + lineFeeds (front ++ back)) s back ∧ machine.run s back = .ok more ∧ out = first ++ more := by
  simp only [atoms, String.toList_ofList] at ok
  obtain ⟨made, next, last, fed, ended, rfl⟩ := run_ok_iff.mp ok
  obtain ⟨first, s, second, fedFront, fedBack, rfl⟩ := feed_append_ok_iff.mp fed
  rw [append_nil] at fedFront
  refine ⟨first, s, second ++ last, fedFront, ?_, ?_, by simp⟩
  · exact feed_invariant (P := fun _ => Fits _) (fun fits stepped => fits.step stepped) ⟨by simp, rfl⟩ fedFront
  · exact run_ok_iff.mpr ⟨second, next, last, fedBack, ended, rfl⟩

theorem run_blank (line : Nat) (blank : text.all isBlank = true) (inLine : '\n' ∉ text) :
    machine.run ⟨line, .word []⟩ text = .ok [] := by
  induction text with
  | nil => rfl
  | cons c text ih =>
    obtain ⟨isBlank, blank⟩ : isBlank c = true ∧ text.all VbSharp.isBlank = true := by simpa using blank
    obtain ⟨stays, inLine⟩ : '\n' ≠ c ∧ '\n' ∉ text := by simpa using inLine
    have stepped : machine.step ⟨line, .word []⟩ c text = .ok ([], ⟨line, .word []⟩) := by
      simp [machine, step, wordStep, isBlank, stays.symm, wordTokens]
    rw [Transducer.run_cons, stepped]
    simp only [Except.bind, ih blank inLine]
    rfl

/-- Without a bracket that closes it, an escaped name is refused. -/
theorem run_escaped (line : Nat) (name : List Char) (unclosed : ']' ∉ text) :
    ∃ fault, machine.run ⟨line, .escaped name⟩ text = .error fault := by
  induction text generalizing name with
  | nil => exact ⟨_, rfl⟩
  | cons c text ih =>
    obtain ⟨opened, unclosed⟩ : ']' ≠ c ∧ ']' ∉ text := by simpa using unclosed
    rw [Transducer.run_cons]
    by_cases ends : c = '\n'
    · exact ⟨.malformed (line + 1) .unclosedEscapedName, by simp [machine, step, ends, Except.bind]⟩
    · obtain ⟨fault, failed⟩ := ih (c :: name) unclosed
      have stepped : machine.step ⟨line, .escaped name⟩ c text = .ok ([], ⟨line, .escaped (c :: name)⟩) := by
        simp [machine, step, opened.symm, ends]
      exact ⟨fault, by simp [stepped, Except.bind, failed, Except.map]⟩

theorem Moves.separator (separates : c = '\n' ∨ c = ':') (moves : Moves line text c rest out next) :
    next.mode = .word [] ∧ ∃ t, out.getLast? = some t ∧ t.isTerminator = true := by
  have solid : c = ':' → isBlank c = false ∧ c ∈ marks := by
    rintro rfl
    decide
  cases moves with
  | lineEnd ends => exact ⟨rfl, .lineEnd line, by simp, rfl⟩
  | blank stays blank => simp [(solid (separates.resolve_left stays)).1] at blank
  | opens mode stays opening =>
    obtain rfl := separates.resolve_left stays
    simp at opening
  | mark stays isMark =>
    obtain rfl := separates.resolve_left stays
    exact ⟨rfl, .ofWord ":" line, by simp, rfl⟩
  | letter plain =>
    rcases separates with rfl | isColon
    · exact absurd plain.1 (by decide)
    · exact absurd (solid isColon).2 plain.2

theorem step_separator (separates : c = '\n' ∨ c = ':') (fits : Fits total s (c :: rest))
    (stepped : step s c rest = .ok (out, next)) :
    s.mode = .continuation ∧ c = '\n' ∨ (∃ text, next.mode = .escaped text) ∨
      next.mode = .word [] ∧ ∃ t, out.getLast? = some t ∧ t.isTerminator = true := by
  cases steps_of_ok stepped with
  | word mode moves => exact .inr (.inr (moves.separator separates))
  | joined mode ends => exact .inl ⟨mode, ends⟩
  | passed mode blank stays =>
    obtain rfl := separates.resolve_left stays
    exact absurd blank (by decide)
  | closed mode closes => simp [closes] at separates
  | inside mode opened => exact .inr (.inl ⟨_, rfl⟩)
  | letter mode =>
    -- a letter would have to follow
    have letter := fits.opening mode
    rcases separates with rfl | rfl <;> cases rest <;> simp [startsHex] at letter
  | digit mode isDigit => rcases separates with rfl | rfl <;> exact absurd isDigit (by decide)
  | number mode made moves =>
    obtain ⟨mode, t, last, isEnd⟩ := moves.separator separates
    exact .inr (.inr ⟨mode, t, by simp [getLast?_cons, last], isEnd⟩)

/-- Where nothing but blanks follow, a line end or a colon is the last word, unless an underscore hides
the line end. -/
theorem run_separator (separates : c = '\n' ∨ c = ':') (fits : Fits total s (c :: tail))
    (blank : tail.all isBlank = true) (inLine : '\n' ∉ tail) (ran : machine.run s (c :: tail) = .ok out) :
    s.mode = .continuation ∧ c = '\n' ∨ ∃ t, out.getLast? = some t ∧ t.isTerminator = true := by
  rw [Transducer.run_cons] at ran
  cases stepped : machine.step s c tail with
  | error fault => simp [stepped, Except.bind] at ran
  | ok result =>
    obtain ⟨first, next⟩ := result
    obtain ⟨line, mode⟩ := next
    rw [stepped] at ran
    rcases step_separator separates fits stepped with hidden | ⟨name, rfl⟩ | ⟨rfl, t, last, isEnd⟩
    · exact .inl hidden
    · have unclosed : ']' ∉ tail := fun closes => absurd (all_eq_true.mp blank _ closes) (by decide)
      obtain ⟨fault, failed⟩ := run_escaped line name unclosed
      simp [Except.bind, failed, Except.map] at ran
    · refine .inr ⟨t, ?_, isEnd⟩
      simp only [Except.bind, run_blank line blank inLine] at ran
      obtain rfl : first = out := by simpa [Except.map] using ran
      exact last

/-- A line end behind some text looks to it like the end of all text. -/
theorem feed_lineEnd (tail text : List Char) (s : Scan) :
    machine.feed ('\n' :: tail) s text = machine.feed [] s text := by
  induction text generalizing s with
  | nil => rfl
  | cons c text ih =>
    have same : machine.step s c (text ++ '\n' :: tail) = machine.step s c (text ++ []) := by
      refine step_congr ?_ ?_ s c
      · cases text <;> rfl
      · match text with
        | [] => cases tail <;> rfl
        | [_] => simp [startsHex, show isHexDigit '\n' = false from rfl]
        | _ :: _ :: _ => rfl
    simp only [feed, same, ih]

end Atom

/-- Raw text whose last line end is hidden by an underscore before it. -/
def Token.ContinuesLine (raw : Token) : Prop :=
  ∃ front tail n, raw.text.toList = front ++ '\n' :: tail ∧ '\n' ∉ tail ∧
    VbSharp.atoms (String.ofList front) raw.line = .error (.brokenContinuation n)

/-- Blanks behind a string or date literal, on its line. -/
def Token.FollowsLiteral (raw : Token) (front : List Token) : Prop :=
  front.getLast?.any isDelimited = true ∧ raw.text.toList.all isBlank = true ∧ '\n' ∉ raw.text.toList

/-- A text has no line end, or it has a last one. -/
theorem lastLine_cases (text : List Char) :
    '\n' ∉ text ∧ (text.reverse.takeWhile (· != '\n')).reverse = text ∨
      ∃ front, text = front ++ '\n' :: (text.reverse.takeWhile (· != '\n')).reverse := by
  have whole := takeWhile_append_dropWhile (p := (· != '\n')) (l := text.reverse)
  cases cut : text.reverse.dropWhile (· != '\n') with
  | nil =>
    left
    rw [cut, append_nil] at whole
    refine ⟨fun ends => ?_, by rw [whole, reverse_reverse]⟩
    have passed := dropWhile_eq_nil_iff.mp cut '\n' (by simpa using ends)
    exact absurd passed (by decide)
  | cons c before =>
    right
    have ends : c = '\n' := by
      have stopped := head?_dropWhile_not (· != '\n') text.reverse
      simpa [cut] using stopped
    refine ⟨before.reverse, ?_⟩
    rw [cut, ends] at whole
    simpa using (congrArg reverse whole).symm

/-- What raw text whose last line is blank leaves before a comment. -/
theorem atoms_of_blankLine {out : List Token} (isRaw : raw.kind = .raw)
    (blank : (raw.text.toList.reverse.takeWhile (· != '\n')).all isBlank = true) (ok : raw.atoms = .ok out) :
    (∃ t, out.getLast? = some t ∧ t.isTerminator = true) ∨ raw.ContinuesLine ∨
      out = [] ∧ raw.text.toList.all isBlank = true ∧ '\n' ∉ raw.text.toList := by
  rw [Token.atoms, if_pos isRaw] at ok
  have onLine : '\n' ∉ (raw.text.toList.reverse.takeWhile (· != '\n')).reverse := by
    rw [mem_reverse]
    intro ends
    exact absurd (mem_takeWhile_imp ends) (by decide)
  have last := lastLine_cases raw.text.toList
  rw [← all_reverse] at blank
  generalize (raw.text.toList.reverse.takeWhile (· != '\n')).reverse = tail at onLine last blank
  rcases last with ⟨inLine, rfl⟩ | ⟨front, cut⟩
  · refine .inr (.inr ⟨?_, blank, inLine⟩)
    rw [atoms, Atom.run_blank raw.line blank inLine] at ok
    exact (Except.ok.inj ok).symm
  · rw [← String.ofList_toList (s := raw.text), cut] at ok
    obtain ⟨first, s, more, fed, fits, ran, rfl⟩ := Atom.cut_of_atoms ok
    rcases Atom.run_separator (.inl rfl) fits blank onLine ran with ⟨hidden, -⟩ | ⟨t, last, isEnd⟩
    · -- the text before the line end breaks off behind the underscore
      refine .inr (.inl ⟨front, tail, s.line + 1, cut, onLine, ?_⟩)
      rw [Atom.feed_lineEnd] at fed
      have broken := run_append fed
      rw [append_nil, Transducer.run_nil] at broken
      simpa [atoms, Atom.machine, Atom.finish, hidden, Except.map] using broken
    · exact .inl ⟨t, by simp [getLast?_append, last], isEnd⟩

theorem atoms_of_colon {out : List Token} (isRaw : raw.kind = .raw) (ends : raw.text.toList.getLast? = some ':')
    (ok : raw.atoms = .ok out) : ∃ t, out.getLast? = some t ∧ t.isTerminator = true := by
  obtain ⟨front, cut⟩ := getLast?_eq_some_iff.mp ends
  rw [Token.atoms, if_pos isRaw, ← String.ofList_toList (s := raw.text), cut] at ok
  obtain ⟨first, s, more, -, fits, ran, rfl⟩ := Atom.cut_of_atoms ok
  rcases Atom.run_separator (.inr rfl) fits rfl (by simp) ran with ⟨-, ⟨⟩⟩ | ⟨t, last, isEnd⟩
  exact ⟨t, by simp [getLast?_append, last], isEnd⟩

/-! ### Comments among the words -/

theorem wordsOf_concat_ok_iff : wordsOf (ps ++ [p]) = .ok tokens ↔
    ∃ more out, wordsOf ps = .ok more ∧ p.atoms = .ok out ∧ tokens = more ++ out := by
  rw [wordsOf_append_ok_iff]
  constructor
  · rintro ⟨more, _, worded, last, rfl⟩
    obtain ⟨out, _, made, ⟨⟩, rfl⟩ := wordsOf_cons_ok_iff.mp last
    exact ⟨more, out, worded, made, by simp⟩
  · rintro ⟨more, out, worded, made, rfl⟩
    exact ⟨more, out, worded, wordsOf_cons_ok_iff.mpr ⟨out, [], made, rfl, by simp⟩, rfl⟩

theorem isComment_atoms {out : List Token} (isRaw : p.kind = .raw) (ok : p.atoms = .ok out) :
    ∀ t ∈ out, t.isComment = false := by
  rw [Token.atoms, if_pos isRaw] at ok
  intro t member
  have kind := (Atom.forms_of_atoms ok t member).isOfWord
  unfold isComment
  cases given : t.kind <;> simp [given, Kind.isOfWord] at kind ⊢

theorem exists_passage_of_comment {c : Token} (comment : c.isComment = true)
    (ok : wordsOf ps = .ok (before ++ c :: after)) :
    ∃ front rest, ps = front ++ c :: rest ∧ wordsOf front = .ok before := by
  induction ps generalizing before with
  | nil =>
    have none : before ++ c :: after = [] := (Except.ok.inj ok).symm
    simp at none
  | cons p ps ih =>
    obtain ⟨out, more, made, worded, split⟩ := wordsOf_cons_ok_iff.mp ok
    have later (between : List Token) (same : more = between ++ c :: after) :
        ∃ front rest, p :: ps = front ++ c :: rest ∧ wordsOf front = .ok (out ++ between) := by
      subst same
      obtain ⟨front, rest, rfl, wordedFront⟩ := ih worded
      exact ⟨p :: front, rest, rfl, wordsOf_cons_ok_iff.mpr ⟨out, between, made, wordedFront, rfl⟩⟩
    rcases append_eq_append_iff.mp split with ⟨inside, rfl, same⟩ | ⟨between, rfl, same⟩
    · match inside, same with
      | [], same => simpa using later [] same.symm
      | _ :: inside, same =>
        obtain ⟨rfl, -⟩ := cons.inj same
        -- the words of raw text are no comments, so the passage is the comment itself
        have single : p.kind ≠ .raw := by
          intro isRaw
          simp [isComment_atoms isRaw made c (by simp)] at comment
        rw [Token.atoms, if_neg single] at made
        have whole : [p] = before ++ c :: inside := Except.ok.inj made
        obtain ⟨rfl, rfl, -⟩ : before = [] ∧ c = p ∧ inside = [] := by
          simpa [singleton_eq_append_iff] using whole
        exact ⟨[], ps, rfl, rfl⟩
    · exact later between same

/-- What a comment finds before it is a terminator or one of the two texts that hide it. -/
theorem before_comment {inline : Bool} (introduces : Passage.Introduces front inline)
    (ok : wordsOf front = .ok before) :
    before.getLast?.all Token.isTerminator = true ∨ inline = false ∧ ∃ earlier raw,
      front = earlier ++ [raw] ∧ raw.kind = .raw ∧ (raw.ContinuesLine ∨ raw.FollowsLiteral earlier) := by
  have ended {more out : List Token} {t : Token} (last : out.getLast? = some t)
      (isEnd : t.isTerminator = true) : (more ++ out).getLast?.all Token.isTerminator = true := by
    simp [getLast?_append, last, isEnd]
  cases introduces with
  | first empty =>
    subst empty
    obtain rfl : [] = before := Except.ok.inj ok
    exact .inl rfl
  | lineEnd earlier line cut =>
    subst cut
    obtain ⟨more, _, -, ⟨⟩, rfl⟩ := wordsOf_concat_ok_iff.mp ok
    exact .inl (ended rfl rfl)
  | colon earlier raw cut isRaw ends =>
    subst cut
    obtain ⟨more, out, -, made, rfl⟩ := wordsOf_concat_ok_iff.mp ok
    obtain ⟨t, last, isEnd⟩ := atoms_of_colon isRaw ends made
    exact .inl (ended last isEnd)
  | blank earlier raw cut isRaw blank leads =>
    subst cut
    obtain ⟨more, out, worded, made, rfl⟩ := wordsOf_concat_ok_iff.mp ok
    rcases atoms_of_blankLine isRaw blank made with ⟨t, last, isEnd⟩ | continues | ⟨rfl, allBlank, inLine⟩
    · exact .inl (ended last isEnd)
    · exact .inr ⟨rfl, earlier, raw, rfl, isRaw, .inl continues⟩
    · rcases leads with rfl | literal | lineEnd
      · obtain rfl : [] = more := Except.ok.inj worded
        exact .inl rfl
      · exact .inr ⟨rfl, earlier, raw, rfl, isRaw, .inr ⟨literal, allBlank, inLine⟩⟩
      · exact absurd (mem_of_head? lineEnd) inLine

theorem not_commentsStart_of_followsLiteral {rest : List Token} {c : Token} (isRaw : raw.kind = .raw)
    (comment : c.isComment = true) (follows : raw.FollowsLiteral front)
    (ok : wordsOf (front ++ raw :: c :: rest) = .ok tokens) : ¬ CommentsStart tokens := by
  obtain ⟨delimited, blank, inLine⟩ := follows
  obtain ⟨literal, last, isLiteral⟩ := (Option.any_eq_true ..).mp delimited
  obtain ⟨earlier, rfl⟩ := getLast?_eq_some_iff.mp last
  obtain ⟨before, _, wordedFront, wordedRest, rfl⟩ := wordsOf_append_ok_iff.mp ok
  obtain ⟨more, out, -, made, rfl⟩ := wordsOf_concat_ok_iff.mp wordedFront
  obtain ⟨blanks, _, madeBlanks, wordedComment, rfl⟩ := wordsOf_cons_ok_iff.mp wordedRest
  obtain ⟨own, after, madeOwn, -, rfl⟩ := wordsOf_cons_ok_iff.mp wordedComment
  -- literal and comment stand for themselves, and the blanks between them leave nothing
  have literalKind : literal.kind = .string ∨ literal.kind = .date := by
    simpa [isDelimited] using isLiteral
  have commentKind : c.kind = .comment ∨ c.kind = .inlineComment := by
    simpa [isComment] using comment
  obtain rfl : [literal] = out := by
    rcases literalKind with kind | kind <;> simpa [Token.atoms, kind] using made
  obtain rfl : [c] = own := by
    rcases commentKind with kind | kind <;> simpa [Token.atoms, kind] using madeOwn
  obtain rfl : [] = blanks := by
    rw [Token.atoms, if_pos isRaw, atoms, Atom.run_blank raw.line blank inLine] at madeBlanks
    exact Except.ok.inj madeBlanks
  intro starts
  have isEnd := starts (more ++ [literal]) c after (by simp) comment
  rcases literalKind with kind | kind <;> simp [Token.isTerminator, kind] at isEnd

/-- A comment starts a statement, with two exceptions: behind a line that an underscore continues, and behind
a literal that only blanks set apart from it. -/
theorem comment_starts_statement (script : String) (tokens : List Token) (ok : scanTokens script = .ok tokens) :
    ∃ ps, passages script = .ok ps ∧
      (∀ before c after, tokens = before ++ c :: after → c.isComment = true →
        before.getLast?.all Token.isTerminator = true ∨
          c.kind = .comment ∧ ∃ front raw rest, ps = front ++ raw :: c :: rest ∧ raw.kind = .raw ∧
            (raw.ContinuesLine ∨ raw.FollowsLiteral front)) ∧
      ∀ front raw c rest, ps = front ++ raw :: c :: rest → raw.kind = .raw → c.isComment = true →
        raw.FollowsLiteral front → ¬ CommentsStart tokens := by
  obtain ⟨ps, ran, worded⟩ := tokens_ok_iff.mp ok
  refine ⟨ps, ran, ?_, ?_⟩
  · rintro before c after rfl comment
    obtain ⟨front, rest, rfl, wordedFront⟩ := exists_passage_of_comment comment worded
    have introduces := Passage.allIntroduced_passages ran front c rest rfl comment
    refine (before_comment introduces wordedFront).imp_right ?_
    rintro ⟨plain, earlier, raw, rfl, isRaw, hides⟩
    refine ⟨?_, earlier, raw, rest, by simp, isRaw, hides⟩
    simpa [isComment, beq_eq_false_iff_ne.mp plain] using comment
  · rintro front raw c rest rfl isRaw comment follows
    exact not_commentsStart_of_followsLiteral isRaw comment follows worded

/-- A no-break space between a string and a comment: the comment follows the string. -/
theorem comment_starts_statement_behind_string :
    scanTokens "a\u00a0' b\nx = \"y\"\u00a0' c" = .ok [.ofWord "a" 0, .lineEnd 0, ⟨.inlineComment, " b", 0⟩,
      .lineEnd 0, .ofWord "x" 1, .ofWord "=" 1, ⟨.string, "y", 1⟩, ⟨.comment, " c", 1⟩] ∧
    ¬ CommentsStart [.ofWord "a" 0, .lineEnd 0, ⟨.inlineComment, " b", 0⟩,
      .lineEnd 0, .ofWord "x" 1, .ofWord "=" 1, ⟨.string, "y", 1⟩, ⟨.comment, " c", 1⟩] := by
  refine ⟨rfl, ?_⟩
  obtain ⟨ps, ran, -, fails⟩ := comment_starts_statement "a\u00a0' b\nx = \"y\"\u00a0' c" _ rfl
  obtain rfl : [⟨.raw, "a\u00a0", 0⟩, .lineEnd 0, ⟨.inlineComment, " b", 0⟩, ⟨.raw, "\nx = ", 0⟩,
    ⟨.string, "y", 1⟩, ⟨.raw, "\u00a0", 1⟩, ⟨.comment, " c", 1⟩] = ps := Except.ok.inj ran
  exact fails [_, _, _, _, _] ⟨.raw, "\u00a0", 1⟩ ⟨.comment, " c", 1⟩ [] rfl rfl rfl ⟨rfl, rfl, by decide⟩

/-- Neither every comment behind a continued line starts a statement nor every comment behind a literal. -/
theorem not_every_comment_starts_statement :
    scanTokens "x = 1 _\n' c" = .ok [.ofWord "x" 0, .ofWord "=" 0, .ofWord "1" 0, ⟨.comment, " c", 1⟩] ∧
    ¬ CommentsStart [.ofWord "x" 0, .ofWord "=" 0, .ofWord "1" 0, ⟨.comment, " c", 1⟩] ∧
    scanTokens "x = \"a\"\u00a0' c" = .ok [.ofWord "x" 0, .ofWord "=" 0, ⟨.string, "a", 0⟩, ⟨.comment, " c", 0⟩] ∧
    ¬ CommentsStart [.ofWord "x" 0, .ofWord "=" 0, ⟨.string, "a", 0⟩, ⟨.comment, " c", 0⟩] := by
  refine ⟨rfl, fun starts => ?_, rfl, fun starts => ?_⟩
  · cases starts [_, _, _] _ [] rfl rfl
  · cases starts [_, _, _] _ [] rfl rfl

end VbSharp
