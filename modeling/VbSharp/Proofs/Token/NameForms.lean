import VbSharp.Program
import VbSharp.Proofs.Token.Forms

/-!
# What is taken for a name

A word or mark that is nothing else is a name. Six marks mean nothing, so each of them is a name where it stands alone,
and a program can use it as a variable.
-/
namespace VbSharp

open List

variable {t : Token} {tokens ps out : List Token}

variable {script : String}

namespace Passage

variable {s next : Scan} {c : Char} {rest : List Char}

theorem forms_rawTokens (pending : List Char) (start : Nat) :
    ∀ t ∈ rawTokens pending start, t.kind.isOfWord = true → Atom.Form t := by
  unfold rawTokens
  split <;> simp [Kind.isOfWord]

theorem form_commentToken (s : Scan) (inline : Bool) (text : List Char)
    (ofWord : (s.commentToken inline text).kind.isOfWord = true) : Atom.Form (s.commentToken inline text) := by
  cases inline <;> cases ofWord

theorem Moves.forms (moves : Moves s c out next) : ∀ t ∈ out, t.kind.isOfWord = true → Atom.Form t := by
  cases moves with
  | literal mode opens => exact forms_rawTokens _ _
  | comment skip opens =>
    refine forall_mem_append.mpr ⟨forms_rawTokens _ _, ?_⟩
    split
    · exact forall_mem_singleton.mpr fun _ => .lineEnd _
    · exact nofun
  | lineEnd ends | other stays => exact nofun

theorem forms_step (stepped : step s c rest = .ok (out, next)) : ∀ t ∈ out, t.kind.isOfWord = true → Atom.Form t := by
  cases steps_of_ok stepped with
  | code mode moves => exact moves.forms
  | inside next stays within | comment mode stays => exact nofun
  | closed mode moves => exact forall_mem_append.mpr ⟨forall_mem_singleton.mpr nofun, moves.forms⟩
  | dated mode closes => exact forall_mem_singleton.mpr nofun
  | commented mode ends => exact forall_mem_singleton.mpr (form_commentToken _ _ _)

theorem forms_finish (ended : finish s = .ok out) : ∀ t ∈ out, t.kind.isOfWord = true → Atom.Form t := by
  unfold finish at ended
  split at ended <;> cases ended
  · exact forms_rawTokens _ _
  · exact forall_mem_singleton.mpr nofun
  · exact forall_mem_singleton.mpr (form_commentToken _ _ _)

/-- No passage looks like a word, save for a line end. -/
theorem forms_passages (ok : passages script = .ok ps) : ∀ t ∈ ps, t.kind.isOfWord = true → Atom.Form t := by
  obtain ⟨made, s, last, fed, ended, rfl⟩ := Transducer.run_ok_iff.mp ok
  refine forall_mem_append.mpr ⟨?_, forms_finish ended⟩
  exact Transducer.feed_invariant (P := fun done _ _ => ∀ t : Token, t ∈ done → t.kind.isOfWord = true → Atom.Form t)
    (fun forms stepped => forall_mem_append.mpr ⟨forms, forms_step stepped⟩) nofun fed

end Passage

/-- Text between square brackets, on one line. -/
def IsEscapedName (text : String) : Prop :=
  ∃ name, text = String.ofList ('[' :: name ++ [']']) ∧ ∀ c ∈ name, c ≠ ']' ∧ c ≠ '\n'

/-- Text without blanks and marks. -/
def IsPlainWord (text : String) : Prop :=
  text.toList ≠ [] ∧ ∀ c ∈ text.toList, isBlank c = false ∧ c ∉ Atom.marks

/-- The marks that mean nothing. -/
def strayMarks : List Char :=
  ['!', '\x7b', '\x7d', '[', ']', ';']

/-- Text that is one of these marks. -/
def IsStrayMark (text : String) : Prop :=
  ∃ c ∈ strayMarks, text = String.ofList [c]

theorem mem_strayMarks_iff {c : Char} : c ∈ strayMarks ↔ c ∈ Atom.marks ∧ Kind.ofWord (String.ofList [c]) = .name := by
  have stray : strayMarks = Atom.marks.filter fun c => Kind.ofWord (String.ofList [c]) == .name := rfl
  rw [stray, mem_filter, beq_iff_eq]

theorem Atom.Form.of_name (form : Form t) (isName : t.kind = .name) :
    IsEscapedName t.text ∨ IsPlainWord t.text ∨ IsStrayMark t.text := by
  cases form with
  | word line filled plain => exact .inr (.inl (by simpa [IsPlainWord, Token.ofWord] using ⟨filled, plain⟩))
  | mark line isMark => exact .inr (.inr ⟨_, mem_strayMarks_iff.mpr ⟨isMark, isName⟩, rfl⟩)
  | lineEnd | number => cases isName
  | escaped line inside => exact .inl ⟨_, rfl, inside⟩

theorem IsStrayMark.improper {text : String} (stray : IsStrayMark text) : ¬ (IsEscapedName text ∨ IsPlainWord text) := by
  obtain ⟨c, isStray, rfl⟩ := stray
  rintro (⟨name, same, -⟩ | ⟨-, plain⟩)
  · simpa using congrArg (·.toList.length) same
  · exact (plain c (by simp)).2 (mem_strayMarks_iff.mp isStray).1

theorem exists_passage_of_mem (worded : wordsOf ps = .ok tokens) (member : t ∈ tokens) :
    ∃ p ∈ ps, ∃ out, p.atoms = .ok out ∧ t ∈ out := by
  induction ps generalizing tokens with
  | nil =>
    obtain rfl : [] = tokens := Except.ok.inj worded
    cases member
  | cons p ps ih =>
    obtain ⟨out, more, made, later, rfl⟩ := wordsOf_cons_ok_iff.mp worded
    rcases mem_append.mp member with here | there
    · exact ⟨p, mem_cons_self, out, made, here⟩
    · obtain ⟨q, isPassage, found⟩ := ih later there
      exact ⟨q, mem_cons_of_mem p isPassage, found⟩

/-- A token that words make comes from raw text. -/
theorem form_of_mem (ok : scanTokens script = .ok tokens) (member : t ∈ tokens) (ofWord : t.kind.isOfWord = true) :
    Atom.Form t := by
  rw [scanTokens_eq] at ok
  obtain ⟨ps, ran, worded⟩ := tokens_ok_iff.mp ok
  obtain ⟨p, isPassage, out, made, found⟩ := exists_passage_of_mem worded member
  unfold Token.atoms at made
  split at made
  · exact Atom.forms_of_atoms made t found
  · cases made
    obtain rfl : t = p := mem_singleton.mp found
    exact Passage.forms_passages ran t isPassage ofWord

/-- A name is a name in brackets, a word without blanks and marks, or one of six marks; so names are as they should be
exactly where none of these marks is taken for one. -/
theorem names_are_words_or_stray_marks (script : String) (tokens : List Token) (ok : scanTokens script = .ok tokens) :
    (∀ t ∈ tokens, t.kind = .name → IsEscapedName t.text ∨ IsPlainWord t.text ∨ IsStrayMark t.text) ∧
    ((∀ t ∈ tokens, t.kind = .name → IsEscapedName t.text ∨ IsPlainWord t.text) ↔
      ∀ t ∈ tokens, t.kind = .name → ¬ IsStrayMark t.text) := by
  have forms (t : Token) (member : t ∈ tokens) (isName : t.kind = .name) :=
    (form_of_mem ok member (by rw [isName]; rfl)).of_name isName
  refine ⟨forms, fun proper t member isName stray => stray.improper (proper t member isName), ?_⟩
  intro plain t member isName
  rcases forms t member isName with escaped | word | stray
  · exact .inl escaped
  · exact .inr word
  · exact absurd stray (plain t member isName)

/-- An opening bracket directly behind a word is a name. -/
theorem names_are_words_or_stray_marks_bracket :
    scanTokens "a[b [c]" = .ok [.ofWord "a" 0, .ofWord "[" 0, .ofWord "b" 0, ⟨.name, "[c]", 0⟩] ∧
    IsStrayMark "[" ∧ ¬ ∀ t ∈ [.ofWord "a" 0, .ofWord "[" 0, .ofWord "b" 0, ⟨.name, "[c]", 0⟩],
      Token.kind t = .name → IsEscapedName t.text ∨ IsPlainWord t.text := by
  have stray : IsStrayMark "[" := ⟨'[', by decide, rfl⟩
  refine ⟨?ok, stray, fun proper => (names_are_words_or_stray_marks _ _ ?ok).2.mp proper (.ofWord "[" 0) ?_ rfl stray⟩
  case ok => rfl
  simp

/-- A semicolon is declared, read and assigned to like a variable. -/
theorem semicolon_is_variable : scanTokens "; = ;" = .ok [⟨.name, ";", 0⟩, .ofWord "=" 0, ⟨.name, ";", 0⟩] ∧
    (compile {} "Dim ;\n; = ;").toOption.map Program.body =
      some [⟨0, "object _ = null;"⟩, .blank, ⟨0, "_ = _.VAL(_);"⟩] :=
  ⟨rfl, by decide +kernel⟩

end VbSharp
