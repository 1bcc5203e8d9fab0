import VbSharp.Proofs.Token.Lines

/-!
# What tokens look like

Raw text is broken into words without blanks and marks, single marks, line ends, names in square brackets and numbers.
A word or mark that is nothing else is taken for a name, and six marks mean nothing, so each of them is a name too.
-/
namespace VbSharp

open List

variable {t : Token} {tokens ps out : List Token}

namespace Atom

variable {s next : Scan} {c : Char} {text rest : List Char} {line : Nat}

/-- A token of broken text. -/
inductive Form : Token → Prop where
  | word {text : List Char} (line : Nat) (filled : text ≠ []) (plain : ∀ c ∈ text, isBlank c = false ∧ c ∉ marks) :
    Form (.ofWord (String.ofList text) line)
  | mark {c : Char} (line : Nat) (isMark : c ∈ marks) : Form (.ofWord (String.ofList [c]) line)
  | lineEnd (line : Nat) : Form (.lineEnd line)
  | escaped {name : List Char} (line : Nat) (inside : ∀ c ∈ name, c ≠ ']' ∧ c ≠ '\n') :
    Form ⟨.name, String.ofList ('[' :: name ++ [']']), line⟩
  | number (n line : Nat) : Form ⟨.number, decimalText n, line⟩

theorem Form.isOfWord (form : Form t) : t.kind.isOfWord = true := by
  cases form with
  | word | mark => exact isOfWord_ofWord _
  | lineEnd | escaped | number => rfl

/-- The text that the scan has gathered can become such a token. -/
def Mode.IsProper : Mode → Prop
  | .word text => ∀ c ∈ text, isBlank c = false ∧ c ∉ marks
  | .escaped text => ∃ name, text = name ++ ['['] ∧ ∀ c ∈ name, c ≠ ']' ∧ c ≠ '\n'
  | .continuation | .hexOpening | .hex _ => True

theorem forms_wordTokens (proper : (Mode.word text).IsProper) (line : Nat) : ∀ t ∈ wordTokens text line, Form t := by
  unfold wordTokens
  split
  · exact nofun
  next filled =>
    refine forall_mem_singleton.mpr (.word line (by simpa using filled) fun c member => ?_)
    exact proper c (mem_reverse.mp member)

theorem form_hexToken {digits : List Char} (ok : hexToken digits line = .ok t) : Form t := by
  unfold hexToken at ok
  dsimp only at ok
  split_ifs at ok
  cases ok
  exact .number _ _

theorem Moves.forms (moves : Moves line text c rest out next) (proper : (Mode.word text).IsProper) :
    (∀ t ∈ out, Form t) ∧ next.mode.IsProper := by
  have words := forms_wordTokens proper line
  cases moves with
  | lineEnd ends =>
    exact ⟨forall_mem_append.mpr ⟨words, forall_mem_singleton.mpr (.lineEnd line)⟩, nofun⟩
  | blank stays blank => exact ⟨words, nofun⟩
  | opens mode stays opening =>
    refine ⟨nofun, ?_⟩
    rcases opening with ⟨-, rfl⟩ | ⟨rfl, rfl⟩ | ⟨-, -, rfl⟩
    · trivial
    · exact ⟨[], rfl, nofun⟩
    · trivial
  | mark stays isMark =>
    exact ⟨forall_mem_append.mpr ⟨words, forall_mem_singleton.mpr (.mark line isMark)⟩, nofun⟩
  | letter plain => exact ⟨nofun, forall_mem_cons.mpr ⟨plain, proper⟩⟩

theorem forms_step (proper : s.mode.IsProper) (stepped : step s c rest = .ok (out, next)) :
    (∀ t ∈ out, Form t) ∧ next.mode.IsProper := by
  cases steps_of_ok stepped with
  | word mode moves => exact moves.forms (by rwa [mode] at proper)
  | joined mode ends => exact ⟨nofun, nofun⟩
  | passed mode blank stays => exact ⟨nofun, proper⟩
  | closed mode closes =>
    rw [mode] at proper
    obtain ⟨name, rfl, inside⟩ := proper
    refine ⟨forall_mem_singleton.mpr ?_, nofun⟩
    have same : ∀ c ∈ name.reverse, c ≠ ']' ∧ c ≠ '\n' := fun c member => inside c (mem_reverse.mp member)
    simpa [closes] using Form.escaped s.line same
  | inside mode opened =>
    rw [mode] at proper
    obtain ⟨name, rfl, inside⟩ := proper
    exact ⟨nofun, _ :: name, rfl, forall_mem_cons.mpr ⟨opened, inside⟩⟩
  | letter mode | digit mode isDigit => exact ⟨nofun, trivial⟩
  | number mode made moves =>
    obtain ⟨forms, proper⟩ := moves.forms nofun
    exact ⟨forall_mem_cons.mpr ⟨form_hexToken made, forms⟩, proper⟩

theorem forms_finish (proper : s.mode.IsProper) (ended : finish s = .ok out) : ∀ t ∈ out, Form t := by
  unfold finish at ended
  cases mode : s.mode with
  | word text =>
    simp only [mode] at ended proper
    cases ended
    exact forms_wordTokens proper s.line
  | hex digits =>
    simp only [mode] at ended
    cases made : hexToken digits s.line with
    | error fault => simp [made, Except.map] at ended
    | ok number =>
      obtain rfl : [number] = out := by simpa [made, Except.map] using ended
      exact forall_mem_singleton.mpr (form_hexToken made)
  | continuation | escaped text => simp [mode] at ended
  | hexOpening =>
    simp only [mode] at ended
    cases ended
    exact nofun

theorem forms_of_atoms {text : String} (ok : atoms text line = .ok out) : ∀ t ∈ out, Form t := by
  obtain ⟨made, s, last, fed, ended, rfl⟩ := Transducer.run_ok_iff.mp ok
  have kept : (∀ t ∈ made, Form t) ∧ s.mode.IsProper :=
    Transducer.feed_invariant (P := fun done s _ => (∀ t ∈ done, Form t) ∧ s.mode.IsProper)
      (fun ⟨forms, proper⟩ stepped =>
        (forms_step proper stepped).imp_left fun more => forall_mem_append.mpr ⟨forms, more⟩) ⟨nofun, nofun⟩ fed
  exact forall_mem_append.mpr ⟨kept.1, forms_finish kept.2 ended⟩

end Atom
end VbSharp
