import VbSharp.Proofs.Lower.Within

/-!
# Braces and depth

A counter goes through lines of code: it goes up behind a line that is an opening brace, and down before a line that
is a closing one. Lines are nested if the counter is the depth of each of them, never goes below where it started, and
ends there. The lines of statements are nested as long as no statement starts with a brace of its own.
-/
namespace VbSharp.CSharp

open List

variable {depth : Nat} {text a : String} {remark : Option String}

variable {l : Line}

/-! ### Counting braces -/

namespace Line

/-- Whether the line is an opening brace. -/
def opens (l : Line) : Bool :=
  l.text == "\x7b"

/-- Whether the line is a closing brace, alone or with a comment behind it. -/
def closes (l : Line) : Bool :=
  l.text == "\x7d" || "\x7d //".toList.isPrefixOf l.text.toList

/-- The counter at a line, given the counter behind the line before. -/
def counterAt (counter : Int) (l : Line) : Int :=
  if l.closes then counter - 1 else counter

/-- The counter behind a line. -/
def counterBehind (counter : Int) (l : Line) : Int :=
  if l.opens then l.counterAt counter + 1 else l.counterAt counter

/-- The lines that are not blank. -/
def code (lines : List Line) : List Line :=
  lines.filter (!·.isBlank)

/-- The counter at each of some lines. -/
def counters (counter : Int) : List Line → List Int
  | [] => []
  | l :: rest => l.counterAt counter :: counters (l.counterBehind counter) rest

/-- The counter behind some lines. -/
def counterAfter (counter : Int) (lines : List Line) : Int :=
  lines.foldl counterBehind counter

/-- The counter starts and ends at the given depth and does not go below it, and each line is as deep as the counter
says. -/
structure AreNested (depth : Nat) (lines : List Line) : Prop where
  depths : counters depth lines = lines.map fun l => (l.depth : Int)
  above : ∀ before, before <+: lines → (depth : Int) ≤ counterAfter depth before
  settled : counterAfter depth lines = depth

theorem counters_append (counter : Int) (a b : List Line) :
    counters counter (a ++ b) = counters counter a ++ counters (counterAfter counter a) b := by
  induction a generalizing counter with
  | nil => rfl
  | cons l rest ih => simp only [cons_append, counters, counterAfter, foldl_cons, ih]

theorem counterAfter_append (counter : Int) (a b : List Line) :
    counterAfter counter (a ++ b) = counterAfter (counterAfter counter a) b :=
  foldl_append

theorem areNested_nil (depth : Nat) : AreNested depth [] where
  depths := rfl
  above before start := by
    rw [prefix_nil.mp start]
    exact le_rfl
  settled := rfl

theorem AreNested.append {a b : List Line} (first : AreNested depth a) (second : AreNested depth b) :
    AreNested depth (a ++ b) where
  depths := by rw [counters_append, first.settled, first.depths, second.depths, map_append]
  above before start := by
    rcases prefix_or_prefix_of_prefix start (prefix_append a b) with inFirst | ⟨more, rfl⟩
    · exact first.above before inFirst
    · rw [counterAfter_append, first.settled]
      exact second.above more ((prefix_append_right_inj a).mp start)
  settled := by rw [counterAfter_append, first.settled, second.settled]

theorem areNested_single (opens : l.opens = false) (closes : l.closes = false) : AreNested l.depth [l] := by
  have stays : counterAfter l.depth [l] = l.depth := by
    simp [counterAfter, counterBehind, counterAt, opens, closes]
  refine ⟨by simp [counters, counterAt, closes], fun before start => ?_, stays⟩
  rcases prefix_cons_iff.mp start with rfl | ⟨more, rfl, none⟩
  · exact le_rfl
  · rw [prefix_nil.mp none]
    exact stays.ge

theorem AreNested.wrap {inner : List Line} {r : Line} (nested : AreNested (depth + 1) inner) (opens : l.opens = true)
    (noClose : l.closes = false) (closes : r.closes = true) (noOpen : r.opens = false) (left : l.depth = depth)
    (right : r.depth = depth) : AreNested depth (l :: (inner ++ [r])) := by
  have up : l.counterBehind depth = ((depth + 1 : Nat) : Int) := by simp [counterBehind, counterAt, opens, noClose]
  have down : counterAfter ((depth + 1 : Nat) : Int) [r] = depth := by
    simp [counterAfter, counterBehind, counterAt, closes, noOpen]
  have whole : counterAfter depth (l :: (inner ++ [r])) = depth := by
    change counterAfter (l.counterBehind depth) (inner ++ [r]) = depth
    rw [up, counterAfter_append, nested.settled, down]
  refine ⟨?_, fun before start => ?_, whole⟩
  · have atLeft : l.counterAt depth = (l.depth : Int) := by rw [counterAt, noClose, left]; rfl
    have atRight : r.counterAt ((depth + 1 : Nat) : Int) = (r.depth : Int) := by simp [counterAt, closes, right]
    simp only [counters, up, counters_append, nested.settled, nested.depths, atLeft, atRight, map_cons,
      map_append, map_nil]
  · -- the counter is at the depth before the opening brace, above it inside, and back behind the closing one
    rcases prefix_cons_iff.mp start with rfl | ⟨more, rfl, inside⟩
    · exact le_rfl
    · rcases prefix_concat_iff.mp inside with rfl | within
      · exact whole.ge
      · have higher := nested.above more within
        change (depth : Int) ≤ counterAfter (l.counterBehind depth) more
        rw [up]
        omega

end Line

/-! ### Texts that start with no brace -/

/-- Whether a text has a first character and that is no brace. -/
def isBare (text : String) : Bool :=
  text.toList.head?.any fun c => c != '\x7b' && c != '\x7d'

theorem exists_of_isBare (bare : isBare text = true) : ∃ c rest, text.toList = c :: rest ∧ c ≠ '\x7b' ∧ c ≠ '\x7d' := by
  unfold isBare at bare
  cases chars : text.toList with
  | nil => simp [chars] at bare
  | cons c rest =>
    simp only [chars, head?_cons, Option.any_some, Bool.and_eq_true, bne_iff_ne] at bare
    exact ⟨c, rest, rfl, bare⟩

theorem isBare_append (bare : isBare a = true) (b : String) : isBare (a ++ b) = true := by
  obtain ⟨c, rest, chars, opening, closing⟩ := exists_of_isBare bare
  simp [isBare, String.toList_append, chars, opening, closing]

theorem Line.plain_of_isBare (bare : isBare l.text = true) :
    l.isBlank = false ∧ l.opens = false ∧ l.closes = false := by
  obtain ⟨c, rest, chars, opening, closing⟩ := exists_of_isBare bare
  have ne {other : String} (differs : other.toList.head? ≠ some c) : (l.text == other) = false := by
    rw [beq_eq_false_iff_ne]
    rintro rfl
    exact differs (by rw [chars]; rfl)
  refine ⟨?_, ne (by simpa using opening.symm), ?_⟩
  · rw [isBlank, ← Bool.not_eq_true, String.isEmpty_iff]
    intro empty
    rw [empty] at chars
    cases chars
  · have later : "\x7d //".toList.isPrefixOf l.text.toList = false := by
      rw [chars]
      exact Bool.and_eq_false_iff.mpr (.inl (beq_eq_false_iff_ne.mpr closing.symm))
    rw [closes, ne (by simpa using closing.symm), later]
    rfl

/-! ### Lines of statements -/

namespace Stmt

variable {rest body stmts remarked b : List Stmt} {s t : Stmt} {content : Simple} {head : Head}

/-- The text that a statement starts with. -/
def ownText : Stmt → List String
  | .blank => []
  | .line content _ => [content.render]
  | .block head _ _ => [head.render]

/-- None of the statements starts with a brace of its own, at whatever depth it stands. -/
def AreBare (stmts : List Stmt) : Prop :=
  ∀ text ∈ stmts.flatMap (deep ownText), isBare text = true

@[simp]
theorem areBare_append {a : List Stmt} : AreBare (a ++ b) ↔ AreBare a ∧ AreBare b := by
  rw [AreBare, flatMap_append, forall_mem_append]
  rfl

theorem areBare_cons : AreBare (s :: rest) ↔ AreBare [s] ∧ AreBare rest :=
  areBare_append (a := [s])

@[simp]
theorem areBare_cons_cons : AreBare (s :: t :: rest) ↔ AreBare [s] ∧ AreBare (t :: rest) :=
  areBare_cons

@[simp]
theorem areBare_line : AreBare [.line content remark] ↔ isBare content.render = true := by
  simp [AreBare, ownText]

@[simp]
theorem areBare_block : AreBare [.block head body remark] ↔ isBare head.render = true ∧ AreBare body := by
  simp [AreBare, deep_block, ownText]

theorem code_single (bare : isBare l.text = true) : Line.code [l] = [l] := by
  simp [Line.code, (Line.plain_of_isBare bare).1]

theorem code_append (a b : List Line) : Line.code (a ++ b) = Line.code a ++ Line.code b :=
  filter_append ..

/-- A closing brace with whatever comment behind it. -/
theorem closes_remarkText (depth : Nat) (remark : Option String) :
    (⟨depth, "\x7d" ++ remarkText remark⟩ : Line).closes = true ∧
      (⟨depth, "\x7d" ++ remarkText remark⟩ : Line).opens = false ∧
      (⟨depth, "\x7d" ++ remarkText remark⟩ : Line).isBlank = false := by
  have chars : ("\x7d" ++ remarkText remark).toList = '\x7d' :: (remarkText remark).toList := by
    rw [String.toList_append]
    rfl
  have ne {other : String} (differs : other.toList.head? ≠ some '\x7d') : "\x7d" ++ remarkText remark ≠ other := by
    rintro rfl
    exact differs (by rw [chars]; rfl)
  refine ⟨?_, beq_eq_false_iff_ne.mpr (ne (by decide)), ?_⟩
  · cases remark with
    | none => rfl
    | some text =>
      rw [Line.closes, chars, remarkText, String.toList_append]
      exact Bool.or_eq_true_iff.mpr (.inr rfl)
  · rw [Line.isBlank, ← Bool.not_eq_true, String.isEmpty_iff]
    exact ne (by decide)

mutual

theorem areNested_lines : (s : Stmt) → AreBare [s] → ∀ depth, (Line.AreNested depth (Line.code (s.lines depth)))
  | .blank => by
    intro _ depth
    exact Line.areNested_nil depth
  | .line content remark => by
    intro bare depth
    have begins : isBare (Line.mk depth (content.render ++ remarkText remark)).text = true :=
      isBare_append (areBare_line.mp bare) (remarkText remark)
    obtain ⟨-, opens, closes⟩ := Line.plain_of_isBare begins
    rw [lines, code_single begins]
    exact Line.areNested_single opens closes
  | .block head body remark => by
    intro bare depth
    obtain ⟨begins, inside⟩ := areBare_block.mp bare
    have starts : isBare (Line.mk depth head.render).text = true := begins
    obtain ⟨notBlank, opens, closes⟩ := Line.plain_of_isBare starts
    obtain ⟨ends, noOpen, filled⟩ := closes_remarkText depth remark
    -- the head stands before the braces, at the same depth
    have kept : Line.code ((Stmt.block head body remark).lines depth) = [⟨depth, head.render⟩] ++
        (⟨depth, "\x7b"⟩ :: (Line.code (linesOf (depth + 1) body) ++ [⟨depth, "\x7d" ++ remarkText remark⟩])) := by
      have brace : (⟨depth, "\x7b"⟩ : Line).isBlank = false := rfl
      simp only [lines, Line.code, filter_cons, filter_append, filter_nil, notBlank, filled, brace,
        Bool.not_false, if_true, singleton_append]
    rw [kept]
    apply Line.AreNested.append
    · exact Line.areNested_single opens closes
    · have stays : (Line.mk depth "\x7b").closes = false := by
        simp only [Line.closes]
        decide
      exact (areNested_linesOf body inside (depth + 1)).wrap rfl stays ends noOpen rfl rfl

theorem areNested_linesOf : (stmts : List Stmt) → AreBare stmts →
    ∀ depth, Line.AreNested depth (Line.code (linesOf depth stmts))
  | [] => fun _ depth => Line.areNested_nil depth
  | s :: rest => by
    intro bare depth
    obtain ⟨first, others⟩ := areBare_cons.mp bare
    rw [linesOf, code_append]
    exact (areNested_lines s first depth).append (areNested_linesOf rest others depth)

end

end Stmt
end VbSharp.CSharp
