import VbSharp.Proofs.Token.CommentStart

/-!
# Passages and the text they are read from

A script without comments is its passages written one behind the other: raw text as it is, a literal between its
marks. Along the scan, the passages made so far and the text that is held back make up what has been read.
-/
namespace VbSharp

open List

variable {done out ps : List Token} {text source ahead : List Char} {c : Char} {t : Token}

/-- The text with each quote written twice, as in a string literal. -/
def doubleQuotes (text : List Char) : List Char :=
  text.flatMap fun c => if c = '\x22' then [c, c] else [c]

/-- The text that raw text or a literal is read from. -/
def Token.written (t : Token) : List Char :=
  match t.kind with
  | .string => '\x22' :: doubleQuotes t.text.toList ++ ['\x22']
  | .date => '#' :: t.text.toList ++ ['#']
  | _ => t.text.toList

/-- The passages are the text, part by part, each with the line it starts on, and raw text is not cut further than the
literals cut it. -/
structure Lossless (ps : List Token) (text : List Char) : Prop where
  written : ps.flatMap Token.written = text
  kinds : ∀ t ∈ ps, t.kind = .raw ∨ t.kind = .string ∨ t.kind = .date
  lines : ∀ before t after, ps = before ++ t :: after → t.line = lineFeeds (before.flatMap Token.written)
  filled : ∀ t ∈ ps, t.kind = .raw → t.text ≠ ""
  apart : ps.IsChain fun t u => t.kind = .raw → u.kind ≠ .raw

theorem Lossless.concat (lossless : Lossless done text) (kind : t.kind = .raw ∨ t.kind = .string ∨ t.kind = .date)
    (line : t.line = lineFeeds text) (filled : t.kind = .raw → t.text ≠ "")
    (apart : ∀ last ∈ done.getLast?, last.kind = .raw → t.kind ≠ .raw) :
    Lossless (done ++ [t]) (text ++ t.written) where
  written := by simp [lossless.written]
  kinds := forall_mem_append.mpr ⟨lossless.kinds, forall_mem_singleton.mpr kind⟩
  lines := by
    intro before u after split
    rcases eq_nil_or_concat after with rfl | ⟨middle, last, rfl⟩
    · obtain ⟨rfl, same⟩ := append_inj' split rfl
      obtain rfl : t = u := by simpa using same
      rw [lossless.written, line]
    · rw [concat_eq_append, ← cons_append, ← append_assoc] at split
      exact lossless.lines before u middle (append_inj' split rfl).1
  filled := forall_mem_append.mpr ⟨lossless.filled, forall_mem_singleton.mpr filled⟩
  apart := isChain_append.mpr ⟨lossless.apart, .singleton t, fun last isLast u isHead =>
    Option.mem_some_iff.mp isHead ▸ apart last isLast⟩

namespace Passage

variable {s next : Scan} {rest : List Char}

/-- What has been read since the last passage was made. -/
def Scan.held (s : Scan) : List Char :=
  match s.mode with
  | .code => s.pending.reverse
  | .string text => '\x22' :: doubleQuotes text.reverse
  | .quote text => '\x22' :: doubleQuotes text.reverse ++ ['\x22']
  | .date text => '#' :: text.reverse
  | .comment .. => []

/-- The passages made, the text held back and the text ahead are the source. -/
structure Keeps (source : List Char) (done : List Token) (s : Scan) (ahead text : List Char) : Prop where
  lossless : Lossless done text
  split : text ++ s.held ++ ahead = source
  line : s.line = lineFeeds text + lineFeeds s.pending
  start : s.pending ≠ [] → s.start = lineFeeds text
  cleared : s.mode ≠ .code → s.pending = []
  inLine : s.mode ≠ .code → lineFeeds s.held = 0
  apart : s.mode = .code → ∀ last ∈ done.getLast?, last.kind ≠ .raw

/-- Pending text is set apart as it is. -/
theorem Keeps.flush (keeps : Keeps source done s ahead text) (code : s.mode = .code) :
    Lossless (done ++ rawTokens s.pending s.start) (text ++ s.pending.reverse) := by
  by_cases empty : s.pending = []
  · simpa [empty, rawTokens] using keeps.lossless
  · have flushed := keeps.lossless.concat (t := ⟨.raw, String.ofList s.pending.reverse, s.start⟩) (.inl rfl)
      (keeps.start empty) (by simpa [← String.toList_inj] using empty)
      fun last isLast isRaw => absurd isRaw (keeps.apart code last isLast)
    simpa [rawTokens_of_ne_nil empty, Token.written] using flushed

theorem Keeps.closeLiteral (kind : Kind) (literal closing : List Char)
    (keeps : Keeps source done s (closing ++ ahead) text) (inside : s.mode ≠ .code)
    (delimited : kind = .string ∨ kind = .date)
    (whole : Token.written ⟨kind, String.ofList literal.reverse, s.line⟩ = s.held ++ closing)
    (stays : lineFeeds closing = 0) :
    Keeps source (done ++ (s.closeLiteral kind literal).1) (s.closeLiteral kind literal).2 ahead
      (text ++ (s.held ++ closing)) := by
  have empty := keeps.cleared inside
  have line : s.line = lineFeeds text := by simpa [empty, lineFeeds] using keeps.line
  have other : kind ≠ .raw := by rcases delimited with rfl | rfl <;> decide
  refine ⟨?_, ?_, ?_, absurd empty, fun _ => empty, by simp [Scan.closeLiteral], ?_⟩
  · rw [← whole]
    exact keeps.lossless.concat (.inr delimited) line (absurd · other) fun _ _ _ => other
  · rw [← keeps.split]
    simp [Scan.held, Scan.closeLiteral, empty]
  · have inLine := keeps.inLine inside
    simp only [lineFeeds] at line stays inLine
    simp [Scan.closeLiteral, empty, line, lineFeeds, stays, inLine]
  · rintro - last isLast
    obtain rfl : _ = last := by simpa [Scan.closeLiteral] using isLast
    exact other

theorem Keeps.push (keeps : Keeps source done s (c :: ahead) text) (code : s.mode = .code) (line : Nat)
    (counted : line = s.line + if c = '\n' then 1 else 0) :
    Keeps source done { s.push c with line := line } ahead text := by
  have split := keeps.split
  have earlier := keeps.line
  simp only [Scan.held, code] at split
  refine ⟨keeps.lossless, ?_, ?_, fun _ => ?_, absurd code, absurd code, fun _ => keeps.apart code⟩
  · simpa [Scan.held, Scan.push, code] using split
  · simp only [Scan.push, lineFeeds_cons]
    omega
  · by_cases empty : s.pending = []
    · simpa [Scan.push, empty, lineFeeds] using earlier
    · simpa [Scan.push, empty] using keeps.start empty

/-- A character of code opens a comment or is kept. -/
theorem Keeps.moves (keeps : Keeps source done s (c :: ahead) text) (code : s.mode = .code) (moves : Moves s c out next) :
    (∃ inline skip text, next.mode = .comment inline skip text) ∨ ∃ text, Keeps source (done ++ out) next ahead text := by
  cases moves with
  | literal mode opens =>
    refine .inr ⟨text ++ s.pending.reverse, keeps.flush code, ?_, ?_, by simp, fun _ => rfl, ?_, ?_⟩
    · rw [← keeps.split]
      rcases opens with ⟨rfl, rfl⟩ | ⟨rfl, rfl⟩ <;> simp [Scan.held, code, doubleQuotes]
    · simp [keeps.line, lineFeeds]
    · rcases opens with ⟨rfl, rfl⟩ | ⟨rfl, rfl⟩ <;> exact fun _ => rfl
    · rcases opens with ⟨rfl, rfl⟩ | ⟨rfl, rfl⟩ <;> simp
  | comment skip opens => exact .inl ⟨_, _, _, rfl⟩
  | lineEnd ends =>
    rw [append_nil]
    exact .inr ⟨text, keeps.push code _ (by rw [if_pos ends])⟩
  | other stays =>
    rw [append_nil]
    exact .inr ⟨text, keeps.push code s.line (by rw [if_neg stays, Nat.add_zero])⟩

/-- A comment has been read, or what has been read can be written back. -/
def Recalls (source : List Char) (done : List Token) (s : Scan) (ahead : List Char) : Prop :=
  (∃ t ∈ done, t.isComment = true) ∨ (∃ inline skip text, s.mode = .comment inline skip text) ∨
    ∃ text, Keeps source done s ahead text

theorem Keeps.inside {mode : Mode} (keeps : Keeps source done s (c :: ahead) text) (inside : s.mode ≠ .code)
    (stays : c ≠ '\n') (literal : mode ≠ .code) (held : Scan.held { s with mode := mode } = s.held ++ [c]) :
    Keeps source done { s with mode := mode } ahead text where
  lossless := keeps.lossless
  split := by simpa [held] using keeps.split
  line := keeps.line
  start := keeps.start
  cleared := fun _ => keeps.cleared inside
  inLine := by
    have inLine := keeps.inLine inside
    rw [held]
    simpa [lineFeeds, stays] using fun _ => inLine
  apart := fun code => absurd code literal

theorem recalls_step (recalls : Recalls source done s (c :: ahead)) (stepped : step s c ahead = .ok (out, next)) :
    Recalls source (done ++ out) next ahead := by
  rcases recalls with ⟨t, member, comment⟩ | recalls
  · exact .inl ⟨t, mem_append_left out member, comment⟩
  have steps := steps_of_ok stepped
  cases steps with
  | commented mode ends =>
    refine .inl ⟨_, mem_append_right done (mem_singleton_self _), ?_⟩
    simp only [Scan.commentToken, Token.isComment]
    split <;> rfl
  | comment mode stays => exact .inr (.inl ⟨_, _, _, rfl⟩)
  | code mode moves =>
    obtain ⟨text, keeps⟩ := recalls.resolve_left (by simp [mode])
    exact .inr (keeps.moves mode moves)
  | inside next stays within =>
    obtain ⟨text, keeps⟩ := recalls.resolve_left (by rcases within with ⟨_, ⟨mode, -⟩ | ⟨mode, -⟩ | ⟨mode, -⟩⟩ <;> simp [mode])
    rw [append_nil]
    refine .inr (.inr ⟨text, ?_⟩)
    rcases within with ⟨text, ⟨mode, ⟨rfl, rfl⟩ | ⟨other, rfl⟩⟩ | ⟨mode, rfl, rfl⟩ | ⟨mode, other, rfl⟩⟩
    all_goals exact keeps.inside (by simp [mode]) stays (by simp) (by simp_all [Scan.held, doubleQuotes])
  | @closed literal _ _ mode moves =>
    obtain ⟨text, keeps⟩ := recalls.resolve_left (by simp [mode])
    have closed := keeps.closeLiteral .string literal [] (by simp [mode]) (.inl rfl)
      (by simp [Token.written, Scan.held, mode]) rfl
    rw [← append_assoc]
    exact .inr (closed.moves rfl moves)
  | @dated literal mode closes =>
    obtain ⟨text, keeps⟩ := recalls.resolve_left (by simp [mode])
    exact .inr (.inr ⟨_, keeps.closeLiteral .date literal [c] (by simp [mode]) (.inr rfl)
      (by simp [Token.written, Scan.held, mode, closes]) (by simp [closes, lineFeeds])⟩)

end Passage

/-- The passages of a script without comments are the script: written back one behind the other they give its text, each
has the line on which it starts, and raw text is neither empty nor cut in two. -/
theorem passages_lossless (script : String) (ps : List Token) (ok : passages script = .ok ps)
    (plain : ∀ t ∈ ps, t.isComment = false) : Lossless ps script.toList := by
  obtain ⟨out, s, last, fed, ended, rfl⟩ := Transducer.run_ok_iff.mp ok
  have start : Passage.Keeps script.toList [] {} (script.toList ++ []) [] :=
    ⟨⟨rfl, nofun, by simp, nofun, .nil⟩, by simp [Passage.Scan.held], rfl, nofun, nofun, nofun, nofun⟩
  have recalls := Transducer.feed_invariant (P := Passage.Recalls script.toList) Passage.recalls_step
    (.inr (.inr ⟨[], start⟩)) fed
  obtain ⟨plainOut, plainLast⟩ := forall_mem_append.mp plain
  replace recalls := recalls.resolve_left fun ⟨t, member, comment⟩ => by simp [plainOut t member] at comment
  replace ended : Passage.finish s = .ok last := ended
  unfold Passage.finish at ended
  cases mode : s.mode with
  | code =>
    obtain ⟨text, keeps⟩ := recalls.resolve_left (by simp [mode])
    obtain rfl : Passage.rawTokens s.pending s.start = last := by simpa [mode] using ended
    have split : text ++ s.pending.reverse = script.toList := by simpa [Passage.Scan.held, mode] using keeps.split
    exact split ▸ keeps.flush mode
  | quote literal =>
    obtain ⟨text, keeps⟩ := recalls.resolve_left (by simp [mode])
    obtain rfl : (s.closeLiteral .string literal).1 = last := by simpa [mode] using ended
    have closed := keeps.closeLiteral .string literal [] (by simp [mode]) (.inl rfl)
      (by simp [Token.written, Passage.Scan.held, mode]) rfl
    have split := keeps.split
    rw [append_assoc] at split
    exact split ▸ closed.lossless
  | string literal | date literal => simp [mode] at ended
  | comment inline skip text =>
    obtain rfl : [s.commentToken inline text] = last := by simpa [mode] using ended
    have comment := plainLast _ (mem_singleton_self _)
    cases inline <;> simp [Passage.Scan.commentToken, Token.isComment] at comment

/-- Quotes inside a string, two strings side by side and a date behind a line end. -/
theorem passages_lossless_literals :
    passages "x = \"a\"\"b\"\"\"\n#1#" = .ok [⟨.raw, "x = ", 0⟩, ⟨.string, "a\"b\"", 0⟩, ⟨.raw, "\n", 0⟩, ⟨.date, "1", 1⟩] ∧
    Lossless [⟨.raw, "x = ", 0⟩, ⟨.string, "a\"b\"", 0⟩, ⟨.raw, "\n", 0⟩, ⟨.date, "1", 1⟩] "x = \"a\"\"b\"\"\"\n#1#".toList :=
  ⟨rfl, passages_lossless _ _ rfl (by decide)⟩

end VbSharp
