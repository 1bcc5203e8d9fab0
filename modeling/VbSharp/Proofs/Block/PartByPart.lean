import VbSharp.Proofs.Block.Extending
import VbSharp.Proofs.Token.LineEnd

/-!
# A program part by part

Tokens that end with a line and form blocks of their own can be taken off the front of a program. The blocks
of the whole are theirs and then those of the rest, and a fault is the one that the rest has when it stands
alone.
-/
namespace VbSharp

open List
open VbSharp.Parser

/-- The blocks of scanned tokens: numerals are joined, operators combined and the result is parsed. -/
def blocksOfTokens (tokens : List Token) : Except Fault (List Block) := do
  parseBlocks (combineOperators (← joinNumerals tokens))

/-! ### The parser -/

/-- A run that answers the blocks of `more` behind others. -/
theorem blocks_behind {turns : Nat} {more : List Token} (enough : more.length ≤ turns) (blocks : List Block)
    (log : List Construct) :
    blocksOf (behind blocks (blocksWithin turns []) ⟨.ofTokens more, log⟩) = (parseBlocks more).map (blocks ++ ·) := by
  rw [← blocksOf_blocksWithin enough log]
  show blocksOf (EStateM.bind _ _ _) = _
  unfold EStateM.bind
  cases blocksWithin turns [] ⟨.ofTokens more, log⟩ <;> rfl

theorem parseBlocks_append {tokens : List Token} {blocks : List Block}
    (ended : tokens.getLast?.all Token.isLineEnd = true) (parsed : parseBlocks tokens = .ok blocks)
    (more : List Token) : parseBlocks (tokens ++ more) = (parseBlocks more).map (blocks ++ ·) := by
  by_cases filled : more = []
  · rw [filled, append_nil, parsed]
    exact congrArg Except.ok (append_nil blocks).symm
  have last : Cursor.ofTokens (tokens ++ more) = ⟨tokens ++ more, (Cursor.ofTokens more).endLine⟩ := by
    obtain ⟨t, found⟩ := Option.ne_none_iff_exists'.mp (mt getLast?_eq_none_iff.mp filled)
    simp [Cursor.ofTokens, getLast?_append, found]
  obtain ⟨found, r, ran⟩ := blocksWithin_of_parseBlocks parsed (Nat.le_refl _) []
  have start : (Pace.extended more (Cursor.ofTokens more).endLine).Between tokens.length (.ofTokens tokens)
      (.ofTokens (tokens ++ more)) := ⟨⟨ended, last⟩, Nat.le_refl _⟩
  -- there is no end to be found, so the run has come to the end of its tokens
  obtain ⟨-, stops, goesOn⟩ := goesOn_blocksWithin (Nat.le_refl tokens.length)
    (Nat.le_refl (tokens.length + more.length)) [] start ran
  have done : r.cursor.rest = [] := by
    cases found with
    | none => exact stops
    | some found => cases stops.2
  obtain ⟨others, turns, log, alike, enough, same⟩ := goesOn []
  rw [done] at enough same
  rw [parseBlocks_eq, length_append, same, Block.list_eq_of_alike alike]
  exact blocks_behind (by simpa using enough) others log

/-! ### All passes -/

/-- The passes and the parser work part by part. -/
theorem blocksOfTokens_part_by_part {first : List Token} {blocks : List Block}
    (ended : first.getLast?.any Token.isLineEnd = true) (parsed : blocksOfTokens first = .ok blocks)
    (second : List Token) :
    blocksOfTokens (first ++ second) = (blocksOfTokens second).map (blocks ++ ·) := by
  obtain ⟨front, stop, rfl, isEnd⟩ : ∃ front stop, first = front ++ [stop] ∧ stop.isLineEnd = true := by
    obtain ⟨stop, found, isEnd⟩ := (Option.any_eq_true ..).mp ended
    obtain ⟨front, rfl⟩ := getLast?_eq_some_iff.mp found
    exact ⟨front, stop, rfl, isEnd⟩
  have stops := Token.isTerminator_of_isLineEnd isEnd
  obtain ⟨joined, joins, parses⟩ := except_bind_iff.mp parsed
  obtain ⟨others, rfl⟩ : ∃ others, joined = others ++ [stop] := by
    refine joinNumerals_last ?_ joins
    simp_all [Token.isTerminator]
  obtain ⟨⟨combined, last⟩, -⟩ := combineOperators_terminator stops others []
  rw [append_assoc, singleton_append, blocksOfTokens, joinNumerals_terminator stops front second joins]
  unfold blocksOfTokens
  cases joinNumerals second with
  | error fault => rfl
  | ok later =>
    show parseBlocks (combineOperators (others ++ [stop] ++ later)) = _
    rw [append_assoc, singleton_append, (combineOperators_terminator stops others later).2]
    refine parseBlocks_append ?_ parses _
    simp [last, isEnd]

/-- Behind a routine that is closed, a second `End Sub` is what it is at the start of a program. -/
theorem blocksOfTokens_part_by_part_second_end :
    let first : List Token := [⟨.keyword, "Sub", 0⟩, ⟨.name, "s", 0⟩, .lineEnd 0,
      ⟨.keyword, "Exit", 1⟩, ⟨.keyword, "Sub", 1⟩, .lineEnd 1, ⟨.keyword, "End", 2⟩, ⟨.keyword, "Sub", 2⟩, .lineEnd 2]
    let second : List Token := [⟨.keyword, "End", 3⟩, ⟨.keyword, "Sub", 3⟩, .lineEnd 3]
    blocksOfTokens first = .ok [.routine ⟨.sub, ⟨.name, "s", 0⟩, true, false, []⟩ [.exit .sub 1]] ∧
      blocksOfTokens (first ++ second) = .error (.malformed 4 (.unknownStatement "End")) :=
  ⟨by rfl, (blocksOfTokens_part_by_part (by decide) (by rfl) _).trans (by rfl)⟩

end VbSharp
