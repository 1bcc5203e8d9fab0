import VbSharp.Fault
import VbSharp.Page.Markup

/-!
# Pages

A page is markup with script blocks in it, each between an opening and a closing mark. Read from left to
right, a block opens at the first opening mark and ends at the first closing mark after it. The script of
a page writes the markup out and runs the blocks, in the order of the page.
-/
namespace VbSharp.Page

/-- A part of a page, without the marks around it. -/
inductive Part where
  | markup (text : List Char)
  /-- An expression whose value is written out. -/
  | output (expression : List Char)
  | code (text : List Char)
  /-- A remark to the host; no part of the script. -/
  | directive (text : List Char)
  deriving Repr, DecidableEq

/-- The text before the first `a` that a `b` follows, and the text after the two. -/
def splitAtMark (a b : Char) : List Char → Option (List Char × List Char)
  | [] => none
  | c :: rest =>
    match rest with
    | [] => none
    | d :: after =>
      if c == a && d == b then some ([], after)
      else (splitAtMark a b rest).map fun (before, after) => (c :: before, after)

/-- A mark splits a text in two; nothing is lost but the mark. -/
theorem splitAtMark_eq {a b : Char} {text before after : List Char}
    (h : splitAtMark a b text = some (before, after)) : text = before ++ a :: b :: after := by
  induction text generalizing before with
  | nil => simp [splitAtMark] at h
  | cons c rest ih =>
    cases rest with
    | nil => simp [splitAtMark] at h
    | cons d tail =>
      by_cases hm : (c == a && d == b) = true
      · simp only [splitAtMark, hm, if_true, Option.some.injEq, Prod.mk.injEq] at h
        obtain ⟨rfl, rfl⟩ := h
        simp only [Bool.and_eq_true, beq_iff_eq] at hm
        simp [hm.1, hm.2]
      · rw [splitAtMark] at h
        simp only [hm, Bool.false_eq_true, if_false, Option.map_eq_some_iff] at h
        obtain ⟨⟨before', after'⟩, found, heq⟩ := h
        simp only [Prod.mk.injEq] at heq
        obtain ⟨rfl, rfl⟩ := heq
        simp [ih found]

theorem splitAtMark_length {a b : Char} {text before after : List Char}
    (h : splitAtMark a b text = some (before, after)) : after.length < text.length := by
  rw [splitAtMark_eq h]
  simp
  omega

def Part.ofBlock : List Char → Part
  | '=' :: expression => .output expression
  | '@' :: text => .directive text
  | text => .code text

def parts (line : Nat) (page : List Char) : Except Fault (List Part) :=
  match _h : splitAtMark '<' '%' page with
  | none => .ok [.markup page]
  | some (before, opened) =>
    let line := line + lineFeeds before
    match _h' : splitAtMark '%' '>' opened with
    | none => .error (.unclosedScript line)
    | some (block, rest) => do
      let later ← parts (line + lineFeeds block) rest
      return .markup before :: .ofBlock block :: later
termination_by page.length
decreasing_by
  exact Nat.lt_trans (splitAtMark_length _h') (splitAtMark_length _h)

/-- The script of a part; empty parts have none. -/
def Part.script? : Part → Option String
  | .markup text => if text.isEmpty then none else some ("Response.Write " ++ markupExpression text)
  | .output expression => some ("Response.Write " ++ String.ofList (trimBlank expression))
  | .code text => if (trimBlank text).isEmpty then none else some (String.ofList text)
  | .directive _ => none

end Page

/-- The script that a page runs. Lines of a page are counted from one. -/
def pageScript (page : String) : Except Fault String := do
  let parts ← Page.parts 1 page.toList
  return joinText "\n" (parts.filterMap Page.Part.script?)

end VbSharp
