import Mathlib.Data.List.Infix
import VbSharp.Page

/-!
# How a page is cut

A page is a number of stretches, each of them markup and a script block between marks, and what stands behind the last
closing mark. The opening mark of a stretch is the leftmost one behind the stretch before it, and its closing mark is
the leftmost one behind its opening mark. A page has one such cut. Its script is made of the parts in their order, and
there is none exactly if an opening mark is left that no closing mark follows.
-/
namespace VbSharp

open List

namespace Page

variable {a b : Char} {text before after last : List Char} {line : Nat}

/-! ### The leftmost mark -/

theorem splitAtMark_cons (c : Char) (rest : List Char) :
    splitAtMark a b (c :: rest) = if c = a ∧ rest.head? = some b then some ([], rest.tail)
      else (splitAtMark a b rest).map fun (before, after) => (c :: before, after) := by
  cases rest <;> simp [splitAtMark]

theorem mark_infix_cons {c : Char} {rest : List Char} :
    [a, b] <:+: c :: rest ↔ (c = a ∧ rest.head? = some b) ∨ [a, b] <:+: rest := by
  rw [infix_cons_iff, cons_prefix_cons, eq_comm]
  cases rest with
  | nil => simp
  | cons d rest => rw [cons_prefix_cons, head?_cons, Option.some.injEq, eq_comm (a := b)]; simp

theorem splitAtMark_eq_none_iff : splitAtMark a b text = none ↔ ¬ [a, b] <:+: text := by
  induction text with
  | nil => simp [splitAtMark]
  | cons c rest ih =>
    rw [splitAtMark_cons, mark_infix_cons]
    by_cases mark : c = a ∧ rest.head? = some b
    · simp [mark]
    · simp [mark, ih]

/-- The mark behind a text is found if no mark starts in the text. -/
theorem splitAtMark_append_iff (before after : List Char) :
    splitAtMark a b (before ++ a :: b :: after) = some (before, after) ↔ ¬ [a, b] <:+: before ++ [a] := by
  induction before with
  | nil => simp [splitAtMark_cons, mark_infix_cons]
  | cons c before ih =>
    have next : (before ++ a :: b :: after).head? = (before ++ [a]).head? := by cases before <;> rfl
    rw [cons_append, splitAtMark_cons, cons_append, mark_infix_cons, not_or, ← ih, next]
    by_cases mark : c = a ∧ (before ++ [a]).head? = some b
    · simp [mark]
    · rw [if_neg mark, and_iff_right mark, Option.map_eq_some_iff]
      simp

theorem splitAtMark_eq_some_iff : splitAtMark a b text = some (before, after) ↔
    text = before ++ a :: b :: after ∧ ¬ [a, b] <:+: before ++ [a] := by
  constructor
  · intro found
    obtain rfl := splitAtMark_eq found
    exact ⟨rfl, (splitAtMark_append_iff _ _).mp found⟩
  · rintro ⟨rfl, leftmost⟩
    exact (splitAtMark_append_iff _ _).mpr leftmost

/-! ### Stretches -/

/-- Markup, and the script block that the marks behind it set off. -/
structure Stretch where
  markup : List Char
  block : List Char

namespace Stretch

def chars (s : Stretch) : List Char :=
  s.markup ++ '<' :: '%' :: (s.block ++ ['%', '>'])

/-- No other mark could have opened or closed the block. -/
def IsLeftmost (s : Stretch) : Prop :=
  ¬ ['<', '%'] <:+: s.markup ++ ['<'] ∧ ¬ ['%', '>'] <:+: s.block ++ ['%']

end Stretch

/-- Markup is written out, if there is any. -/
def markupLines (text : List Char) : List String :=
  if text = [] then [] else ["Response.Write " ++ markupExpression text]

/-- An expression is written out, a directive is left out, and code that is not blank is taken over. -/
def blockLines (block : List Char) : List String :=
  if block.head? = some '=' then ["Response.Write " ++ String.ofList (trimBlank block.tail)]
  else if block.head? = some '@' ∨ trimBlank block = [] then []
  else [String.ofList block]

/-- The stretches of a page, and what stands behind them. -/
structure IsCut (page : List Char) (stretches : List Stretch) (last : List Char) : Prop where
  whole : page = stretches.flatMap Stretch.chars ++ last
  leftmost : ∀ s ∈ stretches, s.IsLeftmost

/-- An opening mark is the leftmost one, and no closing mark follows. -/
structure IsUnclosed (before after : List Char) : Prop where
  leftmost : ¬ ['<', '%'] <:+: before ++ ['<']
  unclosed : ¬ ['%', '>'] <:+: after

/-! ### The parts of a page -/

def Stretch.parts (s : Stretch) : List Part :=
  [.markup s.markup, .ofBlock s.block]

theorem parts_eq (line : Nat) (page : List Char) :
    parts line page = match splitAtMark '<' '%' page with
      | none => .ok [.markup page]
      | some (before, opened) => match splitAtMark '%' '>' opened with
        | none => .error (.unclosedScript (line + lineFeeds before))
        | some (block, rest) =>
          (parts (line + lineFeeds before + lineFeeds block) rest).map (Stretch.parts ⟨before, block⟩ ++ ·) := by
  rw [parts]
  split
  next opens => rw [opens]
  next opens =>
    rw [opens]
    simp only
    split
    next closes => rw [closes]
    next closes =>
      rw [closes]
      rfl

theorem parts_stretch {s : Stretch} (leftmost : s.IsLeftmost) (rest : List Char) (line : Nat) :
    parts line (s.chars ++ rest) = (parts (line + lineFeeds s.chars) rest).map (s.parts ++ ·) := by
  have opens := (splitAtMark_append_iff s.markup (s.block ++ '%' :: '>' :: rest)).mpr leftmost.1
  have closes := (splitAtMark_append_iff s.block rest).mpr leftmost.2
  have count : line + lineFeeds s.chars = line + lineFeeds s.markup + lineFeeds s.block := by
    simp [Stretch.chars, lineFeeds, Nat.add_assoc]
  rw [parts_eq, show s.chars ++ rest = s.markup ++ '<' :: '%' :: (s.block ++ '%' :: '>' :: rest) by simp [Stretch.chars],
    opens]
  simp only [closes, count]

theorem parts_cut {stretches : List Stretch} (leftmost : ∀ s ∈ stretches, s.IsLeftmost) (last : List Char)
    (line : Nat) : parts line (stretches.flatMap Stretch.chars ++ last) =
      (parts (line + lineFeeds (stretches.flatMap Stretch.chars)) last).map (stretches.flatMap Stretch.parts ++ ·) := by
  induction stretches generalizing line with
  | nil =>
    show parts line last = (parts line last).map id
    cases parts line last <;> rfl
  | cons s stretches ih =>
    obtain ⟨here, later⟩ := forall_mem_cons.mp leftmost
    have count : lineFeeds (s.chars ++ stretches.flatMap Stretch.chars) =
      lineFeeds s.chars + lineFeeds (stretches.flatMap Stretch.chars) := count_append
    rw [flatMap_cons, append_assoc, parts_stretch here, ih later, count, ← Nat.add_assoc]
    cases parts _ last <;> simp [Except.map]

theorem parts_unclosed (here : IsUnclosed before after) (line : Nat) :
    parts line (before ++ '<' :: '%' :: after) = .error (.unclosedScript (line + lineFeeds before)) := by
  rw [parts_eq, (splitAtMark_append_iff _ _).mpr here.leftmost]
  simp only [splitAtMark_eq_none_iff.mpr here.unclosed]

/-- Every page has a cut, and what stands behind it opens no block or one that is never closed. -/
theorem exists_cut (page : List Char) : ∃ stretches last, IsCut page stretches last ∧
    (¬ ['<', '%'] <:+: last ∨ ∃ before after, last = before ++ '<' :: '%' :: after ∧ IsUnclosed before after) := by
  induction length : page.length using Nat.strong_induction_on generalizing page with
  | _ n ih =>
    cases opens : splitAtMark '<' '%' page with
    | none => exact ⟨[], page, ⟨rfl, by simp⟩, .inl (splitAtMark_eq_none_iff.mp opens)⟩
    | some pair =>
      obtain ⟨before, opened⟩ := pair
      obtain ⟨rfl, leftmost⟩ := splitAtMark_eq_some_iff.mp opens
      cases closes : splitAtMark '%' '>' opened with
      | none =>
        exact ⟨[], _, ⟨rfl, by simp⟩, .inr ⟨before, opened, rfl, leftmost, splitAtMark_eq_none_iff.mp closes⟩⟩
      | some pair =>
        obtain ⟨block, rest⟩ := pair
        obtain ⟨rfl, closed⟩ := splitAtMark_eq_some_iff.mp closes
        obtain ⟨stretches, last, cut, ends⟩ := ih rest.length (by simp at length; omega) rest rfl
        refine ⟨⟨before, block⟩ :: stretches, last, ⟨?_, forall_mem_cons.mpr ⟨⟨leftmost, closed⟩, cut.leftmost⟩⟩, ends⟩
        rw [cut.whole, flatMap_cons]
        simp [Stretch.chars]

/-! ### The script -/

theorem script?_ofBlock (block : List Char) : (Part.ofBlock block).script?.toList = blockLines block := by
  unfold Part.ofBlock
  split
  · rfl
  · rfl
  next noOutput noDirective =>
    have noSign : block.head? ≠ some '=' := fun starts => by
      obtain ⟨rest, rfl⟩ := head?_eq_some_iff.mp starts
      exact noOutput rest rfl
    have noMark : block.head? ≠ some '@' := fun starts => by
      obtain ⟨rest, rfl⟩ := head?_eq_some_iff.mp starts
      exact noDirective rest rfl
    rw [blockLines, if_neg noSign]
    by_cases blank : trimBlank block = []
    · simp [Part.script?, blank]
    · simp [Part.script?, blank, noMark]

/-- The lines of the script of a page with this cut. -/
def cutLines (stretches : List Stretch) (last : List Char) : List String :=
  stretches.flatMap (fun s => markupLines s.markup ++ blockLines s.block) ++ markupLines last

theorem filterMap_cut (stretches : List Stretch) (last : List Char) :
    (stretches.flatMap Stretch.parts ++ [Part.markup last]).filterMap Part.script? = cutLines stretches last := by
  have markup (text : List Char) : (Part.markup text).script?.toList = markupLines text := by
    cases text <;> rfl
  rw [filterMap_eq_flatMap_toList, flatMap_append, flatMap_assoc]
  simp only [Stretch.parts, flatMap_cons, flatMap_nil, append_nil, markup, script?_ofBlock]
  rfl

end Page

section Script

variable {page : String} {stretches : List Page.Stretch} {last before after : List Char}

theorem pageScript_plain (cut : Page.IsCut page.toList stretches last) (plain : ¬ ['<', '%'] <:+: last) :
    pageScript page = .ok (joinText "\n" (Page.cutLines stretches last)) := by
  rw [pageScript, cut.whole, Page.parts_cut cut.leftmost, Page.parts_eq, Page.splitAtMark_eq_none_iff.mpr plain, ← Page.filterMap_cut]
  rfl

theorem pageScript_unclosed (cut : Page.IsCut page.toList stretches (before ++ '<' :: '%' :: after))
    (here : Page.IsUnclosed before after) : pageScript page =
      .error (.unclosedScript (1 + (stretches.flatMap Page.Stretch.chars ++ before).count '\n')) := by
  rw [pageScript, cut.whole, Page.parts_cut cut.leftmost, Page.parts_unclosed here, count_append, ← Nat.add_assoc]
  rfl

end Script

/-- The marks of a page are the leftmost ones. Its script has the lines of its stretches, in their order, and of the
markup behind them, and there is one exactly if every opening mark is followed by a closing mark. The fault is on the
line of the opening mark. -/
theorem pageScript_cut_leftmost (page : String) :
    (∀ script, pageScript page = .ok script ↔ ∃ stretches last, Page.IsCut page.toList stretches last ∧
      ¬ ['<', '%'] <:+: last ∧ script = joinText "\n" (Page.cutLines stretches last)) ∧
    ∀ fault, pageScript page = .error fault ↔
      ∃ stretches before after, Page.IsCut page.toList stretches (before ++ '<' :: '%' :: after) ∧
        Page.IsUnclosed before after ∧
        fault = .unclosedScript (1 + (stretches.flatMap Page.Stretch.chars ++ before).count '\n') := by
  refine ⟨fun script => ⟨fun ok => ?_, ?_⟩, fun fault => ⟨fun failed => ?_, ?_⟩⟩
  · obtain ⟨stretches, last, cut, plain | ⟨before, after, rfl, unclosed⟩⟩ := Page.exists_cut page.toList
    · rw [pageScript_plain cut plain] at ok
      exact ⟨stretches, last, cut, plain, (Except.ok.inj ok).symm⟩
    · rw [pageScript_unclosed cut unclosed] at ok
      cases ok
  · rintro ⟨_, _, cut, plain, rfl⟩
    exact pageScript_plain cut plain
  · obtain ⟨stretches, last, cut, plain | ⟨before, after, rfl, unclosed⟩⟩ := Page.exists_cut page.toList
    · rw [pageScript_plain cut plain] at failed
      cases failed
    · rw [pageScript_unclosed cut unclosed] at failed
      exact ⟨stretches, before, after, cut, unclosed, (Except.error.inj failed).symm⟩
  · rintro ⟨_, _, _, cut, unclosed, rfl⟩
    exact pageScript_unclosed cut unclosed

end VbSharp
