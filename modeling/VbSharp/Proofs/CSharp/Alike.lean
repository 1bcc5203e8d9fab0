import VbSharp.Proofs.CSharp.Rendering
import VbSharp.Proofs.Likeness

/-!
# Code that looks alike

Terms and statements of the generated code are alike if they are built alike and the texts that they take over from
the script look the same. The lines written from alike statements then look the same one by one, at the same depth.
-/
namespace VbSharp

open List Likeness

variable {L : Likeness}

theorem forall₂_intercalate {α : Type} {R : α → α → Prop} {part other : List α} {parts others : List (List α)}
    (between : Forall₂ R part other) (related : Forall₂ (Forall₂ R) parts others) :
    Forall₂ R (part.intercalate parts) (other.intercalate others) := by
  induction related with
  | nil => exact .nil
  | cons first later ih =>
    cases later with
    | nil =>
      rw [intercalate_singleton, intercalate_singleton]
      exact first
    | cons second last =>
      rw [intercalate_cons_cons, intercalate_cons_cons]
      exact rel_append (rel_append first between) ih

theorem Likeness.forall₂_looks (cs : List Char) : Forall₂ L.Looks cs cs :=
  forall₂_same.mpr fun _ _ => rfl

theorem joinText_alike (separator : String) {texts others : List String}
    (look : Forall₂ (fun a b => L.text a = L.text b) texts others) :
    L.text (joinText separator texts) = L.text (joinText separator others) := by
  have spelled : Forall₂ (Forall₂ L.Looks) (texts.map String.toList) (others.map String.toList) :=
    rel_map (fun _ _ looks => Likeness.text_eq_iff.mp looks) look
  exact text_ofList (forall₂_intercalate (forall₂_looks _) spelled)

namespace CSharp

/-! ### Literals -/

variable {a b : String}

theorem escapeChar_alike {c d : Char} (looks : L.Looks c d) : Forall₂ L.Looks (escapeChar c) (escapeChar d) := by
  -- no letter is escaped, so both are the same mark or both stand for themselves
  simp only [escapeChar, looks.beq '\x22', looks.beq '\\', looks.beq '\t', looks.beq '\r', looks.beq '\n',
    looks.beq '\x00']
  split_ifs
  all_goals first
    | exact forall₂_looks _
    | exact .cons looks .nil

theorem stringLiteral_alike (looks : L.text a = L.text b) : L.text (stringLiteral a) = L.text (stringLiteral b) := by
  have escaped : Forall₂ L.Looks (a.toList.flatMap escapeChar) (b.toList.flatMap escapeChar) :=
    rel_flatMap (Likeness.text_eq_iff.mp looks) fun _ _ same => escapeChar_alike same
  have quote : L.Looks '\x22' '\x22' := rfl
  exact text_ofList (rel_append (.cons quote escaped) (.cons quote .nil))

theorem int64?_alike (looks : L.text a = L.text b) : int64? a.toList = int64? b.toList := by
  rw [← int64?_map_toLower, ← int64?_map_toLower b.toList, ← toList_foldCase, ← toList_foldCase, foldCase_eq looks]

theorem numberLiteral_alike (looks : L.text a = L.text b) : L.text (numberLiteral a) = L.text (numberLiteral b) := by
  have marked : (a.toList.any fun c => c == '.' || c == 'e' || c == 'E') =
      b.toList.any fun c => c == '.' || c == 'e' || c == 'E' := by
    refine forall₂_any (Likeness.text_eq_iff.mp looks) fun {c d} same => ?_
    rw [same.beq '.', Bool.or_assoc, Bool.or_assoc, same.eq caseless_mark]
  have suffixed : L.text (a ++ "D") = L.text (b ++ "D") := by
    rw [text_append, text_append, looks]
  unfold numberLiteral
  rw [marked, int64?_alike looks]
  split
  · exact looks
  · split
    · split
      · exact looks
      · exact suffixed
    · exact suffixed

/-! ### Terms -/

/-- Terms that are built alike. -/
inductive Term.Alike (L : Likeness) : Term → Term → Prop where
  | same (t : Term) : Alike L t t
  | string {a b : String} (looks : L.text a = L.text b) : Alike L (.string a) (.string b)
  | number {a b : String} (looks : L.text a = L.text b) : Alike L (.number a) (.number b)
  | support {function : String} {ts us : List Term} (given : Forall₂ (Alike L) ts us) :
    Alike L (.support function ts) (.support function us)
  | call {target : Reference} {ts us : List Term} (given : Forall₂ (Alike L) ts us) :
    Alike L (.call target ts) (.call target us)
  | byRef {t u : Term} (alike : Alike L t u) : Alike L (.byRef t) (.byRef u)
  | strings {texts others : List String} (look : Forall₂ (fun a b => L.text a = L.text b) texts others) :
    Alike L (.strings texts) (.strings others)
  | objects {ts us : List Term} (items : Forall₂ (Alike L) ts us) : Alike L (.objects ts) (.objects us)

namespace Term

theorem renderStrings_alike {texts others : List String}
    (look : Forall₂ (fun a b => L.text a = L.text b) texts others) :
    L.text (renderStrings texts) = L.text (renderStrings others) := by
  have literals : Forall₂ (fun a b => L.text a = L.text b) (texts.map stringLiteral) (others.map stringLiteral) :=
    forall₂_map_left_iff.mpr (forall₂_map_right_iff.mpr (look.imp fun _ _ => stringLiteral_alike))
  unfold renderStrings
  rw [forall₂_isEmpty look]
  split
  · rfl
  · simp only [text_append, commas, joinText_alike ", " literals]

mutual

theorem render_alike : ∀ {t u : Term}, t.Alike L u → L.text t.render = L.text u.render
  | _, _, .same _ => rfl
  | _, _, .string looks => stringLiteral_alike looks
  | _, _, .number looks => numberLiteral_alike looks
  | .support _ _, _, .support given => by
    simp only [render_support, text_append, commas, joinText_alike ", " (renderAll_alike given)]
  | .call _ _, _, .call given => by
    simp only [render_call, text_append, commas, joinText_alike ", " (renderAll_alike given)]
  | .byRef _, _, .byRef alike => by
    simp only [render_byRef, text_append, render_alike alike]
  | _, _, .strings look => renderStrings_alike look
  | .objects _, _, .objects items => by
    simp only [render_objects, text_append, commas, joinText_alike ", " (renderAll_alike items)]

theorem renderAll_alike : ∀ {ts us : List Term}, Forall₂ (Term.Alike L) ts us →
    Forall₂ (fun a b => L.text a = L.text b) (renderAll ts) (renderAll us)
  | [], _, .nil => .nil
  | _ :: _, _, .cons first later => .cons (render_alike first) (renderAll_alike later)

end

end Term

/-! ### Statements -/

/-- Statements of one line that are built alike. -/
inductive Simple.Alike (L : Likeness) : Simple → Simple → Prop where
  | same (s : Simple) : Alike L s s
  | comment {a b : String} (looks : L.text a = L.text b) : Alike L (.comment a) (.comment b)
  | assign {t u : Term} {v w : Term} (targets : t.Alike L u) (values : v.Alike L w) :
    Alike L (.assign t v) (.assign u w)
  | expression {t u : Term} (alike : t.Alike L u) : Alike L (.expression t) (.expression u)
  | propertyAttribute {a b : String} (looks : L.text a = L.text b) :
    Alike L (.propertyAttribute a) (.propertyAttribute b)

theorem Simple.Alike.render {s t : Simple} (alike : s.Alike L t) : L.text s.render = L.text t.render := by
  cases alike with
  | same => rfl
  | @comment a b looks =>
    change L.text ("//" ++ a) = L.text ("//" ++ b)
    rw [text_append, text_append, looks]
  | @assign t u v w targets values =>
    change L.text (t.render ++ " = " ++ v.render ++ ";") = L.text (u.render ++ " = " ++ w.render ++ ";")
    simp only [text_append, Term.render_alike targets, Term.render_alike values]
  | @expression t u alike =>
    change L.text (t.render ++ ";") = L.text (u.render ++ ";")
    rw [text_append, text_append, Term.render_alike alike]
  | @propertyAttribute a b looks =>
    change L.text ("[TranslatedProperty(" ++ stringLiteral a ++ ")]") =
      L.text ("[TranslatedProperty(" ++ stringLiteral b ++ ")]")
    simp only [text_append, stringLiteral_alike looks]

inductive Head.Alike (L : Likeness) : Head → Head → Prop where
  | same (h : Head) : Alike L h h
  | branch {t u : Term} (condition : t.Alike L u) : Alike L (.branch t) (.branch u)
  | elseBranch {t u : Term} (condition : t.Alike L u) : Alike L (.elseBranch t) (.elseBranch u)

theorem Head.Alike.render {h k : Head} (alike : h.Alike L k) : L.text h.render = L.text k.render := by
  cases alike with
  | same => rfl
  | @branch t u condition =>
    change L.text ("if (" ++ t.render ++ ")") = L.text ("if (" ++ u.render ++ ")")
    simp only [text_append, Term.render_alike condition]
  | @elseBranch t u condition =>
    change L.text ("else if (" ++ t.render ++ ")") = L.text ("else if (" ++ u.render ++ ")")
    simp only [text_append, Term.render_alike condition]

/-- Comments behind a line that look the same. -/
abbrev AlikeRemarks (L : Likeness) : Option String → Option String → Prop :=
  Option.Rel fun a b => L.text a = L.text b

theorem remarkText_alike {remark other : Option String} (alike : AlikeRemarks L remark other) :
    L.text (remarkText remark) = L.text (remarkText other) := by
  cases alike with
  | none => rfl
  | some looks => simp only [remarkText, text_append, looks]

/-- Statements that are built alike. -/
inductive Stmt.Alike (L : Likeness) : Stmt → Stmt → Prop where
  | blank : Alike L .blank .blank
  | line {s t : Simple} {remark other : Option String} (contents : s.Alike L t)
    (remarks : AlikeRemarks L remark other) : Alike L (.line s remark) (.line t other)
  | block {h k : Head} {body more : List Stmt} {remark other : Option String} (heads : h.Alike L k)
    (bodies : Forall₂ (Alike L) body more) (remarks : AlikeRemarks L remark other) :
    Alike L (.block h body remark) (.block k more other)

/-- Lines of one depth that look the same. -/
structure Line.Alike (L : Likeness) (l k : Line) : Prop where
  depth : l.depth = k.depth
  text : L.text l.text = L.text k.text

namespace Stmt

variable {s t : Stmt} {stmts others : List Stmt}

theorem alike_ofSimple {x y : Simple} (alike : x.Alike L y) : (ofSimple x).Alike L (ofSimple y) :=
  .line alike .none

theorem alike_ofBlock {h k : Head} {body more : List Stmt} (heads : h.Alike L k)
    (bodies : Forall₂ (Alike L) body more) : (ofBlock h body).Alike L (ofBlock k more) :=
  .block heads bodies .none

theorem alikeRemarks_refl : (remark : Option String) → AlikeRemarks L remark remark
  | none => .none
  | some _ => .some rfl

mutual

theorem alike_refl : (s : Stmt) → s.Alike L s
  | .blank => .blank
  | .line content remark => .line (.same content) (alikeRemarks_refl remark)
  | .block head body remark => .block (.same head) (alike_refls body) (alikeRemarks_refl remark)

theorem alike_refls : (stmts : List Stmt) → Forall₂ (Alike L) stmts stmts
  | [] => .nil
  | s :: rest => .cons (alike_refl s) (alike_refls rest)

end

theorem isBlank_alike (alike : s.Alike L t) : s.isBlank = t.isBlank := by
  cases alike <;> rfl

theorem trim_alike (alike : Forall₂ (Alike L) stmts others) : Forall₂ (Alike L) (trim stmts) (trim others) :=
  rel_reverse (forall₂_dropWhile (rel_reverse (forall₂_dropWhile alike isBlank_alike)) isBlank_alike)

theorem spaced_alike {groups others : List (List Stmt)} (alike : Forall₂ (Forall₂ (Alike L)) groups others) :
    Forall₂ (Alike L) (spaced groups) (spaced others) :=
  forall₂_intercalate (.cons .blank .nil) alike

theorem addRemark?_alike {a b : String} (alike : s.Alike L t) (looks : L.text a = L.text b) :
    Option.Rel (Alike L) (s.addRemark? a) (t.addRemark? b) := by
  have combined {remark other : Option String} (remarks : AlikeRemarks L remark other) :
      AlikeRemarks L (some (addRemark?.combined a remark)) (some (addRemark?.combined b other)) := by
    cases remarks with
    | none => exact .some looks
    | some earlier =>
      refine .some ?_
      simp only [addRemark?.combined, text_append, earlier, looks]
  cases alike with
  | blank => exact .none
  | line contents remarks => exact .some (.line contents (combined remarks))
  | block heads bodies remarks => exact .some (.block heads bodies (combined remarks))

mutual

theorem lines_alike : ∀ {s t : Stmt} (_ : s.Alike L t) (depth : Nat),
    Forall₂ (Line.Alike L) (s.lines depth) (t.lines depth)
  | _, _, .blank, _ => .cons ⟨rfl, rfl⟩ .nil
  | .line _ _, _, .line contents remarks, depth => by
    refine .cons ⟨rfl, ?_⟩ .nil
    rw [text_append, text_append, contents.render, remarkText_alike remarks]
  | .block _ _ _, _, .block heads bodies remarks, depth => by
    have inside := linesOf_alike bodies (depth + 1)
    refine .cons ⟨rfl, heads.render⟩ (.cons ⟨rfl, rfl⟩ (rel_append inside (.cons ⟨rfl, ?_⟩ .nil)))
    rw [text_append, text_append, remarkText_alike remarks]

/-- Alike statements are written as lines of the same depths that look the same. -/
theorem linesOf_alike : ∀ {stmts others : List Stmt} (_ : Forall₂ (Alike L) stmts others) (depth : Nat),
    Forall₂ (Line.Alike L) (linesOf depth stmts) (linesOf depth others)
  | [], _, .nil, _ => .nil
  | _ :: _, _, .cons first later, depth => rel_append (lines_alike first depth) (linesOf_alike later depth)

end

end Stmt
end CSharp
end VbSharp
