import VbSharp.Proofs.Lower.Events
import VbSharp.Proofs.Lower.Parts
import VbSharp.Proofs.Lower.Signatures

/-!
# Nothing is dropped

A program that is lowered holds no block that cannot be lowered, every statement of it is written once, in order and
inside the braces of its own clauses, and every comment is written once.
-/
namespace VbSharp

open List Block
open CSharp (Simple Head Stmt)

variable {lowered : Lowered} {dates : List String}

/-! ### Blocks that cannot be lowered -/

/-- Whether a block is always refused. -/
def Block.isRefused : Block → Bool
  | .doLoop _ _ _ | .whileLoop _ _ _ | .forLoop _ _ _ _ _ | .forEach _ _ _ | .select _ _ _ | .onError _ _
  | .withTarget _ _ _ | .exit .doLoop _ | .exit .forLoop _ => true
  | _ => false

/-! ### Comments -/

/-- The comments of a statement, on a line of their own or behind its last line. -/
def CSharp.Stmt.comments : Stmt → List String
  | .line (.comment text) remark => text :: remark.toList
  | .blank => []
  | .line _ remark => remark.toList
  | .block _ _ remark => remark.toList

namespace Lower

open CSharp.Stmt (deep)

theorem shows_comments : Shows Stmt.comments (fun text => [text]) where
  blank := rfl
  block _ _ := rfl
  line content ordinary := by
    cases content with
    | comment text => cases ordinary
    | _ => rfl
  comment _ := rfl
  remark := by
    intro s text marked fresh added
    cases s with
    | blank => cases added
    | line content remark =>
      cases added
      cases fresh
      cases content with
      | comment own => rfl
      | _ => rfl
    | block head body remark =>
      cases added
      cases fresh
      rfl

variable {ctx : Context} {scope : Scope} {out : Emission}

theorem followed_accepted : Followed ctx (fun _ bs _ => ∀ b ∈ Block.listWithin bs, b.isRefused = false)
    (fun _ rest _ => ∀ b ∈ withinAlternative rest, b.isRefused = false) where
  nil _ := forall_mem_nil _
  append first second := by
    rw [listWithin_append]
    exact forall_mem_append.mpr ⟨first, second⟩
  remark held _ _ := by
    rw [listWithin_append]
    exact forall_mem_append.mpr ⟨held, forall_mem_singleton.mpr rfl⟩
  blank _ := forall_mem_singleton.mpr rfl
  comment _ _ _ := forall_mem_singleton.mpr rfl
  optionExplicit _ := forall_mem_singleton.mpr rfl
  declaration _ _ := forall_mem_singleton.mpr rfl
  call _ := forall_mem_singleton.mpr rfl
  assignment _ := forall_mem_singleton.mpr rfl
  randomize _ := forall_mem_singleton.mpr rfl
  exit {_ kind _ _} left := by
    rw [listWithin_singleton]
    cases kind with
    | doLoop => cases left
    | forLoop => cases left
    | _ => exact forall_mem_singleton.mpr rfl
  routine _ held := by
    rw [listWithin_singleton]
    exact forall_mem_cons.mpr ⟨rfl, held⟩
  classDefinition _ _ held := by
    rw [listWithin_singleton]
    exact forall_mem_cons.mpr ⟨rfl, held⟩
  branch _ inner others := by
    rw [listWithin_singleton]
    exact forall_mem_cons.mpr ⟨rfl, forall_mem_append.mpr ⟨inner, others⟩⟩
  none _ := forall_mem_nil _
  elseIf _ inner others := forall_mem_append.mpr ⟨inner, others⟩
  otherwise held := held

theorem comments_outermostDeclarations (asClass : Bool) (out : Emission) :
    (outermostDeclarations asClass out).flatMap (deep Stmt.comments) = [] := by
  rw [flatMap_eq_nil_iff]
  intro s member
  simp only [outermostDeclarations, mem_append, mem_map] at member
  rcases member with ⟨d, -, rfl⟩ | ⟨name, -, rfl⟩
  · rfl
  · rfl

end Lower

open Lower (Matches RoutineMatches ClassMatches)

/-- Lowering drops nothing. If it succeeds, no loop, `Select`, `With`, `On Error`, `Exit Do` or `Exit For` is left
anywhere; the outermost code, each routine and each class does in order what its blocks say, line for statement,
each inside the braces of the clauses around it; and every comment is written once. Only two lines come from
nowhere: the check of the dates and the return of a function's result. -/
theorem lowerBlocks_drops_nothing (settings : Settings) (source : List Block) (lowered : Lower.Lowered)
    (success : lowerBlocks settings source = .ok lowered) :
    let kept := Lower.dropSuperseded source
    let scope := Scope.ofProgram kept settings.externalReferences
    let ctx : Lower.Context := ⟨settings.culture, lowered.outerClass?.isSome⟩
    (∀ b ∈ Block.listWithin kept, b.isRefused = false) ∧
      (∃ main, Stmt.listParts lowered.outermost =
          Stmt.listParts (if ctx.asClass then [] else Lower.dateCheck lowered.dates) ++ main ∧
        Matches (ctx.site scope) (Block.listParts kept) main) ∧
      Forall₂ (RoutineMatches ctx scope) (Contents.ofBlocks kept).routines
        (Stmt.listMethods lowered.outermost) ∧
      Forall₂ (ClassMatches ctx scope) (Contents.ofBlocks kept).classes
        (lowered.scriptClasses.filterMap Stmt.classMembers?) ∧
      ((lowered.body ++ lowered.classes).flatMap (Stmt.deep Stmt.comments)).Perm
        ((Block.listWithin kept).filterMap comment?) := by
  intro kept scope ctx
  obtain ⟨out, program⟩ := Lower.made_of_lowerBlocks success
  have shown := (Lower.shows_comments.followed fun _ => rfl).ofBlocks kept scope out program.ends
  refine ⟨Lower.followed_accepted.ofBlocks kept scope out program.ends,
    ⟨_, program.listParts_outermost, Lower.blocks_match program.ends⟩,
    program.routines.imp fun _ _ => Lower.RoutineMade.matches,
    program.members.imp fun _ _ => Lower.MembersMade.matches, ?_⟩
  have whole := program.deep_eq Lower.shows_comments.toIsSparse
  rw [Lower.comments_outermostDeclarations, shown, Multiset.coe_nil, zero_add, Lower.shownBy,
    flatMap_singleton', Multiset.coe_eq_coe] at whole
  exact whole

/-- A branch with a statement and a comment behind it, and another clause with a comment alone. -/
def remarkProgram : List Block :=
  let x : Token := ⟨.name, "x", 0⟩
  [.declaration .dim [⟨x, none⟩] 0, .branch [.call [x] []]
      [.assignment .value [.call [x] []] [.value ⟨.number, "1", 0⟩], .comment " set" true]
      (.otherwise [.comment " left" false])]

theorem lowerBlocks_drops_nothing_remark :
    ∃ lowered term content, lowerBlocks {} remarkProgram = .ok lowered ∧
      Stmt.listParts lowered.outermost = [.clause (.branch term) [.line content], .clause .otherwise []] ∧
      ((lowered.body ++ lowered.classes).flatMap (Stmt.deep Stmt.comments)).Perm [" set", " left"] := by
  have run : (lowerBlocks {} remarkProgram).toOption.map (·.dates) = some [] := by decide +kernel
  obtain ⟨lowered, success, undated⟩ := exists_of_toOption_map run
  obtain ⟨-, ⟨main, parts, related⟩, -, -, comments⟩ := lowerBlocks_drops_nothing {} remarkProgram lowered success
  have noCheck : Stmt.listParts (if lowered.outerClass?.isSome then [] else Lower.dateCheck lowered.dates) = [] := by
    rw [undated]
    split
    · rfl
    · rfl
  simp only [noCheck, nil_append] at parts
  have shape : ∃ term content, main = [.clause (.branch term) [.line content], .clause .otherwise []] := by
    change Matches _ [.clause (.first _) [.line _], .clause .otherwise []] main at related
    cases related with
    | @clause _ head _ _ _ _ opened inner later =>
      cases inner with
      | line written rest =>
        cases rest
        cases later with
        | @clause _ other _ _ _ _ closing none rest =>
          cases none
          cases rest
          cases head <;> first | exact absurd opened id | skip
          cases other <;> first | exact absurd closing id | skip
          exact ⟨_, _, rfl⟩
  obtain ⟨term, content, rfl⟩ := shape
  exact ⟨lowered, term, content, success, parts, comments⟩

end VbSharp
