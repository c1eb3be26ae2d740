import PugPrinter.Proofs.Emit.Silent
import PugPrinter.Source

/-!
Arms of a case. An arm without a body falls through to the next one, so an arm with a body has to be
written with more than its head. An empty body gets a line of its own for this. A body with children that
write nothing does not, and such an arm falls through.
-/

set_option autoImplicit false

namespace PugPrinter

/-- Whether an arm with a body is written as one without: there are children in the body, and they write
nothing. -/
def Node.fallsThrough (nested : Bool) (body : Node) : Bool :=
  !body.hasNoNodes && body.isSilent nested false

namespace LineBuffer

/-- A buffer goes on from an earlier one with further lines or further code points. -/
structure Outgrows (later earlier : LineBuffer) : Prop where
  goesOn : earlier.Extends later
  more : earlier.size < later.size ∨ earlier.width < later.width

end LineBuffer

namespace Piece

open LineBuffer

private theorem Visible.outgrows {pieces : List Piece} (visible : Visible pieces) (b : LineBuffer) :
    (pieces.foldl write b).Outgrows b := by
  refine ⟨Extends.foldl_write b pieces, ?_⟩
  rcases visible with ⟨quiet, depth, rest, quietFirst, rfl⟩ |
    ⟨quiet, piece, rest, text, quietFirst, rfl, given, writes⟩
  · left
    rw [List.foldl_append, quietFirst, List.foldl_cons]
    have grown := (Extends.foldl_write (write b (.line depth)) rest).size_le
    have opened : (write b (.line depth)).size = b.size + 1 := rfl
    omega
  · right
    rw [List.foldl_append, quietFirst, List.foldl_cons, writes, width_foldl_write,
      LineBuffer.width_append]
    have longer := List.length_pos_iff.mpr given
    omega

end Piece

namespace Emit

open Emission

variable {style : Style} {spot : Spot}

private def armBody (style : Style) (spot : Spot) (arm body : Node) : Emission :=
  if body.nodes?.isNone then unsupported
  else if body.hasNoNodes then newLine (spot.depth + 1) []
  else emit style (spot.below arm) body

private theorem emit_arm (loc : Location) (expr : Loose Text) (body : Node) :
    emit style spot (.stem loc (.when expr) (some body)) =
      emit style spot (.stem loc (.when expr) none) >>= fun _ =>
        armBody style spot (.stem loc (.when expr) (some body)) body := by
  rw [emit, emit]
  unfold Emit.when armBody Node.hasNoNodes
  cases children : body.nodes? with
  | none => simp only [children]; rfl
  | some nodes => cases nodes <;> simp only [children] <;> rfl

private theorem armBody_tells (arm body : Node) :
    (armBody style spot arm body).Tells (body.fallsThrough spot.nested) := by
  refine .ite (fun _ => Run.tells_fail _ _) fun _ => ?_
  unfold Node.fallsThrough
  cases empty : body.hasNoNodes with
  | true => exact newLine_tells _ _
  | false =>
    have onOwnLine : (spot.below arm).NoBareColon := by
      intro joins
      rw [Spot.below, Bool.and_false] at joins
      cases joins
    exact emit_tells style body (spot.below arm) onOwnLine

end Emit

open Emit

/-- An arm with a body that can be printed goes on from its head with a further line or a further code
point, unless its body holds children that write nothing: such an arm is written as one without a
body. -/
theorem arm_outgrows_head_iff {style : Style} {spot : Spot} {loc : Location} {expr : Loose Text}
    {body : Node} (ended : (emit style spot (.stem loc (.when expr) (some body))).result = .ok ())
    (b : LineBuffer) :
    ∃ head arm : LineBuffer,
      head = (emit style spot (.stem loc (.when expr) none)).out.foldl Piece.write b ∧
      arm = (emit style spot (.stem loc (.when expr) (some body))).out.foldl Piece.write b ∧
      (arm.Outgrows head ↔ body.fallsThrough spot.nested = false) ∧
      (body.fallsThrough spot.nested = true → arm = head) := by
  refine ⟨_, _, rfl, rfl, ?_⟩
  rw [emit_arm] at ended ⊢
  obtain ⟨_, headEnded, bodyEnded⟩ := (Run.bind_result_eq_ok_iff _ _ _).mp ended
  have told := armBody_tells _ body () bodyEnded
  rw [Run.bind_out_of_ok headEnded, List.foldl_append]
  cases falls : body.fallsThrough spot.nested with
  | false =>
    rw [falls] at told
    exact ⟨iff_of_true (Piece.Visible.outgrows told _) rfl, nofun⟩
  | true =>
    rw [falls] at told
    have same := told ((emit style spot (.stem loc (.when expr) none)).out.foldl Piece.write b)
    rw [same]
    refine ⟨iff_of_false (fun outgrows => ?_) (by decide), fun _ => rfl⟩
    rcases outgrows.more with lines | points
    · exact Nat.lt_irrefl _ lines
    · exact Nat.lt_irrefl _ points

namespace Emit

def armText (line : Int) (val : Text) : Node :=
  .leaf { line } (.text (.of val) (.of false))

def armBlock (nodes : List Node) : Node :=
  .block { line := 3 } .plain (.of false) nodes

/-- A choice with two arms, of which the first has some body. -/
def armSample (nodes : List Node) : Node :=
  .stem { line := 1 } (.caseOf (.of "x")) (some (.block { line := 2 } .plain (.of false)
    [.stem { line := 2 } (.when (.of "1")) (some (armBlock nodes)),
      .stem { line := 4 } (.when (.of "2")) (some (armBlock [armText 5 "b"]))]))

end Emit

/-- A text after an empty one is written, and so is the line of an empty body; two empty texts in blocks
are not. -/
theorem arm_outgrows_head_samples :
    (∃ head arm : LineBuffer, arm.lines = [("when 1b" : Text)] ∧ arm.Outgrows head) ∧
    (∃ head arm : LineBuffer,
      arm.lines = [("when 1" : Text), ("  " : Text)] ∧ arm.Outgrows head) ∧
    (∃ head arm : LineBuffer,
      arm.lines = [("when 1" : Text)] ∧ arm = head ∧ ¬ arm.Outgrows head) := by
  refine ⟨?_, ?_, ?_⟩
  · obtain ⟨head, arm, _, isArm, outgrows, _⟩ := @arm_outgrows_head_iff {} { depth := 0 } { line := 2 }
      (.of "1") (armBlock [armText 3 [], armText 3 "b"]) rfl { unit := "  " }
    exact ⟨head, arm, isArm ▸ rfl, outgrows.mpr rfl⟩
  · obtain ⟨head, arm, _, isArm, outgrows, _⟩ := @arm_outgrows_head_iff {} { depth := 0 } { line := 2 }
      (.of "1") (armBlock []) rfl { unit := "  " }
    exact ⟨head, arm, isArm ▸ rfl, outgrows.mpr rfl⟩
  · obtain ⟨head, arm, _, isArm, outgrows, same⟩ := @arm_outgrows_head_iff {} { depth := 0 }
      { line := 2 } (.of "1") (armBlock [armBlock [armText 3 []], armText 4 []]) rfl { unit := "  " }
    exact ⟨head, arm, isArm ▸ rfl, same rfl, fun more => Bool.noConfusion (outgrows.mp more)⟩

/-- Not every arm with a body is written with more than its head: one whose only child is an empty text
falls through to the arm after it. -/
theorem not_all_arms_outgrow_head :
    ¬ (∀ (style : Style) (spot : Spot) (loc : Location) (expr : Loose Text) (body : Node)
        (b : LineBuffer), 0 ≤ spot.depth →
      (Node.stem loc (.when expr) (some body)).wellFormed = true →
      (emit style spot (.stem loc (.when expr) (some body))).result = .ok () →
      ((emit style spot (.stem loc (.when expr) (some body))).out.foldl Piece.write b).Outgrows
        ((emit style spot (.stem loc (.when expr) none)).out.foldl Piece.write b)) ∧
    (sourceOfTree .standard (armSample [armText 3 []])).result =
      .ok "case x\n  when 1\n  when 2\n    | b" := by
  constructor
  · intro all
    have more := (all {} { depth := 0 } { line := 2 } (.of "1") (armBlock [armText 3 []])
      { unit := "  " } (by decide) (by decide) rfl).more
    exact absurd more (by decide)
  · rfl

end PugPrinter
