import PugPrinter.Proofs.Printing
import PugPrinter.Proofs.Segment

/-!
Indentation is only a matter of depth. A printed tree comes with a sequence of literals and line
breaks that does not know the unit of indentation, and a node that stands one level deeper is
written with the same literals and with every break one level deeper.
-/

set_option autoImplicit false

namespace PugPrinter

/-- The source of a printed tree is one sequence of segments, whatever the unit of indentation; and
a node one level deeper continues any buffer with the same segments, every break one level deeper. -/
theorem source_factors_through_depth (style : Style) :
    (∀ (tree : Node) (config : Config) (text : Text), config.style = style →
      (sourceOfTree config tree).result = .ok text →
      ∃ segments : List Segment, ∀ (other : Config) (unit : Text), other.style = style →
        other.indentUnit = .of unit → unit.IsInert →
        (sourceOfTree other tree).result = .ok (Segment.source unit segments)) ∧
    (∀ (n : Node) (spot : Spot), 0 ≤ spot.depth → (emit style spot n).result = .ok () →
      ∃ segments : List Segment, ∀ b : LineBuffer, b.unit.IsInert →
        ((emit style spot n).out.foldl Piece.write b).build = Segment.after b segments ∧
        (emit style { spot with depth := spot.depth + 1 } n).result = .ok () ∧
        ((emit style { spot with depth := spot.depth + 1 } n).out.foldl Piece.write b).build =
          Segment.after b (segments.map Segment.deeper)) := by
  constructor
  · rintro tree config text rfl printed
    obtain ⟨root, count, normal, ended⟩ := rootEmission_of_sourceOfTree printed
    refine ⟨Segment.ofPieces (Printer.rootEmission config.style root).out, ?_⟩
    intro other unit sameStyle given inert
    rw [← sameStyle] at ended ⊢
    rw [sourceOfTree_of_rootEmission given normal ended, Segment.build_writeAll inert]
  · intro n spot nonneg ended
    refine ⟨Segment.ofPieces (emit style spot n).out, ?_⟩
    intro b inert
    have follows : emit style (spot.leveled .down) n = Emission.leveled .down (emit style spot n) :=
      emit_followsSpot .down style n spot nonneg
    refine ⟨Segment.build_foldl_write inert _, ?_, ?_⟩
    · calc (emit style (spot.leveled .down) n).result
          = (Emission.leveled .down (emit style spot n)).result := by rw [follows]
        _ = .ok () := ended
    · rw [← Segment.ofPieces_emit_down style nonneg n]
      exact Segment.build_foldl_write inert _

/-- A paragraph with two lines of text, of which the first holds an opener. -/
def Segment.sampleTree : Node :=
  .fork { line := 1 } (.tag { name := .of "p" })
    (some (.block { line := 1 } .plain (.of false)
      [.leaf { line := 2 } (.text (.of "a #[b") (.of false)),
        .leaf { line := 3 } (.text (.of "\n") (.of false)),
        .leaf { line := 3 } (.text (.of "c") (.of false))])) none

/-- The standard options with a tab for the unit of indentation. -/
def Segment.tabbed : Config :=
  { Config.standard with indentUnit := .of ['\t'], indentUnit_given := rfl }

theorem source_factors_through_depth_sample :
    (∃ segments : List Segment,
      (sourceOfTree .standard Segment.sampleTree).result = .ok (Segment.source "  " segments) ∧
      (sourceOfTree Segment.tabbed Segment.sampleTree).result =
        .ok (Segment.source ['\t'] segments)) ∧
    (∃ segments : List Segment,
      (Piece.writeAll ['\t'] (emit {} { depth := 0 } Segment.sampleTree).out).build =
        Segment.after { unit := ['\t'] } segments ∧
      (emit {} { depth := 1 } Segment.sampleTree).result = .ok () ∧
      (Piece.writeAll ['\t'] (emit {} { depth := 1 } Segment.sampleTree).out).build =
        Segment.after { unit := ['\t'] } (segments.map Segment.deeper)) := by
  obtain ⟨ofTree, ofNode⟩ := source_factors_through_depth {}
  constructor
  · obtain ⟨segments, all⟩ := ofTree Segment.sampleTree .standard "p.\n  a \\#[b\n  c" rfl
      (by decide)
    exact ⟨segments, all .standard "  " rfl rfl (by decide),
      all Segment.tabbed ['\t'] rfl rfl (by decide)⟩
  · obtain ⟨segments, all⟩ := ofNode Segment.sampleTree { depth := 0 } (by decide) (by decide)
    exact ⟨segments, all { unit := ['\t'] } (by decide)⟩

end PugPrinter
