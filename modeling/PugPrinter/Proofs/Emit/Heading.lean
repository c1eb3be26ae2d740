import PugPrinter.Proofs.Emit.RunningLine
import PugPrinter.Proofs.Emit.WalkWrites

/-!
Emissions that begin with a head. What a head and the marks after it write comes to one text in the
line before it or on a line of its own, and whatever follows goes on from there: heads that are put
together in a line come to the head of all that they stand before.
-/

set_option autoImplicit false

namespace PugPrinter

open Emission

namespace LineBuffer

def withLine (b : LineBuffer) (depth : Int) (text : Text) : LineBuffer :=
  (Piece.write b (.line depth)).append text

theorem lines_withLine (b : LineBuffer) (depth : Int) (text : Text) :
    (b.withLine depth text).lines = b.lines ++ [Text.repeated b.unit depth ++ text] := by
  simp only [withLine, lines, Piece.newestFirst_line_append, List.reverse_cons]

theorem unit_withLine (b : LineBuffer) (depth : Int) (text : Text) :
    (b.withLine depth text).unit = b.unit := by
  rw [withLine, unit_append, Segment.unit_write]

end LineBuffer

/-- An emission that writes a text, in the line before it or else on a line of its own, and then goes
on as another one. -/
structure HeadedBy (joins : Bool) (depth : Int) (text : Text) (rest emission : Emission) : Prop where
  result : emission.result = rest.result
  writes : ∀ b : LineBuffer, emission.out.foldl Piece.write b = rest.out.foldl Piece.write
    (if joins then b.append text else b.withLine depth text)

namespace HeadedBy

variable {joins : Bool} {depth : Int} {text more : Text} {rest last whole : Emission}

theorem of_head {head : Run Piece Text} (silent : head.Silent) (found : head.result = .ok text)
    (rest : Emission) :
    HeadedBy joins depth text rest
      (head >>= fun text => Emission.head joins depth text >>= fun _ => rest) := by
  constructor
  case result => simp [Run.bind_def, Run.andThen, found, Emit.head_result]
  case writes =>
    intro b
    rw [Run.bind_out_of_ok found, List.foldl_append, silent b, Emit.head_out]
    cases joins <;> rfl

theorem of_append (depth : Int) (text : Text) (rest : Emission) :
    HeadedBy true depth text rest (append text >>= fun _ => rest) :=
  ⟨rfl, fun _ => rfl⟩

theorem trans (outer : HeadedBy joins depth text rest whole)
    (inner : HeadedBy true depth more last rest) :
    HeadedBy joins depth (text ++ more) last whole := by
  constructor
  case result => rw [outer.result, inner.result]
  case writes =>
    intro b
    rw [outer.writes, inner.writes, if_pos rfl]
    split
    · rw [LineBuffer.append_append]
    · rw [LineBuffer.withLine, LineBuffer.append_append]
      rfl

end HeadedBy

end PugPrinter
