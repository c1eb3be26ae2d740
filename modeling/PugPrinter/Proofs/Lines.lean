import Mathlib.Algebra.Ring.Nat
import PugPrinter.Proofs.WalkFrame

/-!
What pieces do to the lines of a buffer. Pieces that open a line before they write anything leave all
lines as they are and put new ones after them, the same ones in every buffer; pieces that first
continue the line change the last one. What all pieces together write has a width, which is that of
the lines.
-/

set_option autoImplicit false

namespace PugPrinter

namespace LineBuffer

def width (b : LineBuffer) : Nat :=
  (b.lines.map List.length).sum

private theorem width_eq (b : LineBuffer) : b.width = (b.newestFirst.map List.length).sum := by
  rw [width, lines, List.map_reverse, List.sum_reverse]

theorem width_append (b : LineBuffer) (text : Text) :
    (b.append text).width = b.width + text.length := by
  rw [width_eq, width_eq]
  cases text with
  | nil => rfl
  | cons c text =>
    cases started : b.newestFirst with
    | nil => simp [append, started]
    | cons last earlier =>
      simp [append, started]
      omega

/-- One buffer holds the lines of another one above some earlier lines. -/
structure Above (earlier : List Text) (upper whole : LineBuffer) : Prop where
  unit : whole.unit = upper.unit
  started : upper.newestFirst ≠ []
  lines : whole.newestFirst = upper.newestFirst ++ earlier

private theorem Above.append {earlier : List Text} {upper whole : LineBuffer}
    (above : Above earlier upper whole) (text : Text) :
    Above earlier (upper.append text) (whole.append text) := by
  cases started : upper.newestFirst with
  | nil => exact absurd started above.started
  | cons last before =>
    have whole_lines : whole.newestFirst = last :: (before ++ earlier) := by
      rw [above.lines, started]
      rfl
    cases text with
    | nil => exact above
    | cons c text =>
      constructor
      case unit => simp [above.unit]
      case started => simp [LineBuffer.append, started]
      case lines => simp [LineBuffer.append, started, whole_lines]

end LineBuffer

namespace Piece

open LineBuffer

private theorem write_above {earlier : List Text} {upper whole : LineBuffer}
    (above : Above earlier upper whole) (piece : Piece) :
    Above earlier (piece.write upper) (piece.write whole) := by
  cases piece with
  | line depth =>
    constructor
    case unit => exact above.unit
    case started => simp [write, newLine]
    case lines => simp [write, newLine, indent, above.unit, above.lines]
  | markup text => exact above.append text
  | prose text => exact above.append _
  | lineFeed => exact above
  | raw depth verbatim text =>
    simp only [write, above.unit]
    exact above.append _
  | script depth text =>
    simp only [write, above.unit]
    exact above.append _
  | notConstant source => exact above

private theorem foldl_write_above {earlier : List Text} {upper whole : LineBuffer}
    (above : Above earlier upper whole) (pieces : List Piece) :
    Above earlier (pieces.foldl write upper) (pieces.foldl write whole) := by
  induction pieces generalizing upper whole with
  | nil => exact above
  | cons piece pieces ih => exact ih (write_above above piece)

def Quiet (pieces : List Piece) : Prop :=
  ∀ b : LineBuffer, pieces.foldl write b = b

def OpenLine (pieces : List Piece) : Prop :=
  ∃ quiet depth rest, Quiet quiet ∧ pieces = quiet ++ .line depth :: rest

def ContinueLine (pieces : List Piece) : Prop :=
  ∃ quiet piece rest text, Quiet quiet ∧ pieces = quiet ++ piece :: rest ∧ text ≠ [] ∧
    ∀ b : LineBuffer, piece.write b = b.append text

theorem quiet_nil : Quiet [] :=
  fun _ => rfl

theorem Quiet.append {first second : List Piece} (firstQuiet : Quiet first)
    (secondQuiet : Quiet second) : Quiet (first ++ second) := by
  intro b
  rw [List.foldl_append, firstQuiet b, secondQuiet b]

theorem openLine_newLine (depth : Int) (rest : List Piece) : OpenLine (.line depth :: rest) :=
  ⟨[], depth, rest, quiet_nil, rfl⟩

theorem continueLine_markup {text : Text} (given : text ≠ []) (rest : List Piece) :
    ContinueLine (.markup text :: rest) :=
  ⟨[], .markup text, rest, text, quiet_nil, rfl, given, fun _ => rfl⟩

theorem OpenLine.after {quiet pieces : List Piece} (quietFirst : Quiet quiet)
    (opens : OpenLine pieces) : OpenLine (quiet ++ pieces) := by
  obtain ⟨more, depth, rest, moreQuiet, rfl⟩ := opens
  exact ⟨quiet ++ more, depth, rest, quietFirst.append moreQuiet, (List.append_assoc _ _ _).symm⟩

theorem ContinueLine.after {quiet pieces : List Piece} (quietFirst : Quiet quiet)
    (continues : ContinueLine pieces) : ContinueLine (quiet ++ pieces) := by
  obtain ⟨more, piece, rest, text, moreQuiet, rfl, given, writes⟩ := continues
  exact ⟨quiet ++ more, piece, rest, text, quietFirst.append moreQuiet,
    (List.append_assoc _ _ _).symm, given, writes⟩

theorem OpenLine.append {pieces : List Piece} (opens : OpenLine pieces) (more : List Piece) :
    OpenLine (pieces ++ more) := by
  obtain ⟨quiet, depth, rest, quietFirst, rfl⟩ := opens
  exact ⟨quiet, depth, rest ++ more, quietFirst, by simp⟩

theorem ContinueLine.append {pieces : List Piece} (continues : ContinueLine pieces)
    (more : List Piece) : ContinueLine (pieces ++ more) := by
  obtain ⟨quiet, piece, rest, text, quietFirst, rfl, given, writes⟩ := continues
  exact ⟨quiet, piece, rest ++ more, text, quietFirst, by simp, given, writes⟩

/-- Pieces that open a line put the same lines after those of every buffer. -/
theorem OpenLine.lines_foldl_write {pieces : List Piece} (opens : OpenLine pieces)
    (b : LineBuffer) :
    (pieces.foldl write b).lines = b.lines ++ (writeAll b.unit pieces).lines := by
  obtain ⟨quiet, depth, rest, quietFirst, rfl⟩ := opens
  have first : Above b.newestFirst (Piece.write { unit := b.unit } (.line depth))
      (Piece.write b (.line depth)) :=
    ⟨rfl, List.cons_ne_nil _ _, rfl⟩
  have whole := (foldl_write_above first rest).lines
  rw [writeAll, List.foldl_append, List.foldl_append, quietFirst, quietFirst, List.foldl_cons,
    List.foldl_cons, LineBuffer.lines, whole, List.reverse_append]
  rfl

theorem OpenLine.lines_prefix {pieces : List Piece} (opens : OpenLine pieces) (b : LineBuffer) :
    b.lines <+: (pieces.foldl write b).lines := by
  rw [opens.lines_foldl_write]
  exact List.prefix_append _ _

theorem ContinueLine.not_lines_prefix {pieces : List Piece} (continues : ContinueLine pieces)
    {b : LineBuffer} {last : Text} (isLast : b.lines.getLast? = some last) :
    ¬ b.lines <+: (pieces.foldl write b).lines := by
  obtain ⟨quiet, piece, rest, text, quietFirst, rfl, given, writes⟩ := continues
  rw [List.foldl_append, quietFirst, List.foldl_cons, writes]
  obtain ⟨before, started⟩ := List.getLast?_eq_some_iff.mp isLast
  have size : b.size = before.length + 1 := by
    rw [← length_lines, started]
    simp
  have newest : b.newestFirst = last :: before.reverse := by
    have reversed := congrArg List.reverse started
    simpa [LineBuffer.lines] using reversed
  have appended : (b.append text).lines = before ++ [last ++ text] := by
    cases text with
    | nil => exact absurd rfl given
    | cons c text => simp [LineBuffer.lines, LineBuffer.append, newest]
  have sizes : (b.append text).size = before.length + 1 := by
    rw [← length_lines, appended]
    simp
  -- Whatever comes later, the line goes on from what it is now.
  obtain ⟨line, found, longer⟩ := (Extends.foldl_write (b.append text) rest).continued (last ++ text)
    (by rw [appended]; simp)
  rw [sizes, Nat.add_sub_cancel] at found
  intro kept
  have same : b.lines[before.length]? = some line := by
    obtain ⟨more, whole⟩ := kept
    rw [← whole, List.getElem?_append_left (by rw [length_lines, size]; omega)] at found
    exact found
  rw [started] at same
  simp only [List.getElem?_concat_length, Option.some.injEq] at same
  subst same
  have lengths := longer.length_le
  rw [List.length_append] at lengths
  have positive := List.length_pos_iff.mpr given
  omega

def width (unit : Text) : Piece → Nat
  | line depth => (Text.repeated unit depth).length
  | markup text => text.length
  | prose text => text.escapeInterpolation.length
  | raw depth verbatim text =>
    let lines := Text.indentLines (Text.repeated unit depth) text
    (if verbatim then lines else lines.escapeInterpolation).length
  | script depth text => (Text.indentLines (Text.repeated unit depth) text).length
  | lineFeed | notConstant _ => 0

private theorem width_write (b : LineBuffer) (piece : Piece) :
    (piece.write b).width = b.width + piece.width b.unit := by
  cases piece with
  | line depth =>
    simp [LineBuffer.width_eq, write, newLine, indent, width]
    omega
  | markup text => exact b.width_append text
  | prose text => exact b.width_append _
  | lineFeed => rfl
  | raw depth verbatim text => exact b.width_append _
  | script depth text => exact b.width_append _
  | notConstant source => rfl

def totalWidth (unit : Text) (pieces : List Piece) : Nat :=
  (pieces.map (width unit)).sum

theorem width_foldl_write (b : LineBuffer) (pieces : List Piece) :
    (pieces.foldl write b).width = b.width + totalWidth b.unit pieces := by
  induction pieces generalizing b with
  | nil => rfl
  | cons piece pieces ih =>
    rw [List.foldl_cons, ih, width_write, totalWidth, totalWidth, List.map_cons, List.sum_cons,
      Segment.unit_write]
    omega

def startsLine : Piece → Bool
  | line _ => true
  | _ => false

private theorem size_append {b : LineBuffer} (started : 0 < b.size) (text : Text) :
    (b.append text).size = b.size := by
  cases text with
  | nil => rfl
  | cons c text =>
    cases newest : b.newestFirst with
    | nil => simp [size, newest] at started
    | cons last earlier => simp [LineBuffer.append, size, newest]

private theorem size_write {b : LineBuffer} (started : 0 < b.size) (piece : Piece) :
    (piece.write b).size = b.size + if piece.startsLine then 1 else 0 := by
  cases piece with
  | line depth => rfl
  | lineFeed => rfl
  | notConstant source => rfl
  | _ => exact size_append started _

private theorem size_foldl_write {b : LineBuffer} (started : 0 < b.size) (pieces : List Piece) :
    (pieces.foldl write b).size = b.size + pieces.countP startsLine := by
  induction pieces generalizing b with
  | nil => rfl
  | cons piece pieces ih =>
    have written := size_write started piece
    rw [List.foldl_cons, ih (by omega), written, List.countP_cons]
    omega

def weight (unit : Text) (pieces : List Piece) : Nat :=
  totalWidth unit pieces + pieces.countP startsLine

theorem weight_append (unit : Text) (first second : List Piece) :
    weight unit (first ++ second) = weight unit first + weight unit second := by
  simp only [weight, totalWidth, List.map_append, List.sum_append, List.countP_append]
  omega

theorem weight_line (unit : Text) (depth : Int) (rest : List Piece) :
    weight unit (.line depth :: rest) =
      ((writeAll unit (.line depth :: rest)).lines.map List.length).sum +
        (writeAll unit (.line depth :: rest)).lines.length := by
  have started : 0 < (Piece.write { unit } (.line depth)).size := Nat.one_pos
  have lines : (writeAll unit (.line depth :: rest)).size = 1 + rest.countP startsLine :=
    size_foldl_write started rest
  have width : (writeAll unit (.line depth :: rest)).width = totalWidth unit (.line depth :: rest) :=
    (width_foldl_write { unit } _).trans (Nat.zero_add _)
  have count : (Piece.line depth :: rest).countP startsLine = rest.countP startsLine + 1 :=
    List.countP_cons_of_pos rfl
  rw [length_lines, lines, weight, count, ← width, LineBuffer.width]
  omega

end Piece

end PugPrinter
