import Mathlib.Data.List.Basic
import PugPrinter.Proofs.Emit.Depth
import PugPrinter.Source

/-!
Source text as segments: literal texts, and line breaks that carry a depth. The segments of a tree
know nothing of the unit of indentation, and as long as the unit cannot be taken for a part of an
interpolation, the source is nothing but the segments with every break written out.
-/

set_option autoImplicit false

namespace PugPrinter

inductive Segment where
  | text (t : Text)
  | lineBreak (depth : Nat)
  deriving DecidableEq, Repr

namespace Segment

/-- A segment written out: a break is a line feed and as many units as its depth says. -/
def written (unit : Text) : Segment → Text
  | text t => t
  | lineBreak depth => '\n' :: Text.repeated unit depth

def body (unit : Text) (segments : List Segment) : Text :=
  segments.flatMap (written unit)

/-- Segments as a whole source: a break at the very start opens the first line, without a line
feed. -/
def source (unit : Text) : List Segment → Text
  | lineBreak depth :: rest => Text.repeated unit depth ++ body unit rest
  | segments => body unit segments

def deeper : Segment → Segment
  | text t => text t
  | lineBreak depth => lineBreak (depth + 1)

def literal (t : Text) : List Segment :=
  if t.isEmpty then [] else [text t]

/-- A text in which every line feed is a break. The empty literal before it keeps a line feed at the
start from opening the first line. -/
def broken (depth : Int) (t : Text) : List Segment :=
  if t.isEmpty then []
  else text [] :: t.map fun (c : CodePoint) => if c == '\n' then lineBreak depth.toNat else text [c]

def ofPiece : Piece → List Segment
  | .line depth => [lineBreak depth.toNat]
  | .markup t => literal t
  | .prose t => literal t.escapeInterpolation
  | .lineFeed => []
  | .raw depth verbatim t => broken depth (if verbatim then t else t.escapeInterpolation)
  | .script depth t => broken depth t
  | .notConstant _ => []

def ofPieces (pieces : List Piece) : List Segment :=
  pieces.flatMap ofPiece

/-- The text of a buffer that is continued with segments. -/
def after (b : LineBuffer) (segments : List Segment) : Text :=
  if b.isEmpty then source b.unit segments else b.build ++ body b.unit segments

end Segment

namespace Text

/-- A unit of indentation that cannot be taken for a part of an interpolation: it holds neither a
backslash nor a hash sign. -/
def IsInert (unit : Text) : Prop :=
  ∀ c ∈ unit, c ≠ CodePoint.scalar '\\' ∧ c ≠ CodePoint.scalar '#'

instance (unit : Text) : Decidable unit.IsInert :=
  inferInstanceAs (Decidable (∀ c ∈ unit, c ≠ CodePoint.scalar '\\' ∧ c ≠ CodePoint.scalar '#'))

theorem mem_of_mem_repeated {unit : Text} {depth : Int} {c : CodePoint}
    (member : c ∈ repeated unit depth) : c ∈ unit := by
  obtain ⟨copy, isCopy, inCopy⟩ := List.mem_flatten.mp member
  rwa [List.eq_of_mem_replicate isCopy] at inCopy

theorem isInert_repeated {unit : Text} (inert : unit.IsInert) (depth : Int) :
    (repeated unit depth).IsInert :=
  fun c member => inert c (mem_of_mem_repeated member)

theorem indentLines_cons (indent : Text) (c : CodePoint) (t : Text) :
    indentLines indent (c :: t) =
      (if c == '\n' then CodePoint.scalar '\n' :: indent else [c]) ++ indentLines indent t := by
  simp [indentLines]

@[simp] theorem indentLines_isEmpty (indent t : Text) :
    (indentLines indent t).isEmpty = t.isEmpty := by
  cases t with
  | nil => rfl
  | cons c t =>
    rw [indentLines_cons]
    split <;> rfl

private theorem escapeAfter_append_of_isInert {indent : Text} (inert : indent.IsInert) (t : Text) :
    escapeAfter false (indent ++ t) = indent ++ escapeAfter false t := by
  induction indent with
  | nil => rfl
  | cons c indent ih =>
    have notSlash : (c == CodePoint.scalar '\\') = false := by
      simpa using (inert c List.mem_cons_self).1
    have notHash : (c == CodePoint.scalar '#') = false := by
      simpa using (inert c List.mem_cons_self).2
    have rest := ih fun d member => inert d (List.mem_cons_of_mem c member)
    simp [escapeAfter, notSlash, notHash, rest]

theorem escapeAfter_lineFeed (slash : Bool) (t : Text) :
    escapeAfter slash (CodePoint.scalar '\n' :: t) =
      CodePoint.scalar '\n' :: escapeAfter false t := rfl

private theorem continuesOpener_indentLines (indent t : Text) :
    continuesOpener (indentLines indent t) = continuesOpener t := by
  cases t with
  | nil => rfl
  | cons c t =>
    rw [indentLines_cons]
    split
    · rename_i feed
      rw [beq_iff_eq.mp feed]
      rfl
    · rfl

private theorem escapeAfter_indentLines {indent : Text} (inert : indent.IsInert) (slash : Bool)
    (t : Text) :
    escapeAfter slash (indentLines indent t) = indentLines indent (escapeAfter slash t) := by
  induction t generalizing slash with
  | nil => rfl
  | cons c t ih =>
    rw [indentLines_cons]
    by_cases feed : c = CodePoint.scalar '\n'
    · subst feed
      rw [escapeAfter_lineFeed, indentLines_cons]
      simp only [beq_self_eq_true, if_true, List.cons_append]
      rw [escapeAfter_lineFeed, escapeAfter_append_of_isInert inert, ih]
    · have notFeed : (c == CodePoint.scalar '\n') = false := by simpa using feed
      simp only [notFeed, Bool.false_eq_true, if_false, List.singleton_append, escapeAfter,
        continuesOpener_indentLines, ih]
      split
      · rw [indentLines_cons, indentLines_cons, notFeed]
        rfl
      · rw [indentLines_cons, notFeed]
        rfl

theorem escapeInterpolation_indentLines {indent : Text} (inert : indent.IsInert) (t : Text) :
    (indentLines indent t).escapeInterpolation = indentLines indent t.escapeInterpolation :=
  escapeAfter_indentLines inert false t

end Text

namespace Text

private theorem join_concat (separator last : Text) {texts : List Text} (some : texts ≠ []) :
    join separator (texts ++ [last]) = join separator texts ++ separator ++ last := by
  induction texts with
  | nil => exact absurd rfl some
  | cons t rest ih =>
    cases rest with
    | nil => rfl
    | cons u rest =>
      have others := ih (List.cons_ne_nil u rest)
      simp only [List.cons_append, join] at others ⊢
      rw [others]
      simp only [List.append_assoc]

private theorem join_concat_append (separator last more : Text) (texts : List Text) :
    join separator (texts ++ [last ++ more]) = join separator (texts ++ [last]) ++ more := by
  cases texts with
  | nil => rfl
  | cons t rest =>
    have some : t :: rest ≠ [] := List.cons_ne_nil t rest
    rw [join_concat separator _ some, join_concat separator _ some]
    simp only [List.append_assoc]

end Text

namespace LineBuffer

@[simp] theorem unit_newLine (b : LineBuffer) (text : Text) (delta : Int) :
    (b.newLine text delta).unit = b.unit := rfl

@[simp] theorem unit_append (b : LineBuffer) (text : Text) : (b.append text).unit = b.unit := by
  unfold append
  split
  · rfl
  · split <;> rfl

theorem build_of_isEmpty {b : LineBuffer} (empty : b.isEmpty = true) : b.build = [] := by
  have none : b.newestFirst = [] := List.isEmpty_iff.mp empty
  simp [build, lines, none, Text.join]

theorem build_append (b : LineBuffer) (text : Text) : (b.append text).build = b.build ++ text := by
  by_cases blank : text.isEmpty = true
  · simp [append, List.isEmpty_iff.mp blank]
  · cases started : b.newestFirst with
    | nil => simp [append, blank, started, build, lines, Text.join]
    | cons last earlier =>
      simp only [append, blank, started, build, lines, List.reverse_cons, Bool.false_eq_true,
        if_false]
      exact Text.join_concat_append _ last text earlier.reverse

theorem build_newLine_of_isEmpty {b : LineBuffer} (empty : b.isEmpty = true) (text : Text)
    (delta : Int) : (b.newLine text delta).build = b.indent delta ++ text := by
  have none : b.newestFirst = [] := List.isEmpty_iff.mp empty
  simp [newLine, build, lines, none, Text.join]

theorem build_newLine {b : LineBuffer} (started : b.isEmpty = false) (text : Text) (delta : Int) :
    (b.newLine text delta).build =
      b.build ++ CodePoint.scalar '\n' :: (b.indent delta ++ text) := by
  have some : b.newestFirst.reverse ≠ [] := by
    intro none
    rw [List.reverse_eq_nil_iff] at none
    simp [isEmpty, none] at started
  simp only [newLine, build, lines, List.reverse_cons]
  rw [Text.join_concat _ _ some, List.append_assoc]
  rfl

theorem isEmpty_append {b : LineBuffer} {text : Text} (given : text.isEmpty = false) :
    (b.append text).isEmpty = false := by
  simp only [append, given, Bool.false_eq_true, if_false]
  split <;> rfl

end LineBuffer

namespace Segment

@[simp] theorem body_append (unit : Text) (first second : List Segment) :
    body unit (first ++ second) = body unit first ++ body unit second := by
  simp [body]

private theorem source_text_cons (unit t : Text) (rest : List Segment) :
    source unit (text t :: rest) = body unit (text t :: rest) := rfl

private theorem after_nil (b : LineBuffer) : after b [] = b.build := by
  unfold after
  split
  · rename_i empty
    rw [LineBuffer.build_of_isEmpty empty]
    rfl
  · simp [body]

private theorem after_append (b : LineBuffer) {t x : Text} {more : List Segment}
    (given : t.isEmpty = false) (writes : body b.unit (text x :: more) = t)
    (rest : List Segment) :
    after (b.append t) rest = after b (text x :: more ++ rest) := by
  have all : body b.unit (text x :: more ++ rest) = t ++ body b.unit rest := by
    rw [body_append, writes]
  simp only [after, LineBuffer.isEmpty_append given, LineBuffer.build_append,
    LineBuffer.unit_append, Bool.false_eq_true, if_false]
  split
  · rename_i empty
    rw [LineBuffer.build_of_isEmpty empty, List.cons_append, source_text_cons,
      ← List.cons_append, all, List.nil_append]
  · rw [all, List.append_assoc]

private theorem after_literal (b : LineBuffer) (t : Text) (rest : List Segment) :
    after (b.append t) rest = after b (literal t ++ rest) := by
  unfold literal
  split
  · rename_i blank
    simp [LineBuffer.append, blank]
  · rename_i given
    exact after_append b (Bool.eq_false_iff.mpr given) (by simp [body, written]) rest

private theorem body_broken (unit : Text) (depth : Int) (t : Text) :
    body unit (broken depth t) = Text.indentLines (Text.repeated unit depth) t := by
  unfold broken
  split
  · rename_i blank
    rw [List.isEmpty_iff.mp blank]
    rfl
  · simp only [body, List.flatMap_cons, written, List.nil_append, List.flatMap_map, Text.indentLines]
    congr 1
    funext c
    by_cases feed : (c == CodePoint.scalar '\n') = true
    · rw [if_pos feed, if_pos feed]
      rfl
    · rw [if_neg feed, if_neg feed]

private theorem after_broken (b : LineBuffer) (depth : Int) (t : Text) (rest : List Segment) :
    after (b.append (Text.indentLines (Text.repeated b.unit depth) t)) rest =
      after b (broken depth t ++ rest) := by
  have writes := body_broken b.unit depth t
  by_cases blank : t.isEmpty = true
  · rw [List.isEmpty_iff.mp blank]
    rfl
  · have given : (Text.indentLines (Text.repeated b.unit depth) t).isEmpty = false := by
      rw [Text.indentLines_isEmpty]
      exact Bool.eq_false_iff.mpr blank
    unfold broken at writes ⊢
    rw [if_neg blank] at writes ⊢
    exact after_append b given writes rest

private theorem after_line (b : LineBuffer) (depth : Int) (rest : List Segment) :
    after ({ b with depth := depth } : LineBuffer).newLine rest =
      after b (lineBreak depth.toNat :: rest) := by
  have indent : ({ b with depth := depth } : LineBuffer).indent 0 = Text.repeated b.unit depth := by
    simp [LineBuffer.indent]
  have opened : ({ b with depth := depth } : LineBuffer).newLine.isEmpty = false := rfl
  simp only [after, opened, Bool.false_eq_true, if_false, LineBuffer.unit_newLine]
  split
  · rename_i empty
    rw [LineBuffer.build_newLine_of_isEmpty (b := { b with depth := depth }) empty, indent,
      List.append_nil]
    rfl
  · rename_i started
    rw [LineBuffer.build_newLine (b := { b with depth := depth }) (Bool.eq_false_iff.mpr started),
      indent, List.append_nil, List.append_assoc]
    rfl

private theorem after_write {b : LineBuffer} (inert : b.unit.IsInert) (piece : Piece)
    (rest : List Segment) : after (piece.write b) rest = after b (ofPiece piece ++ rest) := by
  cases piece with
  | line depth => exact after_line b depth rest
  | markup t => exact after_literal b t rest
  | prose t => exact after_literal b t.escapeInterpolation rest
  | lineFeed => rfl
  | raw depth verbatim t =>
    cases verbatim with
    | true => exact after_broken b depth t rest
    | false =>
      have escaped := Text.escapeInterpolation_indentLines (Text.isInert_repeated inert depth) t
      simp only [Piece.write, ofPiece, Bool.false_eq_true, if_false, escaped]
      exact after_broken b depth t.escapeInterpolation rest
  | script depth t => exact after_broken b depth t rest
  | notConstant _ => rfl

theorem unit_write (b : LineBuffer) (piece : Piece) : (piece.write b).unit = b.unit := by
  cases piece <;> simp [Piece.write]

/-- A whole run of writing: pieces continue a buffer with all their segments. -/
theorem build_foldl_write {b : LineBuffer} (inert : b.unit.IsInert) (pieces : List Piece) :
    (pieces.foldl Piece.write b).build = after b (ofPieces pieces) := by
  induction pieces generalizing b with
  | nil => exact (after_nil b).symm
  | cons piece pieces ih =>
    have inert' : (piece.write b).unit.IsInert := by
      rw [unit_write]
      exact inert
    rw [List.foldl_cons, ih inert', after_write inert]
    rfl

theorem build_writeAll {unit : Text} (inert : unit.IsInert) (pieces : List Piece) :
    (Piece.writeAll unit pieces).build = source unit (ofPieces pieces) :=
  build_foldl_write (b := { unit }) inert pieces

private theorem map_deeper_broken {depth : Int} (nonneg : 0 ≤ depth) (t : Text) :
    (broken depth t).map deeper = broken (depth + 1) t := by
  have next : (depth + 1).toNat = depth.toNat + 1 := by omega
  unfold broken
  split
  · rfl
  · simp only [List.map_cons, List.map_map, deeper, next]
    congr 2
    funext c
    rw [Function.comp_apply, apply_ite deeper]
    rfl

private theorem ofPiece_down {piece : Piece} (kept : piece.leveled .clipped = piece) :
    ofPiece (piece.leveled .down) = (ofPiece piece).map deeper := by
  have literals (t : Text) : (literal t).map deeper = literal t := by
    unfold literal
    split <;> rfl
  cases piece with
  | line depth =>
    have nonneg : max depth 0 = depth := by simpa [Piece.leveled, Leveling.clipped] using kept
    have next : (depth + 1).toNat = depth.toNat + 1 := by omega
    simp [Piece.leveled, Leveling.down, ofPiece, deeper, next]
  | markup t => exact (literals t).symm
  | prose t => exact (literals t.escapeInterpolation).symm
  | lineFeed => rfl
  | raw depth verbatim t =>
    have nonneg : max depth 0 = depth := by simpa [Piece.leveled, Leveling.clipped] using kept
    exact (map_deeper_broken (by omega) _).symm
  | script depth t =>
    have nonneg : max depth 0 = depth := by simpa [Piece.leveled, Leveling.clipped] using kept
    exact (map_deeper_broken (by omega) t).symm
  | notConstant _ => rfl

/-- A node one level deeper becomes the same segments with every break one level deeper. -/
theorem ofPieces_emit_down (style : Style) {spot : Spot} (nonneg : 0 ≤ spot.depth) (n : Node) :
    ofPieces (emit style (spot.leveled .down) n).out =
      (ofPieces (emit style spot n).out).map deeper := by
  have follows := emit_followsSpot .down style n spot nonneg
  have clipped := emit_clipped style nonneg n
  simp only at follows
  rw [follows]
  simp only [Emission.leveled, Run.mapOut_out, ofPieces, List.flatMap_map, List.map_flatMap]
  exact List.flatMap_congr fun piece member => ofPiece_down (clipped piece member)

end Segment

end PugPrinter
