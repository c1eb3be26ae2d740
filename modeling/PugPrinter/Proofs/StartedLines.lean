import PugPrinter.Proofs.Emit.Frame
import PugPrinter.Proofs.Emit.OneLine
import PugPrinter.Proofs.Lines
import PugPrinter.Proofs.Printing

/-!
Lines of the output, as a reader of it sees them: a line starts after every line feed, whether the
buffer has started it or a value has brought it along. All lines that a node starts are indented to
the depth of the node, except those that start inside the value of a text that continues a line.
Such a value is written as it is, where raw lines are given the indent of their block.
-/

set_option autoImplicit false

namespace PugPrinter

namespace Text

def firstLine (t : Text) : Text :=
  t.takeWhile fun c => c != '\n'

/-- The lines that start inside a text, when more follows. -/
def startedLines (more : Text) : Text → List Text
  | [] => []
  | c :: rest =>
    if c == '\n' then firstLine (rest ++ more) :: startedLines more rest
    else startedLines more rest

private theorem startedLines_append (more t u : Text) :
    startedLines more (t ++ u) = startedLines (u ++ more) t ++ startedLines more u := by
  induction t with
  | nil => rfl
  | cons c t ih =>
    simp only [List.cons_append, startedLines, ih, List.append_assoc]
    split <;> rfl

private theorem startedLines_of_isOneLine (more : Text) {t : Text} (oneLine : t.isOneLine = true) :
    startedLines more t = [] := by
  induction t with
  | nil => rfl
  | cons c t ih =>
    rw [isOneLine_cons, Bool.and_eq_true, bne_iff_ne] at oneLine
    simp [startedLines, oneLine.1, ih oneLine.2]

private theorem prefix_firstLine {indent : Text} (oneLine : indent.isOneLine = true) (t : Text) :
    indent <+: firstLine (indent ++ t) := by
  rw [firstLine, List.takeWhile_append_of_pos (by simpa [isOneLine] using oneLine)]
  exact List.prefix_append _ _

section Indented

variable {indent : Text} (oneLine : indent.isOneLine = true)

include oneLine

private theorem forall_startedLines_lineFeed {more t : Text}
    (others : ∀ line ∈ startedLines more t, indent <+: line) :
    ∀ line ∈ startedLines more (CodePoint.scalar '\n' :: (indent ++ t)), indent <+: line := by
  simp only [startedLines, beq_self_eq_true, if_true, startedLines_append,
    startedLines_of_isOneLine _ oneLine, List.nil_append, List.forall_mem_cons, List.append_assoc]
  exact ⟨prefix_firstLine oneLine _, others⟩

private theorem forall_startedLines_indentLines (more t : Text) :
    ∀ line ∈ startedLines more (indentLines indent t), indent <+: line := by
  induction t with
  | nil => exact nofun
  | cons c t ih =>
    rw [indentLines_cons]
    split
    · exact forall_startedLines_lineFeed oneLine ih
    · rename_i plain
      simp only [List.singleton_append, startedLines, plain, Bool.false_eq_true, if_false]
      exact ih

omit oneLine in
private theorem exists_escapeAfter_append (noHash : CodePoint.scalar '#' ∉ indent) (slash : Bool)
    (t : Text) :
    ∃ after, escapeAfter slash (indent ++ t) = indent ++ escapeAfter after t := by
  induction indent generalizing slash with
  | nil => exact ⟨slash, rfl⟩
  | cons c indent ih =>
    rw [List.mem_cons, not_or] at noHash
    have plain : (c == CodePoint.scalar '#') = false := by simpa using Ne.symm noHash.1
    obtain ⟨after, rest⟩ := ih noHash.2 (c == CodePoint.scalar '\\')
    exact ⟨after, by simp [escapeAfter, plain, rest]⟩

private theorem forall_startedLines_escaped (noHash : CodePoint.scalar '#' ∉ indent) (more t : Text)
    (slash : Bool) :
    ∀ line ∈ startedLines more (escapeAfter slash (indentLines indent t)), indent <+: line := by
  induction t generalizing slash with
  | nil => exact nofun
  | cons c t ih =>
    rw [indentLines_cons]
    split
    · obtain ⟨after, escaped⟩ :=
        exists_escapeAfter_append noHash false (indentLines indent t)
      rw [List.cons_append, escapeAfter_lineFeed, escaped]
      exact forall_startedLines_lineFeed oneLine (ih after)
    · rename_i plain
      rw [List.singleton_append, escapeAfter]
      split
      · simp only [startedLines, plain, Bool.false_eq_true, if_false]
        exact ih false
      · simp only [startedLines, plain, Bool.false_eq_true, if_false]
        exact ih _

end Indented

private theorem isOneLine_repeated {unit : Text} (oneLine : unit.isOneLine = true) (depth : Int) :
    (repeated unit depth).isOneLine = true :=
  isOneLine_iff.mpr fun member => isOneLine_iff.mp oneLine (mem_of_mem_repeated member)

private theorem repeated_prefix (unit : Text) {low high : Int} (le : low ≤ high) :
    repeated unit low <+: repeated unit high := by
  obtain ⟨more, split⟩ : ∃ more, high.toNat = low.toNat + more :=
    ⟨high.toNat - low.toNat, by omega⟩
  rw [repeated, repeated, split, List.replicate_add, List.flatten_append]
  exact List.prefix_append _ _

end Text

namespace Piece

/-- What a piece adds to the output when a line has been started. -/
def spelled (unit : Text) : Piece → Text
  | line depth => CodePoint.scalar '\n' :: Text.repeated unit depth
  | markup text => text
  | prose text => text.escapeInterpolation
  | lineFeed => []
  | raw depth verbatim text =>
    let lines := Text.indentLines (Text.repeated unit depth) text
    if verbatim then lines else lines.escapeInterpolation
  | script depth text => Text.indentLines (Text.repeated unit depth) text
  | notConstant _ => []

def spelledAll (unit : Text) (pieces : List Piece) : Text :=
  pieces.flatMap (spelled unit)

def proseLines (unit more : Text) : List Piece → List Text
  | [] => []
  | prose val :: rest =>
    Text.startedLines (spelledAll unit rest ++ more) val.escapeInterpolation
      ++ proseLines unit more rest
  | _ :: rest => proseLines unit more rest

private theorem build_write_line_of_isEmpty {b : LineBuffer} (empty : b.isEmpty = true)
    (depth : Int) :
    ((line depth).write b).build = Text.repeated b.unit depth := by
  have built := LineBuffer.build_newLine_of_isEmpty (b := { b with depth }) empty [] 0
  rwa [LineBuffer.indent, Int.add_zero, List.append_nil] at built

private theorem build_write_line {b : LineBuffer} (started : b.isEmpty = false) (depth : Int) :
    ((line depth).write b).build = b.build ++ (line depth).spelled b.unit := by
  have built := LineBuffer.build_newLine (b := { b with depth }) started [] 0
  rwa [LineBuffer.indent, Int.add_zero, List.append_nil] at built

private theorem build_write (b : LineBuffer) (piece : Piece) :
    ∃ added, (piece.write b).build = b.build ++ added ∧
      (added = piece.spelled b.unit ∨
        b.isEmpty = true ∧ ∃ depth, piece = .line depth ∧ added = Text.repeated b.unit depth) := by
  cases piece with
  | line depth =>
    cases empty : b.isEmpty with
    | true =>
      refine ⟨Text.repeated b.unit depth, ?_, .inr ⟨rfl, depth, rfl, rfl⟩⟩
      rw [LineBuffer.build_of_isEmpty empty, List.nil_append]
      exact build_write_line_of_isEmpty empty depth
    | false => exact ⟨_, build_write_line empty depth, .inl rfl⟩
  | markup text => exact ⟨_, LineBuffer.build_append b text, .inl rfl⟩
  | prose text => exact ⟨_, LineBuffer.build_append b _, .inl rfl⟩
  | lineFeed => exact ⟨[], (List.append_nil _).symm, .inl rfl⟩
  | raw depth verbatim text => exact ⟨_, LineBuffer.build_append b _, .inl rfl⟩
  | script depth text => exact ⟨_, LineBuffer.build_append b _, .inl rfl⟩
  | notConstant source => exact ⟨[], (List.append_nil _).symm, .inl rfl⟩

private theorem isEmpty_append_started {b : LineBuffer} (started : b.isEmpty = false)
    (text : Text) :
    (b.append text).isEmpty = false := by
  unfold LineBuffer.append
  split
  · exact started
  · split <;> rfl

private theorem isEmpty_write {b : LineBuffer} (started : b.isEmpty = false) (piece : Piece) :
    (piece.write b).isEmpty = false := by
  cases piece with
  | line depth => rfl
  | markup text => exact isEmpty_append_started started text
  | prose text => exact isEmpty_append_started started _
  | lineFeed => exact started
  | raw depth verbatim text => exact isEmpty_append_started started _
  | script depth text => exact isEmpty_append_started started _
  | notConstant source => exact started

private theorem build_foldl_write_of_started {b : LineBuffer} (started : b.isEmpty = false)
    (pieces : List Piece) :
    (pieces.foldl write b).build = b.build ++ spelledAll b.unit pieces := by
  induction pieces generalizing b with
  | nil => exact (List.append_nil _).symm
  | cons piece pieces ih =>
    obtain ⟨added, built, rfl | ⟨empty, _⟩⟩ := build_write b piece
    · rw [List.foldl_cons, ih (isEmpty_write started piece), Segment.unit_write, built,
        List.append_assoc]
      rfl
    · rw [started] at empty
      cases empty

/-- Whether a piece is indented to a depth, and holds no line feed where it is written as it is. The
values of texts are left aside. -/
private def IsInside (depth : Int) : Piece → Prop
  | line own => depth ≤ own
  | raw own _ _ => depth ≤ own
  | script own _ => depth ≤ own
  | markup text => text.isOneLine = true
  | prose _ | lineFeed | notConstant _ => True

section Lines

variable {unit : Text} (unitLine : unit.isOneLine = true) (noHash : CodePoint.scalar '#' ∉ unit)

include unitLine noHash

private theorem forall_startedLines_spelled {depth : Int} {piece : Piece}
    (inside : piece.IsInside depth) (notProse : ∀ val, piece ≠ .prose val) (more : Text) :
    ∀ line ∈ Text.startedLines more (piece.spelled unit), Text.repeated unit depth <+: line := by
  have lineOf (own : Int) := Text.isOneLine_repeated unitLine own
  cases piece with
  | line own =>
    have nothing : ∀ line ∈ Text.startedLines more [], Text.repeated unit own <+: line := nofun
    have started := Text.forall_startedLines_lineFeed (lineOf own) nothing
    rw [List.append_nil] at started
    exact fun line mem => (Text.repeated_prefix unit inside).trans (started line mem)
  | markup text => simp [spelled, Text.startedLines_of_isOneLine more inside]
  | prose val => exact absurd rfl (notProse val)
  | lineFeed => exact nofun
  | raw own verbatim text =>
    intro line mem
    refine (Text.repeated_prefix unit inside).trans ?_
    cases verbatim with
    | true => exact Text.forall_startedLines_indentLines (lineOf own) more text line mem
    | false =>
      have inert : CodePoint.scalar '#' ∉ Text.repeated unit own :=
        fun member => noHash (Text.mem_of_mem_repeated member)
      exact Text.forall_startedLines_escaped (lineOf own) inert more text false line mem
  | script own text =>
    intro line mem
    exact (Text.repeated_prefix unit inside).trans
      (Text.forall_startedLines_indentLines (lineOf own) more text line mem)
  | notConstant source => exact nofun

end Lines

end Piece

/-- What pieces add to the output that a buffer holds. -/
def LineBuffer.addition (b : LineBuffer) (pieces : List Piece) : Text :=
  (pieces.foldl Piece.write b).build.drop b.build.length

private theorem LineBuffer.addition_eq {b : LineBuffer} {pieces : List Piece} {added : Text}
    (built : (pieces.foldl Piece.write b).build = b.build ++ added) : b.addition pieces = added := by
  rw [addition, built, List.drop_left]

/-- The output only ever grows at its end. -/
private theorem LineBuffer.build_foldl_write (b : LineBuffer) (pieces : List Piece) :
    (pieces.foldl Piece.write b).build = b.build ++ b.addition pieces := by
  have grows : ∃ added, (pieces.foldl Piece.write b).build = b.build ++ added := by
    induction pieces generalizing b with
    | nil => exact ⟨[], (List.append_nil _).symm⟩
    | cons piece pieces ih =>
      obtain ⟨first, built, _⟩ := Piece.build_write b piece
      obtain ⟨others, later⟩ := ih (piece.write b)
      exact ⟨first ++ others, by rw [List.foldl_cons, later, built, List.append_assoc]⟩
  obtain ⟨added, built⟩ := grows
  rw [addition_eq built, built]

private theorem LineBuffer.addition_cons {b : LineBuffer} {piece : Piece} {added : Text}
    (built : (piece.write b).build = b.build ++ added) (pieces : List Piece) :
    b.addition (piece :: pieces) = added ++ (piece.write b).addition pieces := by
  refine addition_eq ?_
  rw [List.foldl_cons, build_foldl_write, built, List.append_assoc]

private theorem LineBuffer.addition_of_started {b : LineBuffer} (started : b.isEmpty = false)
    (pieces : List Piece) : b.addition pieces = Piece.spelledAll b.unit pieces :=
  addition_eq (Piece.build_foldl_write_of_started started pieces)

/-- The lines that pieces start in the output that a buffer holds, when more follows. -/
def LineBuffer.startedLines (b : LineBuffer) (pieces : List Piece) (more : Text) : List Text :=
  Text.startedLines more (b.addition pieces)

private theorem LineBuffer.startedLines_cons {b : LineBuffer} {piece : Piece} {added : Text}
    (built : (piece.write b).build = b.build ++ added) (pieces : List Piece) (more : Text) :
    b.startedLines (piece :: pieces) more =
      Text.startedLines ((piece.write b).addition pieces ++ more) added ++
        (piece.write b).startedLines pieces more := by
  rw [startedLines, addition_cons built, Text.startedLines_append]
  rfl

private theorem LineBuffer.startedLines_prose (b : LineBuffer) (val : Text) (pieces : List Piece)
    (more : Text) :
    b.startedLines (.prose val :: pieces) more =
      Text.startedLines (Piece.spelledAll b.unit pieces ++ more) val.escapeInterpolation ++
        (Piece.write b (.prose val)).startedLines pieces more := by
  have built : (Piece.write b (.prose val)).build = b.build ++ val.escapeInterpolation :=
    build_append b _
  rw [startedLines_cons built]
  cases blank : val.escapeInterpolation.isEmpty with
  | true =>
    rw [List.isEmpty_iff.mp blank]
    rfl
  | false =>
    have started : (Piece.write b (.prose val)).isEmpty = false := isEmpty_append blank
    rw [addition_of_started started, Segment.unit_write]

section Lines

variable {unit : Text} (unitLine : unit.isOneLine = true) (noHash : CodePoint.scalar '#' ∉ unit)

include unitLine noHash

private theorem Piece.forall_startedLines_added {depth : Int} {b : LineBuffer}
    (isUnit : b.unit = unit) {piece : Piece} (inside : piece.IsInside depth)
    (notProse : ∀ val, piece ≠ .prose val)
    {added : Text} (isAdded : added = piece.spelled b.unit ∨
      b.isEmpty = true ∧ ∃ own, piece = .line own ∧ added = Text.repeated b.unit own)
    (more : Text) :
    ∀ line ∈ Text.startedLines more added, Text.repeated unit depth <+: line := by
  subst isUnit
  rcases isAdded with rfl | ⟨_, own, _, rfl⟩
  · exact forall_startedLines_spelled unitLine noHash inside notProse more
  · rw [Text.startedLines_of_isOneLine more (Text.isOneLine_repeated unitLine own)]
    exact nofun

private theorem Piece.startedLines_inside {depth : Int} {pieces : List Piece}
    (inside : ∀ piece ∈ pieces, piece.IsInside depth) {b : LineBuffer} (isUnit : b.unit = unit)
    (more : Text) :
    (∀ line ∈ b.startedLines pieces more,
      Text.repeated unit depth <+: line ∨ line ∈ proseLines unit more pieces) ∧
    ∀ line ∈ proseLines unit more pieces, line ∈ b.startedLines pieces more := by
  -- Pieces that stand inside a depth start indented lines, other than the lines that start inside
  -- the values of texts that continue a line; and these are started as well.
  induction pieces generalizing b with
  | nil =>
    have nothing : b.addition [] = [] := LineBuffer.addition_eq (List.append_nil _).symm
    rw [LineBuffer.startedLines, nothing]
    exact ⟨nofun, nofun⟩
  | cons piece pieces ih =>
    obtain ⟨pieceInside, othersInside⟩ := List.forall_mem_cons.mp inside
    have unitAfter : (piece.write b).unit = unit := (Segment.unit_write b piece).trans isUnit
    obtain ⟨others, prose⟩ := ih othersInside unitAfter
    by_cases isProse : ∃ val, piece = .prose val
    · obtain ⟨val, rfl⟩ := isProse
      rw [LineBuffer.startedLines_prose, proseLines, isUnit]
      simp only [List.forall_mem_append]
      refine ⟨⟨?_, ?_⟩, ?_, ?_⟩
      · exact fun line own => .inr (List.mem_append_left _ own)
      · exact fun line later => (others line later).imp_right (List.mem_append_right _)
      · exact fun line own => List.mem_append_left _ own
      · exact fun line later => List.mem_append_right _ (prose line later)
    · have notProse : ∀ val, piece ≠ .prose val := fun val same => isProse ⟨val, same⟩
      have same : proseLines unit more (piece :: pieces) = proseLines unit more pieces := by
        cases piece <;> first | rfl | exact absurd rfl (notProse _)
      obtain ⟨added, built, isAdded⟩ := build_write b piece
      have own := forall_startedLines_added unitLine noHash isUnit pieceInside notProse isAdded
        ((piece.write b).addition pieces ++ more)
      rw [LineBuffer.startedLines_cons built, same]
      simp only [List.forall_mem_append]
      exact ⟨⟨fun line first => .inl (own line first), others⟩,
        fun line mem => List.mem_append_right _ (prose line mem)⟩

end Lines

private def Leveling.lowered (levels : Int) (nonneg : 0 ≤ levels) : Leveling where
  depth d := d + levels
  nonneg d h := by omega
  succ d _ := by omega

private theorem emit_isInside (style : Style) {n : Node} (oneLine : n.isOneLine = true)
    {spot : Spot}
    (nonneg : 0 ≤ spot.depth) : ∀ piece ∈ (emit style spot n).out, piece.IsInside spot.depth := by
  have atTop : emit style spot n =
      Emission.leveled (.lowered spot.depth nonneg) (emit style { spot with depth := 0 } n) := by
    have follows := emit_followsSpot (.lowered spot.depth nonneg) style n { spot with depth := 0 }
      (Int.le_refl 0)
    rw [← follows]
    simp [Spot.leveled, Leveling.lowered]
  intro piece mem
  have markup : piece.isOneLine = true := (emit_oneLine style n oneLine spot).out piece mem
  rw [atTop, Emission.leveled, Run.mapOut_out] at mem
  obtain ⟨top, inTop, rfl⟩ := List.mem_map.mp mem
  have clipped : top.leveled .clipped = top := emit_clipped style (Int.le_refl 0) n top inTop
  cases top with
  | line depth | raw depth _ _ | script depth _ =>
    simp only [Piece.leveled, Leveling.clipped, Piece.line.injEq, Piece.raw.injEq,
      Piece.script.injEq, and_true] at clipped
    simp only [Piece.leveled, Leveling.lowered, Piece.IsInside]
    omega
  | markup text => exact markup
  | prose val => trivial
  | lineFeed => trivial
  | notConstant source => trivial

private theorem Text.isOneLine_escapeAfter {t : Text} (oneLine : t.isOneLine = true)
    (slash : Bool) :
    (escapeAfter slash t).isOneLine = true := by
  induction t generalizing slash with
  | nil => rfl
  | cons c t ih =>
    rw [isOneLine_cons, Bool.and_eq_true] at oneLine
    rw [escapeAfter]
    split
    · simp [oneLine.1, ih oneLine.2 false]
    · simp [oneLine.1, ih oneLine.2 _]

private theorem Piece.proseLines_of_isOneLine (unit more : Text) {pieces : List Piece}
    (oneLine : ∀ val, .prose val ∈ pieces → val.isOneLine = true) :
    proseLines unit more pieces = [] := by
  induction pieces with
  | nil => rfl
  | cons piece pieces ih =>
    have others := ih fun val mem => oneLine val (List.mem_cons_of_mem _ mem)
    cases piece with
    | prose val =>
      have escaped := Text.isOneLine_escapeAfter (oneLine val List.mem_cons_self) false
      rw [proseLines, others, Text.escapeInterpolation, Text.startedLines_of_isOneLine _ escaped]
      rfl
    | _ => exact others

private theorem Piece.OpenLine.prefix_build {depth : Int} {pieces : List Piece}
    (opens : OpenLine pieces) (inside : ∀ piece ∈ pieces, piece.IsInside depth) {b : LineBuffer}
    (empty : b.isEmpty = true) :
    Text.repeated b.unit depth <+: (pieces.foldl write b).build := by
  obtain ⟨quiet, own, rest, quietFirst, rfl⟩ := opens
  have deeper : depth ≤ own := inside (.line own) (List.mem_append_right _ List.mem_cons_self)
  rw [List.foldl_append, quietFirst, List.foldl_cons, LineBuffer.build_foldl_write,
    build_write_line_of_isEmpty empty]
  exact (Text.repeated_prefix b.unit deeper).trans (List.prefix_append _ _)

/-- The lines that pieces start in a buffer, when more follows: they are lines of the whole output, and
all of them, with the first line of the output where the pieces open it, are indented to a depth but
for those that start inside the value of a text. -/
structure KeepsIndent (b : LineBuffer) (depth : Int) (pieces : List Piece) (more : Text) : Prop where
  lines : Text.startedLines [] ((pieces.foldl Piece.write b).build ++ more) =
    Text.startedLines (b.addition pieces ++ more) b.build ++ b.startedLines pieces more ++
      Text.startedLines [] more
  opening : b.isEmpty = true → Piece.OpenLine pieces →
    Text.repeated b.unit depth <+: (pieces.foldl Piece.write b).build
  apart : ∀ line ∈ b.startedLines pieces more,
    Text.repeated b.unit depth <+: line ∨ line ∈ Piece.proseLines b.unit more pieces
  exact : (∀ line ∈ b.startedLines pieces more, Text.repeated b.unit depth <+: line) ↔
    ∀ line ∈ Piece.proseLines b.unit more pieces, Text.repeated b.unit depth <+: line
  broken : (∃ line ∈ b.startedLines pieces more, ¬ Text.repeated b.unit depth <+: line) →
    ∃ val, Piece.prose val ∈ pieces ∧ val.isOneLine = false

private theorem keepsIndent {b : LineBuffer} (unitLine : b.unit.isOneLine = true)
    (noHash : CodePoint.scalar '#' ∉ b.unit) {depth : Int} {pieces : List Piece}
    (inside : ∀ piece ∈ pieces, piece.IsInside depth) (more : Text) :
    KeepsIndent b depth pieces more := by
  obtain ⟨apart, prose⟩ := Piece.startedLines_inside unitLine noHash inside rfl more
  have exact : (∀ line ∈ b.startedLines pieces more, Text.repeated b.unit depth <+: line) ↔
      ∀ line ∈ Piece.proseLines b.unit more pieces, Text.repeated b.unit depth <+: line := by
    constructor
    · exact fun all line mem => all line (prose line mem)
    · exact fun all line mem => (apart line mem).elim id (all line)
  refine ⟨?_, fun empty opens => opens.prefix_build inside empty, apart, exact, ?_⟩
  · simp only [LineBuffer.build_foldl_write, Text.startedLines_append, List.append_nil]
    rfl
  · rintro ⟨line, mem, falls⟩
    by_contra none
    have oneLine : ∀ val, Piece.prose val ∈ pieces → val.isOneLine = true := by
      intro val inPieces
      by_contra isBroken
      exact none ⟨val, inPieces, Bool.eq_false_iff.mpr isBroken⟩
    rcases apart line mem with indented | isProse
    · exact falls indented
    · rw [Piece.proseLines_of_isOneLine _ _ oneLine] at isProse
      cases isProse

/-- In the source of a tree of one line, the lines that a visit of a node starts are indented to the
depth of the node, but for those that start inside the value of a text that continues a line. -/
theorem source_keepsIndent {config : Config} {unit : Text} {tree root : Node} {count : Nat}
    {text : Text} (given : config.indentUnit = .of unit) (unitLine : unit.isOneLine = true)
    (noHash : CodePoint.scalar '#' ∉ unit) (formed : tree.wellFormed = true)
    (oneLine : tree.isOneLine = true) (normal : tree.normalize = .ok (root, count))
    (printed : (sourceOfTree config tree).result = .ok text) {n : Node} (below : n ∈ root.subtrees)
    {spot : Spot} (nonneg : 0 ≤ spot.depth) {before after : List Piece}
    (visited : (Printer.rootEmission config.style root).out =
      before ++ (emit config.style spot n).out ++ after) :
    ∃ more, text = ((emit config.style spot n).out.foldl Piece.write
        (Piece.writeAll unit before)).build ++ more ∧
      KeepsIndent (Piece.writeAll unit before) spot.depth (emit config.style spot n).out more := by
  have isRoot : root = tree.normalForm := by
    rw [Node.normalize_eq formed] at normal
    cases normal
    rfl
  have nodeLine : n.isOneLine = true :=
    Node.isOneLine_of_mem_subtrees (isRoot ▸ Node.isOneLine_normalForm tree oneLine) n below
  obtain ⟨root', count', normal', ended⟩ := rootEmission_of_sourceOfTree printed
  rw [normal] at normal'
  cases normal'
  rw [sourceOfTree_of_rootEmission given normal ended, visited] at printed
  cases printed
  have sameUnit : (Piece.writeAll unit before).unit = unit := by
    rw [Piece.writeAll, Piece.unit_foldl_write]
  refine ⟨((emit config.style spot n).out.foldl Piece.write (Piece.writeAll unit before)).addition
    after, ?_, ?_⟩
  · rw [Piece.writeAll, List.foldl_append, List.foldl_append, LineBuffer.build_foldl_write]
    rfl
  · rw [← sameUnit] at unitLine noHash
    exact keepsIndent unitLine noHash (emit_isInside config.style nodeLine nonneg) _

namespace LineSample

def broken : Node :=
  .leaf { line := 2 } (.text (.of "a\nb") (.of false))

/-- A block with the text, and what stands beside it. -/
def block (others : List Node) : Node :=
  .block { line := 2 } .plain (.of false) (broken :: others)

/-- A paragraph that stands in a line, with the text below or beside it. -/
def paragraph (line : Int) (others : List Node) : Node :=
  .fork { line } (.tag { name := .of "p" }) (some (block others)) none

def others : List Node :=
  [.leaf { line := 3 } (.text (.of "\n") (.of false)),
    .leaf { line := 3 } (.text (.of "c") (.of false))]

/-- The block around a paragraph with a dot block. -/
def outer : Node :=
  .block { line := 1 } .plain (.of false) [paragraph 1 others]

def dotted : Node :=
  .fork { line := 0 } (.tag { name := .of "div" }) (some outer) none

end LineSample

/-- All lines of a paragraph with a dot block are indented. A piped text is visited like any other
node, and what it starts beyond its own line is left to its value. -/
theorem source_keepsIndent_samples :
    (LineSample.dotted.wellFormed = true ∧ LineSample.dotted.isOneLine = true ∧
      ∃ more, ("div\n  p.\n    a\n    b\n    c" : Text) =
        ((emit {} { depth := 1, parent := some LineSample.outer }
            (LineSample.paragraph 1 LineSample.others)).out.foldl Piece.write
          (Piece.writeAll "  " [.line 0, .markup "div"])).build ++ more ∧
        KeepsIndent (Piece.writeAll "  " [.line 0, .markup "div"]) 1
          (emit {} { depth := 1, parent := some LineSample.outer }
            (LineSample.paragraph 1 LineSample.others)).out more) ∧
    ((LineSample.paragraph 1 []).wellFormed = true ∧ (LineSample.paragraph 1 []).isOneLine = true ∧
      ∃ more, ("p\n  | a\nb" : Text) = ((emit {} { depth := 1, parent := some (LineSample.block []) }
          LineSample.broken).out.foldl Piece.write
            (Piece.writeAll "  " [.line 0, .markup "p"])).build ++ more ∧
        KeepsIndent (Piece.writeAll "  " [.line 0, .markup "p"]) 1
          (emit {} { depth := 1, parent := some (LineSample.block []) } LineSample.broken).out
          more) := by
  constructor
  · refine ⟨by decide, by decide, ?_⟩
    exact @source_keepsIndent .standard "  " LineSample.dotted LineSample.dotted 0 _ rfl (by decide)
      (by decide) (by decide) (by decide) rfl rfl (LineSample.paragraph 1 LineSample.others)
      (.tail _ (.tail _ (.head _))) { depth := 1, parent := some LineSample.outer } (by decide)
      [.line 0, .markup "div"] [] rfl
  · refine ⟨by decide, by decide, ?_⟩
    exact @source_keepsIndent .standard "  " (LineSample.paragraph 1 []) (LineSample.paragraph 1 []) 0
      _ rfl (by decide) (by decide) (by decide) (by decide) rfl rfl LineSample.broken
      (.tail _ (.tail _ (.head _))) { depth := 1, parent := some (LineSample.block []) } (by decide)
      [.line 0, .markup "p"] [] rfl

/-- Not all lines that a visit starts are indented to its depth: a piped text, and one that goes on in
a line, leave the block with the second line of their value. -/
theorem not_all_started_lines_indented :
    ¬ (∀ (config : Config) (unit text : Text) (tree root : Node) (count : Nat) (n : Node) (spot : Spot)
        (before after : List Piece), config.indentUnit = .of unit → tree.wellFormed = true →
        tree.isOneLine = true → tree.normalize = .ok (root, count) →
        (sourceOfTree config tree).result = .ok text → n ∈ root.subtrees → 0 ≤ spot.depth →
        (Printer.rootEmission config.style root).out =
          before ++ (emit config.style spot n).out ++ after →
        ∀ line ∈ (Piece.writeAll unit before).startedLines (emit config.style spot n).out
            (((emit config.style spot n).out.foldl Piece.write
              (Piece.writeAll unit before)).addition after),
          Text.repeated unit spot.depth <+: line) ∧
    (sourceOfTree .standard (LineSample.paragraph 1 [])).result = .ok "p\n  | a\nb" ∧
    (sourceOfTree .standard (LineSample.paragraph 2 [])).result = .ok "p a\nb" := by
  refine ⟨fun all => ?_, rfl, rfl⟩
  have indented := all .standard "  " "p\n  | a\nb" (LineSample.paragraph 1 [])
    (LineSample.paragraph 1 []) 0 LineSample.broken
    { depth := 1, parent := some (LineSample.block []) } [.line 0, .markup "p"] [] rfl (by decide)
    (by decide) rfl rfl (.tail _ (.tail _ (.head _))) (by decide) rfl "b" (by decide)
  exact absurd indented (by decide)

end PugPrinter
