import PugPrinter.Proofs.Emit.Frame
import PugPrinter.Proofs.Emit.Opening
import PugPrinter.Proofs.Emit.RunningLine
import PugPrinter.Proofs.Layout

/-!
Dot blocks. A block that the layout takes for a dot block is always written: below a tag or a mixin a
dot goes on in the last line, anywhere else it has a line of its own, and all children together make
up a single line of the buffer after it. Code among them stands between its marks, never after an
operator.
-/

set_option autoImplicit false

namespace PugPrinter

open Emission

def Node.dotText (arrange : Text → Text) : Node → Text
  | .leaf _ (.text val _) => arrange (val.value?.getD [])
  | .stem _ (.code code) _ => Emit.interpolatedCode code (code.val.value?.getD [])
  | _ => []

def Node.dotBody (arrange : Text → Text) (nodes : List Node) : Text :=
  nodes.flatMap (Node.dotText arrange)

/-- Indents the lines of a value after the first, and escapes what then reads as interpolation. -/
def Text.indentThenEscape (indent val : Text) : Text :=
  (Text.indentLines indent val).escapeInterpolation

def Text.escapeThenIndent (indent val : Text) : Text :=
  Text.indentLines indent val.escapeInterpolation

def Node.dotLine (unit : Text) (depth : Int) (nodes : List Node) : Text :=
  Text.repeated unit depth ++ Node.dotBody (Text.indentThenEscape (Text.repeated unit depth)) nodes

private theorem Node.dotBody_of_isInert {indent : Text} (inert : indent.IsInert)
    (nodes : List Node) :
    Node.dotBody (Text.indentThenEscape indent) nodes =
      Node.dotBody (Text.escapeThenIndent indent) nodes := by
  have arranged : Text.indentThenEscape indent = Text.escapeThenIndent indent :=
    funext (Text.escapeInterpolation_indentLines inert)
  rw [arranged]

private def Node.dotPieces (depth : Int) : Node → List Piece
  | .leaf _ (.text val _) => [.raw depth false (val.value?.getD [])]
  | .stem _ (.code code) _ => [.markup (Emit.interpolatedCode code (code.val.value?.getD []))]
  | _ => []

private theorem Node.foldl_write_dotPieces (depth : Int) (nodes : List Node) (b : LineBuffer) :
    (nodes.flatMap (Node.dotPieces depth)).foldl Piece.write b =
      b.append (Node.dotBody (Text.indentThenEscape (Text.repeated b.unit depth)) nodes) := by
  induction nodes generalizing b with
  | nil => rfl
  | cons n nodes ih =>
    have child : (n.dotPieces depth).foldl Piece.write b =
        b.append (n.dotText (Text.indentThenEscape (Text.repeated b.unit depth))) := by
      cases n with
      | leaf loc head => cases head <;> rfl
      | stem loc head child => cases head <;> rfl
      | _ => rfl
    rw [List.flatMap_cons, List.foldl_append, child, ih, LineBuffer.unit_append,
      LineBuffer.append_append]
    rfl

/-- Whether the parent of a spot has a line that a dot can go on in. -/
def Spot.isBelowHead (spot : Spot) : Bool :=
  spot.parent.any fun parent => parent.isKind .tag || parent.isKind .mixin

private theorem Spot.isBelowHead_iff (spot : Spot) :
    spot.isBelowHead = true ↔
      spot.parent.bind Node.kind? = some .tag ∨ spot.parent.bind Node.kind? = some .mixin := by
  cases parent : spot.parent with
  | none => simp [isBelowHead, parent]
  | some owner => simp [isBelowHead, parent, Node.isKind]

namespace Emit

variable {style : Style} {loc : Location} {yields : Loose Bool} {nodes : List Node}

private theorem emit_running_code {spot : Spot} {block : Node} (inside : spot.parent = some block)
    (owns : Layout.blockOf? block = some block) (children : block.nodes? = some nodes)
    (siblings : nodes.length ≠ 1) (joins : spot.inline = true) (loc : Location) {head : CodeHead}
    {val : Text} (value : head.val = .of val) :
    emit style spot (.stem loc (.code head) none) = append (interpolatedCode head val) := by
  have running : isRunning spot = true := by
    simp [isRunning, joins, inside, owns, children, siblings]
  rw [emit]
  unfold code
  simp only [value, running, if_true]

private theorem emitLines_dot {block : Node} (owns : Layout.blockOf? block = some block)
    (children : block.nodes? = some nodes) (siblings : nodes.length ≠ 1) (depth : Int)
    (nested : Bool) {listed : List Node} (formed : ∀ n ∈ listed, n.wellFormed = true)
    (dot : ∀ n ∈ listed, Layout.isDotChild n = true) :
    emitLines style depth nested block false listed =
      Run.put (listed.flatMap (Node.dotPieces depth)) := by
  induction listed with
  | nil => rfl
  | cons n rest ih =>
    obtain ⟨nodeFormed, restFormed⟩ := List.forall_mem_cons.mp formed
    obtain ⟨nodeDot, restDot⟩ := List.forall_mem_cons.mp dot
    have others := ih restFormed restDot
    rw [emitLines.eq_def]
    simp only [others]
    cases n with
    | leaf loc head =>
      cases head with
      | text val isHtml =>
        cases val with
        | of val => rfl
        | odd value => cases nodeDot
      | _ => cases nodeDot
    | stem loc head child =>
      cases head with
      | code head =>
        cases child with
        | some child => cases nodeDot
        | none =>
          have proper : head.val.isProper = true := by
            simp only [Node.wellFormed, Stem.wellFormed, CodeHead.wellFormed,
              Bool.and_eq_true] at nodeFormed
            exact nodeFormed.1.1.1.1
          obtain ⟨val, value⟩ := Loose.isProper_iff.mp proper
          have alone : emit style { depth, nested, parent := some block, inline := true }
              (.stem loc (.code head) none) = append (interpolatedCode head val) :=
            emit_running_code rfl owns children siblings rfl loc value
          simp only [alone, List.flatMap_cons, Node.dotPieces, value]
          rfl
      | _ => cases nodeDot
    | _ => cases nodeDot

private def dotBlockPieces (spot : Spot) (nodes : List Node) : List Piece :=
  if spot.isBelowHead then
    .markup "." :: .line (spot.depth + 1) :: .markup [] ::
      nodes.flatMap (Node.dotPieces (spot.depth + 1))
  else
    .line (spot.depth + 1) :: .markup "." :: .line (spot.depth + 2) :: .markup [] ::
      nodes.flatMap (Node.dotPieces (spot.depth + 2))

private theorem emit_dotBlock {spot : Spot} (formed : ∀ n ∈ nodes, n.wellFormed = true)
    (noPlaceholder : yields.isOn = false) (dot : Layout.usesDot? spot.parent nodes = some true)
    (reaches : if spot.isBelowHead then 0 ≤ spot.depth else -1 ≤ spot.depth) :
    emit style spot (.block loc .plain yields nodes) = Run.put (dotBlockPieces spot nodes) := by
  -- A dot block is written as its pieces, from the top level on, and also at a root, whose children
  -- stand there.
  have siblings : nodes.length ≠ 1 := by
    intro only
    obtain ⟨n, rfl⟩ := List.length_eq_one_iff.mp only
    rw [Layout.usesDot?_singleton (formed n List.mem_cons_self)] at dot
    cases dot
  have lines (depth : Int) :
      emitLines style depth spot.nested (.block loc .plain yields nodes) false nodes =
        Run.put (nodes.flatMap (Node.dotPieces depth)) :=
    emitLines_dot rfl rfl siblings depth spot.nested formed (Layout.isDotChild_of_usesDot dot)
  rw [emit]
  simp only [content, noPlaceholder, dot, lines, Bool.false_eq_true, if_false]
  unfold dotBlockPieces
  cases head : spot.isBelowHead with
  | true =>
    rw [head, if_pos rfl] at reaches
    rcases spot.isBelowHead_iff.mp head with tag | mixin
    · simp only [tag, rawBlock, rawDepth_of_nonneg reaches]
      rfl
    · simp only [mixin, rawBlock, rawDepth_of_nonneg reaches]
      rfl
  | false =>
    rw [head, if_neg Bool.false_ne_true] at reaches
    rw [← Bool.not_eq_true, spot.isBelowHead_iff, not_or] at head
    have next : spot.depth + 1 + 1 = spot.depth + 2 := by omega
    have level : rawDepth (spot.depth + 1) = spot.depth + 2 := by
      rw [rawDepth_of_nonneg (by omega), next]
    split
    · exact absurd ‹_› head.1
    · exact absurd ‹_› head.2
    · simp only [rawBlock, level]
      rfl

private theorem dot_ne_codeOperator (code : CodeHead) : ("." : Text) ≠ codeOperator code := by
  unfold codeOperator
  split
  · decide
  · split <;> decide

end Emit

def Piece.IsNoCode (piece : Piece) : Prop :=
  (∀ code, piece ≠ .markup (Emit.codeOperator code)) ∧ ∀ depth val, piece ≠ .script depth val

private theorem Piece.isNoCode_line (depth : Int) : (line depth).IsNoCode := by
  simp [IsNoCode]

private theorem Piece.isNoCode_raw (depth : Int) (verbatim : Bool) (text : Text) :
    (raw depth verbatim text).IsNoCode := by
  simp [IsNoCode]

private theorem Piece.isNoCode_markup {text : Text}
    (apart : ∀ code, text ≠ Emit.codeOperator code) :
    (markup text).IsNoCode := by
  simp [IsNoCode, apart]

namespace Emit

private theorem isNoCode_of_mem_dotPieces {depth : Int} {n : Node} {piece : Piece}
    (mem : piece ∈ n.dotPieces depth) : piece.IsNoCode := by
  cases n with
  | leaf loc head =>
    cases head with
    | text val isHtml =>
      obtain rfl := List.mem_singleton.mp mem
      exact Piece.isNoCode_raw _ _ _
    | _ => cases mem
  | stem loc head child =>
    cases head with
    | code head =>
      obtain rfl := List.mem_singleton.mp mem
      exact Piece.isNoCode_markup fun code => (codeOperator_ne_interpolatedCode code head _).symm
    | _ => cases mem
  | _ => cases mem

private theorem forall_dotBlockPieces_isNoCode (spot : Spot) (nodes : List Node) :
    ∀ piece ∈ dotBlockPieces spot nodes, piece.IsNoCode := by
  have children (depth : Int) : ∀ piece ∈ nodes.flatMap (Node.dotPieces depth), piece.IsNoCode := by
    intro piece mem
    obtain ⟨n, _, mem⟩ := List.mem_flatMap.mp mem
    exact isNoCode_of_mem_dotPieces mem
  have dot : (Piece.markup ".").IsNoCode := Piece.isNoCode_markup dot_ne_codeOperator
  have nothing : (Piece.markup []).IsNoCode :=
    Piece.isNoCode_markup fun code => (codeOperator_ne_nil code).symm
  unfold dotBlockPieces
  split
  · simp only [List.forall_mem_cons]
    exact ⟨dot, Piece.isNoCode_line _, nothing, children _⟩
  · simp only [List.forall_mem_cons]
    exact ⟨Piece.isNoCode_line _, dot, Piece.isNoCode_line _, nothing, children _⟩

end Emit

/-- A dot block as it is to be written: without a fault, with the dot and the one line of its
children, and with no code line. -/
structure IsDotBlock (spot : Spot) (nodes : List Node) (emission : Emission) : Prop where
  ends : emission.result = .ok ()
  belowHead : spot.isBelowHead = true → ∀ b : LineBuffer,
    (emission.out.foldl Piece.write b).lines =
      (b.append ".").lines ++ [Node.dotLine b.unit (spot.depth + 1) nodes]
  elsewhere : spot.isBelowHead = false → ∀ b : LineBuffer,
    (emission.out.foldl Piece.write b).lines =
      b.lines ++ [Text.repeated b.unit (spot.depth + 1) ++ ".",
        Node.dotLine b.unit (spot.depth + 2) nodes]
  noCodeLine : ∀ piece ∈ emission.out, piece.IsNoCode
  escapedFirst : ∀ unit : Text, unit.IsInert → ∀ depth, Node.dotLine unit depth nodes =
    Text.repeated unit depth ++
      Node.dotBody (Text.escapeThenIndent (Text.repeated unit depth)) nodes

namespace Emit

private theorem lines_line_append (b : LineBuffer) (depth : Int) (nodes : List Node) :
    (((Piece.write b (.line depth)).append []).append
      (Node.dotBody (Text.indentThenEscape (Text.repeated b.unit depth)) nodes)).lines =
      b.lines ++ [Node.dotLine b.unit depth nodes] := by
  rw [LineBuffer.append_append, LineBuffer.lines, Piece.newestFirst_line_append,
    List.reverse_cons]
  rfl

private theorem put_isDotBlock (spot : Spot) (nodes : List Node) :
    IsDotBlock spot nodes (Run.put (dotBlockPieces spot nodes)) where
  ends := rfl
  belowHead below b := by
    have whole := lines_line_append (b.append ".") (spot.depth + 1) nodes
    rw [LineBuffer.unit_append] at whole
    simp only [Run.put, dotBlockPieces, below, if_true, List.foldl_cons,
      Node.foldl_write_dotPieces, Segment.unit_write]
    exact whole
  elsewhere above b := by
    simp only [Run.put, dotBlockPieces, above, Bool.false_eq_true, if_false, List.foldl_cons,
      Node.foldl_write_dotPieces, Segment.unit_write]
    have dotted : ((Piece.write b (.line (spot.depth + 1))).append ".").lines =
        b.lines ++ [Text.repeated b.unit (spot.depth + 1) ++ "."] := by
      rw [LineBuffer.lines, Piece.newestFirst_line_append, List.reverse_cons]
      rfl
    have whole := lines_line_append ((Piece.write b (.line (spot.depth + 1))).append ".")
      (spot.depth + 2) nodes
    rw [dotted, LineBuffer.unit_append, Segment.unit_write, List.append_assoc] at whole
    exact whole
  noCodeLine := forall_dotBlockPieces_isNoCode spot nodes
  escapedFirst unit inert depth := by
    rw [Node.dotLine, Node.dotBody_of_isInert (Text.isInert_repeated inert depth)]

end Emit

/-- A block that the layout takes for a dot block is written as one, whatever the style, the flags and
the buffer. -/
theorem emit_isDotBlock (style : Style) {spot : Spot} {loc : Location} {yields : Loose Bool}
    {nodes : List Node} (formed : ∀ n ∈ nodes, n.wellFormed = true)
    (noPlaceholder : yields.isOn = false) (dot : Layout.usesDot? spot.parent nodes = some true)
    (reaches : if spot.isBelowHead then 0 ≤ spot.depth else -1 ≤ spot.depth) :
    IsDotBlock spot nodes (emit style spot (.block loc .plain yields nodes)) := by
  rw [Emit.emit_dotBlock formed noPlaceholder dot reaches]
  exact Emit.put_isDotBlock spot nodes

/-- Texts with and without a line feed, and code of each kind, over three lines. -/
def dotSample : List Node :=
  [.leaf { line := 1 } (.text (.of "one #\x7ba\x7d\ntwo ") (.of false)),
    .stem { line := 3 } (.code { val := .of "b", buffer := .of true }) none,
    .stem { line := 3 } (.code { val := .of "c", buffer := .of true, escape := .of false }) none,
    .stem { line := 3 } (.code { val := .of "d" }) none]

/-- The children of a tag, and those of a root. -/
theorem emit_isDotBlock_samples :
    (∀ n ∈ dotSample, n.wellFormed = true) ∧
      Node.dotLine "  " 1 dotSample = "  one \\#\x7ba\x7d\n  two #\x7bb\x7d!\x7bc\x7d#[- d]" ∧
      IsDotBlock { depth := 0, parent := some (.fork {} (.tag { name := .of "p" }) none none) }
        dotSample
        (emit {} { depth := 0, parent := some (.fork {} (.tag { name := .of "p" }) none none) }
          (.block {} .plain (.of false) dotSample)) ∧
      IsDotBlock { depth := -1 } dotSample
        (emit {} { depth := -1 } (.block {} .plain (.of false) dotSample)) :=
  ⟨by decide, by decide, emit_isDotBlock {} (by decide) (by decide) (by decide) (by decide),
    emit_isDotBlock {} (by decide) (by decide) (by decide) (by decide)⟩

end PugPrinter
