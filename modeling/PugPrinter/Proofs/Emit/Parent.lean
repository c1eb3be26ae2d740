import PugPrinter.Proofs.Edit.NormalForm
import PugPrinter.Proofs.Emit.Depth
import PugPrinter.Proofs.Layout

/-!
What a node sees of its parent. On lines of its own only a sequence looks at its parent at all, and
in a line of its parent a node sees no more than its line, its kind and its children. The line is seen
by sequences alone, also by that of a filter that continues a line. So the place of a block matters to
the nodes in it only by its line, and only if one of these stands in it.
-/

set_option autoImplicit false

namespace PugPrinter

open Emission

namespace Layout

structure Alike (p q : Node) : Prop where
  lineFeed : isLineFeed p = isLineFeed q
  kind : p.kind? = q.kind?
  colon : takesColon p = takesColon q
  nodes : (blockOf? p).bind Node.nodes? = (blockOf? q).bind Node.nodes?

private theorem alike_block (loc loc' : Location) (kind : BlockKind) (yields : Loose Bool)
    (nodes : List Node) :
    Alike (.block loc kind yields nodes) (.block loc' kind yields nodes) where
  lineFeed := rfl
  kind := rfl
  colon := rfl
  nodes := rfl

variable {p q : Node}

private theorem Alike.startsLine (alike : Alike p q) (line : p.line? = q.line?) (n : Node) :
    startsLine n (some p) = startsLine n (some q) := by
  simp only [Layout.startsLine, line, alike.lineFeed]

private theorem Alike.usesDot? (alike : Alike p q) (line : p.line? = q.line?) (nodes : List Node) :
    usesDot? (some p) nodes = usesDot? (some q) nodes := by
  cases nodes with
  | nil => rfl
  | cons first rest =>
    have count : countDot {} (some p) false (first :: rest) =
        countDot {} (some q) false (first :: rest) := by
      unfold countDot
      simp only [alike.startsLine line first]
    simp only [Layout.usesDot?, count]

private theorem Alike.usesColon (alike : Alike p q) (enabled : Bool) (nodes : List Node) :
    usesColon enabled (.node p true) nodes = usesColon enabled (.node q true) nodes := by
  rcases nodes with _ | ⟨child, _ | ⟨next, rest⟩⟩ <;> simp [Layout.usesColon, alike.colon]

end Layout

private def Spot.under (spot : Spot) (parent : Node) : Spot :=
  { spot with parent := some parent }

namespace Emit

open Layout

variable {style : Style} {p q : Node}

private theorem isRunning_under (alike : Alike p q) (spot : Spot) :
    isRunning (spot.under p) = isRunning (spot.under q) := by
  simp only [isRunning, Spot.under, Option.bind_some, alike.nodes]

private theorem code_under (alike : Alike p q) (spot : Spot) (owner : Node) (head : CodeHead)
    (block : Spot → Emission) :
    code (spot.under p) owner head block = code (spot.under q) owner head block := by
  unfold code
  rw [isRunning_under alike]
  rfl

private theorem content_under (alike : Alike p q) (line : p.line? = q.line?) (spot : Spot) (yields : Loose Bool) (nodes : List Node)
    (lines : Int → Emission) (run : Int → Bool → Bool → Emission) :
    content style (spot.under p) yields nodes lines run =
      content style (spot.under q) yields nodes lines run := by
  simp only [content, Spot.under, Option.bind_some, Owner.ofParent, alike.usesDot? line, alike.kind,
    alike.usesColon]
  rfl

private theorem leaf_parent {head : Leaf} (formed : head.wellFormed = true) (spot : Spot) (node : Node)
    (parent : Option Node) : leaf { spot with parent } node head = leaf spot node head := by
  cases head with
  | bare => cases formed
  | text val isHtml => cases val <;> rfl
  | comment val buffer => cases val <;> rfl
  | fileReference path => cases path <;> rfl
  | _ => rfl

private theorem filter_under (spot : Spot) (owner block : Node) (name : Loose Text)
    (attrs : Attributes) {chained content : Spot → Emission} {lines : Int → Emission}
    (same : spot.inline = true → ∀ inner : Spot, content (inner.under p) = content (inner.under q)) :
    filter style (spot.under p) owner name attrs (some block) chained content lines =
      filter style (spot.under q) owner name attrs (some block) chained content lines := by
  cases inline : spot.inline with
  | false =>
    have ofLine (parent : Node) : (spot.under parent).inline = false := inline
    simp only [filter, ofLine, Bool.false_eq_true, if_false]
    rfl
  | true =>
    have inner : content { (spot.under p) with nested := false } =
        content { (spot.under q) with nested := false } := same inline { spot with nested := false }
    simp only [filter, inner]
    rfl

/-- Whether a node looks at the line of its parent: a sequence does, and a filter that continues a
line hands its parent on to its own sequence. -/
def seesLine (inline : Bool) (n : Node) : Bool :=
  n.isWrapper || (inline && n.isKind .filter)

def seeLine (inline : Bool) : List Node → Bool
  | [] => false
  | n :: rest => seesLine inline n || seeLine (continuesLine n rest) rest

end Emit

open Layout

variable {p q : Node}

private theorem emit_block_under (alike : Alike p q) (line : p.line? = q.line?) (style : Style) (spot : Spot) (loc : Location)
    (kind : BlockKind) (yields : Loose Bool) (nodes : List Node) :
    emit style (spot.under p) (.block loc kind yields nodes) =
      emit style (spot.under q) (.block loc kind yields nodes) := by
  cases kind with
  | plain =>
    simp only [emit]
    exact Emit.content_under alike line spot yields nodes _ _
  | named name mode =>
    simp only [emit]
    rfl

private theorem emit_block_unseen (style : Style) (spot : Spot) (loc : Location) (kind : BlockKind)
    {yields : Loose Bool} {nodes : List Node}
    (stays : (Node.block loc kind yields nodes).isWrapper = false) :
    emit style (spot.under p) (.block loc kind yields nodes) =
      emit style (spot.under q) (.block loc kind yields nodes) := by
  cases kind with
  | named name mode =>
    simp only [emit]
    rfl
  | plain =>
    have placeholder : yields.isOn = true := by simpa [Node.isWrapper] using stays
    simp only [emit, Emit.content, placeholder, if_true]
    rfl

/-- A well-formed node becomes the same pieces below parents that it cannot tell apart. -/
private theorem emit_under (alike : Alike p q) (style : Style) {n : Node}
    (formed : n.wellFormed = true) (spot : Spot)
    (line : p.line? = q.line? ∨ Emit.seesLine spot.inline n = false) :
    emit style (spot.under p) n = emit style (spot.under q) n := by
  cases n with
  | stray => cases formed
  | oddBlock => cases formed
  | leaf loc head =>
    simp only [emit]
    exact (Emit.leaf_parent formed spot _ _).trans (Emit.leaf_parent formed spot _ _).symm
  | block loc kind yields nodes =>
    rcases line with line | unseen
    · exact emit_block_under alike line style spot loc kind yields nodes
    · exact emit_block_unseen style spot loc kind (Bool.or_eq_false_iff.mp unseen).1
  | stem loc head child =>
    cases head with
    | code head =>
      simp only [emit]
      exact Emit.code_under alike spot _ head _
    | filter name attrs =>
      simp only [Node.wellFormed, Bool.and_eq_true] at formed
      obtain ⟨block, rfl, sequence⟩ := (Option.any_eq_true _ _).mp formed.1.2
      obtain ⟨blockLoc, kind, yields, nodes, rfl⟩ := Node.eq_block_of_isSequence formed.2 sequence
      simp only [emit, emitOptional]
      refine Emit.filter_under spot _ _ name attrs fun inline inner => ?_
      rcases line with line | unseen
      · exact emit_block_under alike line style inner blockLoc kind yields nodes
      · rw [inline] at unseen
        cases unseen
    | _ => rfl
  | fork loc head first second => cases head <;> rfl

private theorem emitRun_under (alike : Alike p q) (style : Style) {nodes : List Node}
    (formed : Node.wellFormedNodes nodes = true) (spot : Spot)
    (line : p.line? = q.line? ∨ Emit.seeLine spot.inline nodes = false) :
    emitRun style (spot.under p) nodes = emitRun style (spot.under q) nodes := by
  induction nodes generalizing spot with
  | nil => simp only [emitRun]
  | cons n rest ih =>
    simp only [Node.wellFormedNodes, Bool.and_eq_true] at formed
    have first := emit_under alike style formed.1 spot
      (line.imp_right fun unseen => (Bool.or_eq_false_iff.mp unseen).1)
    have others : emitRun style { (spot.under p) with inline := Emit.continuesLine n rest } rest =
        emitRun style { (spot.under q) with inline := Emit.continuesLine n rest } rest :=
      ih formed.2 { spot with inline := Emit.continuesLine n rest }
        (line.imp_right fun unseen => (Bool.or_eq_false_iff.mp unseen).2)
    simp only [emitRun, first, others]

private theorem emitLines_under (alike : Alike p q) (style : Style) {nodes : List Node}
    (formed : Node.wellFormedNodes nodes = true) (dot : ∀ n ∈ nodes, isDotChild n = true)
    (depth : Int) (nested verbatim : Bool) :
    emitLines style depth nested p verbatim nodes = emitLines style depth nested q verbatim nodes := by
  induction nodes with
  | nil => simp only [emitLines]
  | cons n rest ih =>
    simp only [Node.wellFormedNodes, Bool.and_eq_true] at formed
    obtain ⟨first, others⟩ := List.forall_mem_cons.mp dot
    unfold isDotChild at first
    split at first
    · simp only [emitLines, ih formed.2 others]
    · have node := emit_under alike style formed.1 { depth, nested, inline := true } (.inr rfl)
      simp only [emitLines, ih formed.2 others]
      exact congrArg (· >>= _) node
    · cases first

/-- A block without a parent on lines of its own looks at its place only where the lines of its nodes
are concerned. -/
theorem emit_block_place (loc loc' : Location) (style : Style) {nodes : List Node}
    (formed : Node.wellFormedNodes nodes = true) (depth : Int) (yields : Loose Bool)
    (line : loc.line = loc'.line ∨ Emit.seeLine false nodes = false) :
    emit style { depth } (.block loc .plain yields nodes) =
      emit style { depth } (.block loc' .plain yields nodes) := by
  have alike := alike_block loc loc' .plain yields nodes
  have run (depth : Int) := emitRun_under alike style formed { depth }
    (line.imp_left fun line => congrArg some line)
  simp only [Spot.under] at run
  simp only [emit, Emit.content, run]
  split
  · rfl
  · split
    · rfl
    · rename_i usesDot
      have lines (depth : Int) := emitLines_under alike style formed (isDotChild_of_usesDot usesDot)
        depth false false
      simp only [lines]
    · rfl

/-- On lines of its own a well-formed node does not look at its parent, unless it is a sequence
without a name that is no placeholder. -/
theorem emit_on_own_lines (style : Style) {n : Node} (formed : n.wellFormed = true)
    (notWrapper : n.isWrapper = false) (depth : Int) (nested : Bool) (parent : Node) :
    emit style { depth, nested, parent := some parent } n = emit style { depth, nested } n := by
  cases n with
  | stray => cases formed
  | oddBlock => cases formed
  | leaf loc head =>
    simp only [emit]
    exact Emit.leaf_parent formed { depth, nested } _ _
  | block loc kind yields nodes =>
    cases kind with
    | named name mode => simp only [emit, Spot.detached]
    | plain =>
      have placeholder : yields.isOn = true := by simpa [Node.isWrapper] using notWrapper
      simp only [emit, Emit.content, placeholder, if_true]
  | stem loc head child =>
    cases head with
    | filter name attrs =>
      simp only [emit, Emit.filter, Bool.false_eq_true, if_false]
    | _ => rfl
  | fork loc head first second => cases head <;> rfl

end PugPrinter
