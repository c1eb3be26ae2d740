import PugPrinter.Emit
import PugPrinter.Proofs.Runs

/-!
Emission does not look at its depth. When depths are moved so that steps from one level to the next
are kept, a node at the moved depth becomes the same pieces, every one of them at its moved depth.
Two such moves matter: one level deeper, and the one that changes nothing from depth zero on, from
which it follows that no piece of a node at such a depth stands above the top level.
-/

set_option autoImplicit false

namespace PugPrinter

/-- A way of moving depths that keeps steps down from depth zero on. -/
structure Leveling where
  depth : Int → Int
  nonneg : ∀ d : Int, 0 ≤ d → 0 ≤ depth d
  succ : ∀ d : Int, 0 ≤ d → depth (d + 1) = depth d + 1

namespace Leveling

def down : Leveling where
  depth d := d + 1
  nonneg d h := by omega
  succ d _ := rfl

def clipped : Leveling where
  depth d := max d 0
  nonneg d _ := by omega
  succ d h := by omega

end Leveling

def Piece.leveled (l : Leveling) : Piece → Piece
  | line depth => line (l.depth depth)
  | raw depth verbatim text => raw (l.depth depth) verbatim text
  | script depth text => script (l.depth depth) text
  | piece => piece

def Spot.leveled (l : Leveling) (spot : Spot) : Spot :=
  { spot with depth := l.depth spot.depth }

@[simp] theorem Spot.leveled_depth (l : Leveling) (spot : Spot) :
    (spot.leveled l).depth = l.depth spot.depth := rfl

@[simp] theorem Spot.leveled_nested (l : Leveling) (spot : Spot) :
    (spot.leveled l).nested = spot.nested := rfl

@[simp] theorem Spot.leveled_parent (l : Leveling) (spot : Spot) :
    (spot.leveled l).parent = spot.parent := rfl

@[simp] theorem Spot.leveled_inline (l : Leveling) (spot : Spot) :
    (spot.leveled l).inline = spot.inline := rfl

/-- An emission with the depths of its pieces moved. -/
def Emission.leveled {α : Type} (l : Leveling) (emission : Run Piece α) : Run Piece α :=
  emission.mapOut (Piece.leveled l)

def FollowsSpot (l : Leveling) (content : Spot → Emission) : Prop :=
  ∀ spot : Spot, 0 ≤ spot.depth → content (spot.leveled l) = Emission.leveled l (content spot)

def FollowsDepth (l : Leveling) (lines : Int → Emission) : Prop :=
  ∀ depth : Int, 0 ≤ depth → lines (l.depth depth) = Emission.leveled l (lines depth)

namespace Emission

variable (l : Leveling)

@[simp] theorem leveled_bind {α β : Type} (first : Run Piece α) (next : α → Run Piece β) :
    leveled l (first >>= next) = leveled l first >>= fun a => leveled l (next a) :=
  Run.mapOut_bind (Piece.leveled l) first next

@[simp] theorem leveled_nothing : leveled l nothing = nothing := rfl

@[simp] theorem leveled_append (text : Text) : leveled l (append text) = append text := rfl

@[simp] theorem leveled_newLine (depth : Int) (text : Text) :
    leveled l (newLine depth text) = newLine (l.depth depth) text := rfl

@[simp] theorem leveled_refuse (error : TreeError) : leveled l (refuse error) = refuse error := rfl

@[simp] theorem leveled_unsupported : leveled l unsupported = unsupported := rfl

@[simp] theorem leveled_put (pieces : List Piece) :
    leveled l (Run.put pieces) = Run.put (pieces.map (Piece.leveled l)) := rfl

@[simp] theorem leveled_ite (c : Prop) [Decidable c] (yes no : Emission) :
    leveled l (if c then yes else no) = if c then leveled l yes else leveled l no := by
  split <;> rfl

@[simp] theorem leveled_head (inline : Bool) (depth : Int) (text : Text) :
    leveled l (head inline depth text) = head inline (l.depth depth) text := by
  cases inline <;> rfl

@[simp] theorem leveled_bracketed (brackets : Bool) (inner : Emission) :
    leveled l (bracketed brackets inner) = bracketed brackets (leveled l inner) := by
  cases brackets <;> simp [bracketed]

@[simp] theorem leveled_ofExcept {α : Type} (result : Except Fault α) :
    leveled l (Run.ofExcept result) = Run.ofExcept result := rfl

end Emission

open Emission

namespace Emit

variable {l : Leveling} {style : Style} {spot : Spot} {owner : Node}

@[simp] theorem attributes_leveled (l : Leveling) (style : Style) (attrs : Attributes) :
    leveled l (attributes style attrs) = attributes style attrs := by
  simp [leveled, attributes, Run.mapOut, Function.comp_def, Piece.leveled]

@[simp] theorem tagHead_leveled (l : Leveling) (style : Style) (tag : TagHead) :
    leveled l (tagHead style tag) = tagHead style tag := by
  simp only [tagHead, attributeBlocks, leveled_bind, attributes_leveled, leveled_ofExcept]
  cases tag.name <;> rfl

@[simp] theorem callHead_leveled (l : Leveling) (style : Style) (m : MixinHead) :
    leveled l (callHead style m) = callHead style m := by
  simp only [callHead, attributeBlocks, leveled_bind, attributes_leveled, leveled_ofExcept]
  rfl

@[simp] theorem filterHead_leveled (l : Leveling) (style : Style) (attrs : Attributes) (name : Loose Text) :
    leveled l (filterHead style attrs name) = filterHead style attrs name := by
  cases name with
  | of name =>
    simp only [filterHead, leveled_bind, attributes_leveled]
    rfl
  | odd _ => rfl

private theorem leaf_leveled (l : Leveling) (spot : Spot) (node : Node) (head : Leaf) :
    leaf (spot.leveled l) node head = leveled l (leaf spot node head) := by
  cases head with
  | mixinBlock => rfl
  | text val isHtml =>
    cases val with
    | of val =>
      simp only [leaf, text, Spot.leveled_inline, Spot.leveled_depth, leveled_ite]
      rfl
    | odd value =>
      simp only [leaf, oddText, Spot.leveled_inline, leveled_ite]
      rfl
  | comment val buffer => cases val <;> rfl
  | doctype val => rfl
  | fileReference path =>
    cases path with
    | of path => rfl
    | odd value => simp [leaf]
  | bare => rfl

private theorem code_leveled (nonneg : 0 ≤ spot.depth) (head : CodeHead) {block : Spot → Emission}
    (follows : FollowsSpot l block) :
    code (spot.leveled l) owner head block = leveled l (code spot owner head block) := by
  have below : block ((spot.leveled l).below owner) = leveled l (block (spot.below owner)) :=
    follows (spot.below owner) nonneg
  have running : isRunning (spot.leveled l) = isRunning spot := rfl
  cases val : head.val with
  | odd _ => simp [code, val]
  | of val' =>
    simp only [code, val, running]
    split
    · rfl
    · simp [below, Piece.leveled, l.succ _ nonneg]

private theorem ownContent_leveled (nonneg : 0 ≤ spot.depth) (block : Node)
    {content : Spot → Emission} (follows : FollowsSpot l content) :
    ownContent style (spot.leveled l) owner block content =
      leveled l (ownContent style spot owner block content) := by
  have inner (same : Bool) :
      content { depth := l.depth spot.depth, parent := some owner, inline := same } =
        leveled l (content { depth := spot.depth, parent := some owner, inline := same }) :=
    follows { depth := spot.depth, parent := some owner, inline := same } nonneg
  simp only [ownContent]
  split
  · rfl
  · rfl
  · split
    · rfl
    · simp [inner]

private theorem tag_leveled (nonneg : 0 ≤ spot.depth) (head : TagHead) (block : Option Node)
    {code content : Spot → Emission} (codeFollows : FollowsSpot l code)
    (contentFollows : FollowsSpot l content) :
    tag style (spot.leveled l) owner head block code content =
      leveled l (tag style spot owner head block code content) := by
  have ofCode : code { (spot.leveled l) with parent := none, inline := true } =
      leveled l (code { spot with parent := none, inline := true }) :=
    codeFollows { spot with parent := none, inline := true } nonneg
  cases block with
  | none => rfl
  | some block =>
    simp only [tag, leveled_bind, tagHead_leveled, leveled_bracketed, leveled_head, ofCode,
      ownContent_leveled nonneg block contentFollows]
    rfl

private theorem mixin_leveled (nonneg : 0 ≤ spot.depth) (m : MixinHead) (block : Option Node)
    {content : Spot → Emission} (follows : FollowsSpot l content) :
    mixin style (spot.leveled l) owner m block content =
      leveled l (mixin style spot owner m block content) := by
  have below : content ((spot.leveled l).below owner) = leveled l (content (spot.below owner)) :=
    follows (spot.below owner) nonneg
  unfold mixin
  split
  · cases block with
    | none =>
      simp only [leveled_bind, callHead_leveled, leveled_bracketed, leveled_head, leveled_nothing]
      rfl
    | some block =>
      simp only [leveled_bind, callHead_leveled, leveled_bracketed, leveled_head,
        ownContent_leveled nonneg block follows]
      rfl
  · simp only [leveled_bind, leveled_newLine, below]
    rfl

private theorem when_leveled (nonneg : 0 ≤ spot.depth) (expr : Loose Text) (block : Option Node)
    {body : Spot → Emission} (follows : FollowsSpot l body) :
    when (spot.leveled l) owner expr block body = leveled l (when spot owner expr block body) := by
  have below : body ((spot.leveled l).below owner) = leveled l (body (spot.below owner)) :=
    follows (spot.below owner) nonneg
  cases block with
  | none => rfl
  | some block =>
    simp only [when, leveled_bind, leveled_newLine, below, Spot.leveled_depth, ← l.succ _ nonneg]
    rcases block.nodes? with _ | _ | _ <;> rfl

theorem rawDepth_of_nonneg {depth : Int} (nonneg : 0 ≤ depth) : rawDepth depth = depth + 1 := by
  have notTop : ¬ depth + 1 = 0 := by omega
  simp [rawDepth, notTop]

theorem rawBlock_leveled {depth : Int} (nonneg : 0 ≤ depth) {lines : Int → Emission}
    (follows : FollowsDepth l lines) :
    rawBlock (l.depth depth) lines = leveled l (rawBlock depth lines) := by
  have next : (0 : Int) ≤ depth + 1 := by omega
  simp only [rawBlock, rawDepth_of_nonneg nonneg, rawDepth_of_nonneg (l.nonneg depth nonneg),
    leveled_bind, leveled_newLine, ← l.succ depth nonneg, follows (depth + 1) next]

private theorem blockComment_leveled (nonneg : 0 ≤ spot.depth) (val : Loose Text)
    (buffer : Loose Bool) (block : Option Node) {lines : Int → Emission}
    (follows : FollowsDepth l lines) :
    blockComment (spot.leveled l) owner val buffer block lines =
      leveled l (blockComment spot owner val buffer block lines) := by
  cases block with
  | none => rfl
  | some block =>
    simp only [blockComment, leveled_bind, leveled_ofExcept, leveled_newLine, Spot.leveled_depth,
      rawBlock_leveled nonneg follows]

private theorem filter_leveled (nonneg : 0 ≤ spot.depth) (name : Loose Text) (attrs : Attributes)
    (block : Option Node) {chained content : Spot → Emission} {lines : Int → Emission}
    (chainFollows : FollowsSpot l chained) (contentFollows : FollowsSpot l content)
    (linesFollow : FollowsDepth l lines) :
    filter style (spot.leveled l) owner name attrs block chained content lines =
      leveled l (filter style spot owner name attrs block chained content lines) := by
  have ofChain :
      chained { spot with depth := l.depth spot.depth, nested := true, parent := some owner } =
        leveled l (chained { spot with nested := true, parent := some owner }) :=
    chainFollows { spot with nested := true, parent := some owner } nonneg
  have ofContent : content { spot with depth := l.depth spot.depth, nested := false } =
      leveled l (content { spot with nested := false }) :=
    contentFollows { spot with nested := false } nonneg
  cases block with
  | none => rfl
  | some block =>
    simp only [filter, leveled_bind, filterHead_leveled, leveled_bracketed, leveled_head,
      Spot.leveled_inline, Spot.leveled_nested, Spot.leveled_depth, Spot.leveled_parent, ofChain,
      ofContent, rawBlock_leveled nonneg linesFollow]
    rcases block.nodes? with _ | _ | ⟨first, rest⟩
    · rfl
    · rfl
    · simp only [leveled_ite, leveled_bind, leveled_append, leveled_refuse]

private theorem content_leveled (spot : Spot) (nonneg : 0 ≤ spot.depth) (yields : Loose Bool)
    (nodes : List Node) {lines : Int → Emission} {run : Int → Bool → Bool → Emission}
    (linesFollow : FollowsDepth l lines)
    (runFollows : ∀ nested inline, FollowsDepth l fun depth => run depth nested inline) :
    content style (spot.leveled l) yields nodes lines run =
      leveled l (content style spot yields nodes lines run) := by
  have next : (0 : Int) ≤ spot.depth + 1 := by omega
  have sameLevel (nested inline : Bool) :
      run (l.depth spot.depth) nested inline = leveled l (run spot.depth nested inline) :=
    runFollows nested inline spot.depth nonneg
  have nextLevel (nested inline : Bool) :
      run (l.depth (spot.depth + 1)) nested inline =
        leveled l (run (spot.depth + 1) nested inline) :=
    runFollows nested inline (spot.depth + 1) next
  simp only [content, Spot.leveled_parent, Spot.leveled_depth, Spot.leveled_nested,
    Spot.leveled_inline, ← l.succ _ nonneg]
  split
  · rfl
  · split
    · rfl
    · split <;> simp only [leveled_bind, leveled_append, leveled_newLine,
        rawBlock_leveled nonneg linesFollow, rawBlock_leveled next linesFollow]
    · simp only [leveled_ite, leveled_bind, leveled_append, sameLevel, nextLevel]

private theorem oddContent_leveled (depth : Int) (yields : Loose Bool) (value : Json) :
    oddContent (l.depth depth) yields value = leveled l (oddContent depth yields value) := by
  unfold oddContent
  split
  · rfl
  · split <;> rfl

private theorem oddLines_leveled (block : Node) (value : Json) :
    leveled l (oddLines block value) = oddLines block value := by
  unfold oddLines
  split <;> rfl

private theorem inclusionFilter_leveled (l : Leveling) (style : Style) (attrs : Attributes)
    (name : Loose Text) :
    leveled l (inclusionFilter style attrs name) = inclusionFilter style attrs name := by
  simp only [inclusionFilter, leveled_ite, leveled_bind, filterHead_leveled, leveled_append,
    leveled_nothing]

end Emit

theorem emitAlternate_of_not_conditional {style : Style} {spot : Spot} {n : Node}
    (other : n.isKind .conditional = false) :
    emitAlternate style spot (some n) =
      (do newLine spot.depth "else"; emit style spot n) := by
  unfold emitAlternate
  split
  · simp_all
  · rename_i same
    cases same
    cases other
  · rename_i same
    cases same
    rfl

private theorem alternate_followsSpot {l : Leveling} {style : Style} {n : Node}
    (other : n.isKind .conditional = false) (follows : FollowsSpot l fun spot => emit style spot n) :
    FollowsSpot l fun spot => emitAlternate style spot (some n) := by
  intro spot nonneg
  have node := follows spot nonneg
  simp only [emitAlternate_of_not_conditional other, leveled_bind, leveled_newLine, ← node]
  rfl

mutual

/-- A node at a moved depth becomes its pieces at their moved depths. -/
theorem emit_followsSpot (l : Leveling) (style : Style) :
    ∀ n : Node, FollowsSpot l fun spot => emit style spot n
  | .stray value => by
    intro spot _
    simp [emit]
  | .leaf loc head => by
    intro spot _
    simp only [emit]
    exact Emit.leaf_leveled l spot (.leaf loc head) head
  | .block loc kind yields nodes => by
    intro spot nonneg
    have linesFollow := emitLines_followsDepth l style spot.nested (.block loc kind yields nodes)
      false nodes
    have runFollows := emitRun_followsDepth l style (some (.block loc kind yields nodes)) nodes
    cases kind with
    | plain =>
      simp only [emit]
      exact Emit.content_leveled spot nonneg yields nodes linesFollow runFollows
    | named name mode =>
      simp only [emit, leveled_bind, leveled_newLine, Spot.leveled_depth]
      rw [← Emit.content_leveled spot.detached nonneg yields nodes linesFollow runFollows]
      rfl
  | .oddBlock loc kind yields value => by
    intro spot _
    cases kind with
    | plain =>
      simp only [emit]
      exact Emit.oddContent_leveled spot.depth yields value
    | named name mode =>
      simp only [emit, leveled_bind, leveled_newLine, Spot.leveled_depth, Emit.oddContent_leveled]
  | .stem loc (.mixin m) block => by
    intro spot nonneg
    simp only [emit]
    exact Emit.mixin_leveled nonneg m block (emitOptional_followsSpot l style block)
  | .stem loc (.code head) block => by
    intro spot nonneg
    simp only [emit]
    exact Emit.code_leveled nonneg head (emitOptional_followsSpot l style block)
  | .stem loc (.blockComment val buffer) block => by
    intro spot nonneg
    simp only [emit]
    exact Emit.blockComment_leveled nonneg val buffer block
      (emitBlockLines_followsDepth l style spot.nested block)
  | .stem loc (.caseOf expr) block => by
    intro spot nonneg
    have child := emitChild_followsSpot l style block (spot.below (.stem loc (.caseOf expr) block))
      nonneg
    simp only [emit, leveled_bind, leveled_newLine, ← child]
    rfl
  | .stem loc (.when expr) block => by
    intro spot nonneg
    simp only [emit]
    exact Emit.when_leveled nonneg expr block (emitOptional_followsSpot l style block)
  | .stem loc (.whileLoop test) block => by
    intro spot nonneg
    have child := emitChild_followsSpot l style block
      (spot.below (.stem loc (.whileLoop test) block)) nonneg
    simp only [emit, leveled_bind, leveled_newLine, ← child]
    rfl
  | .stem loc .extending file => by
    intro spot nonneg
    have child := emitChild_followsSpot l style file (spot.below (.stem loc .extending file)) nonneg
    simp only [emit, leveled_bind, leveled_newLine, ← child]
    rfl
  | .stem loc (.filter name attrs) block => by
    intro spot nonneg
    simp only [emit]
    exact Emit.filter_leveled nonneg name attrs block (emitChildren_followsSpot l style block)
      (emitOptional_followsSpot l style block) (emitBlockLines_followsDepth l style spot.nested block)
  | .fork loc (.tag head) block code => by
    intro spot nonneg
    simp only [emit]
    exact Emit.tag_leveled nonneg head block (emitTagCode_followsSpot l style code)
      (emitOptional_followsSpot l style block)
  | .fork loc (.conditional test) yes no => by
    intro spot nonneg
    have first := emitChild_followsSpot l style yes
      (spot.below (.fork loc (.conditional test) yes no)) nonneg
    have second := emitAlternate_followsSpot l style no
      (spot.below (.fork loc (.conditional test) yes no)) nonneg
    simp only [emit, leveled_bind, leveled_newLine, ← first, ← second]
    rfl
  | .fork loc (.each val obj key) block alternative => by
    intro spot nonneg
    have body := emitChild_followsSpot l style block
      (spot.below (.fork loc (.each val obj key) block alternative)) nonneg
    have instead := emitOptional_followsSpot l style alternative spot.detached nonneg
    simp only [emit, leveled_bind, leveled_ite, leveled_newLine, ← body, ← instead]
    rfl
  | .fork loc (.inclusion filter attrs) file block => by
    intro spot nonneg
    have path := emitChild_followsSpot l style file
      (spot.below (.fork loc (.inclusion filter attrs) file block)) nonneg
    have content := emitOptional_followsSpot l style block spot.detached nonneg
    simp only [emit, leveled_bind, leveled_newLine, leveled_append, Emit.inclusionFilter_leveled,
      ← path, ← content]
    rfl
termination_by structural n => n

private theorem emitChild_followsSpot (l : Leveling) (style : Style) :
    ∀ child : Option Node, FollowsSpot l fun spot => emitChild style spot child
  | none => fun _ _ => by simp [emitChild]
  | some n => fun spot nonneg => by
    simp only [emitChild]
    exact emit_followsSpot l style n spot nonneg
termination_by structural child => child

private theorem emitOptional_followsSpot (l : Leveling) (style : Style) :
    ∀ child : Option Node, FollowsSpot l fun spot => emitOptional style spot child
  | none => fun _ _ => by simp [emitOptional]
  | some n => fun spot nonneg => by
    simp only [emitOptional]
    exact emit_followsSpot l style n spot nonneg
termination_by structural child => child

private theorem emitChildren_followsSpot (l : Leveling) (style : Style) :
    ∀ child : Option Node, FollowsSpot l fun spot => emitChildren style spot child
  | some (.block _ _ _ nodes) => fun spot nonneg => by
    simp only [emitChildren]
    exact emitRun_followsDepth l style spot.parent nodes spot.nested spot.inline spot.depth nonneg
  | none | some (.leaf _ _) | some (.oddBlock _ _ _ _) | some (.stem _ _ _)
  | some (.fork _ _ _ _) | some (.stray _) => fun _ _ => by simp [emitChildren]
termination_by structural child => child

private theorem emitBlockLines_followsDepth (l : Leveling) (style : Style) (nested : Bool) :
    ∀ child : Option Node, FollowsDepth l fun depth => emitBlockLines style depth nested child
  | some (.block loc kind yields nodes) => fun depth nonneg => by
    simp only [emitBlockLines]
    exact emitLines_followsDepth l style nested (.block loc kind yields nodes) true nodes depth nonneg
  | some (.oddBlock loc kind yields value) => fun _ _ => by
    simp only [emitBlockLines, Emit.oddLines_leveled]
  | none | some (.leaf _ _) | some (.stem _ _ _) | some (.fork _ _ _ _) | some (.stray _) =>
    fun _ _ => by simp [emitBlockLines]
termination_by structural child => child

private theorem emitTagCode_followsSpot (l : Leveling) (style : Style) :
    ∀ code : Option Node, FollowsSpot l fun spot => emitTagCode style spot code
  | none => fun _ _ => by simp [emitTagCode]
  | some (.stem loc (.code head) body) => fun spot nonneg => by
    simp only [emitTagCode]
    exact Emit.code_leveled nonneg head (emitOptional_followsSpot l style body)
  | some (.stem loc (.blockComment val buffer) body) => fun spot nonneg => by
    simp only [emitTagCode, leveled_ite, leveled_unsupported,
      Emit.code_leveled nonneg _ (emitOptional_followsSpot l style body)]
  | some (.leaf _ _) | some (.block _ _ _ _) | some (.oddBlock _ _ _ _) | some (.fork _ _ _ _)
  | some (.stray _) | some (.stem _ (.mixin _) _) | some (.stem _ (.caseOf _) _)
  | some (.stem _ (.when _) _) | some (.stem _ (.whileLoop _) _) | some (.stem _ .extending _)
  | some (.stem _ (.filter _ _) _) => fun _ _ => by simp [emitTagCode]
termination_by structural code => code

private theorem emitAlternate_followsSpot (l : Leveling) (style : Style) :
    ∀ child : Option Node, FollowsSpot l fun spot => emitAlternate style spot child
  | none => fun _ _ => by simp [emitAlternate]
  | some (.fork loc (.conditional test) yes no) => fun spot nonneg => by
    have first := emitChild_followsSpot l style yes
      (spot.below (.fork loc (.conditional test) yes no)) nonneg
    have second := emitAlternate_followsSpot l style no
      (spot.below (.fork loc (.conditional test) yes no)) nonneg
    simp only [emitAlternate, leveled_bind, leveled_newLine, leveled_append, ← first, ← second]
    rfl
  | some (.fork loc (.tag head) block code) =>
    alternate_followsSpot rfl (emit_followsSpot l style (.fork loc (.tag head) block code))
  | some (.fork loc (.each val obj key) block alternative) =>
    alternate_followsSpot rfl (emit_followsSpot l style (.fork loc (.each val obj key) block alternative))
  | some (.fork loc (.inclusion filter attrs) file block) =>
    alternate_followsSpot rfl (emit_followsSpot l style (.fork loc (.inclusion filter attrs) file block))
  | some (.stem loc head child) =>
    alternate_followsSpot (by cases head <;> rfl) (emit_followsSpot l style (.stem loc head child))
  | some (.leaf loc head) =>
    alternate_followsSpot (by cases head <;> rfl) (emit_followsSpot l style (.leaf loc head))
  | some (.block loc kind yields nodes) =>
    alternate_followsSpot (by cases kind <;> rfl)
      (emit_followsSpot l style (.block loc kind yields nodes))
  | some (.oddBlock loc kind yields value) =>
    alternate_followsSpot (by cases kind <;> rfl)
      (emit_followsSpot l style (.oddBlock loc kind yields value))
  | some (.stray value) => alternate_followsSpot rfl (emit_followsSpot l style (.stray value))
termination_by structural child => child

theorem emitRun_followsDepth (l : Leveling) (style : Style) (parent : Option Node) :
    ∀ (nodes : List Node) (nested inline : Bool),
      FollowsDepth l fun depth => emitRun style { depth, nested, parent, inline } nodes
  | [], _, _ => fun _ _ => by simp [emitRun]
  | n :: rest, nested, inline => fun depth nonneg => by
    have node := emit_followsSpot l style n { depth, nested, parent, inline } nonneg
    have others := emitRun_followsDepth l style parent rest nested (Emit.continuesLine n rest) depth
      nonneg
    simp only [emitRun, leveled_bind, leveled_ite, leveled_unsupported, ← node, ← others]
    rfl
termination_by structural nodes => nodes

theorem emitLines_followsDepth (l : Leveling) (style : Style) (nested : Bool) (block : Node)
    (verbatim : Bool) :
    ∀ nodes : List Node, FollowsDepth l fun depth => emitLines style depth nested block verbatim nodes
  | [] => fun _ _ => by simp [emitLines]
  | n :: rest => fun depth nonneg => by
    have others := emitLines_followsDepth l style nested block verbatim rest depth nonneg
    have node := emit_followsSpot l style n { depth, nested, parent := some block, inline := true }
      nonneg
    unfold emitLines
    split <;> simp only [leveled_bind, leveled_refuse, leveled_unsupported, leveled_put, ← node,
      ← others] <;> rfl
termination_by structural nodes => nodes

end

/-- From depth zero on, no piece of a node stands above the top level. -/
theorem emit_clipped (style : Style) {spot : Spot} (nonneg : 0 ≤ spot.depth) (n : Node) :
    ∀ piece ∈ (emit style spot n).out, piece.leveled .clipped = piece := by
  have stays : spot.leveled .clipped = spot := by
    have same : max spot.depth 0 = spot.depth := by omega
    simp only [Spot.leveled, Leveling.clipped, same]
  have follows := emit_followsSpot .clipped style n spot nonneg
  simp only [stays] at follows
  have kept : (emit style spot n).out.map (Piece.leveled .clipped) =
      (emit style spot n).out.map id := by
    rw [List.map_id]
    exact congrArg Run.out follows.symm
  intro piece member
  exact List.map_inj_left.mp kept piece member

end PugPrinter
