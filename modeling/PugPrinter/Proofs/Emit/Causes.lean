import PugPrinter.Proofs.Edit.NormalForm
import PugPrinter.Proofs.Emit.Depth
import PugPrinter.Proofs.Emit.Faults

/-!
The emission of a tree is stopped only by what its nodes cause. One induction says so for any set of
faults: where everything that the nodes of a tree cause is in it, so is the fault that stops the emission.
No child of a dot block is refused as a raw line. For well-formed trees only the own faults of the nodes
are left.
-/

set_option autoImplicit false

namespace PugPrinter

open Run Emission

variable {allowed : Fault → Prop} {style : Style} {spot : Spot}

namespace Emission

private theorem failsOnly_nothing : (nothing : Emission).FailsOnly allowed :=
  failsOnly_of_ok rfl

private theorem failsOnly_append (text : Text) : (append text).FailsOnly allowed :=
  failsOnly_of_ok rfl

private theorem failsOnly_newLine (depth : Int) (text : Text) :
    (newLine depth text).FailsOnly allowed :=
  failsOnly_of_ok rfl

private theorem failsOnly_refuse {error : TreeError} (can : allowed (.tree error)) :
    (refuse error).FailsOnly allowed :=
  failsOnly_fail can

private theorem failsOnly_unsupported {formed : Prop} (shape : Shaped allowed formed)
    (broken : ¬ formed) :
    unsupported.FailsOnly allowed :=
  failsOnly_fail (shape.resolve_left broken)

private theorem failsOnly_head (inline : Bool) (depth : Int) (text : Text) :
    (head inline depth text).FailsOnly allowed := by
  cases inline
  · exact failsOnly_newLine depth text
  · exact failsOnly_append text

private theorem failsOnly_bracketed {brackets : Bool} {inner : Emission}
    (only : inner.FailsOnly allowed) :
    (bracketed brackets inner).FailsOnly allowed := by
  cases brackets
  · exact only
  · exact (failsOnly_append _).bind fun _ _ => only.bind fun _ _ => failsOnly_append _

end Emission

namespace Emit

private theorem attributes_failsOnly {attrs : Attributes}
    (shape : Shaped allowed (attrs.isProperList = true)) (long : AllowsLong allowed attrs) :
    (attributes style attrs).FailsOnly allowed :=
  (Attribute.render_failsOnly _ shape long).mapOut _

private theorem attributeBlocks_failsOnly {blocks : AttributeBlocks}
    (shape : Shaped allowed (blocks.isProperList = true)) :
    (attributeBlocks blocks).FailsOnly allowed := by
  cases blocks with
  | of exprs => exact failsOnly_of_ok rfl
  | odd value =>
    simp only [attributeBlocks, Attribute.renderBlocks]
    split
    · exact failsOnly_of_ok rfl
    · exact failsOnly_fail (shape.resolve_left Bool.false_ne_true)

private theorem tagHead_failsOnly {head : TagHead} (shape : Shaped allowed (head.wellFormed = true))
    (long : AllowsLong allowed head.attrs) : (tagHead style head).FailsOnly allowed := by
  simp only [TagHead.wellFormed, Bool.and_eq_true] at shape
  refine (attributes_failsOnly (shape.imp_left (·.1.1.1.2)) long).bind fun _ _ => ?_
  refine (attributeBlocks_failsOnly (shape.imp_left (·.1.1.2))).bind fun _ _ => ?_
  split
  · exact failsOnly_pure _
  · rename_i noName
    refine failsOnly_fail (shape.resolve_left fun formed => ?_)
    rw [noName] at formed
    cases formed.1.1.1.1

private theorem callHead_failsOnly {m : MixinHead} (shape : Shaped allowed (m.wellFormed = true))
    (long : AllowsLong allowed m.attrs) : (callHead style m).FailsOnly allowed := by
  simp only [MixinHead.wellFormed, Bool.and_eq_true] at shape
  refine (attributes_failsOnly (shape.imp_left (·.1.2)) long).bind fun _ _ => ?_
  exact (attributeBlocks_failsOnly (shape.imp_left (·.2))).bind fun _ _ => failsOnly_pure _

private theorem filterHead_failsOnly {attrs : Attributes} {name : Loose Text}
    (shape : Shaped allowed (name.isProper = true ∧ attrs.isProperList = true))
    (long : AllowsLong allowed attrs) : (filterHead style attrs name).FailsOnly allowed := by
  cases name with
  | of text =>
    exact (attributes_failsOnly (shape.imp_left (·.2)) long).bind fun _ _ => failsOnly_pure _
  | odd value => exact failsOnly_fail (shape.resolve_left fun formed => Bool.false_ne_true formed.1)

private theorem inclusionFilter_failsOnly {attrs : Attributes} {name : Loose Text}
    (shape : Shaped allowed (name.isProperOrMissing = true ∧ attrs.isProperList = true))
    (long : AllowsLong allowed attrs) : (inclusionFilter style attrs name).FailsOnly allowed := by
  refine FailsOnly.ite (fun given => ?_) fun _ => failsOnly_nothing
  refine (filterHead_failsOnly (shape.imp_left fun formed => ⟨?_, formed.2⟩) long).bind
    fun _ _ => failsOnly_append _
  rcases Loose.isProperOrMissing_iff.mp formed.1 with ⟨text, rfl⟩ | rfl
  · rfl
  · cases given

private theorem leaf_failsOnly {loc : Location} {head : Leaf}
    (own : (Node.leaf loc head).CausesOnly allowed) :
    (leaf spot (.leaf loc head) head).FailsOnly allowed := by
  have shape := own.shape
  cases head with
  | mixinBlock => exact failsOnly_newLine _ _
  | doctype val => exact failsOnly_newLine _ _
  | bare => exact failsOnly_refuse (own.refusal _ rfl (.bare loc spot.parent))
  | comment val buffer =>
    cases val with
    | of text => exact failsOnly_newLine _ _
    | odd value => exact failsOnly_unsupported shape Bool.false_ne_true
  | fileReference path =>
    cases path with
    | of text => exact failsOnly_append _
    | odd value =>
      exact FailsOnly.ite (fun _ => failsOnly_unsupported shape Bool.false_ne_true)
        fun _ => failsOnly_nothing
  | text val isHtml =>
    have inlineHtml (isOn : isHtml.isOn = true) :
        allowed (.tree (.illegalInlineHtml (Node.leaf loc (.text val isHtml)).subject)) :=
      own.content nofun _ (by simp [Node.contentFaults, isOn])
    cases val with
    | of text =>
      refine FailsOnly.ite (fun isOn => ?_) fun _ => ?_
      · exact FailsOnly.ite (fun _ => failsOnly_refuse (inlineHtml isOn)) fun _ => failsOnly_put _
      · refine FailsOnly.ite (fun _ => failsOnly_put _) fun _ => ?_
        refine FailsOnly.ite (fun _ => failsOnly_put _) fun _ => ?_
        exact FailsOnly.ite (fun _ => failsOnly_nothing) fun _ => failsOnly_put _
    | odd value =>
      have odd : unsupported.FailsOnly allowed := failsOnly_unsupported shape Bool.false_ne_true
      refine FailsOnly.ite (fun isOn => ?_) fun _ => ?_
      · exact FailsOnly.ite (fun _ => failsOnly_refuse (inlineHtml isOn)) fun _ => odd
      · exact FailsOnly.ite (fun _ => odd) fun _ => failsOnly_nothing

section Contents

variable {owner : Node} {block : Option Node} {inner chained code : Spot → Emission}
  {lines : Int → Emission} (only : ∀ spot, (inner spot).FailsOnly allowed)

include only in
private theorem code_failsOnly {head : CodeHead}
    (shape : Shaped allowed (head.val.isProper = true)) :
    (Emit.code spot owner head inner).FailsOnly allowed := by
  unfold Emit.code
  split
  · rename_i noVal
    refine failsOnly_unsupported shape fun formed => ?_
    rw [noVal] at formed
    cases formed
  · refine FailsOnly.ite (fun _ => failsOnly_append _) fun _ => ?_
    refine (failsOnly_head _ _ _).bind fun _ _ => FailsOnly.ite (fun _ => ?_) fun _ => ?_
    · exact (failsOnly_put _).bind fun _ _ => only _
    · exact (failsOnly_append _).bind fun _ _ => only _

include only in
private theorem ownContent_failsOnly {block : Node} (shape : Shaped allowed block.HasNodes) :
    (ownContent style spot owner block inner).FailsOnly allowed := by
  unfold ownContent
  split
  · rename_i missing
    refine failsOnly_unsupported shape ?_
    rintro ⟨nodes, children, _⟩
    rw [missing] at children
    cases children
  · exact failsOnly_nothing
  · rename_i nodes _ children
    split
    · rename_i undecided
      refine failsOnly_unsupported shape ?_
      rintro ⟨others, same, formed⟩
      rw [children] at same
      cases same
      obtain ⟨decision, decided⟩ := Layout.exists_startsOnSameLine (Node.wellFormedNodes_iff.mp formed)
        style.colon owner true
      rw [undecided] at decided
      cases decided
    · exact FailsOnly.ite (fun _ => (failsOnly_append _).bind fun _ _ => only _) fun _ => only _

include only in
private theorem tag_failsOnly {head : TagHead} (headOnly : (tagHead style head).FailsOnly allowed)
    (shape : Shaped allowed (∀ n, block = some n → n.HasNodes))
    (codeOnly : ∀ spot, (code spot).FailsOnly allowed)
    (missing : block = none → allowed (.tree (.missingNode owner.subject (some ("block" : Text))))) :
    (tag style spot owner head block code inner).FailsOnly allowed := by
  unfold tag
  split
  · exact failsOnly_refuse (missing rfl)
  · refine headOnly.bind fun text _ => failsOnly_bracketed ?_
    refine (failsOnly_head _ _ _).bind fun _ _ => (codeOnly _).bind fun _ _ => ?_
    exact ownContent_failsOnly only (shape.imp_left fun formed => formed _ rfl)

include only in
private theorem mixin_failsOnly {m : MixinHead} (headOnly : (callHead style m).FailsOnly allowed)
    (shape : Shaped allowed (∀ n, block = some n → n.HasNodes)) :
    (mixin style spot owner m block inner).FailsOnly allowed := by
  refine FailsOnly.ite (fun _ => ?_) fun _ => (failsOnly_newLine _ _).bind fun _ _ => only _
  refine headOnly.bind fun text _ => failsOnly_bracketed ?_
  refine (failsOnly_head _ _ _).bind fun _ _ => ?_
  split
  · exact failsOnly_nothing
  · exact ownContent_failsOnly only (shape.imp_left fun formed => formed _ rfl)

include only in
private theorem when_failsOnly {expr : Loose Text}
    (shape : Shaped allowed (∀ n, block = some n → n.HasNodes)) :
    (when spot owner expr block inner).FailsOnly allowed := by
  refine (failsOnly_newLine _ _).bind fun _ _ => ?_
  split
  · exact failsOnly_nothing
  · split
    · rename_i missing
      refine failsOnly_unsupported shape fun formed => ?_
      obtain ⟨nodes, children, _⟩ := formed _ rfl
      rw [missing] at children
      cases children
    · exact failsOnly_newLine _ _
    · exact only _

private theorem rawBlock_failsOnly {depth : Int}
    (linesOnly : ∀ depth, (lines depth).FailsOnly allowed) :
    (rawBlock depth lines).FailsOnly allowed :=
  (failsOnly_newLine _ _).bind fun _ _ => linesOnly _

private theorem blockComment_failsOnly {val : Loose Text} {buffer : Loose Bool}
    (shape : Shaped allowed (val.isProper = true))
    (linesOnly : ∀ depth, (lines depth).FailsOnly allowed)
    (missing : block = none → allowed (.tree (.missingNode owner.subject (some ("block" : Text))))) :
    (blockComment spot owner val buffer block lines).FailsOnly allowed := by
  unfold blockComment
  split
  · exact failsOnly_refuse (missing rfl)
  · have headOnly :
        (.ofExcept (blockCommentHead buffer val) : Run Piece Text).FailsOnly allowed := by
      cases val with
      | of text => exact failsOnly_of_ok rfl
      | odd value =>
        simp only [blockCommentHead]
        split
        · exact failsOnly_fail (shape.resolve_left Bool.false_ne_true)
        · exact failsOnly_of_ok rfl
    exact headOnly.bind fun _ _ => (failsOnly_newLine _ _).bind fun _ _ =>
      rawBlock_failsOnly linesOnly

include only in
private theorem filter_failsOnly {name : Loose Text} {attrs : Attributes}
    (headOnly : (filterHead style attrs name).FailsOnly allowed)
    (shape : Shaped allowed (∀ n, block = some n → n.HasNodes))
    (can : (∀ c ∈ block.toList, c.isWhole = true) →
      ∀ fault ∈ Node.filterFaults owner block, allowed fault)
    (chainedOnly : ∀ spot, (chained spot).FailsOnly allowed)
    (linesOnly : ((∀ c ∈ block.toList, c.isWhole = true) →
      ∀ fault ∈ Node.rawFaults block, allowed fault) → ∀ depth, (lines depth).FailsOnly allowed)
    (missing : block = none → allowed (.tree (.missingNode owner.subject (some ("block" : Text))))) :
    (filter style spot owner name attrs block chained inner lines).FailsOnly allowed := by
  unfold filter
  split
  · exact failsOnly_refuse (missing rfl)
  · next block =>
    refine headOnly.bind fun text _ => failsOnly_bracketed ?_
    refine (failsOnly_head _ _ _).bind fun _ _ => ?_
    split
    · rename_i noNodes
      refine failsOnly_unsupported shape fun formed => ?_
      obtain ⟨nodes, children, _⟩ := formed _ rfl
      rw [noNodes] at children
      cases children
    · exact failsOnly_nothing
    · next first rest children =>
      simp only [Node.filterFaults, Node.blockNodes, Option.bind_some, children, Option.getD_some] at can
      refine FailsOnly.ite (fun isFilter => ?_) fun isOther => ?_
      · rw [if_pos isFilter] at can
        have whole := Node.isWhole_of_filter_mem children List.mem_cons_self isFilter
        refine FailsOnly.ite (fun _ => chainedOnly _) fun more =>
          failsOnly_refuse (can (List.forall_mem_singleton.mpr whole) _ ?_)
        rw [if_neg more]
        exact List.mem_singleton_self _
      · rw [if_neg isOther] at can
        refine FailsOnly.ite (fun _ => ?_) fun _ => rawBlock_failsOnly (linesOnly can)
        exact FailsOnly.ite (fun _ => (failsOnly_append _).bind fun _ _ => only _) fun _ => only _

private theorem content_failsOnly {run : Int → Bool → Bool → Emission} {yields : Loose Bool}
    {nodes : List Node} (shape : Shaped allowed (Node.wellFormedNodes nodes = true))
    (linesOnly : (∀ n ∈ nodes, n.isRaw = true) → ∀ depth, (lines depth).FailsOnly allowed)
    (runOnly : ∀ depth nested inline, (run depth nested inline).FailsOnly allowed) :
    (content style spot yields nodes lines run).FailsOnly allowed := by
  refine FailsOnly.ite (fun _ => failsOnly_newLine _ _) fun _ => ?_
  split
  · rename_i undecided
    refine failsOnly_unsupported shape fun formed => ?_
    obtain ⟨dot, decided⟩ := Layout.exists_usesDot (Node.wellFormedNodes_iff.mp formed) spot.parent
    rw [undecided] at decided
    cases decided
  · rename_i decided
    have raw (depth : Int) : (rawBlock depth lines).FailsOnly allowed :=
      rawBlock_failsOnly (linesOnly fun n member =>
        Node.isRaw_of_isDotChild (Layout.isDotChild_of_usesDot decided n member))
    split
    · exact (failsOnly_append _).bind fun _ _ => raw _
    · exact (failsOnly_append _).bind fun _ _ => raw _
    · exact (failsOnly_newLine _ _).bind fun _ _ => raw _
  · exact FailsOnly.ite (fun _ => (failsOnly_append _).bind fun _ _ => runOnly _ _ _)
      fun _ => runOnly _ _ _

end Contents

private theorem oddContent_failsOnly {depth : Int} {yields : Loose Bool} {value : Json}
    (shape : Shaped allowed False) : (oddContent depth yields value).FailsOnly allowed := by
  refine FailsOnly.ite (fun _ => failsOnly_newLine _ _) fun _ => ?_
  split
  · exact failsOnly_nothing
  · exact failsOnly_unsupported shape id

private theorem oddLines_failsOnly {loc : Location} {kind : BlockKind} {yields : Loose Bool}
    {value : Json} (own : (Node.oddBlock loc kind yields value).CausesOnly allowed) :
    (oddLines (.oddBlock loc kind yields value) value).FailsOnly allowed := by
  unfold oddLines
  split
  · exact failsOnly_nothing
  · next first => exact failsOnly_refuse (own.refusal _ rfl (.item first))
  · exact failsOnly_unsupported own.shape Bool.false_ne_true

end Emit

private theorem alternate_failsOnly {n : Node} (other : n.isKind .conditional = false)
    (only : ∀ spot, (emit style spot n).FailsOnly allowed) :
    (emitAlternate style spot (some n)).FailsOnly allowed := by
  rw [emitAlternate_of_not_conditional other]
  exact (failsOnly_newLine _ _).bind fun _ _ => only _

section Trees

open Node (wellFormedNodes wellFormedSlot subtreesOfNodes subtreesOfSlot forall_ownFaults
  forall_subtrees_block forall_subtrees_stem forall_subtrees_fork forall_subtreesOfNodes_cons
  self_mem_subtrees hasNodes_of_slot hasNodes_of_filled)

variable (allowed : Fault → Prop) (style : Style)

mutual

/-- The emission of a node is stopped only by what it causes itself, and by what the nodes below it
cause. -/
theorem emit_failsOnly_of_causes :
    ∀ n : Node, AllCauseOnly allowed n.subtrees → ∀ spot, (emit style spot n).FailsOnly allowed
  | .stray value, causes => fun spot =>
    failsOnly_refuse ((causes _ (self_mem_subtrees _)).refusal _ rfl (.stray value spot.parent))
  | .leaf _ _, causes => fun _ => Emit.leaf_failsOnly (causes _ (self_mem_subtrees _))
  | .block loc kind yields nodes, causes => by
    intro spot
    obtain ⟨own, below⟩ := forall_subtrees_block.mp causes
    have shape := own.shape
    simp only [Node.wellFormed, Bool.and_eq_true] at shape
    have ofNodes := shape.imp_left (·.2)
    have runOnly (depth : Int) (nested inline : Bool) :=
      emitRun_failsOnly_of_causes nodes ofNodes below
        { depth, nested, parent := some (.block loc kind yields nodes), inline }
    -- Only a dot block is written as raw lines here, so that no child is refused as one.
    have linesOnly (allRaw : ∀ n ∈ nodes, n.isRaw = true) (depth : Int) :=
      emitLines_failsOnly_of_causes (.block loc kind yields nodes) nodes ofNodes below
        (fun n member notRaw => absurd (allRaw n member) (Bool.eq_false_iff.mp notRaw))
        depth spot.nested false
    cases kind with
    | plain =>
      simp only [emit]
      exact Emit.content_failsOnly ofNodes linesOnly runOnly
    | named name mode =>
      simp only [emit]
      exact (failsOnly_newLine _ _).bind fun _ _ =>
        Emit.content_failsOnly ofNodes linesOnly runOnly
  | .oddBlock loc kind yields value, causes => by
    intro spot
    have shape : Shaped allowed False :=
      (causes _ (self_mem_subtrees _)).shape.imp_left Bool.false_ne_true
    cases kind with
    | plain => exact Emit.oddContent_failsOnly shape
    | named name mode =>
      exact (failsOnly_newLine _ _).bind fun _ _ => Emit.oddContent_failsOnly shape
  | .stem loc (.mixin m) block, causes => by
    intro spot
    obtain ⟨own, below⟩ := forall_subtrees_stem.mp causes
    have shape := own.shape
    simp only [Node.wellFormed, Bool.and_eq_true] at shape
    simp only [emit]
    exact Emit.mixin_failsOnly (emitOptional_failsOnly_of_causes block below)
      (Emit.callHead_failsOnly (shape.imp_left (·.1.1)) own.long)
      (shape.imp_left fun formed => hasNodes_of_slot formed.2 formed.1.2)
  | .stem loc (.code head) block, causes => by
    intro spot
    obtain ⟨own, below⟩ := forall_subtrees_stem.mp causes
    have shape := own.shape
    simp only [Node.wellFormed, Stem.wellFormed, CodeHead.wellFormed, Bool.and_eq_true] at shape
    simp only [emit]
    exact Emit.code_failsOnly (emitOptional_failsOnly_of_causes block below)
      (shape.imp_left (·.1.1.1.1))
  | .stem loc (.blockComment val buffer) block, causes => by
    intro spot
    obtain ⟨own, below⟩ := forall_subtrees_stem.mp causes
    have shape := own.shape
    simp only [Node.wellFormed, Stem.wellFormed, Bool.and_eq_true] at shape
    have linesOnly (depth : Int) := emitBlockLines_failsOnly_of_causes block
      (shape.imp_left fun formed => ⟨formed.2, formed.1.2⟩) below own.content depth spot.nested
    simp only [emit]
    refine Emit.blockComment_failsOnly (shape.imp_left (·.1.1.1)) linesOnly ?_
    rintro rfl
    exact own.missingBlock rfl
  | .stem loc (.caseOf expr) block, causes => by
    intro spot
    obtain ⟨own, below⟩ := forall_subtrees_stem.mp causes
    simp only [emit]
    refine (failsOnly_newLine _ _).bind fun _ _ => emitChild_failsOnly_of_causes block below _ ?_
    rintro rfl
    exact own.missingChild rfl
  | .stem loc (.when expr) block, causes => by
    intro spot
    obtain ⟨own, below⟩ := forall_subtrees_stem.mp causes
    have shape := own.shape
    simp only [Node.wellFormed, Bool.and_eq_true] at shape
    simp only [emit]
    exact Emit.when_failsOnly (emitOptional_failsOnly_of_causes block below)
      (shape.imp_left fun formed => hasNodes_of_slot formed.2 formed.1.2)
  | .stem loc (.whileLoop test) block, causes => by
    intro spot
    obtain ⟨own, below⟩ := forall_subtrees_stem.mp causes
    simp only [emit]
    refine (failsOnly_newLine _ _).bind fun _ _ => emitChild_failsOnly_of_causes block below _ ?_
    rintro rfl
    exact own.missingChild rfl
  | .stem loc .extending file, causes => by
    intro spot
    obtain ⟨own, below⟩ := forall_subtrees_stem.mp causes
    simp only [emit]
    refine (failsOnly_newLine _ _).bind fun _ _ => emitChild_failsOnly_of_causes file below _ ?_
    rintro rfl
    exact own.missingChild rfl
  | .stem loc (.filter name attrs) block, causes => by
    intro spot
    obtain ⟨own, below⟩ := forall_subtrees_stem.mp causes
    have shape := own.shape
    simp only [Node.wellFormed, Stem.wellFormed, Bool.and_eq_true] at shape
    have filled := shape.imp_left fun formed => And.intro formed.2 formed.1.2
    have linesOnly (can : (∀ c ∈ block.toList, c.isWhole = true) →
        ∀ fault ∈ Node.rawFaults block, allowed fault) (depth : Int) :=
      emitBlockLines_failsOnly_of_causes block filled below can depth spot.nested
    simp only [emit]
    refine Emit.filter_failsOnly (emitOptional_failsOnly_of_causes block below)
      (Emit.filterHead_failsOnly (shape.imp_left (·.1.1)) own.long)
      (filled.imp_left fun formed => hasNodes_of_filled formed.1 formed.2) own.content
      (emitChildren_failsOnly_of_causes block filled below) linesOnly ?_
    rintro rfl
    exact own.missingBlock rfl
  | .fork loc (.tag head) block code, causes => by
    intro spot
    obtain ⟨own, ofBlock, ofCode⟩ := forall_subtrees_fork.mp causes
    have shape := own.shape
    simp only [Node.wellFormed, Bool.and_eq_true] at shape
    simp only [emit]
    refine Emit.tag_failsOnly (emitOptional_failsOnly_of_causes block ofBlock)
      (Emit.tagHead_failsOnly (shape.imp_left (·.1.1.1.1)) own.long)
      (shape.imp_left fun formed => hasNodes_of_filled formed.1.2 formed.1.1.1.2)
      (emitTagCode_failsOnly_of_causes code
        (shape.imp_left fun formed => ⟨formed.2, formed.1.1.2⟩) ofCode) ?_
    rintro rfl
    exact own.missingBlock rfl
  | .fork loc (.conditional test) yes no, causes => by
    intro spot
    obtain ⟨own, ofYes, ofNo⟩ := forall_subtrees_fork.mp causes
    simp only [emit]
    refine (failsOnly_newLine _ _).bind fun _ _ => ?_
    refine (emitChild_failsOnly_of_causes yes ofYes _ ?_).bind fun _ _ =>
      emitAlternate_failsOnly_of_causes no ofNo _
    rintro rfl
    exact own.missingChild rfl
  | .fork loc (.each val obj key) block alternative, causes => by
    intro spot
    obtain ⟨own, ofBlock, ofOther⟩ := forall_subtrees_fork.mp causes
    have instead := emitOptional_failsOnly_of_causes alternative ofOther
    simp only [emit]
    refine (failsOnly_newLine _ _).bind fun _ _ => ?_
    refine (emitChild_failsOnly_of_causes block ofBlock _ ?_).bind fun _ _ => ?_
    · rintro rfl
      exact own.missingChild rfl
    · exact FailsOnly.ite (fun _ => (failsOnly_newLine _ _).bind fun _ _ => instead _)
        fun _ => instead _
  | .fork loc (.inclusion filter attrs) file block, causes => by
    intro spot
    obtain ⟨own, ofFile, ofBlock⟩ := forall_subtrees_fork.mp causes
    have shape := own.shape
    simp only [Node.wellFormed, Fork.wellFormed, Bool.and_eq_true] at shape
    simp only [emit]
    refine (failsOnly_newLine _ _).bind fun _ _ => ?_
    refine (Emit.inclusionFilter_failsOnly (shape.imp_left (·.1.1.1.1)) own.long).bind fun _ _ => ?_
    refine (failsOnly_append _).bind fun _ _ => ?_
    refine (emitChild_failsOnly_of_causes file ofFile _ ?_).bind fun _ _ =>
      emitOptional_failsOnly_of_causes block ofBlock _
    rintro rfl
    exact own.missingChild rfl
termination_by structural n => n

private theorem emitChild_failsOnly_of_causes :
    ∀ child : Option Node, AllCauseOnly allowed (subtreesOfSlot child) →
      ∀ spot, (child = none → allowed (.tree
        (.missingNode ((spot.parent.map Node.subject).getD {}) none))) →
      (emitChild style spot child).FailsOnly allowed
  | none, _ => fun _ missing => failsOnly_refuse (missing rfl)
  | some n, causes => fun spot _ => emit_failsOnly_of_causes n causes spot
termination_by structural child => child

private theorem emitOptional_failsOnly_of_causes :
    ∀ child : Option Node, AllCauseOnly allowed (subtreesOfSlot child) →
      ∀ spot, (emitOptional style spot child).FailsOnly allowed
  | none, _ => fun _ => failsOnly_nothing
  | some n, causes => emit_failsOnly_of_causes n causes
termination_by structural child => child

private theorem emitChildren_failsOnly_of_causes :
    ∀ child : Option Node,
      Shaped allowed (wellFormedSlot child = true ∧ child.any Node.isSequence = true) →
      AllCauseOnly allowed (subtreesOfSlot child) →
      ∀ spot, (emitChildren style spot child).FailsOnly allowed
  | some (.block loc kind yields nodes), shape, causes => by
    simp only [wellFormedSlot, Node.wellFormed, Bool.and_eq_true] at shape
    exact emitRun_failsOnly_of_causes nodes (shape.imp_left (·.1.2))
      (forall_subtrees_block.mp causes).2
  | none, shape, _ => fun _ => failsOnly_unsupported shape fun formed => Bool.false_ne_true formed.2
  | some (.leaf _ head), shape, _ => fun _ =>
    failsOnly_unsupported shape fun formed => by cases head <;> cases formed.2
  | some (.stem _ head _), shape, _ => fun _ =>
    failsOnly_unsupported shape fun formed => by cases head <;> cases formed.2
  | some (.fork _ head _ _), shape, _ => fun _ =>
    failsOnly_unsupported shape fun formed => by cases head <;> cases formed.2
  | some (.oddBlock _ _ _ _), shape, _ => fun _ =>
    failsOnly_unsupported shape fun formed => Bool.false_ne_true formed.1
  | some (.stray _), shape, _ => fun _ =>
    failsOnly_unsupported shape fun formed => Bool.false_ne_true formed.1
termination_by structural child => child

private theorem emitBlockLines_failsOnly_of_causes :
    ∀ child : Option Node,
      Shaped allowed (wellFormedSlot child = true ∧ child.any Node.isSequence = true) →
      AllCauseOnly allowed (subtreesOfSlot child) →
      ((∀ c ∈ child.toList, c.isWhole = true) → ∀ fault ∈ Node.rawFaults child, allowed fault) →
      ∀ depth nested, (emitBlockLines style depth nested child).FailsOnly allowed
  | some (.block loc kind yields nodes), shape, causes, can => by
    intro depth nested
    simp only [wellFormedSlot, Node.wellFormed, Bool.and_eq_true] at shape
    exact emitLines_failsOnly_of_causes (.block loc kind yields nodes) nodes
      (shape.imp_left (·.1.2)) (forall_subtrees_block.mp causes).2
      ((Node.forall_rawFaults rfl).mp (can (List.forall_mem_singleton.mpr rfl))) depth nested true
  | some (.oddBlock _ _ _ _), _, causes, _ => fun _ _ =>
    Emit.oddLines_failsOnly (causes _ (self_mem_subtrees _))
  | none, shape, _, _ => fun _ _ => failsOnly_unsupported shape fun formed => Bool.false_ne_true formed.2
  | some (.leaf _ head), shape, _, _ => fun _ _ =>
    failsOnly_unsupported shape fun formed => by cases head <;> cases formed.2
  | some (.stem _ head _), shape, _, _ => fun _ _ =>
    failsOnly_unsupported shape fun formed => by cases head <;> cases formed.2
  | some (.fork _ head _ _), shape, _, _ => fun _ _ =>
    failsOnly_unsupported shape fun formed => by cases head <;> cases formed.2
  | some (.stray _), shape, _, _ => fun _ _ =>
    failsOnly_unsupported shape fun formed => Bool.false_ne_true formed.1
termination_by structural child => child

private theorem emitTagCode_failsOnly_of_causes :
    ∀ code : Option Node,
      Shaped allowed (wellFormedSlot code = true ∧ code.all (Node.isKind .code) = true) →
      AllCauseOnly allowed (subtreesOfSlot code) →
      ∀ spot, (emitTagCode style spot code).FailsOnly allowed
  | none, _, _ => fun _ => failsOnly_nothing
  | some (.stem loc (.code head) body), shape, causes => by
    intro spot
    simp only [wellFormedSlot, Node.wellFormed, Stem.wellFormed, CodeHead.wellFormed,
      Bool.and_eq_true] at shape
    exact Emit.code_failsOnly
      (emitOptional_failsOnly_of_causes body (forall_subtrees_stem.mp causes).2)
      (shape.imp_left (·.1.1.1.1.1))
  | some (.stem _ (.blockComment _ _) body), shape, causes => fun _ => by
    have odd : Shaped allowed False := shape.imp_left fun formed => Bool.false_ne_true formed.2
    exact FailsOnly.ite (fun _ => failsOnly_unsupported odd id) fun _ =>
      Emit.code_failsOnly
        (emitOptional_failsOnly_of_causes body (forall_subtrees_stem.mp causes).2)
        (odd.imp_left False.elim)
  | some (.leaf _ head), shape, _ => fun _ =>
    failsOnly_unsupported shape fun formed => by cases head <;> cases formed.2
  | some (.block _ kind _ _), shape, _ => fun _ =>
    failsOnly_unsupported shape fun formed => by cases kind <;> cases formed.2
  | some (.oddBlock _ _ _ _), shape, _ => fun _ =>
    failsOnly_unsupported shape fun formed => Bool.false_ne_true formed.1
  | some (.fork _ head _ _), shape, _ => fun _ =>
    failsOnly_unsupported shape fun formed => by cases head <;> cases formed.2
  | some (.stray _), shape, _ => fun _ =>
    failsOnly_unsupported shape fun formed => Bool.false_ne_true formed.1
  | some (.stem _ (.mixin _) _), shape, _ | some (.stem _ (.caseOf _) _), shape, _
  | some (.stem _ (.when _) _), shape, _ | some (.stem _ (.whileLoop _) _), shape, _
  | some (.stem _ .extending _), shape, _ | some (.stem _ (.filter _ _) _), shape, _ => fun _ =>
    failsOnly_unsupported shape fun formed => Bool.false_ne_true formed.2
termination_by structural code => code

private theorem emitAlternate_failsOnly_of_causes :
    ∀ child : Option Node, AllCauseOnly allowed (subtreesOfSlot child) →
      ∀ spot, (emitAlternate style spot child).FailsOnly allowed
  | none, _ => fun _ => failsOnly_nothing
  | some (.fork loc (.conditional test) yes no), causes => by
    intro spot
    obtain ⟨own, ofYes, ofNo⟩ := forall_subtrees_fork.mp causes
    simp only [emitAlternate]
    refine (failsOnly_newLine _ _).bind fun _ _ => (failsOnly_append _).bind fun _ _ => ?_
    refine (emitChild_failsOnly_of_causes yes ofYes _ ?_).bind fun _ _ =>
      emitAlternate_failsOnly_of_causes no ofNo _
    rintro rfl
    exact own.missingChild rfl
  | some (.fork loc (.tag head) block code), causes => fun _ =>
    alternate_failsOnly rfl (emit_failsOnly_of_causes (.fork loc (.tag head) block code) causes)
  | some (.fork loc (.each val obj key) block other), causes => fun _ =>
    alternate_failsOnly rfl
      (emit_failsOnly_of_causes (.fork loc (.each val obj key) block other) causes)
  | some (.fork loc (.inclusion filter attrs) file block), causes => fun _ =>
    alternate_failsOnly rfl
      (emit_failsOnly_of_causes (.fork loc (.inclusion filter attrs) file block) causes)
  | some (.stem loc head child), causes => fun _ =>
    alternate_failsOnly (by cases head <;> rfl) (emit_failsOnly_of_causes (.stem loc head child) causes)
  | some (.leaf loc head), causes => fun _ =>
    alternate_failsOnly (by cases head <;> rfl) (emit_failsOnly_of_causes (.leaf loc head) causes)
  | some (.block loc kind yields nodes), causes => fun _ =>
    alternate_failsOnly (by cases kind <;> rfl)
      (emit_failsOnly_of_causes (.block loc kind yields nodes) causes)
  | some (.oddBlock loc kind yields value), causes => fun _ =>
    alternate_failsOnly (by cases kind <;> rfl)
      (emit_failsOnly_of_causes (.oddBlock loc kind yields value) causes)
  | some (.stray value), causes => fun _ =>
    alternate_failsOnly rfl (emit_failsOnly_of_causes (.stray value) causes)
termination_by structural child => child

private theorem emitRun_failsOnly_of_causes :
    ∀ nodes : List Node, Shaped allowed (wellFormedNodes nodes = true) →
      AllCauseOnly allowed (subtreesOfNodes nodes) →
      ∀ spot, (emitRun style spot nodes).FailsOnly allowed
  | [], _, _ => fun _ => failsOnly_nothing
  | n :: rest, shape, causes => by
    intro spot
    simp only [wellFormedNodes, Bool.and_eq_true] at shape
    obtain ⟨ofNode, ofRest⟩ := forall_subtreesOfNodes_cons.mp causes
    have later := emitRun_failsOnly_of_causes rest (shape.imp_left (·.2)) ofRest
      { spot with inline := Emit.continuesLine n rest }
    simp only [emitRun]
    refine FailsOnly.ite (fun _ => (emit_failsOnly_of_causes n ofNode spot).bind fun _ _ => later)
      fun stray => FailsOnly.bind ?_ fun _ _ => later
    exact failsOnly_unsupported shape fun formed => stray (Node.isNode_of_wellFormed formed.1)
termination_by structural nodes => nodes

private theorem emitLines_failsOnly_of_causes (block : Node) :
    ∀ nodes : List Node, Shaped allowed (wellFormedNodes nodes = true) →
      AllCauseOnly allowed (subtreesOfNodes nodes) →
      (∀ n ∈ nodes, n.isRaw = false →
        allowed (.tree (.unexpectedRawChild n.subject (some block.subject)))) →
      ∀ depth nested verbatim, (emitLines style depth nested block verbatim nodes).FailsOnly allowed
  | [], _, _, _ => fun _ _ _ => failsOnly_nothing
  | n :: rest, shape, causes, can => by
    intro depth nested verbatim
    simp only [wellFormedNodes, Bool.and_eq_true] at shape
    obtain ⟨ofNode, ofRest⟩ := forall_subtreesOfNodes_cons.mp causes
    obtain ⟨canNode, canRest⟩ := List.forall_mem_cons.mp can
    have node := emit_failsOnly_of_causes n ofNode
    have others := emitLines_failsOnly_of_causes block rest (shape.imp_left (·.2)) ofRest canRest depth
      nested verbatim
    unfold emitLines
    split
    · exact (failsOnly_put _).bind fun _ _ => others
    · have odd := failsOnly_unsupported shape fun formed => Bool.false_ne_true formed.1
      exact odd.bind fun _ _ => others
    · exact (node _).bind fun _ _ => others
    · exact (node _).bind fun _ _ => others
    · rename_i noText noOddText noCode noTag
      refine (failsOnly_refuse (canNode (Bool.eq_false_iff.mpr fun raw => ?_))).bind fun _ _ => others
      rcases Node.eq_of_isRaw raw with ⟨loc, val, isHtml, rfl⟩ | ⟨loc, head, child, rfl⟩ |
        ⟨loc, head, first, second, rfl⟩
      · cases val with
        | of val => exact noText loc val isHtml rfl
        | odd value => exact noOddText loc value isHtml rfl
      · exact noCode loc head child rfl
      · exact noTag loc head first second rfl
termination_by structural nodes => nodes

end

theorem emit_failsOnly (n : Node) (formed : n.wellFormed = true) (admits : Admits allowed n.subtrees)
    (spot : Spot) : (emit style spot n).FailsOnly allowed := by
  refine emit_failsOnly_of_causes allowed style n (fun m member => ?_) spot
  have mFormed := Node.wellFormed_of_mem_subtrees formed m member
  obtain ⟨long, content⟩ := forall_ownFaults.mp (admits m member)
  refine ⟨.inl mFormed, fun _ broken _ => ?_, long, fun _ => content⟩
  rw [mFormed] at broken
  cases broken

end Trees

end PugPrinter
