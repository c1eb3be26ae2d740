import PugPrinter.Proofs.Emit.Depth
import PugPrinter.Proofs.Visited

/-!
Where the options of a style are looked at. The quote shows in the attributes of a node alone, and the
colon in the block of a node whose only child may follow one. So two styles make the same pieces of a node
as soon as they agree about every node that is visited.
-/

set_option autoImplicit false

namespace PugPrinter

open Emission

namespace Node

/-- The attributes that are written in the head of a node: those of a mixin only in a call, and those of
an inclusion only after a filter. -/
def headAttributes? : Node → Option Attributes
  | .fork _ (.tag head) _ _ => some head.attrs
  | .stem _ (.mixin m) _ => if m.call.isOn then some m.attrs else none
  | .stem _ (.filter _ attrs) _ => some attrs
  | .fork _ (.inclusion filter attrs) _ _ => if filter.isGiven then some attrs else none
  | _ => none

/-- Whether a node owns a block whose only child could stand after a colon. -/
def offersColon (n : Node) : Bool :=
  Layout.takesColon n &&
    match (Layout.blockOf? n).bind nodes? with
    | some [child] => Layout.followsColon child
    | _ => false

/-- Styles that write the attributes of a node alike, and do not differ about colons where its block could
stand after one. -/
structure WrittenAlike (s s' : Style) (n : Node) : Prop where
  attributes : ∀ attrs, n.headAttributes? = some attrs →
    Emit.attributes s attrs = Emit.attributes s' attrs
  colon : n.offersColon = true → s.colon = s'.colon

end Node

open Node (visited visitedRun visitedLines visitedSlot visitedChildren visitedBlockLines visitedTagCode
  visitedContent visitedOwn visitedBody nodes? offersColon)

def Agree (s s' : Style) (nodes : List Node) : Prop :=
  ∀ n ∈ nodes, n.WrittenAlike s s'

variable {s s' : Style} {spot : Spot} {owner : Node}

namespace Agree

variable {n : Node} {nodes more : List Node}

private theorem cons_iff : Agree s s' (n :: nodes) ↔ n.WrittenAlike s s' ∧ Agree s s' nodes :=
  List.forall_mem_cons

private theorem append_iff : Agree s s' (nodes ++ more) ↔ Agree s s' nodes ∧ Agree s s' more :=
  List.forall_mem_append

end Agree

namespace Layout

private theorem takesColon_block (loc : Location) (kind : BlockKind) (yields : Loose Bool)
    (nodes : List Node) : takesColon (.block loc kind yields nodes) = false := by
  cases kind <;> rfl

private theorem usesColon_own (enabled : Bool) {nodes : List Node}
    (own : (blockOf? owner).bind nodes? = some nodes) :
    usesColon enabled (.node owner true) nodes = (enabled && owner.offersColon) := by
  rw [offersColon, own]
  rcases nodes with _ | ⟨child, _ | ⟨next, rest⟩⟩
  · simp [usesColon]
  · exact Bool.and_assoc _ _ _
  · simp [usesColon]

private theorem usesColon_alike (alike : owner.WrittenAlike s s') {nodes : List Node}
    (own : (blockOf? owner).bind nodes? = some nodes) :
    usesColon s.colon (.node owner true) nodes = usesColon s'.colon (.node owner true) nodes := by
  rw [usesColon_own _ own, usesColon_own _ own]
  cases offers : owner.offersColon with
  | true => rw [alike.colon offers]
  | false => rw [Bool.and_false, Bool.and_false]

private theorem startsOnSameLine?_alike (alike : owner.WrittenAlike s s') {nodes : List Node}
    (own : (blockOf? owner).bind nodes? = some nodes) :
    startsOnSameLine? s.colon owner true nodes = startsOnSameLine? s'.colon owner true nodes := by
  cases nodes with
  | nil => rfl
  | cons first rest => simp only [startsOnSameLine?, usesColon_alike alike own]

end Layout

/-- At a spot below a node that may have a colon after it, a node is the block of that one, and the styles
do not differ about the colon. -/
def Spot.Settled (s s' : Style) (spot : Spot) (n : Node) : Prop :=
  ∀ parent, spot.parent = some parent → Layout.takesColon parent = true →
    ∃ nodes, n.nodes? = some nodes ∧ Layout.usesColon s.colon (.node parent true) nodes =
      Layout.usesColon s'.colon (.node parent true) nodes

namespace Spot

theorem settled_of_no_parent {n : Node} (noParent : spot.parent = none) : spot.Settled s s' n := by
  intro parent isParent
  rw [noParent] at isParent
  cases isParent

private theorem settled_of_not_takesColon {n parent : Node} (isParent : spot.parent = some parent)
    (noColon : Layout.takesColon parent = false) : spot.Settled s s' n := by
  intro other isOther takes
  rw [isParent] at isOther
  cases isOther
  rw [noColon] at takes
  cases takes

private theorem settled_own {block : Node} {nodes : List Node} (alike : owner.WrittenAlike s s')
    (isOwn : Layout.blockOf? owner = some block) (children : block.nodes? = some nodes)
    (isParent : spot.parent = some owner) : spot.Settled s s' block := by
  intro parent isOther _
  rw [isParent] at isOther
  cases isOther
  exact ⟨nodes, children, Layout.usesColon_alike alike (by rw [isOwn]; exact children)⟩

private theorem Settled.usesColon {n : Node} {nodes : List Node} (settled : spot.Settled s s' n)
    (children : n.nodes? = some nodes) : Layout.usesColon s.colon (.ofParent spot.parent) nodes =
      Layout.usesColon s'.colon (.ofParent spot.parent) nodes := by
  cases isParent : spot.parent with
  | none => rfl
  | some parent =>
    cases takes : Layout.takesColon parent with
    | true =>
      obtain ⟨others, areChildren, same⟩ := settled parent isParent takes
      rw [children] at areChildren
      cases areChildren
      exact same
    | false =>
      rcases nodes with _ | ⟨child, _ | ⟨next, rest⟩⟩ <;>
        simp [Layout.usesColon, Layout.Owner.ofParent, takes]

private theorem Settled.of_no_nodes {n : Node} (settled : spot.Settled s s' n)
    (none : n.nodes? = none) {other : Spot} (sameParent : other.parent = spot.parent) (m : Node) :
    other.Settled s s' m := by
  intro parent isParent takes
  rw [sameParent] at isParent
  obtain ⟨nodes, children, _⟩ := settled parent isParent takes
  rw [none] at children
  cases children

private theorem Settled.inSlot {n : Node} (settled : spot.Settled s s' n) :
    ∀ m, some n = some m → spot.Settled s s' m := by
  rintro _ ⟨⟩
  exact settled

end Spot

/-- Emissions of the child in a slot that are the same wherever the styles agree about what is visited in
it. -/
private def SameInSlot (s s' : Style) (slot : Option Node) (content content' : Spot → Emission) : Prop :=
  ∀ spot : Spot, (∀ n, slot = some n → spot.Settled s s' n) →
    Agree s s' (visitedSlot s.colon spot.parent spot.inline slot) → content spot = content' spot

namespace Emit

private theorem tagHead_alike {head : TagHead}
    (same : attributes s head.attrs = attributes s' head.attrs) :
    tagHead s head = tagHead s' head := by
  unfold tagHead
  rw [same]

private theorem callHead_alike {m : MixinHead}
    (same : attributes s m.attrs = attributes s' m.attrs) :
    callHead s m = callHead s' m := by
  unfold callHead
  rw [same]

private theorem filterHead_alike {attrs : Attributes}
    (same : attributes s attrs = attributes s' attrs) (name : Loose Text) :
    filterHead s attrs name = filterHead s' attrs name := by
  unfold filterHead
  rw [same]

private theorem inclusionFilter_alike {attrs : Attributes} {name : Loose Text}
    (same : name.isGiven = true → attributes s attrs = attributes s' attrs) :
    inclusionFilter s attrs name = inclusionFilter s' attrs name := by
  unfold inclusionFilter
  split
  · rw [filterHead_alike (same ‹_›)]
  · rfl

private theorem code_alike (head : CodeHead) {below : List Node} {block block' : Spot → Emission}
    (agree : Agree s s'
      (if isRunning { depth := 0, parent := spot.parent, inline := spot.inline } then [] else below))
    (same : Agree s s' below → block (spot.below owner) = block' (spot.below owner)) :
    code spot owner head block = code spot owner head block' := by
  change Agree s s' (if isRunning spot then [] else below) at agree
  unfold code
  cases running : isRunning spot with
  | true => rfl
  | false =>
    rw [running] at agree
    rw [same agree]

private theorem ownContent_alike {block : Node} {content content' : Spot → Emission}
    (alike : owner.WrittenAlike s s') (isOwn : Layout.blockOf? owner = some block)
    (agree : Agree s s' (visitedOwn s.colon owner (some block) fun inline =>
      visitedSlot s.colon (some owner) inline (some block)))
    (same : SameInSlot s s' (some block) content content') :
    ownContent s spot owner block content = ownContent s' spot owner block content' := by
  unfold ownContent
  rw [visitedOwn, Option.bind_some] at agree
  cases children : block.nodes? with
  | none => rfl
  | some nodes =>
    cases nodes with
    | nil => rfl
    | cons first rest =>
      have own : (Layout.blockOf? owner).bind nodes? = some (first :: rest) := by
        rw [isOwn]
        exact children
      simp only [children] at agree
      simp only [← Layout.startsOnSameLine?_alike alike own]
      cases decided : Layout.startsOnSameLine? s.colon owner true (first :: rest) with
      | none => rfl
      | some onLine =>
        simp only [decided] at agree
        have settled := Spot.settled_own alike isOwn children
          (show Spot.parent { spot with nested := false, parent := some owner, inline := onLine } =
            some owner from rfl)
        dsimp only
        rw [same _ settled.inSlot agree]

private theorem content_alike {yields : Loose Bool} {nodes : List Node}
    {lines lines' : Int → Emission} {run run' : Int → Bool → Bool → Emission}
    {ofLines : List Node} {ofRun : Bool → List Node}
    (colon : Layout.usesColon s.colon (.ofParent spot.parent) nodes =
      Layout.usesColon s'.colon (.ofParent spot.parent) nodes)
    (agree : Agree s s'
      (visitedContent s.colon spot.parent spot.inline yields nodes ofLines ofRun))
    (sameLines : Agree s s' ofLines → ∀ depth, lines depth = lines' depth)
    (sameRun : ∀ depth nested inline, Agree s s' (ofRun inline) →
      run depth nested inline = run' depth nested inline) :
    content s spot yields nodes lines run = content s' spot yields nodes lines' run' := by
  unfold content
  rw [visitedContent] at agree
  cases on : yields.isOn with
  | true => rfl
  | false =>
    rw [on] at agree
    simp only [Bool.false_eq_true, if_false] at agree ⊢
    cases dot : Layout.usesDot? spot.parent nodes with
    | none => rfl
    | some dotted =>
      rw [dot] at agree
      cases dotted with
      | true =>
        have lineByLine : lines = lines' := funext (sameLines agree)
        rw [lineByLine]
      | false =>
        simp only at agree
        rw [← colon]
        cases after : Layout.usesColon s.colon (.ofParent spot.parent) nodes with
        | true =>
          rw [after] at agree
          simp only [if_true]
          rw [sameRun spot.depth true true agree]
        | false =>
          rw [after] at agree
          exact sameRun (spot.depth + 1) spot.nested spot.inline agree

private theorem tag_alike {loc : Location} {head : TagHead} {block tagCode : Option Node}
    (isTag : owner = .fork loc (.tag head) block tagCode) (alike : owner.WrittenAlike s s')
    {code code' content content' : Spot → Emission}
    (agree : Agree s s' (visitedOwn s.colon owner block fun inline =>
      visitedSlot s.colon (some owner) inline block))
    (sameCode : ∀ inner : Spot, inner.parent = none → code inner = code' inner)
    (same : SameInSlot s s' block content content') :
    tag s spot owner head block code content = tag s' spot owner head block code' content' := by
  subst isTag
  cases block with
  | none => rfl
  | some block =>
    unfold tag
    dsimp only
    rw [tagHead_alike (alike.attributes _ rfl), sameCode _ rfl, ownContent_alike alike rfl agree same]

private theorem mixin_alike {loc : Location} {m : MixinHead} {block : Option Node}
    (isMixin : owner = .stem loc (.mixin m) block) (alike : owner.WrittenAlike s s')
    {content content' : Spot → Emission}
    (agree : Agree s s' (if m.call.isOn then visitedOwn s.colon owner block fun inline =>
        visitedSlot s.colon (some owner) inline block
      else visitedSlot s.colon (some owner) false block))
    (same : SameInSlot s s' block content content') :
    mixin s spot owner m block content = mixin s' spot owner m block content' := by
  subst isMixin
  unfold mixin
  cases isCall : m.call.isOn with
  | true =>
    rw [isCall] at agree
    have head := callHead_alike (alike.attributes m.attrs (if_pos isCall))
    simp only [if_true]
    rw [head]
    cases block with
    | none => rfl
    | some block =>
      dsimp only
      rw [ownContent_alike alike rfl agree same]
  | false =>
    rw [isCall] at agree
    have noCall : Layout.takesColon (.stem loc (.mixin m) block) = false := by
      cases call : m.call with
      | of flag =>
        rw [call] at isCall
        exact (congrArg (fun call : Loose Bool => call.value?.getD false) call).trans isCall
      | odd value => exact congrArg (fun call : Loose Bool => call.value?.getD false) call
    simp only [Bool.false_eq_true, if_false]
    rw [same (spot.below _) (fun _ _ => Spot.settled_of_not_takesColon rfl noCall) agree]

private theorem when_alike {loc : Location} {expr : Loose Text} {block : Option Node}
    (isArm : owner = .stem loc (.when expr) block) (alike : owner.WrittenAlike s s')
    {body body' : Spot → Emission} (agree : Agree s s' (visitedSlot s.colon (some owner) false block))
    (same : SameInSlot s s' block body body') :
    when spot owner expr block body = when spot owner expr block body' := by
  subst isArm
  cases block with
  | none => rfl
  | some block =>
    unfold when
    cases children : block.nodes? with
    | none => simp only [children]
    | some nodes =>
      cases nodes with
      | nil => simp only [children]
      | cons first rest =>
        have settled := Spot.settled_own alike rfl children
          (show (spot.below (.stem loc (.when expr) (some block))).parent = some _ from rfl)
        simp only [children]
        rw [same _ settled.inSlot agree]

private theorem rawBlock_alike {lines lines' : Int → Emission}
    (same : ∀ depth, lines depth = lines' depth) (depth : Int) :
    rawBlock depth lines = rawBlock depth lines' := by
  rw [funext same]

private theorem filter_alike {loc : Location} {name : Loose Text} {attrs : Attributes}
    {block : Option Node} (isFilter : owner = .stem loc (.filter name attrs) block)
    (alike : owner.WrittenAlike s s')
    (settled : spot.Settled s s' owner) {chained chained' content content' : Spot → Emission}
    {lines lines' : Int → Emission}
    (agree : Agree s s' (visitedBody spot.inline block
      (visitedChildren s.colon (some owner) spot.inline block)
      (visitedSlot s.colon spot.parent spot.inline block) (visitedBlockLines s.colon block)))
    (sameChained : ∀ inner : Spot, (∀ n, inner.Settled s s' n) →
      Agree s s' (visitedChildren s.colon inner.parent inner.inline block) →
      chained inner = chained' inner)
    (same : SameInSlot s s' block content content')
    (sameLines : Agree s s' (visitedBlockLines s.colon block) → ∀ depth, lines depth = lines' depth) :
    filter s spot owner name attrs block chained content lines =
      filter s' spot owner name attrs block chained' content' lines' := by
  subst isFilter
  cases block with
  | none => rfl
  | some block =>
    unfold filter
    dsimp only
    rw [filterHead_alike (alike.attributes attrs rfl) name]
    rw [visitedBody, Option.bind_some] at agree
    cases children : block.nodes? with
    | none => rfl
    | some nodes =>
      cases nodes with
      | nil => rfl
      | cons first rest =>
        simp only [children] at agree
        cases isChain : first.isKind .filter with
        | true =>
          rw [isChain] at agree
          have next := sameChained { spot with nested := true, parent := some _ }
            (fun _ => Spot.settled_of_not_takesColon rfl rfl) agree
          simp only [isChain, if_true]
          rw [next]
        | false =>
          rw [isChain] at agree
          cases inline : spot.inline with
          | true =>
            rw [inline] at agree
            have body := same { spot with nested := false }
              (fun n _ => settled.of_no_nodes rfl rfl n) (by rw [inline]; exact agree)
            simp only [isChain, Bool.false_eq_true, if_false, if_true]
            rw [inline] at body
            rw [body]
          | false =>
            rw [inline] at agree
            simp only [isChain, Bool.false_eq_true, if_false]
            rw [rawBlock_alike (sameLines agree)]

end Emit

private theorem alternate_alike {n : Node} (other : n.isKind .conditional = false)
    (same : emit s spot n = emit s' spot n) :
    emitAlternate s spot (some n) = emitAlternate s' spot (some n) := by
  rw [emitAlternate_of_not_conditional other, emitAlternate_of_not_conditional other, same]

mutual

/-- Styles that agree about all nodes that are visited make the same pieces of a node. -/
theorem emit_alike (s s' : Style) : ∀ (n : Node) (spot : Spot), spot.Settled s s' n →
    Agree s s' (n.visited s.colon spot.parent spot.inline) → emit s spot n = emit s' spot n
  | .leaf _ _, _, _, _ | .stray _, _, _, _ => rfl
  | .oddBlock _ kind _ _, _, _, _ => by cases kind <;> rfl
  | .block loc kind yields nodes, spot, settled, agree => by
    have lines (agree : Agree s s' (visitedLines s.colon (.block loc kind yields nodes) nodes))
        (depth : Int) := emitLines_alike s s' nodes depth spot.nested (.block loc kind yields nodes)
      (Layout.takesColon_block _ _ _ _) false agree
    have run (depth : Int) (nested inline : Bool)
        (agree : Agree s s' (visitedRun s.colon (some (.block loc kind yields nodes)) inline nodes)) :=
      emitRun_alike s s' nodes { depth, nested, parent := some (.block loc kind yields nodes), inline }
        (fun _ => Spot.settled_of_not_takesColon rfl (Layout.takesColon_block _ _ _ _)) agree
    cases kind with
    | plain =>
      rw [visited, Agree.cons_iff] at agree
      rw [emit, emit]
      exact Emit.content_alike (settled.usesColon rfl) agree.2 lines run
    | named name mode =>
      rw [visited, Agree.cons_iff] at agree
      rw [emit, emit]
      exact congrArg _ (funext fun _ => @Emit.content_alike s s' spot.detached _ _ _ _ _ _ _ _ rfl
        agree.2 lines run)
  | .stem loc (.mixin m) block, spot, _, agree => by
    rw [visited, Agree.cons_iff] at agree
    rw [emit, emit]
    exact Emit.mixin_alike rfl agree.1 agree.2 (emitOptional_alike s s' block)
  | .stem loc (.code head) block, spot, _, agree => by
    rw [visited, Agree.cons_iff] at agree
    rw [emit, emit]
    exact Emit.code_alike head agree.2 fun agree => emitOptional_alike s s' block _
      (fun _ _ => Spot.settled_of_not_takesColon rfl rfl) agree
  | .stem loc (.blockComment val buffer) block, spot, _, agree => by
    rw [visited, Agree.cons_iff] at agree
    rw [emit, emit]
    have lines := emitBlockLines_alike s s' block agree.2
    simp only [lines]
  | .stem loc (.caseOf expr) block, spot, _, agree => by
    simp only [visited, Agree.cons_iff] at agree
    rw [emit, emit, emitChild_alike s s' block _ (fun _ => Spot.settled_of_not_takesColon rfl rfl) agree.2]
  | .stem loc (.when expr) block, spot, _, agree => by
    simp only [visited, Agree.cons_iff] at agree
    rw [emit, emit]
    exact Emit.when_alike rfl agree.1 agree.2 (emitOptional_alike s s' block)
  | .stem loc (.whileLoop test) block, spot, _, agree => by
    simp only [visited, Agree.cons_iff] at agree
    rw [emit, emit, emitChild_alike s s' block _ (fun _ => Spot.settled_of_not_takesColon rfl rfl) agree.2]
  | .stem loc .extending file, spot, _, agree => by
    simp only [visited, Agree.cons_iff] at agree
    rw [emit, emit, emitChild_alike s s' file _ (fun _ => Spot.settled_of_not_takesColon rfl rfl) agree.2]
  | .stem loc (.filter name attrs) block, spot, settled, agree => by
    rw [visited, Agree.cons_iff] at agree
    rw [emit, emit]
    exact Emit.filter_alike rfl agree.1 settled agree.2 (emitChildren_alike s s' block)
      (emitOptional_alike s s' block) fun agree depth =>
        emitBlockLines_alike s s' block agree depth spot.nested
  | .fork loc (.tag head) block code, spot, _, agree => by
    rw [visited, Agree.cons_iff, Agree.append_iff] at agree
    rw [emit, emit]
    exact Emit.tag_alike rfl agree.1 agree.2.2
      (fun inner noParent => emitTagCode_alike s s' code inner noParent agree.2.1)
      (emitOptional_alike s s' block)
  | .fork loc (.conditional test) yes no, spot, _, agree => by
    rw [visited, Agree.cons_iff, Agree.append_iff] at agree
    have anywhere (n : Node) : (spot.below (.fork loc (.conditional test) yes no)).Settled s s' n :=
      Spot.settled_of_not_takesColon rfl rfl
    simp only [emit, emitChild_alike s s' yes _ anywhere agree.2.1,
      emitAlternate_alike s s' no _ anywhere rfl agree.2.2]
  | .fork loc (.each val obj key) block alternative, spot, _, agree => by
    simp only [visited, Agree.cons_iff, Agree.append_iff] at agree
    have body := emitChild_alike s s' block
      (spot.below (.fork loc (.each val obj key) block alternative))
      (fun _ => Spot.settled_of_not_takesColon rfl rfl) agree.2.1
    have instead : emitOptional s spot.detached alternative = emitOptional s' spot.detached alternative :=
      emitOptional_alike s s' alternative _ (fun _ _ => Spot.settled_of_no_parent rfl) agree.2.2
    simp only [emit, body, instead]
  | .fork loc (.inclusion filter attrs) file block, spot, _, agree => by
    simp only [visited, Agree.cons_iff, Agree.append_iff] at agree
    have filterSame := Emit.inclusionFilter_alike fun given => agree.1.attributes attrs (if_pos given)
    have path := emitChild_alike s s' file
      (spot.below (.fork loc (.inclusion filter attrs) file block))
      (fun _ => Spot.settled_of_not_takesColon rfl rfl) agree.2.1
    have content : emitOptional s spot.detached block = emitOptional s' spot.detached block :=
      emitOptional_alike s s' block _ (fun _ _ => Spot.settled_of_no_parent rfl) agree.2.2
    simp only [emit, filterSame, path, content]
termination_by structural n => n

private theorem emitChild_alike (s s' : Style) : ∀ (child : Option Node) (spot : Spot),
    (∀ n, spot.Settled s s' n) → Agree s s' (visitedSlot s.colon spot.parent spot.inline child) →
    emitChild s spot child = emitChild s' spot child
  | none, _, _, _ => rfl
  | some n, spot, anywhere, agree => emit_alike s s' n spot (anywhere n) agree
termination_by structural child => child

private theorem emitOptional_alike (s s' : Style) : ∀ child : Option Node,
    SameInSlot s s' child (fun spot => emitOptional s spot child) fun spot => emitOptional s' spot child
  | none => fun _ _ _ => rfl
  | some n => fun spot settled agree => emit_alike s s' n spot (settled n rfl) agree
termination_by structural child => child

private theorem emitChildren_alike (s s' : Style) : ∀ (child : Option Node) (spot : Spot),
    (∀ n, spot.Settled s s' n) → Agree s s' (visitedChildren s.colon spot.parent spot.inline child) →
    emitChildren s spot child = emitChildren s' spot child
  | some (.block _ _ _ nodes), spot, anywhere, agree => emitRun_alike s s' nodes spot anywhere agree
  | none, _, _, _ | some (.leaf _ _), _, _, _ | some (.oddBlock _ _ _ _), _, _, _
  | some (.stem _ _ _), _, _, _ | some (.fork _ _ _ _), _, _, _ | some (.stray _), _, _, _ => rfl
termination_by structural child => child

private theorem emitBlockLines_alike (s s' : Style) : ∀ child : Option Node,
    Agree s s' (visitedBlockLines s.colon child) → ∀ (depth : Int) (nested : Bool),
      emitBlockLines s depth nested child = emitBlockLines s' depth nested child
  | some (.block loc kind yields nodes), agree, depth, nested =>
    emitLines_alike s s' nodes depth nested (.block loc kind yields nodes)
      (Layout.takesColon_block _ _ _ _) true agree
  | none, _, _, _ | some (.leaf _ _), _, _, _ | some (.oddBlock _ _ _ _), _, _, _
  | some (.stem _ _ _), _, _, _ | some (.fork _ _ _ _), _, _, _ | some (.stray _), _, _, _ => rfl
termination_by structural child => child

private theorem emitTagCode_alike (s s' : Style) : ∀ (code : Option Node) (spot : Spot),
    spot.parent = none → Agree s s' (visitedTagCode s.colon code) →
    emitTagCode s spot code = emitTagCode s' spot code
  | some (.stem loc head body), spot, noParent, agree => by
    rw [visitedTagCode, Agree.cons_iff] at agree
    have alone : Emit.isRunning { depth := 0, parent := spot.parent, inline := spot.inline } = false := by
      rw [noParent]
      exact Bool.and_false _
    have below (owner : Node) (noColon : Layout.takesColon owner = false)
        (agree : Agree s s' (visitedSlot s.colon (some owner) false body)) (code : CodeHead) :=
      @Emit.code_alike s s' spot owner code _ (fun inner => emitOptional s inner body)
        (fun inner => emitOptional s' inner body) (by rw [alone]; exact agree) fun agree =>
          emitOptional_alike s s' body (spot.below owner)
            (fun _ _ => Spot.settled_of_not_takesColon rfl noColon) agree
    cases head with
    | code head => exact below _ rfl agree.2 head
    | blockComment val buffer =>
      rw [emitTagCode, emitTagCode, below _ rfl agree.2 { val }]
    | _ => rfl
  | none, _, _, _ | some (.leaf _ _), _, _, _ | some (.block _ _ _ _), _, _, _
  | some (.oddBlock _ _ _ _), _, _, _ | some (.fork _ _ _ _), _, _, _ | some (.stray _), _, _, _ => rfl
termination_by structural code => code

private theorem emitAlternate_alike (s s' : Style) : ∀ (child : Option Node) (spot : Spot),
    (∀ n, spot.Settled s s' n) → spot.inline = false →
    Agree s s' (visitedSlot s.colon spot.parent false child) →
    emitAlternate s spot child = emitAlternate s' spot child
  | none, _, _, _, _ => rfl
  | some (.fork loc (.conditional test) yes no), spot, _, _, agree => by
    rw [visitedSlot, visited, Agree.cons_iff, Agree.append_iff] at agree
    have anywhere (n : Node) : (spot.below (.fork loc (.conditional test) yes no)).Settled s s' n :=
      Spot.settled_of_not_takesColon rfl rfl
    simp only [emitAlternate, emitChild_alike s s' yes _ anywhere agree.2.1,
      emitAlternate_alike s s' no _ anywhere rfl agree.2.2]
  | some (.fork loc (.tag head) block code), spot, anywhere, starts, agree =>
    alternate_alike rfl (emit_alike s s' (.fork loc (.tag head) block code) spot (anywhere _)
      (by rw [starts]; exact agree))
  | some (.fork loc (.each val obj key) block alternative), spot, anywhere, starts, agree =>
    alternate_alike rfl (emit_alike s s' (.fork loc (.each val obj key) block alternative) spot
      (anywhere _) (by rw [starts]; exact agree))
  | some (.fork loc (.inclusion filter attrs) file block), spot, anywhere, starts, agree =>
    alternate_alike rfl (emit_alike s s' (.fork loc (.inclusion filter attrs) file block) spot
      (anywhere _) (by rw [starts]; exact agree))
  | some (.stem loc head child), spot, anywhere, starts, agree =>
    alternate_alike (by cases head <;> rfl) (emit_alike s s' (.stem loc head child) spot (anywhere _)
      (by rw [starts]; exact agree))
  | some (.leaf loc head), _, _, _, _ => alternate_alike (by cases head <;> rfl) rfl
  | some (.block loc kind yields nodes), spot, anywhere, starts, agree =>
    alternate_alike (by cases kind <;> rfl) (emit_alike s s' (.block loc kind yields nodes) spot
      (anywhere _) (by rw [starts]; exact agree))
  | some (.oddBlock loc kind yields value), _, _, _, _ =>
    alternate_alike (by cases kind <;> rfl) (by cases kind <;> rfl)
  | some (.stray value), _, _, _, _ => alternate_alike rfl rfl
termination_by structural child => child

private theorem emitRun_alike (s s' : Style) : ∀ (nodes : List Node) (spot : Spot),
    (∀ n, spot.Settled s s' n) → Agree s s' (visitedRun s.colon spot.parent spot.inline nodes) →
    emitRun s spot nodes = emitRun s' spot nodes
  | [], _, _, _ => rfl
  | n :: rest, spot, anywhere, agree => by
    rw [visitedRun, Agree.append_iff] at agree
    rw [emitRun, emitRun, emit_alike s s' n spot (anywhere n) agree.1,
      emitRun_alike s s' rest { spot with inline := Emit.continuesLine n rest } anywhere agree.2]
termination_by structural nodes => nodes

private theorem emitLines_alike (s s' : Style) : ∀ (nodes : List Node) (depth : Int) (nested : Bool)
    (block : Node), Layout.takesColon block = false → ∀ verbatim : Bool,
    Agree s s' (visitedLines s.colon block nodes) →
    emitLines s depth nested block verbatim nodes = emitLines s' depth nested block verbatim nodes
  | [], _, _, _, _, _, _ => rfl
  | n :: rest, depth, nested, block, noColon, verbatim, agree => by
    rw [visitedLines, Agree.append_iff] at agree
    have node := emit_alike s s' n { depth, nested, parent := some block, inline := true }
      (Spot.settled_of_not_takesColon rfl noColon) agree.1
    have others := emitLines_alike s s' rest depth nested block noColon verbatim agree.2
    simp only [emitLines, node, others]
termination_by structural nodes => nodes

end

end PugPrinter
