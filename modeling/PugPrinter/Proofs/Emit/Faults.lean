import PugPrinter.Proofs.Attribute.Placing
import PugPrinter.Proofs.Layout
import PugPrinter.Proofs.Runs

/-!
What can stop the emission of a tree. Every node has a few faults of its own: a value that cannot be
written, HTML that would have to go on in a line, a chain of filters with more in it, and children that
cannot be raw lines. A node that is not well-formed can also have a shape that nothing is defined for,
lack a child, be of no kind, or have a value in place of its children.
-/

set_option autoImplicit false

namespace PugPrinter

def Attribute.converts (attr : Attribute) : Bool :=
  (Constant.fold? attr.val).all fun value => value.string?.isSome

namespace Node

def attributes : Node → List Attribute
  | .stem _ (.mixin m) _ => listOf m.attrs
  | .stem _ (.filter _ attrs) _ => listOf attrs
  | .fork _ (.tag head) _ _ => listOf head.attrs
  | .fork _ (.inclusion _ attrs) _ _ => listOf attrs
  | _ => []
where
  /-- The proper attributes of a list. -/
  listOf (attrs : Attributes) : List Attribute :=
    (attrs.value?.getD []).filterMap Loose.value?

/-- Whether the folded values of all attributes of a node have a string. -/
def attributesConvert (n : Node) : Bool :=
  n.attributes.all Attribute.converts

/-- Nodes that can stand among raw lines: text, code and tags. -/
def isRaw (n : Node) : Bool :=
  n.isKind .text || n.isKind .code || n.isKind .tag

def blockNodes (block : Option Node) : List Node :=
  (block.bind nodes?).getD []

def rawFaults (block : Option Node) : List Fault :=
  ((blockNodes block).filter fun n => !n.isRaw).map fun n =>
    .tree (.unexpectedRawChild n.subject (block.map subject))

def filterFaults (filter : Node) (block : Option Node) : List Fault :=
  match blockNodes block with
  | [] => []
  | first :: rest =>
    if first.isKind .filter then
      if rest.isEmpty then [] else [.tree (.invalidFilterChain filter.subject)]
    else rawFaults block

def contentFaults : Node → List Fault
  | .leaf loc (.text val isHtml) =>
    if isHtml.isOn then [.tree (.illegalInlineHtml (leaf loc (.text val isHtml)).subject)] else []
  | .stem _ (.blockComment _ _) child => rawFaults child
  | .stem loc (.filter name attrs) child => filterFaults (.stem loc (.filter name attrs) child) child
  | _ => []

def lacksBlock : Node → Bool
  | .stem _ (.blockComment _ _) none | .stem _ (.filter _ _) none | .fork _ (.tag _) none _ => true
  | _ => false

def lacksChild : Node → Bool
  | .stem _ (.caseOf _) none | .stem _ (.whileLoop _) none | .stem _ .extending none
  | .fork _ (.conditional _) none _ | .fork _ (.each _ _ _) none _
  | .fork _ (.inclusion _ _) none _ => true
  | _ => false

def overfillsChain : Node → Bool
  | .stem _ (.filter _ _) child =>
    match blockNodes child with
    | first :: _ :: _ => first.isKind .filter
    | _ => false
  | _ => false

/-- The errors of a tree that a node of it can cause: it lacks a child, it is of no kind that can be printed,
it breaks a chain of filters, it is HTML that may stand in running text, it cannot be a raw line, or it
has a value in place of its children that cannot be one. -/
inductive Refuses : Node → TreeError → Prop where
  | block {n : Node} (lacks : n.lacksBlock = true) :
      Refuses n (.missingNode n.subject (some ("block" : Text)))
  | child {n : Node} (lacks : n.lacksChild = true) : Refuses n (.missingNode n.subject none)
  | bare (loc : Location) (parent : Option Node) :
      Refuses (.leaf loc .bare)
        (.unsupportedType (Node.leaf loc .bare).subject ((parent.map subject).getD {}))
  | stray (value : Json) (parent : Option Node) :
      Refuses (.stray value)
        (.unsupportedType (Node.stray value).subject ((parent.map subject).getD {}))
  | chain {n : Node} (overfilled : n.overfillsChain = true) :
      Refuses n (.invalidFilterChain n.subject)
  | html (loc : Location) (val : Loose Text) {isHtml : Loose Bool} (isOn : isHtml.isOn = true) :
      Refuses (.leaf loc (.text val isHtml))
        (.illegalInlineHtml (Node.leaf loc (.text val isHtml)).subject)
  | rawLine {n : Node} (notRaw : n.isRaw = false) (block : Node) :
      Refuses n (.unexpectedRawChild n.subject (some block.subject))
  | item {loc : Location} {kind : BlockKind} {yields : Loose Bool} {value item : Json}
      {rest : List Json} (first : value.items? = some (item :: rest)) :
      Refuses (.oddBlock loc kind yields value)
        (.unexpectedRawChild (Node.stray item).subject
          (some (Node.oddBlock loc kind yields value).subject))

def ownFaults (n : Node) : List Fault :=
  (if n.attributesConvert then [] else [.integerTooLong none]) ++ n.contentFaults

def HasNodes (block : Node) : Prop :=
  ∃ nodes, block.nodes? = some nodes ∧ wellFormedNodes nodes = true

end Node

open Run

variable {allowed : Fault → Prop}

/-- A condition on the shape of nodes, which only fails where a shape that nothing is defined for is
allowed to stop the emission. -/
abbrev Shaped (allowed : Fault → Prop) (formed : Prop) : Prop :=
  formed ∨ allowed .unsupportedShape

/-- A folded value without a string is allowed to stop the emission, if the attributes have one. -/
abbrev AllowsLong (allowed : Fault → Prop) (attrs : Attributes) : Prop :=
  (Node.attributes.listOf attrs).all Attribute.converts = false → allowed (.integerTooLong none)

/-- All that a node can cause is allowed: shapes that nothing is defined for and refusals if it is not
well-formed, and the faults of its attributes and of its content. A sequence with another value in place
of its nodes refuses that value by itself, so that it adds nothing to the faults of its owner. -/
structure Node.CausesOnly (allowed : Fault → Prop) (n : Node) : Prop where
  shape : Shaped allowed (n.wellFormed = true)
  refusal : ∀ error, n.wellFormed = false → n.Refuses error → allowed (.tree error)
  long : n.attributesConvert = false → allowed (.integerTooLong none)
  content : (∀ c ∈ n.children, c.isWhole = true) → ∀ fault ∈ n.contentFaults, allowed fault

def AllCauseOnly (allowed : Fault → Prop) (nodes : List Node) : Prop :=
  ∀ n ∈ nodes, n.CausesOnly allowed

def Admits (allowed : Fault → Prop) (nodes : List Node) : Prop :=
  ∀ n ∈ nodes, ∀ fault ∈ n.ownFaults, allowed fault

namespace Attribute

private theorem string?_of_shorthandText_error {folded : Option Constant.Value} {fault : Fault}
    (stopped : shorthandText folded = .error fault) :
    fault = .integerTooLong none ∧ ∃ value, folded = some value ∧ value.string? = none := by
  unfold shorthandText at stopped
  split at stopped
  · rename_i value
    split at stopped
    · split at stopped
      · cases stopped
      · cases stopped
        exact ⟨rfl, value, rfl, ‹_›⟩
    · cases stopped
  · cases stopped

private theorem read_failsOnly {limit : Nat} {attr : Attribute}
    (can : ∀ value, Constant.fold? attr.val limit = some value → value.string? = none →
      allowed (.integerTooLong none)) : (read limit attr).FailsOnly allowed := by
  have own : (Run.ofExcept (shorthandText (Constant.fold? attr.val limit)) :
      Run Text (Option Text)).FailsOnly allowed := by
    intro fault stopped
    obtain ⟨rfl, value, folded, written⟩ := string?_of_shorthandText_error stopped
    exact can value folded written
  rw [read]
  split
  · exact (failsOnly_put _).bind fun _ _ => own.bind fun _ _ => failsOnly_pure _
  · exact own.bind fun _ _ => failsOnly_pure _

theorem readAll_failsOnly {limit : Nat} {attrs : List Attribute}
    (can : ∀ attr ∈ attrs, ∀ value, Constant.fold? attr.val limit = some value →
      value.string? = none → allowed (.integerTooLong none)) :
    (readAll limit attrs).FailsOnly allowed := by
  induction attrs with
  | nil => exact failsOnly_of_ok rfl
  | cons attr rest ih =>
    rw [List.forall_mem_cons] at can
    exact (read_failsOnly can.1).bind fun _ _ => ih can.2

private theorem placeAll_failsOnly (quote : Text) {attrs : List Attribute}
    (can : attrs.all converts = false → allowed (.integerTooLong none)) (idTaken : Bool) :
    (placeAll quote Constant.Grammar.nestingLimit idTaken attrs).FailsOnly allowed := by
  rw [placeAll_eq]
  refine FailsOnly.bind (readAll_failsOnly fun attr member value folded written => can ?_)
    fun _ _ => failsOnly_pure _
  refine List.all_eq_false.mpr ⟨attr, member, ?_⟩
  rw [converts, folded, Option.all_some, written]
  exact Bool.false_ne_true

theorem proper_map_of (attrs : List Attribute) : proper (attrs.map .of) = attrs := by
  induction attrs with
  | nil => rfl
  | cons attr rest ih => rw [List.map_cons, proper, ih]

theorem firstOdd?_map_of (attrs : List Attribute) : firstOdd? (attrs.map .of) = none := by
  induction attrs with
  | nil => rfl
  | cons attr rest ih => rw [List.map_cons, firstOdd?, ih]

private theorem mem_listOf_of_mem_proper {items : List (Loose Attribute)} {attr : Attribute}
    (member : attr ∈ proper items) : attr ∈ Node.attributes.listOf (.of items) := by
  induction items with
  | nil => cases member
  | cons item rest ih =>
    cases item with
    | of first =>
      rcases List.mem_cons.mp member with rfl | later
      · exact List.mem_cons_self
      · exact List.mem_cons_of_mem _ (ih later)
    | odd value => cases member

/-- Rendering attributes is stopped only by a folded value without a string, or by their shape. -/
theorem render_failsOnly (quote : Text) {attrs : Attributes}
    (shape : Shaped allowed (attrs.isProperList = true)) (long : AllowsLong allowed attrs) :
    (render quote attrs).FailsOnly allowed := by
  cases attrs with
  | of items =>
    have placed : (placeAll quote Constant.Grammar.nestingLimit false (proper items)).FailsOnly
        allowed := by
      refine placeAll_failsOnly quote (fun fails => long ?_) false
      rw [List.all_eq_false] at fails ⊢
      obtain ⟨attr, member, own⟩ := fails
      exact ⟨attr, mem_listOf_of_mem_proper member, own⟩
    have rendered : (renderAll quote Constant.Grammar.nestingLimit (proper items)).FailsOnly
        allowed :=
      placed.bind fun _ _ => failsOnly_pure _
    refine rendered.bind fun text _ => ?_
    split
    · exact failsOnly_pure _
    · rename_i value found
      refine (failsOnly_put _).bind fun _ _ => failsOnly_fail (shape.resolve_left fun formed => ?_)
      obtain ⟨attrs, same⟩ := Loose.isProperList_iff.mp formed
      cases same
      rw [firstOdd?_map_of] at found
      cases found
  | odd value =>
    simp only [render]
    split
    · exact failsOnly_of_ok rfl
    · exact failsOnly_fail (shape.resolve_left Bool.false_ne_true)

end Attribute

namespace Node

theorem forall_ownFaults {n : Node} :
    (∀ fault ∈ n.ownFaults, allowed fault) ↔
      (n.attributesConvert = false → allowed (.integerTooLong none)) ∧
        ∀ fault ∈ n.contentFaults, allowed fault := by
  rw [ownFaults, List.forall_mem_append]
  cases n.attributesConvert <;> simp

theorem forall_rawFaults {block : Node} {nodes : List Node} (children : block.nodes? = some nodes) :
    (∀ fault ∈ rawFaults (some block), allowed fault) ↔
      ∀ n ∈ nodes, n.isRaw = false →
        allowed (.tree (.unexpectedRawChild n.subject (some block.subject))) := by
  simp only [rawFaults, blockNodes, Option.bind_some, children, Option.getD_some, Option.map_some,
    List.forall_mem_map, List.mem_filter, Bool.not_eq_true', and_imp]

theorem eq_of_isRaw {n : Node} (raw : n.isRaw = true) :
    (∃ loc val isHtml, n = .leaf loc (.text val isHtml)) ∨
      (∃ loc head child, n = .stem loc (.code head) child) ∨
      ∃ loc head first second, n = .fork loc (.tag head) first second := by
  cases n with
  | leaf loc head =>
    cases head with
    | text val isHtml => exact Or.inl ⟨loc, val, isHtml, rfl⟩
    | _ => cases raw
  | stem loc head child =>
    cases head with
    | code head => exact Or.inr (Or.inl ⟨loc, head, child, rfl⟩)
    | _ => cases raw
  | fork loc head first second =>
    cases head with
    | tag head => exact Or.inr (Or.inr ⟨loc, head, first, second, rfl⟩)
    | _ => cases raw
  | block loc kind yields nodes => cases kind <;> cases raw
  | oddBlock loc kind yields value => cases kind <;> cases raw
  | stray value => cases raw

theorem isRaw_of_isDotChild {n : Node} (dot : Layout.isDotChild n = true) : n.isRaw = true := by
  unfold Layout.isDotChild at dot
  split at dot
  · rfl
  · rfl
  · cases dot

private theorem exists_strays_of_nodes? {loc : Location} {kind : BlockKind} {yields : Loose Bool}
    {value : Json} {nodes : List Node}
    (children : (oddBlock loc kind yields value).nodes? = some nodes) :
    ∃ items : List Json, nodes = items.map .stray := by
  cases value with
  | obj fields =>
    cases fields with
    | nil => exact ⟨[], (Option.some.inj children).symm⟩
    | cons field fields => cases children
  | arr items => exact ⟨items, (Option.some.inj children).symm⟩
  | str text => exact ⟨_, (Option.some.inj children).symm⟩
  | _ => cases children

theorem isWhole_of_filter_mem {block n : Node} {nodes : List Node} (children : block.nodes? = some nodes)
    (member : n ∈ nodes) (isFilter : n.isKind .filter = true) : block.isWhole = true := by
  cases block with
  | oddBlock loc kind yields value =>
    obtain ⟨items, rfl⟩ := exists_strays_of_nodes? children
    obtain ⟨item, _, rfl⟩ := List.mem_map.mp member
    cases isFilter
  | stray value => cases children
  | _ => rfl

private theorem wellFormed_of_lacksBlock {n : Node} (lacks : n.lacksBlock = true) :
    n.wellFormed = false := by
  unfold lacksBlock at lacks
  split at lacks
  · simp [wellFormed, Stem.accepts]
  · simp [wellFormed, Stem.accepts]
  · simp [wellFormed, Fork.acceptsFirst]
  · cases lacks

private theorem wellFormed_of_lacksChild {n : Node} (lacks : n.lacksChild = true) :
    n.wellFormed = false := by
  unfold lacksChild at lacks
  split at lacks
  · simp [wellFormed, Stem.accepts]
  · simp [wellFormed, Stem.accepts]
  · simp [wellFormed, Stem.accepts]
  · simp [wellFormed, Fork.acceptsFirst]
  · simp [wellFormed, Fork.acceptsFirst]
  · simp [wellFormed, Fork.acceptsFirst]
  · cases lacks

theorem CausesOnly.missingBlock {n : Node} (own : n.CausesOnly allowed) (lacks : n.lacksBlock = true) :
    allowed (.tree (.missingNode n.subject (some ("block" : Text)))) :=
  own.refusal _ (wellFormed_of_lacksBlock lacks) (.block lacks)

theorem CausesOnly.missingChild {n : Node} (own : n.CausesOnly allowed) (lacks : n.lacksChild = true) :
    allowed (.tree (.missingNode n.subject none)) :=
  own.refusal _ (wellFormed_of_lacksChild lacks) (.child lacks)

theorem hasNodes_of_slot {slot : Option Node} (formed : wellFormedSlot slot = true)
    (accepted : slot.all isSequence = true) : ∀ n, slot = some n → n.HasNodes := by
  rintro n rfl
  obtain ⟨loc, kind, yields, nodes, rfl⟩ := eq_block_of_isSequence formed accepted
  simp only [wellFormedSlot, wellFormed, Bool.and_eq_true] at formed
  exact ⟨nodes, rfl, formed.2⟩

theorem hasNodes_of_filled {slot : Option Node} (formed : wellFormedSlot slot = true)
    (accepted : slot.any isSequence = true) : ∀ n, slot = some n → n.HasNodes := by
  rintro n rfl
  exact hasNodes_of_slot formed accepted n rfl

end Node

end PugPrinter
