import PugPrinter.Proofs.Emit.Causes
import PugPrinter.Proofs.Printing

/-!
Which trees can be printed. A well-formed tree is refused for three reasons only: HTML in the middle
of a line, a chain of filters with more in it, and a child that cannot be a raw line. Where no node of
the normal form gives such a reason, the tree is printed.
-/

set_option autoImplicit false

namespace PugPrinter

/-- The faults of content that stands where it cannot be written. -/
def Fault.isMisplacement : Fault → Bool
  | .tree (.illegalInlineHtml _) => true
  | .tree (.invalidFilterChain _) => true
  | .tree (.unexpectedRawChild _ _) => true
  | _ => false

namespace Node

def isFilterBody (nodes : List Node) : Bool :=
  nodes.isEmpty || (nodes.length == 1 && nodes.all (isKind .filter)) || nodes.all isRaw

/-- Nodes that can be written wherever they stand: text that is no HTML, comments whose body can be
raw lines, filters with a body of theirs, and all other kinds of nodes. -/
def isPlaceable : Node → Bool
  | .leaf _ (.text _ isHtml) => !isHtml.isOn
  | .stem _ (.blockComment _ _) child => (blockNodes child).all isRaw
  | .stem _ (.filter _ _) child => isFilterBody (blockNodes child)
  | _ => true

private theorem rawFaults_eq_nil {block : Option Node} (raw : (blockNodes block).all isRaw = true) :
    rawFaults block = [] := by
  have none : (blockNodes block).filter (fun n => !n.isRaw) = [] := by
    rw [List.filter_eq_nil_iff]
    intro n member
    simpa using List.all_eq_true.mp raw n member
  rw [rawFaults, none]
  rfl

theorem not_filter_of_isRaw {n : Node} (raw : n.isRaw = true) : n.isKind .filter = false := by
  rcases eq_of_isRaw raw with ⟨_, _, _, rfl⟩ | ⟨_, _, _, rfl⟩ | ⟨_, _, _, _, rfl⟩ <;> rfl

private theorem filterFaults_eq_nil {filter : Node} {block : Option Node}
    (body : isFilterBody (blockNodes block) = true) : filterFaults filter block = [] := by
  unfold filterFaults
  split
  · rfl
  · rename_i first rest children
    split
    · rename_i isFilter
      have notRaw : first.isRaw = false := by
        cases raw : first.isRaw with
        | false => rfl
        | true =>
          rw [not_filter_of_isRaw raw] at isFilter
          cases isFilter
      have alone : rest = [] ∧ ∀ n ∈ rest, n.isKind .filter = true := by
        simpa [isFilterBody, children, isFilter, notRaw] using body
      rw [alone.1]
      rfl
    · rename_i isOther
      have raw : (blockNodes block).all isRaw = true := by
        simpa [isFilterBody, children, isOther] using body
      exact rawFaults_eq_nil raw

private theorem contentFaults_eq_nil {n : Node} (placeable : n.isPlaceable = true) :
    n.contentFaults = [] := by
  cases n with
  | leaf loc head =>
    cases head with
    | text val isHtml => simpa [contentFaults, isPlaceable] using placeable
    | _ => rfl
  | stem loc head child =>
    cases head with
    | blockComment val buffer => exact rawFaults_eq_nil placeable
    | filter name attrs => exact filterFaults_eq_nil placeable
    | _ => rfl
  | _ => rfl

private theorem isMisplacement_of_mem_rawFaults {block : Option Node} {fault : Fault}
    (member : fault ∈ rawFaults block) : fault.isMisplacement = true := by
  obtain ⟨n, _, rfl⟩ := List.mem_map.mp member
  rfl

theorem isMisplacement_of_mem_contentFaults {n : Node} {fault : Fault}
    (member : fault ∈ n.contentFaults) : fault.isMisplacement = true := by
  unfold contentFaults at member
  split at member
  · split at member
    · rw [List.mem_singleton.mp member]
      rfl
    · cases member
  · exact isMisplacement_of_mem_rawFaults member
  · unfold filterFaults at member
    split at member
    · cases member
    · split at member
      · split at member
        · cases member
        · rw [List.mem_singleton.mp member]
          rfl
      · exact isMisplacement_of_mem_rawFaults member
  · cases member

theorem admits_of_convert {allowed : Fault → Prop} {nodes : List Node}
    (convert : ∀ n ∈ nodes, n.attributesConvert = true)
    (can : ∀ n ∈ nodes, ∀ fault ∈ n.contentFaults, allowed fault) : Admits allowed nodes := by
  intro n member
  refine forall_ownFaults.mpr ⟨fun fails => ?_, can n member⟩
  rw [convert n member] at fails
  cases fails

end Node

namespace Node

/-- A line of text with a chain of filters in it, a comment with a tag in its body, and a tag with a
constant class, whose text makes a dot block. -/
def placeableSample : Node :=
  .block { line := 1 } .plain (.of false)
    [.leaf { line := 1 } (.text (.of "see ") (.of false)),
      .stem { line := 1 } (.filter (.of "babel") (.of []))
        (some (.block { line := 1 } .plain (.of false)
          [.stem { line := 1 } (.filter (.of "uglify") (.of []))
            (some (.block { line := 1 } .plain (.of false)
              [.leaf { line := 1 } (.text (.of "x") (.of false))]))])),
      .stem { line := 2 } (.blockComment (.of " note") (.of true))
        (some (.block { line := 2 } .plain (.of false)
          [.fork { line := 3 } (.tag { name := .of "br" })
            (some (.block { line := 3 } .plain (.of false) [])) none])),
      .fork { line := 4 }
        (.tag { name := .of "p", attrs := .of [.of { name := "class", val := "'a' + 1" }] })
        (some (.block { line := 4 } .plain (.of false)
          [.leaf { line := 5 } (.text (.of "one\n") (.of false)),
            .leaf { line := 6 } (.text (.of "two") (.of false))])) none]

def misplacedSample : Node :=
  .block { line := 1 } .plain (.of false)
    [.leaf { line := 1 } (.text (.of "a") (.of false)),
      .leaf { line := 1 } (.text (.of "<b>") (.of true))]

end Node

end PugPrinter
