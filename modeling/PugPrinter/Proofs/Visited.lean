import PugPrinter.Emit
import PugPrinter.Proofs.Subtrees

/-!
The nodes that printing comes to. A placeholder is written without its children and code in running text
without its block. All else below a node that is visited is visited too, in whatever form its block is
written. What stands below a placeholder or such code makes no difference to what is printed.
-/

set_option autoImplicit false

namespace PugPrinter.Node

/-- What is visited in a sequence: nothing in a placeholder, else its raw lines or its children one after
the other, the first of which continues a line after a colon. -/
def visitedContent (colon : Bool) (parent : Option Node) (inline : Bool) (yields : Loose Bool)
    (nodes : List Node) (lines : List Node) (run : Bool → List Node) : List Node :=
  if yields.isOn then []
  else
    match Layout.usesDot? parent nodes with
    | none => []
    | some true => lines
    | some false => run (Layout.usesColon colon (.ofParent parent) nodes || inline)

def visitedOwn (colon : Bool) (owner : Node) (block : Option Node) (content : Bool → List Node) :
    List Node :=
  match block.bind nodes? with
  | none | some [] => []
  | some nodes =>
    match Layout.startsOnSameLine? colon owner true nodes with
    | none => []
    | some same => content same

/-- What is visited in the body of a filter: the next filter of a chain, or the body in running text or as
raw lines. -/
def visitedBody (inline : Bool) (block : Option Node) (chained content lines : List Node) : List Node :=
  match block.bind nodes? with
  | none | some [] => []
  | some (first :: _) => if first.isKind .filter then chained else if inline then content else lines

mutual

/-- The nodes that are visited to print a node below a parent, in the line before it or not. -/
def visited (colon : Bool) (parent : Option Node) (inline : Bool) : Node → List Node
  | .leaf loc head => [.leaf loc head]
  | .block loc .plain yields nodes =>
    let self := Node.block loc .plain yields nodes
    self :: visitedContent colon parent inline yields nodes (visitedLines colon self nodes)
      fun inline => visitedRun colon (some self) inline nodes
  | .block loc (.named name mode) yields nodes =>
    let self := Node.block loc (.named name mode) yields nodes
    self :: visitedContent colon none false yields nodes (visitedLines colon self nodes)
      fun inline => visitedRun colon (some self) inline nodes
  | .oddBlock loc kind yields value => [.oddBlock loc kind yields value]
  | .stem loc (.mixin m) body =>
    let self := Node.stem loc (.mixin m) body
    let content (inline : Bool) := visitedSlot colon (some self) inline body
    self :: (if m.call.isOn then visitedOwn colon self body content else content false)
  | .stem loc (.code head) body =>
    let self := Node.stem loc (.code head) body
    self :: (if Emit.isRunning { depth := 0, parent, inline } then []
      else visitedSlot colon (some self) false body)
  | .stem loc (.blockComment val buffer) body =>
    .stem loc (.blockComment val buffer) body :: visitedBlockLines colon body
  | .stem loc (.filter name attrs) body =>
    let self := Node.stem loc (.filter name attrs) body
    self :: visitedBody inline body (visitedChildren colon (some self) inline body)
      (visitedSlot colon parent inline body) (visitedBlockLines colon body)
  | .stem loc head child =>
    let self := Node.stem loc head child
    self :: visitedSlot colon (some self) false child
  | .fork loc (.tag head) body code =>
    let self := Node.fork loc (.tag head) body code
    self :: (visitedTagCode colon code ++
      visitedOwn colon self body fun inline => visitedSlot colon (some self) inline body)
  | .fork loc (.conditional test) yes no =>
    let self := Node.fork loc (.conditional test) yes no
    self :: (visitedSlot colon (some self) false yes ++ visitedSlot colon (some self) false no)
  | .fork loc head first second =>
    let self := Node.fork loc head first second
    self :: (visitedSlot colon (some self) false first ++ visitedSlot colon none false second)
  | .stray value => [.stray value]
termination_by structural node => node

def visitedRun (colon : Bool) (parent : Option Node) (inline : Bool) : List Node → List Node
  | [] => []
  | n :: rest => n.visited colon parent inline ++
      visitedRun colon parent (Emit.continuesLine n rest) rest
termination_by structural nodes => nodes

def visitedLines (colon : Bool) (block : Node) : List Node → List Node
  | [] => []
  | n :: rest => n.visited colon (some block) true ++ visitedLines colon block rest
termination_by structural nodes => nodes

def visitedSlot (colon : Bool) (parent : Option Node) (inline : Bool) : Option Node → List Node
  | none => []
  | some n => n.visited colon parent inline
termination_by structural child => child

def visitedChildren (colon : Bool) (parent : Option Node) (inline : Bool) : Option Node → List Node
  | some (.block _ _ _ nodes) => visitedRun colon parent inline nodes
  | _ => []
termination_by structural child => child

def visitedBlockLines (colon : Bool) : Option Node → List Node
  | some (.block loc kind yields nodes) => visitedLines colon (.block loc kind yields nodes) nodes
  | _ => []
termination_by structural child => child

def visitedTagCode (colon : Bool) : Option Node → List Node
  | some (.stem loc head body) =>
    let self := Node.stem loc head body
    self :: visitedSlot colon (some self) false body
  | _ => []
termination_by structural code => code

end

variable {colon : Bool} {all : List Node}

private theorem append_subset_append {first second more : List Node} (ofFirst : first ⊆ all)
    (ofSecond : second ⊆ more) : first ++ second ⊆ all ++ more :=
  List.append_subset.mpr ⟨List.Subset.trans ofFirst (List.subset_append_left _ _),
    List.Subset.trans ofSecond (List.subset_append_right _ _)⟩

private theorem visitedContent_subset {parent : Option Node} {inline : Bool} {yields : Loose Bool}
    {nodes lines : List Node} {run : Bool → List Node} (ofLines : lines ⊆ all)
    (ofRun : ∀ inline, run inline ⊆ all) :
    visitedContent colon parent inline yields nodes lines run ⊆ all := by
  unfold visitedContent
  split
  · exact List.nil_subset _
  · split
    · exact List.nil_subset _
    · exact ofLines
    · exact ofRun _

private theorem visitedOwn_subset {owner : Node} {block : Option Node} {content : Bool → List Node}
    (ofContent : ∀ inline, content inline ⊆ all) : visitedOwn colon owner block content ⊆ all := by
  unfold visitedOwn
  split
  · exact List.nil_subset _
  · exact List.nil_subset _
  · split
    · exact List.nil_subset _
    · exact ofContent _

private theorem visitedBody_subset {inline : Bool} {block : Option Node}
    {chained content lines : List Node} (ofChained : chained ⊆ all) (ofContent : content ⊆ all)
    (ofLines : lines ⊆ all) :
    visitedBody inline block chained content lines ⊆ all := by
  unfold visitedBody
  split
  · exact List.nil_subset _
  · exact List.nil_subset _
  · split
    · exact ofChained
    · split
      · exact ofContent
      · exact ofLines

mutual

theorem visited_subset (colon : Bool) (parent : Option Node) (inline : Bool) :
    ∀ n : Node, n.visited colon parent inline ⊆ n.subtrees
  | .leaf _ _ | .oddBlock _ _ _ _ | .stray _ => List.Subset.refl _
  | .block loc kind yields nodes => by
    have lines := visitedLines_subset colon (.block loc kind yields nodes) nodes
    have run (inline : Bool) :=
      visitedRun_subset colon (some (.block loc kind yields nodes)) inline nodes
    cases kind <;> rw [visited, subtrees] <;>
      exact List.cons_subset_cons _ (visitedContent_subset lines run)
  | .stem loc head child => by
    have slot (inline : Bool) := visitedSlot_subset colon (some (.stem loc head child)) inline child
    cases head with
    | mixin m =>
      rw [visited, subtrees]
      refine List.cons_subset_cons _ ?_
      split
      · exact visitedOwn_subset slot
      · exact slot false
    | code head =>
      rw [visited, subtrees]
      refine List.cons_subset_cons _ ?_
      split
      · exact List.nil_subset _
      · exact slot false
    | blockComment val buffer =>
      rw [visited, subtrees]
      exact List.cons_subset_cons _ (visitedBlockLines_subset colon child)
    | filter name attrs =>
      rw [visited, subtrees]
      exact List.cons_subset_cons _ (visitedBody_subset (visitedChildren_subset colon _ inline child)
        (visitedSlot_subset colon parent inline child) (visitedBlockLines_subset colon child))
    | _ =>
      simp only [visited, subtrees]
      exact List.cons_subset_cons _ (slot false)
  | .fork loc head first second => by
    cases head with
    | tag head =>
      rw [visited, subtrees]
      refine List.cons_subset_cons _ (List.append_subset.mpr ⟨?_, ?_⟩)
      · exact List.Subset.trans (visitedTagCode_subset colon second) (List.subset_append_right _ _)
      · exact visitedOwn_subset fun inline =>
          List.Subset.trans (visitedSlot_subset colon _ inline first) (List.subset_append_left _ _)
    | _ =>
      simp only [visited, subtrees]
      exact List.cons_subset_cons _ (append_subset_append
        (visitedSlot_subset colon _ false first) (visitedSlot_subset colon _ false second))
termination_by structural n => n

private theorem visitedRun_subset (colon : Bool) (parent : Option Node) (inline : Bool) :
    ∀ nodes : List Node, visitedRun colon parent inline nodes ⊆ subtreesOfNodes nodes
  | [] => List.Subset.refl _
  | n :: rest => by
    rw [visitedRun, subtreesOfNodes]
    exact append_subset_append (visited_subset colon parent inline n)
      (visitedRun_subset colon parent _ rest)
termination_by structural nodes => nodes

private theorem visitedLines_subset (colon : Bool) (block : Node) :
    ∀ nodes : List Node, visitedLines colon block nodes ⊆ subtreesOfNodes nodes
  | [] => List.Subset.refl _
  | n :: rest => by
    rw [visitedLines, subtreesOfNodes]
    exact append_subset_append (visited_subset colon _ true n)
      (visitedLines_subset colon block rest)
termination_by structural nodes => nodes

private theorem visitedSlot_subset (colon : Bool) (parent : Option Node) (inline : Bool) :
    ∀ child : Option Node, visitedSlot colon parent inline child ⊆ subtreesOfSlot child
  | none => List.Subset.refl _
  | some n => visited_subset colon parent inline n
termination_by structural child => child

private theorem visitedChildren_subset (colon : Bool) (parent : Option Node) (inline : Bool) :
    ∀ child : Option Node, visitedChildren colon parent inline child ⊆ subtreesOfSlot child
  | some (.block _ _ _ nodes) =>
    List.subset_cons_of_subset _ (visitedRun_subset colon parent inline nodes)
  | none | some (.leaf _ _) | some (.oddBlock _ _ _ _) | some (.stem _ _ _)
  | some (.fork _ _ _ _) | some (.stray _) => List.nil_subset _
termination_by structural child => child

private theorem visitedBlockLines_subset (colon : Bool) :
    ∀ child : Option Node, visitedBlockLines colon child ⊆ subtreesOfSlot child
  | some (.block _ _ _ nodes) => List.subset_cons_of_subset _ (visitedLines_subset colon _ nodes)
  | none | some (.leaf _ _) | some (.oddBlock _ _ _ _) | some (.stem _ _ _)
  | some (.fork _ _ _ _) | some (.stray _) => List.nil_subset _
termination_by structural child => child

private theorem visitedTagCode_subset (colon : Bool) :
    ∀ code : Option Node, visitedTagCode colon code ⊆ subtreesOfSlot code
  | some (.stem _ _ body) => List.cons_subset_cons _ (visitedSlot_subset colon _ false body)
  | none | some (.leaf _ _) | some (.block _ _ _ _) | some (.oddBlock _ _ _ _)
  | some (.fork _ _ _ _) | some (.stray _) => List.nil_subset _
termination_by structural code => code

end

end PugPrinter.Node
