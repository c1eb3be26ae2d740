import PugPrinter.Proofs.WellFormed

/-!
The nodes of a tree, each with all that is below it. A condition on every node of a tree splits into
the same condition on the root and on the trees in its slots or in its sequence. One of them is that a
tree is made of nodes only, as a well-formed one is.
-/

set_option autoImplicit false

namespace PugPrinter.Node

mutual

def subtrees : Node → List Node
  | .block loc kind yields nodes => .block loc kind yields nodes :: subtreesOfNodes nodes
  | .stem loc head child => .stem loc head child :: subtreesOfSlot child
  | .fork loc head first second =>
    .fork loc head first second :: (subtreesOfSlot first ++ subtreesOfSlot second)
  | .leaf loc head => [.leaf loc head]
  | .oddBlock loc kind yields value => [.oddBlock loc kind yields value]
  | .stray value => [.stray value]
termination_by structural node => node

def subtreesOfNodes : List Node → List Node
  | [] => []
  | n :: rest => n.subtrees ++ subtreesOfNodes rest
termination_by structural nodes => nodes

def subtreesOfSlot : Option Node → List Node
  | none => []
  | some n => n.subtrees
termination_by structural child => child

end

variable {P : Node → Prop}

theorem self_mem_subtrees (n : Node) : n ∈ n.subtrees := by
  cases n <;> rw [subtrees] <;> exact List.mem_cons_self

theorem forall_subtrees_block {loc : Location} {kind : BlockKind} {yields : Loose Bool}
    {nodes : List Node} :
    (∀ m ∈ (Node.block loc kind yields nodes).subtrees, P m) ↔
      P (.block loc kind yields nodes) ∧ ∀ m ∈ subtreesOfNodes nodes, P m := by
  rw [subtrees, List.forall_mem_cons]

theorem forall_subtrees_stem {loc : Location} {head : Stem} {child : Option Node} :
    (∀ m ∈ (Node.stem loc head child).subtrees, P m) ↔
      P (.stem loc head child) ∧ ∀ m ∈ subtreesOfSlot child, P m := by
  rw [subtrees, List.forall_mem_cons]

theorem forall_subtrees_fork {loc : Location} {head : Fork} {first second : Option Node} :
    (∀ m ∈ (Node.fork loc head first second).subtrees, P m) ↔
      P (.fork loc head first second) ∧ (∀ m ∈ subtreesOfSlot first, P m) ∧
        ∀ m ∈ subtreesOfSlot second, P m := by
  rw [subtrees, List.forall_mem_cons, List.forall_mem_append]

theorem forall_subtreesOfNodes_cons {n : Node} {rest : List Node} :
    (∀ m ∈ subtreesOfNodes (n :: rest), P m) ↔
      (∀ m ∈ n.subtrees, P m) ∧ ∀ m ∈ subtreesOfNodes rest, P m := by
  rw [subtreesOfNodes, List.forall_mem_append]

theorem forall_subtreesOfNodes_append {first second : List Node} :
    (∀ m ∈ subtreesOfNodes (first ++ second), P m) ↔
      (∀ m ∈ subtreesOfNodes first, P m) ∧ ∀ m ∈ subtreesOfNodes second, P m := by
  induction first with
  | nil => simp [subtreesOfNodes]
  | cons n rest ih =>
    rw [List.cons_append, forall_subtreesOfNodes_cons, ih, forall_subtreesOfNodes_cons, and_assoc]

private theorem mem_subtreesOfNodes_of_mem {n m : Node} {nodes : List Node} (member : n ∈ nodes)
    (below : m ∈ n.subtrees) : m ∈ subtreesOfNodes nodes := by
  induction member with
  | head rest => exact List.mem_append_left _ below
  | tail first _ ih => exact List.mem_append_right _ ih

theorem mem_subtreesOfNodes {n : Node} {nodes : List Node} (member : n ∈ nodes) :
    n ∈ subtreesOfNodes nodes :=
  mem_subtreesOfNodes_of_mem member n.self_mem_subtrees

theorem wellFormedNodes_iff {nodes : List Node} :
    wellFormedNodes nodes = true ↔ ∀ n ∈ nodes, n.wellFormed = true := by
  induction nodes with
  | nil => simp [wellFormedNodes]
  | cons n rest ih => rw [wellFormedNodes, Bool.and_eq_true, ih, List.forall_mem_cons]

theorem eq_block_of_isSequence {n : Node} (formed : n.wellFormed = true)
    (sequence : n.isSequence = true) :
    ∃ loc kind yields nodes, n = .block loc kind yields nodes := by
  cases n with
  | block loc kind yields nodes => exact ⟨loc, kind, yields, nodes, rfl⟩
  | oddBlock => cases formed
  | leaf loc head => cases head <;> cases sequence
  | stem loc head child => cases head <;> cases sequence
  | fork loc head first second => cases head <;> cases sequence
  | stray => cases formed

theorem exists_line_of_wellFormed {n : Node} (formed : n.wellFormed = true) :
    ∃ line, n.line? = some line := by
  cases n with
  | stray => cases formed
  | _ => exact ⟨_, rfl⟩

/-- Whether a node is made of nodes: it is no stray value, and no sequence with another value in place of
its nodes. Slots may be empty. -/
def isWhole : Node → Bool
  | .oddBlock _ _ _ _ | .stray _ => false
  | _ => true

theorem isNode_of_isWhole {n : Node} (whole : n.isWhole = true) : n.isNode = true := by
  cases n with
  | stray => cases whole
  | _ => rfl

def children : Node → List Node
  | .block _ _ _ nodes => nodes
  | .stem _ _ child => child.toList
  | .fork _ _ first second => first.toList ++ second.toList
  | _ => []

section Inherited

variable (inherited : ∀ n : Node, P n → ∀ c ∈ n.children, P c)

include inherited

-- The mutual induction is what needs the section variable, not each of its theorems.
set_option linter.unusedSectionVars false in
mutual

/-- What children inherit from a node holds of all nodes below it. -/
theorem forall_subtrees_of_inherited : ∀ n : Node, P n → ∀ m ∈ n.subtrees, P m
  | .leaf _ _, own => by
    rw [subtrees, List.forall_mem_singleton]
    exact own
  | .oddBlock _ _ _ _, own => by
    rw [subtrees, List.forall_mem_singleton]
    exact own
  | .stray _, own => by
    rw [subtrees, List.forall_mem_singleton]
    exact own
  | .block _ _ _ nodes, own =>
    forall_subtrees_block.mpr ⟨own, forall_subtreesOfNodes_of_inherited nodes (inherited _ own)⟩
  | .stem _ _ child, own =>
    forall_subtrees_stem.mpr ⟨own, forall_subtreesOfSlot_of_inherited child (inherited _ own)⟩
  | .fork _ _ first second, own => by
    obtain ⟨ofFirst, ofSecond⟩ := List.forall_mem_append.mp (inherited _ own)
    exact forall_subtrees_fork.mpr ⟨own, forall_subtreesOfSlot_of_inherited first ofFirst,
      forall_subtreesOfSlot_of_inherited second ofSecond⟩
termination_by structural n => n

private theorem forall_subtreesOfNodes_of_inherited :
    ∀ nodes : List Node, (∀ c ∈ nodes, P c) → ∀ m ∈ subtreesOfNodes nodes, P m
  | [], _ => nofun
  | n :: rest, all =>
    forall_subtreesOfNodes_cons.mpr ⟨forall_subtrees_of_inherited n (all n List.mem_cons_self),
      forall_subtreesOfNodes_of_inherited rest fun c member => all c (List.mem_cons_of_mem n member)⟩
termination_by structural nodes => nodes

private theorem forall_subtreesOfSlot_of_inherited :
    ∀ child : Option Node, (∀ c ∈ child.toList, P c) → ∀ m ∈ subtreesOfSlot child, P m
  | none, _ => nofun
  | some n, all => forall_subtrees_of_inherited n (all n List.mem_cons_self)
termination_by structural child => child

end

end Inherited

private theorem subtrees_of_mem_children {n c : Node} (member : c ∈ n.children) :
    ∀ m ∈ c.subtrees, m ∈ n.subtrees := by
  intro m below
  cases n with
  | block loc kind yields nodes =>
    exact List.mem_cons_of_mem _ (mem_subtreesOfNodes_of_mem member below)
  | stem loc head child =>
    rw [Option.mem_toList.mp member, subtrees]
    exact List.mem_cons_of_mem _ below
  | fork loc head first second =>
    rw [subtrees]
    refine List.mem_cons_of_mem _ (List.mem_append.mpr ?_)
    rcases List.mem_append.mp member with inFirst | inSecond
    · rw [Option.mem_toList.mp inFirst]
      exact .inl below
    · rw [Option.mem_toList.mp inSecond]
      exact .inr below
  | _ => cases member

theorem subtrees_trans {n m k : Node} (inTree : m ∈ n.subtrees) (below : k ∈ m.subtrees) :
    k ∈ n.subtrees :=
  forall_subtrees_of_inherited (P := fun m => ∀ k ∈ m.subtrees, k ∈ n.subtrees)
    (fun _ own _ child k below => own k (subtrees_of_mem_children child k below)) n (fun _ => id) m
    inTree k below

private theorem wellFormed_of_mem_children {n : Node} (formed : n.wellFormed = true) :
    ∀ c ∈ n.children, c.wellFormed = true := by
  cases n with
  | leaf loc head => nofun
  | block loc kind yields nodes =>
    simp only [wellFormed, Bool.and_eq_true] at formed
    exact wellFormedNodes_iff.mp formed.2
  | oddBlock loc kind yields value => cases formed
  | stem loc head child =>
    simp only [wellFormed, Bool.and_eq_true] at formed
    rintro c member
    rw [Option.mem_toList.mp member] at formed
    exact formed.2
  | fork loc head first second =>
    simp only [wellFormed, Bool.and_eq_true] at formed
    rintro c member
    rcases List.mem_append.mp member with inFirst | inSecond
    · rw [Option.mem_toList.mp inFirst] at formed
      exact formed.1.2
    · rw [Option.mem_toList.mp inSecond] at formed
      exact formed.2
  | stray value => cases formed

theorem wellFormed_of_mem_subtrees {n : Node} (formed : n.wellFormed = true) :
    ∀ m ∈ n.subtrees, m.wellFormed = true :=
  forall_subtrees_of_inherited (fun _ => wellFormed_of_mem_children) n formed

theorem isWhole_of_wellFormed (n : Node) (formed : n.wellFormed = true) :
    ∀ m ∈ n.subtrees, m.isWhole = true := by
  intro m member
  have own := wellFormed_of_mem_subtrees formed m member
  cases m with
  | oddBlock | stray => cases own
  | _ => rfl

end PugPrinter.Node
