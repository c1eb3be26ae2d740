import PugPrinter.Edit.Normal
import PugPrinter.Proofs.Runs
import PugPrinter.Proofs.Subtrees

/-!
The normal form of a tree. A tree is listed in pre-order, each node without its children and with
the note whether it stands in a sequence. Splicing takes exactly the wrappers that stand in a
sequence out of that list and leaves the rest of it as it is; what is left has nothing to splice, and
the number of spliced wrappers is the number of nodes that the tree has lost.
-/

set_option autoImplicit false

namespace PugPrinter.Node

def stripped : Node → Node
  | .block loc kind yields _ => .block loc kind yields []
  | .stem loc head _ => .stem loc head none
  | .fork loc head _ _ => .fork loc head none none
  | n => n

structure Place where
  /-- Whether the node stands among the nodes of a sequence. -/
  inSequence : Bool
  node : Node

/-- Whether a place holds a wrapper that stands in a sequence. -/
def Place.isSpliced (place : Place) : Bool :=
  place.inSequence && place.node.isWrapper

def Place.isKept (place : Place) : Bool :=
  !place.isSpliced

mutual

def placesBelow : Node → List Place
  | .block _ _ _ nodes => sequencePlaces nodes
  | .stem _ _ child => slotPlaces child
  | .fork _ _ first second => slotPlaces first ++ slotPlaces second
  | .leaf _ _ | .oddBlock _ _ _ _ | .stray _ => []
termination_by structural node => node

def sequencePlaces : List Node → List Place
  | [] => []
  | n :: rest => ⟨true, n.stripped⟩ :: n.placesBelow ++ sequencePlaces rest
termination_by structural nodes => nodes

def slotPlaces : Option Node → List Place
  | none => []
  | some n => ⟨false, n.stripped⟩ :: n.placesBelow
termination_by structural child => child

end

def places (root : Node) : List Place :=
  ⟨false, root.stripped⟩ :: root.placesBelow

mutual

def normalForm : Node → Node
  | .block loc kind yields nodes => .block loc kind yields ((normalForms nodes).flatMap spliced)
  | .stem loc head child => .stem loc head (normalSlot child)
  | .fork loc head first second => .fork loc head (normalSlot first) (normalSlot second)
  | .leaf loc head => .leaf loc head
  | .oddBlock loc kind yields value => .oddBlock loc kind yields value
  | .stray value => .stray value
termination_by structural node => node

def normalForms : List Node → List Node
  | [] => []
  | n :: rest => n.normalForm :: normalForms rest
termination_by structural nodes => nodes

def normalSlot : Option Node → Option Node
  | none => none
  | some n => some n.normalForm
termination_by structural child => child

end

@[simp] theorem stripped_normalForm (n : Node) : n.normalForm.stripped = n.stripped := by
  cases n <;> rfl

@[simp] theorem isWrapper_stripped (n : Node) : n.stripped.isWrapper = n.isWrapper := by
  cases n with
  | block loc kind yields nodes => cases kind <;> rfl
  | _ => rfl

@[simp] theorem isWrapper_normalForm (n : Node) : n.normalForm.isWrapper = n.isWrapper := by
  rw [← isWrapper_stripped, stripped_normalForm, isWrapper_stripped]

@[simp] theorem isKind_normalForm (kind : Kind) (n : Node) :
    n.normalForm.isKind kind = n.isKind kind := by
  cases n <;> rfl

@[simp] theorem isSequence_normalForm (n : Node) : n.normalForm.isSequence = n.isSequence := by
  simp only [isSequence, isKind_normalForm]

private theorem sequencePlaces_append (first second : List Node) :
    sequencePlaces (first ++ second) = sequencePlaces first ++ sequencePlaces second := by
  induction first with
  | nil => rfl
  | cons n first ih =>
    rw [List.cons_append, sequencePlaces, sequencePlaces, ih, List.append_assoc]

theorem spliced_of_not_wrapper {n : Node} (stays : n.isWrapper = false) : n.spliced = [n] := by
  unfold spliced
  rw [stays]
  rfl

theorem spliced_of_wrapper {n : Node} (whole : n.isWhole = true)
    (wrapper : n.isWrapper = true) :
    ∃ loc yields nodes, n = .block loc .plain yields nodes ∧ n.spliced = nodes := by
  cases n with
  | block loc kind yields nodes =>
    cases kind with
    | plain =>
      refine ⟨loc, yields, nodes, rfl, ?_⟩
      unfold spliced
      rw [if_pos wrapper]
    | named => cases wrapper
  | oddBlock => cases whole
  | _ => cases wrapper

private theorem wellFormedNodes_append (first second : List Node) :
    wellFormedNodes (first ++ second) = (wellFormedNodes first && wellFormedNodes second) := by
  induction first with
  | nil => rfl
  | cons n first ih => rw [List.cons_append, wellFormedNodes, wellFormedNodes, ih, Bool.and_assoc]

private theorem wellFormedNodes_spliced {n : Node} (formed : n.wellFormed = true) :
    wellFormedNodes n.spliced = true := by
  cases wrapper : n.isWrapper with
  | false =>
    rw [spliced_of_not_wrapper wrapper, wellFormedNodes, formed]
    rfl
  | true =>
    obtain ⟨loc, yields, nodes, rfl, left⟩ :=
      spliced_of_wrapper (isWhole_of_wellFormed n formed n n.self_mem_subtrees) wrapper
    rw [left]
    simp only [wellFormed, Bool.and_eq_true] at formed
    exact formed.2

private theorem sequencePlaces_spliced {n : Node} (formed : n.wellFormed = true) :
    sequencePlaces n.spliced =
      if n.isWrapper then n.placesBelow else ⟨true, n.stripped⟩ :: n.placesBelow := by
  cases wrapper : n.isWrapper with
  | false =>
    rw [spliced_of_not_wrapper wrapper, sequencePlaces, sequencePlaces, List.append_nil]
    rfl
  | true =>
    obtain ⟨loc, yields, nodes, rfl, left⟩ :=
      spliced_of_wrapper (isWhole_of_wellFormed n formed n n.self_mem_subtrees) wrapper
    rw [left]
    rfl

private theorem accepts_normalSlot (head : Stem) (child : Option Node) :
    head.accepts (normalSlot child) = head.accepts child := by
  cases child with
  | none => rfl
  | some n => cases head <;> simp [Stem.accepts, normalSlot]

private theorem acceptsFirst_normalSlot (head : Fork) (child : Option Node) :
    head.acceptsFirst (normalSlot child) = head.acceptsFirst child := by
  cases child with
  | none => rfl
  | some n => cases head <;> simp [Fork.acceptsFirst, normalSlot]

private theorem acceptsSecond_normalSlot (head : Fork) (child : Option Node) :
    head.acceptsSecond (normalSlot child) = head.acceptsSecond child := by
  cases child with
  | none => rfl
  | some n => cases head <;> simp [Fork.acceptsSecond, normalSlot]

mutual

theorem wellFormed_normalForm :
    ∀ n : Node, n.wellFormed = true → n.normalForm.wellFormed = true
  | .leaf _ _, formed => formed
  | .block loc kind yields nodes, formed => by
    simp only [wellFormed, Bool.and_eq_true] at formed
    simp only [normalForm, wellFormed, Bool.and_eq_true]
    exact ⟨formed.1, wellFormedNodes_normalForms nodes formed.2⟩
  | .oddBlock _ _ _ _, formed => by cases formed
  | .stem loc head child, formed => by
    simp only [wellFormed, Bool.and_eq_true] at formed
    simp only [normalForm, wellFormed, Bool.and_eq_true, accepts_normalSlot]
    exact ⟨formed.1, wellFormedSlot_normalSlot child formed.2⟩
  | .fork loc head first second, formed => by
    simp only [wellFormed, Bool.and_eq_true] at formed
    simp only [normalForm, wellFormed, Bool.and_eq_true, acceptsFirst_normalSlot,
      acceptsSecond_normalSlot]
    exact ⟨⟨formed.1.1, wellFormedSlot_normalSlot first formed.1.2⟩,
      wellFormedSlot_normalSlot second formed.2⟩
  | .stray _, formed => by cases formed
termination_by structural n => n

private theorem wellFormedNodes_normalForms :
    ∀ nodes : List Node, wellFormedNodes nodes = true →
      wellFormedNodes ((normalForms nodes).flatMap spliced) = true
  | [], _ => rfl
  | n :: rest, formed => by
    simp only [wellFormedNodes, Bool.and_eq_true] at formed
    rw [normalForms, List.flatMap_cons, wellFormedNodes_append, Bool.and_eq_true]
    exact ⟨wellFormedNodes_spliced (wellFormed_normalForm n formed.1),
      wellFormedNodes_normalForms rest formed.2⟩
termination_by structural nodes => nodes

private theorem wellFormedSlot_normalSlot :
    ∀ child : Option Node, wellFormedSlot child = true →
      wellFormedSlot (normalSlot child) = true
  | none, _ => rfl
  | some n, formed => wellFormed_normalForm n formed
termination_by structural child => child

end

private theorem isWhole_spliced {n : Node} (whole : ∀ m ∈ n.subtrees, m.isWhole = true) :
    ∀ m ∈ subtreesOfNodes n.spliced, m.isWhole = true := by
  cases wrapper : n.isWrapper with
  | false =>
    rw [spliced_of_not_wrapper wrapper]
    rw [subtreesOfNodes, subtreesOfNodes, List.append_nil]
    exact whole
  | true =>
    obtain ⟨loc, yields, nodes, rfl, left⟩ :=
      spliced_of_wrapper (whole n n.self_mem_subtrees) wrapper
    rw [left]
    exact (forall_subtrees_block.mp whole).2

mutual

theorem isWhole_normalForm :
    ∀ n : Node, (∀ m ∈ n.subtrees, m.isWhole = true) → ∀ m ∈ n.normalForm.subtrees, m.isWhole = true
  | .leaf _ _, whole => whole
  | .block loc kind yields nodes, whole => by
    obtain ⟨_, below⟩ := forall_subtrees_block.mp whole
    exact forall_subtrees_block.mpr ⟨rfl, isWhole_normalForms nodes below⟩
  | .oddBlock _ _ _ _, whole => whole
  | .stem loc head child, whole => by
    obtain ⟨_, below⟩ := forall_subtrees_stem.mp whole
    exact forall_subtrees_stem.mpr ⟨rfl, isWhole_normalSlot child below⟩
  | .fork loc head first second, whole => by
    obtain ⟨_, ofFirst, ofSecond⟩ := forall_subtrees_fork.mp whole
    exact forall_subtrees_fork.mpr
      ⟨rfl, isWhole_normalSlot first ofFirst, isWhole_normalSlot second ofSecond⟩
  | .stray _, whole => whole
termination_by structural n => n

private theorem isWhole_normalForms :
    ∀ nodes : List Node, (∀ m ∈ subtreesOfNodes nodes, m.isWhole = true) →
      ∀ m ∈ subtreesOfNodes ((normalForms nodes).flatMap spliced), m.isWhole = true
  | [], whole => whole
  | n :: rest, whole => by
    obtain ⟨ofNode, ofRest⟩ := forall_subtreesOfNodes_cons.mp whole
    rw [normalForms, List.flatMap_cons]
    exact forall_subtreesOfNodes_append.mpr
      ⟨isWhole_spliced (isWhole_normalForm n ofNode), isWhole_normalForms rest ofRest⟩
termination_by structural nodes => nodes

private theorem isWhole_normalSlot :
    ∀ child : Option Node, (∀ m ∈ subtreesOfSlot child, m.isWhole = true) →
      ∀ m ∈ subtreesOfSlot (normalSlot child), m.isWhole = true
  | none, whole => whole
  | some n, whole => isWhole_normalForm n whole
termination_by structural child => child

end

mutual

private theorem placesBelow_normalForm :
    ∀ n : Node, n.wellFormed = true →
      n.normalForm.placesBelow = n.placesBelow.filter Place.isKept
  | .leaf _ _, _ => rfl
  | .block loc kind yields nodes, formed => by
    simp only [wellFormed, Bool.and_eq_true] at formed
    exact sequencePlaces_normalForms nodes formed.2
  | .oddBlock _ _ _ _, _ => rfl
  | .stem loc head child, formed => by
    simp only [wellFormed, Bool.and_eq_true] at formed
    exact slotPlaces_normalSlot child formed.2
  | .fork loc head first second, formed => by
    simp only [wellFormed, Bool.and_eq_true] at formed
    rw [normalForm, placesBelow, placesBelow, List.filter_append,
      slotPlaces_normalSlot first formed.1.2, slotPlaces_normalSlot second formed.2]
  | .stray _, _ => rfl
termination_by structural n => n

private theorem sequencePlaces_normalForms :
    ∀ nodes : List Node, wellFormedNodes nodes = true →
      sequencePlaces ((normalForms nodes).flatMap spliced) =
        (sequencePlaces nodes).filter Place.isKept
  | [], _ => rfl
  | n :: rest, formed => by
    simp only [wellFormedNodes, Bool.and_eq_true] at formed
    have node := placesBelow_normalForm n formed.1
    rw [normalForms, List.flatMap_cons, sequencePlaces_append,
      sequencePlaces_spliced (wellFormed_normalForm n formed.1),
      sequencePlaces_normalForms rest formed.2, sequencePlaces, List.filter_append,
      List.filter_cons, node]
    -- The place of the node itself is the only one that the case distinction is about.
    cases wrapper : n.isWrapper <;> simp [Place.isKept, Place.isSpliced, wrapper]
termination_by structural nodes => nodes

private theorem slotPlaces_normalSlot :
    ∀ child : Option Node, wellFormedSlot child = true →
      slotPlaces (normalSlot child) = (slotPlaces child).filter Place.isKept
  | none, _ => rfl
  | some n, formed => by
    rw [normalSlot, slotPlaces, slotPlaces, stripped_normalForm,
      placesBelow_normalForm n formed]
    rfl
termination_by structural child => child

end

mutual

private theorem normalForm_eq_self :
    ∀ n : Node, (∀ place ∈ n.placesBelow, place.isKept = true) → n.normalForm = n
  | .leaf _ _, _ => rfl
  | .block loc kind yields nodes, kept => by
    rw [placesBelow] at kept
    rw [normalForm, normalForms_spliced_eq_self nodes kept]
  | .oddBlock _ _ _ _, _ => rfl
  | .stem loc head child, kept => by
    rw [placesBelow] at kept
    rw [normalForm, normalSlot_eq_self child kept]
  | .fork loc head first second, kept => by
    rw [placesBelow, List.forall_mem_append] at kept
    rw [normalForm, normalSlot_eq_self first kept.1, normalSlot_eq_self second kept.2]
  | .stray _, _ => rfl
termination_by structural n => n

private theorem normalForms_spliced_eq_self :
    ∀ nodes : List Node, (∀ place ∈ sequencePlaces nodes, place.isKept = true) →
      (normalForms nodes).flatMap spliced = nodes
  | [], _ => rfl
  | n :: rest, kept => by
    rw [sequencePlaces, List.forall_mem_append, List.forall_mem_cons] at kept
    obtain ⟨⟨self, inside⟩, others⟩ := kept
    have stays : n.isWrapper = false := by
      simpa [Place.isKept, Place.isSpliced] using self
    rw [normalForms, List.flatMap_cons, normalForm_eq_self n inside,
      spliced_of_not_wrapper stays, normalForms_spliced_eq_self rest others]
    rfl
termination_by structural nodes => nodes

private theorem normalSlot_eq_self :
    ∀ child : Option Node, (∀ place ∈ slotPlaces child, place.isKept = true) →
      normalSlot child = child
  | none, _ => rfl
  | some n, kept => by
    rw [slotPlaces, List.forall_mem_cons] at kept
    rw [normalSlot, normalForm_eq_self n kept.2]
termination_by structural child => child

end

private theorem wrapperTotal_append (first second : List Node) :
    wrapperTotal (first ++ second) = wrapperTotal first + wrapperTotal second := by
  induction first with
  | nil => simp [wrapperTotal]
  | cons n first ih =>
    rw [List.cons_append, wrapperTotal, wrapperTotal, ih]
    omega

private def splicing : Editor :=
  fun n => some <$> n.flatten

/-- Editing ended well with a value, and met so many wrappers on the way. -/
structure Spliced {α : Type} (run : Run Node α) (value : α) (wrappers : Nat) : Prop where
  result : run.result = .ok value
  total : wrapperTotal run.out = wrappers

private theorem Spliced.bind {α β : Type} {run : Run Node α} {next : α → Run Node β} {a : α} {b : β}
    {wrappers more : Nat} (first : Spliced run a wrappers) (second : Spliced (next a) b more) :
    Spliced (run >>= next) b (wrappers + more) where
  result := (Run.bind_result_eq_ok_iff _ _ _).mpr ⟨a, first.result, second.result⟩
  total := by
    rw [Run.bind_out_of_ok first.result, wrapperTotal_append, first.total, second.total]

private theorem consult_splicing {n new : Node} (flat : n.flatten = .ok new) :
    Spliced (consult splicing n) (some new) n.wrapperCount where
  result := by
    simp only [consult, splicing, flat]
    rfl
  total := rfl

theorem isNode_of_wellFormed {n : Node} (formed : n.wellFormed = true) : n.isNode = true := by
  cases n with
  | stray => cases formed
  | _ => rfl

theorem editFrom_block (f : Editor) (loc : Location) (kind : BlockKind) (yields : Loose Bool)
    {nodes : List Node} (areNodes : ∀ n ∈ nodes, n.isNode = true) :
    editFrom f (.block loc kind yields nodes) =
      editNodes f nodes >>= fun nodes => consult f (.block loc kind yields nodes) := by
  cases nodes with
  | nil => rfl
  | cons n rest =>
    rw [editFrom, List.any_cons, areNodes n List.mem_cons_self, Bool.true_or, if_pos rfl]

private theorem isSpliced_of_sequence (n : Node) :
    Place.isSpliced ⟨true, n.stripped⟩ = n.isWrapper := by
  rw [Place.isSpliced, isWrapper_stripped, Bool.true_and]

mutual

/-- Splicing a tree of nodes from the leaves up gives its normal form, and meets every wrapper that
stands in a sequence once. -/
private theorem editFrom_splicing :
    ∀ n : Node, (∀ m ∈ n.subtrees, m.isWhole = true) →
      Spliced (editFrom splicing n) (some n.normalForm) (n.placesBelow.countP Place.isSpliced)
  | .leaf _ _, _ => consult_splicing rfl
  | .block loc kind yields nodes, whole => by
    obtain ⟨_, below⟩ := forall_subtrees_block.mp whole
    have areNodes : ∀ n ∈ nodes, n.isNode = true :=
      fun n member => isNode_of_isWhole (below n (mem_subtreesOfNodes member))
    obtain ⟨wrappers, edited, total⟩ := editNodes_splicing nodes below
    rw [editFrom_block splicing loc kind yields areNodes, placesBelow, ← total]
    exact edited.bind (consult_splicing rfl)
  | .oddBlock loc kind yields value, whole => by
    have own := whole _ (self_mem_subtrees _)
    cases own
  | .stem loc head child, whole => by
    obtain ⟨_, below⟩ := forall_subtrees_stem.mp whole
    have edited := editSlot_splicing head.kind.name head.slot child below
    have own : Spliced (consult splicing (.stem loc head (normalSlot child)))
        (some (.stem loc head (normalSlot child))) 0 := consult_splicing rfl
    rw [editFrom, placesBelow, ← Nat.add_zero (List.countP _ _)]
    exact edited.bind own
  | .fork loc head first second, whole => by
    obtain ⟨_, ofFirst, ofSecond⟩ := forall_subtrees_fork.mp whole
    have editedFirst := editSlot_splicing head.kind.name head.firstSlot first ofFirst
    have editedSecond := editSlot_splicing head.kind.name head.secondSlot second ofSecond
    have own : Spliced (consult splicing (.fork loc head (normalSlot first) (normalSlot second)))
        (some (.fork loc head (normalSlot first) (normalSlot second))) 0 := consult_splicing rfl
    rw [editFrom, placesBelow, List.countP_append,
      ← Nat.add_zero (List.countP _ (slotPlaces second))]
    exact editedFirst.bind (editedSecond.bind own)
  | .stray value, whole => by
    have own := whole _ (self_mem_subtrees _)
    cases own
termination_by structural n => n

private theorem editNodes_splicing :
    ∀ nodes : List Node, (∀ m ∈ subtreesOfNodes nodes, m.isWhole = true) →
      ∃ wrappers, Spliced (editNodes splicing nodes) (normalForms nodes) wrappers ∧
        wrappers + (normalForms nodes).countP isWrapper =
          (sequencePlaces nodes).countP Place.isSpliced
  | [], _ => ⟨0, ⟨rfl, rfl⟩, rfl⟩
  | n :: rest, whole => by
    obtain ⟨ofNode, ofRest⟩ := forall_subtreesOfNodes_cons.mp whole
    have node := editFrom_splicing n ofNode
    obtain ⟨wrappers, others, total⟩ := editNodes_splicing rest ofRest
    refine ⟨n.placesBelow.countP Place.isSpliced + (wrappers + 0), ?_, ?_⟩
    · rw [editNodes]
      exact node.bind (others.bind ⟨rfl, rfl⟩)
    · rw [sequencePlaces, normalForms, List.countP_append, ← total, List.countP_cons,
        List.countP_cons, isSpliced_of_sequence, isWrapper_normalForm]
      omega
termination_by structural nodes => nodes

private theorem editSlot_splicing (owner field : Text) :
    ∀ child : Option Node, (∀ m ∈ subtreesOfSlot child, m.isWhole = true) →
      Spliced (editSlot splicing owner field child) (normalSlot child)
        ((slotPlaces child).countP Place.isSpliced)
  | none, _ => ⟨rfl, rfl⟩
  | some n, whole => by
    have node := editFrom_splicing n whole
    rw [editSlot, if_pos (isNode_of_isWhole (whole n n.self_mem_subtrees)), slotPlaces,
      List.countP_cons]
    exact node.bind ⟨rfl, rfl⟩
termination_by structural child => child

end

/-- Normalization gives the normal form of a tree of nodes, and the number of its places that are
spliced. -/
theorem normalize_of_whole {tree : Node} (whole : ∀ m ∈ tree.subtrees, m.isWhole = true) :
    tree.normalize = .ok (tree.normalForm, tree.placesBelow.countP Place.isSpliced) := by
  have rooted : Spliced (edit splicing tree) tree.normalForm
      (tree.placesBelow.countP Place.isSpliced + 0) :=
    (editFrom_splicing tree whole).bind ⟨rfl, rfl⟩
  show (edit splicing tree).result.map _ = _
  rw [rooted.result]
  exact congrArg (fun total => Except.ok (tree.normalForm, total)) rooted.total

theorem normalize_eq {tree : Node} (formed : tree.wellFormed = true) :
    tree.normalize = .ok (tree.normalForm, tree.placesBelow.countP Place.isSpliced) :=
  normalize_of_whole (isWhole_of_wellFormed tree formed)

private theorem places_normalForm {tree : Node} (formed : tree.wellFormed = true) :
    tree.normalForm.places = tree.places.filter Place.isKept := by
  rw [places, places, stripped_normalForm, placesBelow_normalForm tree formed]
  rfl

/-- What normalization makes of a tree: a tree without wrappers in its sequences, which is normal
itself, which has all the other nodes in the same order and as they were, and which has as many nodes
fewer as were counted. -/
structure IsSplicing (tree normal : Node) (count : Nat) : Prop where
  flat : ∀ place ∈ normal.places, place.inSequence = true → place.node.isWrapper = false
  stable : normal.normalize = .ok (normal, 0)
  order : normal.places.filter Place.isKept = tree.places.filter Place.isKept
  fewer : count + normal.places.length = tree.places.length

theorem normalForm_isSplicing {tree : Node} (formed : tree.wellFormed = true) :
    IsSplicing tree tree.normalForm (tree.placesBelow.countP Place.isSpliced) := by
  have listed := places_normalForm formed
  have kept : ∀ place ∈ tree.normalForm.places, place.isKept = true := by
    intro place member
    rw [listed] at member
    exact (List.mem_filter.mp member).2
  have keptBelow : ∀ place ∈ tree.normalForm.placesBelow, place.isKept = true := by
    intro place member
    exact kept place (List.mem_cons_of_mem _ member)
  constructor
  case flat =>
    intro place member among
    have stays := kept place member
    rw [Place.isKept, Place.isSpliced, among] at stays
    simpa using stays
  case stable =>
    have none : tree.normalForm.placesBelow.countP Place.isSpliced = 0 := by
      rw [List.countP_eq_zero]
      intro place member
      simpa [Place.isKept] using keptBelow place member
    rw [normalize_eq (wellFormed_normalForm tree formed), normalForm_eq_self _ keptBelow, none]
  case order =>
    rw [listed, List.filter_filter]
    simp only [Bool.and_self]
  case fewer =>
    have rootStays : tree.places.countP Place.isSpliced =
        tree.placesBelow.countP Place.isSpliced := List.countP_cons_of_neg Bool.false_ne_true
    have others : tree.places.countP Place.isKept = tree.normalForm.places.length := by
      rw [listed, List.countP_eq_length_filter]
    have whole := List.length_eq_countP_add_countP Place.isSpliced (l := tree.places)
    rw [whole, rootStays, ← others]
    congr 1
    apply List.countP_congr
    intro place _
    simp [Place.isKept]

/-- Normalization of a well-formed tree is the splicing of its wrappers, and nothing else. -/
theorem normalize_isSplicing {tree : Node} (formed : tree.wellFormed = true) :
    ∃ normal count, tree.normalize = .ok (normal, count) ∧ IsSplicing tree normal count :=
  ⟨_, _, normalize_eq formed, normalForm_isSplicing formed⟩

/-- A named block with a wrapper in a wrapper, a placeholder that holds a wrapper, and a tag whose
block is kept although a wrapper of it is not. -/
def wrappedSample : Node :=
  .block { line := 1 } (.named (.of "main") (.of "replace")) (.of false)
    [.block { line := 1 } .plain (.of false)
        [.leaf { line := 1 } .mixinBlock,
          .block { line := 2 } .plain (.of false) [.leaf { line := 2 } (.doctype .missing)]],
      .block { line := 3 } .plain (.of true)
        [.block { line := 3 } .plain (.of false) [.leaf { line := 3 } .mixinBlock]],
      .fork { line := 4 } (.tag { name := .of "p" })
        (some (.block { line := 4 } .plain (.of false) [.block { line := 4 } .plain (.of false) []]))
        none]

theorem normalize_isSplicing_sample :
    wrappedSample.wellFormed = true ∧ wrappedSample.placesBelow.countP Place.isSpliced = 4 ∧
      ∃ normal count, wrappedSample.normalize = .ok (normal, count) ∧
        IsSplicing wrappedSample normal count :=
  ⟨by decide, by decide, normalize_isSplicing (by decide)⟩

end PugPrinter.Node
