import PugPrinter.Edit.Sharing
import PugPrinter.Proofs.Edit.NormalForm

/-!
Editing as a fold from the leaves up. The nodes of a tree are visited in post-order, the slots of a
node one after the other, and the editing function is given each of them with its children replaced
by what has become of them. A visit is refused when the function takes out the root or the node of
a slot; editing stops at the first refused visit, and is carried out to the root if there is none.
-/

set_option autoImplicit false

namespace PugPrinter.Node

/-- Where a node stands: at the root, in a sequence, or in a slot of its owner. -/
inductive Standing where
  | root
  | sequence
  | slot (owner field : Text)

structure Visit where
  standing : Standing
  node : Node

mutual

def visitsBelow : Node → List Visit
  | .block _ _ _ nodes => sequenceVisits nodes
  | .stem _ head child => slotVisits head.kind.name head.slot child
  | .fork _ head first second =>
    slotVisits head.kind.name head.firstSlot first
      ++ slotVisits head.kind.name head.secondSlot second
  | .leaf _ _ | .oddBlock _ _ _ _ | .stray _ => []
termination_by structural node => node

def sequenceVisits : List Node → List Visit
  | [] => []
  | n :: rest => n.visitsBelow ++ ⟨.sequence, n⟩ :: sequenceVisits rest
termination_by structural nodes => nodes

def slotVisits (owner field : Text) : Option Node → List Visit
  | none => []
  | some n => n.visitsBelow ++ [⟨.slot owner field, n⟩]
termination_by structural child => child

end

def visits (root : Node) : List Visit :=
  root.visitsBelow ++ [⟨.root, root⟩]

mutual

private theorem visitsBelow_perm :
    ∀ n : Node, (n.visitsBelow.map fun visit => visit.node.stripped).Perm
      (n.placesBelow.map Place.node)
  | .block _ _ _ nodes => sequenceVisits_perm nodes
  | .stem _ head child => slotVisits_perm head.kind.name head.slot child
  | .fork _ head first second => by
    rw [visitsBelow, placesBelow, List.map_append, List.map_append]
    exact (slotVisits_perm head.kind.name head.firstSlot first).append
      (slotVisits_perm head.kind.name head.secondSlot second)
  | .leaf _ _ | .oddBlock _ _ _ _ | .stray _ => .refl []
termination_by structural n => n

private theorem sequenceVisits_perm :
    ∀ nodes : List Node, ((sequenceVisits nodes).map fun visit => visit.node.stripped).Perm
      ((sequencePlaces nodes).map Place.node)
  | [] => .refl []
  | n :: rest => by
    rw [sequenceVisits, sequencePlaces, List.map_append, List.map_append, List.map_cons,
      List.map_cons]
    have below := visitsBelow_perm n
    have others := sequenceVisits_perm rest
    exact (below.append (others.cons n.stripped)).trans List.perm_middle
termination_by structural nodes => nodes

private theorem slotVisits_perm (owner field : Text) :
    ∀ child : Option Node, ((slotVisits owner field child).map fun visit => visit.node.stripped).Perm
      ((slotPlaces child).map Place.node)
  | none => .refl []
  | some n => by
    rw [slotVisits, slotPlaces, List.map_append, List.map_cons]
    exact (visitsBelow_perm n).append_right _ |>.trans List.perm_append_comm
termination_by structural child => child

end

private theorem visits_perm (root : Node) :
    (root.visits.map fun visit => visit.node.stripped).Perm (root.places.map Place.node) := by
  rw [visits, places, List.map_append, List.map_cons]
  exact (visitsBelow_perm root).append_right _ |>.trans List.perm_append_comm

section Fold

variable (f : Node → Option Node)

def pureEditor : Editor := fun n => .ok (f n)

mutual

/-- What an editing function is given for a node: the node with its children replaced by what has
become of them. -/
def received : Node → Node
  | .block loc kind yields nodes => .block loc kind yields (editedNodes nodes)
  | .stem loc head child => .stem loc head (editedSlot child)
  | .fork loc head first second => .fork loc head (editedSlot first) (editedSlot second)
  | .leaf loc head => .leaf loc head
  | .oddBlock loc kind yields value => .oddBlock loc kind yields value
  | .stray value => .stray value
termination_by structural node => node

def editedNodes : List Node → List Node
  | [] => []
  | n :: rest => (f (received n)).toList ++ editedNodes rest
termination_by structural nodes => nodes

def editedSlot : Option Node → Option Node
  | none => none
  | some n => f (received n)
termination_by structural child => child

end

private theorem stripped_received (n : Node) : (n.received f).stripped = n.stripped := by
  cases n <;> rfl

private theorem editedNodes_eq_filterMap (nodes : List Node) :
    editedNodes f nodes = nodes.filterMap fun n => f (n.received f) := by
  induction nodes with
  | nil => rfl
  | cons n rest ih =>
    rw [editedNodes, ih, List.filterMap_cons]
    cases f (n.received f) <;> rfl

private theorem editedSlot_eq_bind (child : Option Node) :
    editedSlot f child = child.bind fun n => f (n.received f) := by
  cases child <;> rfl

def Visit.given (visit : Visit) : Node :=
  visit.node.received f

def Visit.refusal? (visit : Visit) : Option EditError :=
  match visit.standing, f (visit.given f) with
  | .root, none => some .cannotRemoveRoot
  | .slot owner field, none => some (.cannotRemove visit.node.typeName owner field)
  | _, _ => none

variable {f} in
private theorem Visit.refusal?_isSome_iff (visit : Visit) :
    (visit.refusal? f).isSome ↔ f (visit.given f) = none ∧ visit.standing ≠ .sequence := by
  obtain ⟨standing, n⟩ := visit
  cases standing <;> cases taken : f (Visit.given f ⟨_, n⟩) <;> simp [refusal?, taken]

/-- A run that makes some visits in order: all of them, and it ends with the value that is expected,
or those up to the first refused one, which stops it. -/
inductive Makes {α : Type} (visits : List Visit) (value : α) : Run Node α → Prop
  | whole (accepted : ∀ visit ∈ visits, visit.refusal? f = none) :
      Makes visits value ⟨visits.map (Visit.given f), .ok value⟩
  | stopped {before : List Visit} {visit : Visit} {after : List Visit} {error : EditError}
      (split : visits = before ++ visit :: after)
      (accepted : ∀ earlier ∈ before, earlier.refusal? f = none)
      (refused : visit.refusal? f = some error) :
      Makes visits value ⟨(before ++ [visit]).map (Visit.given f), .error (.edit error)⟩

variable {f}

private theorem makes_nothing {α : Type} (value : α) : Makes f [] value (pure value) :=
  .whole (by simp)

private theorem Makes.bind {α β : Type} {first second : List Visit} {a : α} {b : β}
    {run : Run Node α} (begins : Makes f first a run) (next : α → Run Node β)
    (goesOn : Makes f second b (next a)) :
    Makes f (first ++ second) b (run >>= next) := by
  cases begins with
  | stopped split accepted refused =>
    subst split
    exact .stopped (List.append_assoc _ _ _) accepted refused
  | whole accepted =>
    generalize nextRun : next a = rest at goesOn
    cases goesOn with
    | whole others =>
      have both : Makes f (first ++ second) b _ :=
        .whole (List.forall_mem_append.mpr ⟨accepted, others⟩)
      rw [List.map_append] at both
      simpa [Run.bind_def, Run.andThen, nextRun] using both
    | @stopped before visit after error split others refused =>
      have whole : first ++ second = (first ++ before) ++ visit :: after := by
        rw [split, List.append_assoc]
      have both : Makes f (first ++ second) b _ :=
        .stopped whole (List.forall_mem_append.mpr ⟨accepted, others⟩) refused
      rw [List.append_assoc, List.map_append] at both
      simpa [Run.bind_def, Run.andThen, nextRun] using both

private theorem Makes.map {α β : Type} {visits : List Visit} {a : α} {run : Run Node α}
    (made : Makes f visits a run) (g : α → β) :
    Makes f visits (g a) (run >>= fun a => pure (g a)) := by
  have whole := made.bind (fun a => pure (g a)) (makes_nothing (g a))
  rwa [List.append_nil] at whole

/-- Editing a node makes the visits below it, and then consults the function on what it is given for
the node itself. -/
def EditsBelow (f : Node → Option Node) (n : Node) : Prop :=
  ∃ below : Run Node Node, Makes f n.visitsBelow (n.received f) below ∧
    editFrom (pureEditor f) n = below >>= consult (pureEditor f)

private theorem EditsBelow.inSequence {n : Node} (edits : EditsBelow f n) :
    Makes f (n.visitsBelow ++ [⟨.sequence, n⟩]) (f (n.received f))
      (editFrom (pureEditor f) n) := by
  obtain ⟨below, made, same⟩ := edits
  rw [same]
  refine made.bind _ (.whole ?_)
  simp [Visit.refusal?]

private theorem EditsBelow.kept {n : Node} {standing : Standing} {error : EditError} {α : Type}
    {value : α} (edits : EditsBelow f n) (keep : Node → α)
    (refusal : Visit.refusal? f ⟨standing, n⟩ = if (f (n.received f)).isSome then none else error)
    (isKept : ∀ new, f (n.received f) = some new → value = keep new) :
    Makes f (n.visitsBelow ++ [⟨standing, n⟩]) value
      (editFrom (pureEditor f) n >>= fun new =>
        match new with
        | some new => pure (keep new)
        | none => .fail (.edit error)) := by
  obtain ⟨below, made, same⟩ := edits
  rw [same, Run.bind_assoc]
  refine made.bind _ ?_
  cases result : f (n.received f) with
  | none =>
    have refused : Visit.refusal? f ⟨standing, n⟩ = some error := by simpa [result] using refusal
    have only : [Visit.mk standing n] = [] ++ ⟨standing, n⟩ :: [] := rfl
    have stops : Makes f [⟨standing, n⟩] value _ := .stopped only nofun refused
    simpa [consult, pureEditor, Run.bind_def, Run.andThen, result, Run.fail, Visit.given] using stops
  | some new =>
    have accepted : Visit.refusal? f ⟨standing, n⟩ = none := by simpa [result] using refusal
    have goes : Makes f [⟨standing, n⟩] value _ := .whole (by simpa using accepted)
    rw [isKept new result] at goes ⊢
    simpa [consult, pureEditor, Run.bind_def, Run.andThen, result, pure, Run.done, Visit.given]
      using goes

private theorem EditsBelow.inSlot {n : Node} (edits : EditsBelow f n) (isNode : n.isNode = true)
    (owner field : Text) :
    Makes f (slotVisits owner field (some n)) (editedSlot f (some n))
      (editSlot (pureEditor f) owner field (some n)) := by
  rw [editSlot, if_pos isNode]
  refine edits.kept some ?_ fun new result => by rw [editedSlot, result]
  rw [Visit.refusal?, Visit.given]
  cases f (n.received f) <;> rfl

private theorem EditsBelow.atRoot {n : Node} (edits : EditsBelow f n) :
    Makes f n.visits ((f (n.received f)).getD n) (edit (pureEditor f) n) := by
  refine edits.kept id ?_ fun new result => by rw [result]; rfl
  rw [Visit.refusal?, Visit.given]
  cases f (n.received f) <;> rfl

mutual

private theorem editsBelow :
    ∀ n : Node, n.wellFormed = true → EditsBelow f n
  | .leaf loc head, _ => ⟨pure (.leaf loc head), makes_nothing _, rfl⟩
  | .block loc kind yields nodes, formed => by
    simp only [wellFormed, Bool.and_eq_true] at formed
    have made := editNodes_makes nodes formed.2
    refine ⟨_, made.map (Node.block loc kind yields), ?_⟩
    have areNodes : ∀ n ∈ nodes, n.isNode = true :=
      fun n member => isNode_of_wellFormed (wellFormedNodes_iff.mp formed.2 n member)
    rw [editFrom_block (pureEditor f) loc kind yields areNodes, Run.bind_assoc]
    rfl
  | .oddBlock _ _ _ _, formed => by cases formed
  | .stem loc head child, formed => by
    simp only [wellFormed, Bool.and_eq_true] at formed
    have made := editSlot_makes head.kind.name head.slot child formed.2
    refine ⟨_, made.map (Node.stem loc head), ?_⟩
    rw [editFrom, Run.bind_assoc]
    rfl
  | .fork loc head first second, formed => by
    simp only [wellFormed, Bool.and_eq_true] at formed
    have madeFirst := editSlot_makes head.kind.name head.firstSlot first formed.1.2
    have madeSecond := editSlot_makes head.kind.name head.secondSlot second formed.2
    refine ⟨_, madeFirst.bind (fun newFirst =>
      editSlot (pureEditor f) head.kind.name head.secondSlot second >>= fun newSecond =>
        pure (.fork loc head newFirst newSecond)) (madeSecond.map _), ?_⟩
    simp only [editFrom, Run.bind_assoc]
    rfl
  | .stray _, formed => by cases formed
termination_by structural n => n

private theorem editNodes_makes :
    ∀ nodes : List Node, wellFormedNodes nodes = true →
      Makes f (sequenceVisits nodes) (editedNodes f nodes) (editNodes (pureEditor f) nodes)
  | [], _ => makes_nothing _
  | n :: rest, formed => by
    simp only [wellFormedNodes, Bool.and_eq_true] at formed
    have node := (editsBelow n formed.1).inSequence
    have others := editNodes_makes rest formed.2
    have both := node.bind (fun new =>
      editNodes (pureEditor f) rest >>= fun more => pure (new.toList ++ more)) (others.map _)
    rwa [List.append_assoc] at both
termination_by structural nodes => nodes

private theorem editSlot_makes (owner field : Text) :
    ∀ child : Option Node, wellFormedSlot child = true →
      Makes f (slotVisits owner field child) (editedSlot f child)
        (editSlot (pureEditor f) owner field child)
  | none, _ => makes_nothing _
  | some n, formed => (editsBelow n formed).inSlot (isNode_of_wellFormed formed) owner field
termination_by structural child => child

end

end Fold

section Sharing

variable {same : Node → Node → Bool}

private theorem keptSequence_eq (sound : ∀ a b, same a b = true → a = b)
    (old new : List Node) : keptSequence same old new = new := by
  unfold keptSequence
  split
  · rfl
  case isFalse unchanged =>
    rw [Bool.not_eq_true, Bool.or_eq_false_iff, bne_eq_false_iff_eq, List.any_eq_false] at unchanged
    obtain ⟨length, pairs⟩ := unchanged
    refine List.ext_getElem length.symm fun i inOld inNew => ?_
    have both : i < (new.zip old).length := by
      rw [List.length_zip, length, Nat.min_self]
      exact inOld
    have pair := pairs _ (List.getElem_mem both)
    rw [List.getElem_zip, Bool.not_eq_true, Bool.not_eq_false'] at pair
    exact (sound _ _ pair).symm

private theorem keptSlot_eq (sound : ∀ a b, same a b = true → a = b)
    (old new : Option Node) : keptSlot same old new = new := by
  cases old <;> cases new <;> try rfl
  case some.some old new =>
    rw [keptSlot]
    split
    · rw [sound new old ‹_›]
    · rfl

variable (f : Editor)

mutual

private theorem editSharingFrom_eq (sound : ∀ a b, same a b = true → a = b) :
    ∀ n : Node, editSharingFrom same f n = editFrom f n
  | .leaf _ _ | .oddBlock _ _ _ _ | .stray _ => rfl
  | .block loc kind yields nodes => by
    simp only [editSharingFrom, editFrom, editSharingNodes_eq sound nodes, keptSequence_eq sound]
  | .stem loc head child => by
    simp only [editSharingFrom, editFrom, editSharingSlot_eq sound _ _ child, keptSlot_eq sound]
  | .fork loc head first second => by
    simp only [editSharingFrom, editFrom, editSharingSlot_eq sound _ _ first,
      editSharingSlot_eq sound _ _ second, keptSlot_eq sound]
termination_by structural n => n

private theorem editSharingNodes_eq (sound : ∀ a b, same a b = true → a = b) :
    ∀ nodes : List Node, editSharingNodes same f nodes = editNodes f nodes
  | [] => rfl
  | n :: rest => by
    rw [editSharingNodes, editNodes, editSharingFrom_eq sound n, editSharingNodes_eq sound rest]
termination_by structural nodes => nodes

private theorem editSharingSlot_eq (sound : ∀ a b, same a b = true → a = b)
    (owner field : Text) :
    ∀ child : Option Node,
      editSharingSlot same f owner field child = editSlot f owner field child
  | none => rfl
  | some n => by
    rw [editSharingSlot, editSharingFrom_eq sound n]
    rfl
termination_by structural child => child

end

private theorem editSharing_eq (sound : ∀ a b, same a b = true → a = b)
    (root : Node) : editSharing same f root = edit f root := by
  rw [editSharing, editSharingFrom_eq f sound root]
  rfl

end Sharing

/-- A fold of a tree from the leaves up by a pure function, as it is carried out by a run that puts
out what the function was given. -/
structure IsFold (f : Node → Option Node) (root : Node) (run : Run Node Node) : Prop where
  once : (root.visits.map fun visit => visit.node.stripped).Perm (root.places.map Place.node)
  fields : ∀ n : Node, (n.received f).stripped = n.stripped
  sequence : ∀ loc kind yields nodes, received f (.block loc kind yields nodes) =
    .block loc kind yields (nodes.filterMap fun n => f (n.received f))
  slot : ∀ loc head child, received f (.stem loc head child) =
    .stem loc head (child.bind fun n => f (n.received f))
  slots : ∀ loc head first second, received f (.fork loc head first second) =
    .fork loc head (first.bind fun n => f (n.received f)) (second.bind fun n => f (n.received f))
  settles : (∀ visit ∈ root.visits, visit.refusal? f = none) →
    ∃ new, f (root.received f) = some new ∧ run = ⟨root.visits.map (Visit.given f), .ok new⟩
  stops : ∀ before visit after error, root.visits = before ++ visit :: after →
    (∀ earlier ∈ before, earlier.refusal? f = none) → visit.refusal? f = some error →
      run = ⟨(before ++ [visit]).map (Visit.given f), .error (.edit error)⟩
  refuses : (∃ error, run.result = .error (.edit error)) ↔
    ∃ visit ∈ root.visits, f (visit.given f) = none ∧ visit.standing ≠ .sequence

private theorem first_refused_unique {f : Node → Option Node} :
    ∀ {before before' after after' : List Visit} {visit visit' : Visit} {error error' : EditError},
      before ++ visit :: after = before' ++ visit' :: after' →
      (∀ earlier ∈ before, earlier.refusal? f = none) → visit.refusal? f = some error →
      (∀ earlier ∈ before', earlier.refusal? f = none) → visit'.refusal? f = some error' →
        before = before' ∧ visit = visit'
  | [], [], _, _, _, _, _, _, split, _, _, _, _ => ⟨rfl, (List.cons.inj split).1⟩
  | [], passed :: _, _, _, _, _, _, _, split, _, refused, accepted, _ => by
    obtain ⟨rfl, -⟩ := List.cons.inj split
    rw [accepted _ List.mem_cons_self] at refused
    cases refused
  | passed :: _, [], _, _, _, _, _, _, split, accepted, _, _, refused => by
    obtain ⟨rfl, -⟩ := List.cons.inj split
    rw [accepted _ List.mem_cons_self] at refused
    cases refused
  | passed :: _, passed' :: _, _, _, _, _, _, _, split, accepted, refused, accepted', refused' => by
    obtain ⟨rfl, rest⟩ := List.cons.inj split
    obtain ⟨rfl, same⟩ := first_refused_unique rest (fun visit mem => accepted visit (.tail _ mem))
      refused (fun visit mem => accepted' visit (.tail _ mem)) refused'
    exact ⟨rfl, same⟩

private theorem Makes.isFold {f : Node → Option Node} {root value : Node} {run : Run Node Node}
    (made : Makes f root.visits value run)
    (isValue : ∀ new, f (root.received f) = some new → value = new) : IsFold f root run where
  once := visits_perm root
  fields := stripped_received f
  sequence loc kind yields nodes := by rw [received, editedNodes_eq_filterMap]
  slot loc head child := by rw [received, editedSlot_eq_bind]
  slots loc head first second := by rw [received, editedSlot_eq_bind, editedSlot_eq_bind]
  settles accepted := by
    cases made with
    | whole _ =>
      have stays := accepted ⟨.root, root⟩ (List.mem_append_right _ (List.mem_singleton_self _))
      cases result : f (root.received f) with
      | none => simp [Visit.refusal?, Visit.given, result] at stays
      | some new => exact ⟨new, rfl, by rw [isValue new result]⟩
    | stopped split _ refused =>
      rw [accepted _ (by rw [split]; exact List.mem_append_right _ List.mem_cons_self)] at refused
      cases refused
  stops before visit after error split accepted refused := by
    cases made with
    | whole others =>
      rw [others visit (by rw [split]; exact List.mem_append_right _ List.mem_cons_self)] at refused
      cases refused
    | stopped split' accepted' refused' =>
      obtain ⟨rfl, rfl⟩ :=
        first_refused_unique (split.symm.trans split') accepted refused accepted' refused'
      obtain rfl := Option.some.inj (refused.symm.trans refused')
      rfl
  refuses := by
    simp only [← Visit.refusal?_isSome_iff]
    cases made with
    | whole accepted =>
      constructor
      · rintro ⟨error, stopped⟩
        cases stopped
      · rintro ⟨visit, mem, refused⟩
        rw [accepted visit mem] at refused
        cases refused
    | stopped split _ refused =>
      refine ⟨fun _ => ⟨_, ?_, Option.isSome_of_mem refused⟩, fun _ => ⟨_, rfl⟩⟩
      rw [split]
      exact List.mem_append_right _ List.mem_cons_self

/-- Editing a well-formed tree by a pure function is the fold of the tree from the leaves up, and so
is editing that keeps what stays the same. -/
theorem edit_isFold (f : Node → Option Node) {root : Node} (formed : root.wellFormed = true) :
    IsFold f root (edit (pureEditor f) root) ∧
      ∀ same : Node → Node → Bool, (∀ a b, same a b = true → a = b) →
        IsFold f root (editSharing same (pureEditor f) root) := by
  have folds : IsFold f root (edit (pureEditor f) root) :=
    (editsBelow root formed).atRoot.isFold fun new result => by rw [result]; rfl
  refine ⟨folds, fun same sound => ?_⟩
  rw [editSharing_eq _ sound]
  exact folds

/-- Takes the nodes of a kind out, and leaves all others as they are. -/
def without (kind : Kind) : Node → Option Node :=
  fun n => if n.isKind kind then none else some n

/-- A comment beside a node with a slot, and a tag that holds another comment. -/
def foldSample : Node :=
  .block { line := 1 } .plain (.of false)
    [.leaf { line := 1 } (.comment (.of " layout") (.of true)),
      .stem { line := 2 } .extending (some (.leaf { line := 2 } (.fileReference (.of "page.pug")))),
      .fork { line := 3 } (.tag { name := .of "p" })
        (some (.block { line := 3 } .plain (.of false)
          [.leaf { line := 3 } (.text (.of "a") (.of false)),
            .leaf { line := 3 } (.comment (.of " b") (.of false))])) none]

/-- Comments can be taken out, the file of a node that needs one cannot. -/
theorem edit_isFold_samples :
    foldSample.wellFormed = true ∧
      (foldSample.visits.all fun visit => (visit.refusal? (without .comment)).isNone) = true ∧
      IsFold (without .comment) foldSample (edit (pureEditor (without .comment)) foldSample) ∧
      (foldSample.visits.map fun visit => (visit.refusal? (without .fileReference)).isSome) =
        [false, true, false, false, false, false, false, false] ∧
      IsFold (without .fileReference) foldSample
        (edit (pureEditor (without .fileReference)) foldSample) :=
  ⟨by decide, by decide, (edit_isFold (without .comment) (by decide)).1, by decide,
    (edit_isFold (without .fileReference) (by decide)).1⟩

end PugPrinter.Node
