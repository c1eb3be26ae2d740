import PugPrinter.Proofs.Emit.Causes
import PugPrinter.Source

/-!
What stops the printing of a tree, whether it is well-formed or not. Printing knows three kinds of
faults: errors of the tree, a whole number in an attribute that is too long to be written, and shapes
that nothing is defined for. Options, edits and the text of a document have no part in it. Each error of
the tree is the refusal of one of its nodes, and is about that node.
-/

set_option autoImplicit false

namespace PugPrinter

namespace Node

variable {n : Node} {child : Option Node} {fault : Fault}

private theorem exists_refusal_of_mem_rawFaults (whole : ∀ c ∈ child.toList, c.isWhole = true)
    (member : fault ∈ rawFaults child) :
    ∃ m ∈ subtreesOfSlot child, ∃ error, fault = .tree error ∧ m.Refuses error := by
  obtain ⟨c, inBlock, rfl⟩ := List.mem_map.mp member
  obtain ⟨inBlock, notRaw⟩ := List.mem_filter.mp inBlock
  cases child with
  | none => cases inBlock
  | some block =>
    cases block with
    | block loc kind yields nodes =>
      refine ⟨c, List.mem_cons_of_mem _ (mem_subtreesOfNodes inBlock), _, rfl, ?_⟩
      exact .rawLine (by simpa using notRaw) _
    | oddBlock | stray => cases whole _ List.mem_cons_self
    | _ => cases inBlock

private theorem exists_refusal_of_mem_contentFaults (whole : ∀ c ∈ n.children, c.isWhole = true)
    (member : fault ∈ n.contentFaults) :
    ∃ m ∈ n.subtrees, ∃ error, fault = .tree error ∧ m.Refuses error := by
  unfold contentFaults at member
  split at member
  · next loc val isHtml =>
    split at member
    · rename_i isOn
      exact ⟨_, self_mem_subtrees _, _, List.mem_singleton.mp member, .html loc val isOn⟩
    · cases member
  · next child =>
    obtain ⟨m, below, refused⟩ := exists_refusal_of_mem_rawFaults whole member
    exact ⟨m, List.mem_cons_of_mem _ below, refused⟩
  · next loc name attrs child =>
    unfold filterFaults at member
    split at member
    · cases member
    · next first rest children =>
      split at member
      · rename_i isFilter
        cases rest with
        | nil => cases member
        | cons second rest =>
          refine ⟨_, self_mem_subtrees _, _, List.mem_singleton.mp member, .chain ?_⟩
          rw [overfillsChain, children]
          exact isFilter
      · obtain ⟨m, below, refused⟩ := exists_refusal_of_mem_rawFaults whole member
        exact ⟨m, List.mem_cons_of_mem _ below, refused⟩
  · cases member

end Node

def Fault.IsOfPrinting : Fault → Prop
  | .tree _ => True
  | .integerTooLong _ => True
  | .unsupportedShape => True
  | _ => False

/-- Faults that have to do with values and not with nodes are allowed. -/
structure Fault.AllowsValues (allowed : Fault → Prop) : Prop where
  shape : allowed .unsupportedShape
  long : allowed (.integerTooLong none)

def AllowsRefusals (allowed : Fault → Prop) (nodes : List Node) : Prop :=
  ∀ n ∈ nodes, ∀ error, n.Refuses error → allowed (.tree error)

open Run Emission Fault

variable {allowed : Fault → Prop}

private theorem emit_allowed (values : AllowsValues allowed) (style : Style) (n : Node)
    (refusals : AllowsRefusals allowed n.subtrees) (spot : Spot) :
    (emit style spot n).FailsOnly allowed := by
  refine emit_failsOnly_of_causes allowed style n (fun m member => ?_) spot
  refine ⟨.inr values.shape, fun error _ => refusals m member error, fun _ => values.long,
    fun whole fault own => ?_⟩
  obtain ⟨k, below, error, rfl, refused⟩ := Node.exists_refusal_of_mem_contentFaults whole own
  exact refusals k (Node.subtrees_trans member below) error refused

section Normalizing

def Keeps (run : Run Node (Option Node)) : Prop :=
  run.FailsOnly (fun fault => fault = .unsupportedShape) ∧
    ∀ new, run.result = .ok new → new.isSome = true

private theorem consult_flatten_keeps (n : Node) :
    Keeps (Node.consult (fun n => some <$> n.flatten) n) := by
  have asked : Node.consult (fun n => some <$> n.flatten) n = ⟨[n], some <$> n.flatten⟩ := rfl
  have flattened : (∃ new, n.flatten = .ok new) ∨ n.flatten = .error .unsupportedShape := by
    cases n with
    | oddBlock loc kind yields value =>
      simp only [Node.flatten]
      split
      · exact .inl ⟨_, rfl⟩
      · exact .inr rfl
    | _ => exact .inl ⟨_, rfl⟩
  rcases flattened with ⟨new, isNew⟩ | stopped
  · rw [asked, isNew]
    exact ⟨failsOnly_of_ok rfl, fun other same => by cases same; rfl⟩
  · rw [asked, stopped]
    exact ⟨fun fault same => by cases same; rfl, nofun⟩

private theorem Keeps.after {α : Type} {first : Run Node α} {next : α → Run Node (Option Node)}
    (only : first.FailsOnly fun fault => fault = .unsupportedShape) (keeps : ∀ a, Keeps (next a)) :
    Keeps (first >>= next) := by
  refine ⟨only.bind fun a _ => (keeps a).1, fun new ended => ?_⟩
  obtain ⟨a, _, later⟩ := (bind_result_eq_ok_iff first next new).mp ended
  exact (keeps a).2 new later

mutual

private theorem editFrom_keeps : ∀ n : Node, Keeps (Node.editFrom (fun n => some <$> n.flatten) n)
  | .leaf _ _ => consult_flatten_keeps _
  | .oddBlock _ _ _ _ => consult_flatten_keeps _
  | .block loc kind yields nodes => by
    rw [Node.editFrom]
    split
    · exact Keeps.after (editNodes_keeps nodes) fun _ => consult_flatten_keeps _
    · exact Keeps.after (failsOnly_pure nodes) fun _ => consult_flatten_keeps _
  | .stem loc head child => by
    rw [Node.editFrom]
    exact Keeps.after (editSlot_keeps _ _ child) fun _ => consult_flatten_keeps _
  | .fork loc head first second => by
    rw [Node.editFrom]
    exact Keeps.after (editSlot_keeps _ _ first) fun _ =>
      Keeps.after (editSlot_keeps _ _ second) fun _ => consult_flatten_keeps _
  | .stray _ => ⟨failsOnly_fail rfl, nofun⟩
termination_by structural n => n

private theorem editNodes_keeps : ∀ nodes : List Node,
    (Node.editNodes (fun n => some <$> n.flatten) nodes).FailsOnly
      fun fault => fault = .unsupportedShape
  | [] => failsOnly_of_ok rfl
  | n :: rest => by
    rw [Node.editNodes]
    exact (editFrom_keeps n).1.bind fun _ _ => (editNodes_keeps rest).bind fun _ _ =>
      failsOnly_pure _
termination_by structural nodes => nodes

private theorem editSlot_keeps (owner field : Text) : ∀ child : Option Node,
    (Node.editSlot (fun n => some <$> n.flatten) owner field child).FailsOnly
      fun fault => fault = .unsupportedShape
  | none => failsOnly_of_ok rfl
  | some n => by
    obtain ⟨only, kept⟩ := editFrom_keeps n
    rw [Node.editSlot]
    refine FailsOnly.ite (fun _ => only.bind fun new ended => ?_) fun _ => failsOnly_of_ok rfl
    have isNode := kept new ended
    cases new with
    | none => cases isNode
    | some node => exact failsOnly_pure _
termination_by structural child => child

end

private theorem normalize_error {tree : Node} {fault : Fault}
    (stopped : tree.normalize = .error fault) :
    fault = .unsupportedShape := by
  obtain ⟨only, kept⟩ := editFrom_keeps tree
  have editOnly : (Node.edit (fun n => some <$> n.flatten) tree).FailsOnly
      fun fault => fault = .unsupportedShape := by
    refine only.bind fun new ended => ?_
    have isNode := kept new ended
    cases new with
    | none => cases isNode
    | some node => exact failsOnly_pure _
  apply editOnly
  unfold Node.normalize at stopped
  cases ended : (Node.edit (fun n => some <$> n.flatten) tree).result with
  | ok new => simp only [ended] at stopped; cases stopped
  | error other => simp only [ended] at stopped; cases stopped; rfl

end Normalizing

/-- Whatever the tree, printing it is stopped only by faults of values and by refusals of the nodes of its
normal form. -/
theorem sourceOfTree_allowed (values : AllowsValues allowed) (config : Config) {tree : Node}
    (refusals : ∀ root count, tree.normalize = .ok (root, count) →
      AllowsRefusals allowed root.subtrees) : (sourceOfTree config tree).FailsOnly allowed := by
  unfold sourceOfTree Printer.ofTree
  cases normal : tree.normalize with
  | error fault =>
    rw [normalize_error normal]
    exact (failsOnly_fail values.shape).bind fun _ prepared => nomatch prepared
  | ok new =>
    obtain ⟨root, count⟩ := new
    refine FailsOnly.bind (failsOnly_of_ok rfl) fun p prepared => ?_
    cases prepared
    have pieces : (Printer.pieces { config, root }).FailsOnly allowed :=
      emit_allowed values _ root (refusals root count normal) _
    have writable : (Printer.writable { config, root }).FailsOnly allowed := by
      unfold Printer.writable
      split
      · exact pieces
      · unfold Printer.withoutUnit
        exact FailsOnly.ite (fun _ => fun fault same => by cases same; exact values.shape)
          fun _ => pieces
    intro fault stopped
    unfold Printer.print at stopped
    cases ended : (Printer.writable { config, root }).result with
    | ok _ => simp only [ended] at stopped; cases stopped
    | error other =>
      simp only [ended] at stopped
      cases stopped
      exact writable _ ended

theorem sourceOfTree_printing (config : Config) (tree : Node) :
    (sourceOfTree config tree).FailsOnly Fault.IsOfPrinting :=
  sourceOfTree_allowed ⟨trivial, trivial⟩ config fun _ _ _ _ _ _ _ => trivial

end PugPrinter
