import PugPrinter.Proofs.Edit.NormalForm
import PugPrinter.Proofs.Emit.AnyTree

/-!
What the errors of a tree are about. An error is always the refusal of a node that is printed, that is, of a
node of the normal form. A tree that is made of nodes stays so in normal form, so that the error has the
name of the type and the place of that node. Slots may be empty, also those that need a child, and bare
nodes may stand anywhere.
-/

set_option autoImplicit false

namespace PugPrinter

/-- An error names a node: it has the name of its type and its place, which is a line and a file. -/
def TreeError.Names (error : TreeError) (n : Node) : Prop :=
  ∃ loc, n.location? = some loc ∧ error.subject = ⟨some n.typeName, some loc⟩

namespace Node

private theorem Refuses.subject_eq {n : Node} {error : TreeError} (refusal : n.Refuses error)
    (whole : n.isWhole = true) : error.subject = n.subject := by
  -- What the refusals of a node that is made of nodes are about is the node itself, also where a
  -- child of it is missing.
  cases refusal with
  | item first => cases whole
  | _ => rfl

/-- The refusals of a node that is made of nodes name it. -/
private theorem Refuses.names {n : Node} {error : TreeError} (refusal : n.Refuses error)
    (whole : n.isWhole = true) : error.Names n := by
  have shown := refusal.subject_eq whole
  cases n with
  | oddBlock | stray => cases whole
  | _ => exact ⟨_, rfl, shown⟩

end Node

private def Fault.IsRefusedIn (tree : Node) (fault : Fault) : Prop :=
  ∀ error, fault = .tree error →
    ∃ root count, tree.normalize = .ok (root, count) ∧ ∃ n ∈ root.subtrees, n.Refuses error

section

variable {config : Config} {tree : Node} {error : TreeError}
  (raised : (sourceOfTree config tree).result = .error (.tree error))

include raised

private theorem exists_refusal_of_error :
    ∃ root count, tree.normalize = .ok (root, count) ∧ ∃ n ∈ root.subtrees, n.Refuses error := by
  have values : Fault.AllowsValues (Fault.IsRefusedIn tree) :=
    ⟨fun _ same => (nomatch same), fun _ same => (nomatch same)⟩
  have only : (sourceOfTree config tree).FailsOnly (Fault.IsRefusedIn tree) := by
    refine sourceOfTree_allowed values config ?_
    intro root count normal n member error refusal other same
    cases same
    exact ⟨root, count, normal, n, member, refusal⟩
  exact only _ raised error rfl

/-- An error of a tree that is made of nodes names the node of the normal form that causes it. -/
theorem error_names_node (whole : ∀ n ∈ tree.subtrees, n.isWhole = true) :
    ∃ root count, tree.normalize = .ok (root, count) ∧
      ∃ n ∈ root.subtrees, n.Refuses error ∧ error.Names n := by
  obtain ⟨root, count, normal, n, member, refusal⟩ := exists_refusal_of_error raised
  have isNormal : root = tree.normalForm := by
    rw [Node.normalize_of_whole whole] at normal
    cases normal
    rfl
  have isWhole : n.isWhole = true := by
    subst isNormal
    exact Node.isWhole_normalForm tree whole n member
  exact ⟨root, count, normal, n, member, refusal, refusal.names isWhole⟩

end

/-- A loop whose alternative is a bare node, in a block that normalizing takes away. The alternative is
printed without a parent to tell of. -/
def bareAlternative : Node :=
  .block { line := 1 } .plain (.of false)
    [.block { line := 1 } .plain (.of false)
      [.fork { line := 2 } (.each (.of ("item" : Text)) (.of ("items" : Text)) (.of []))
        (some (.block { line := 2 } .plain (.of false) []))
        (some (.leaf { line := 4, filename := some ("index.pug" : Text) } .bare))]]

def blocklessFilter : Node :=
  .stem { line := 1 } (.filter (.of ("outer" : Text)) (.of []))
    (some (.block { line := 1 } .plain (.of false)
      [.stem { line := 3 } (.filter (.of ("inner" : Text)) (.of [])) none]))

theorem error_names_node_samples :
    (∃ root count, bareAlternative.normalize = .ok (root, count) ∧ ∃ n ∈ root.subtrees,
        n.Refuses (.unsupportedType ⟨some "Node", some { line := 4, filename := some "index.pug" }⟩ {}) ∧
          TreeError.Names
            (.unsupportedType ⟨some "Node", some { line := 4, filename := some "index.pug" }⟩ {}) n) ∧
      ∃ root count, blocklessFilter.normalize = .ok (root, count) ∧ ∃ n ∈ root.subtrees,
        n.Refuses (.missingNode ⟨some "Filter", some { line := 3 }⟩ (some "block")) ∧
          TreeError.Names (.missingNode ⟨some "Filter", some { line := 3 }⟩ (some "block")) n :=
  ⟨error_names_node (show (sourceOfTree .standard bareAlternative).result = _ from rfl) (by decide),
    error_names_node (show (sourceOfTree .standard blocklessFilter).result = _ from rfl) (by decide)⟩

end PugPrinter
