import PugPrinter.Proofs.Emit.Moved
import PugPrinter.Proofs.Printing

/-!
The source of a tree whose lines are moved. Normalization keeps the place of every node, and the
pieces of the normal form do not change when all of its lines move together, so the printed text
depends on the differences of lines only, and not on columns and files at all.
-/

set_option autoImplicit false

namespace PugPrinter

namespace Node

variable (k : Int)

private theorem isWrapper_moved (n : Node) : (n.moved k).isWrapper = n.isWrapper := by
  cases n with
  | block loc kind yields nodes => cases kind <;> rfl
  | oddBlock loc kind yields value => cases kind <;> rfl
  | _ => rfl

private theorem spliced_moved (n : Node) : (n.moved k).spliced = n.spliced.map (moved k) := by
  unfold spliced
  rw [isWrapper_moved]
  split
  · cases n with
    | block loc kind yields nodes => exact movedNodes_eq_map k nodes
    | oddBlock loc kind yields value =>
      simp only [moved, List.map_map]
      rfl
    | _ => rfl
  · rfl

mutual

private theorem normalForm_moved : ∀ n : Node, (n.moved k).normalForm = n.normalForm.moved k
  | .leaf _ _ => rfl
  | .block loc kind yields nodes => by
    rw [moved, normalForm, normalForm, moved, normalForms_moved nodes, movedNodes_eq_map]
  | .oddBlock _ _ _ _ => rfl
  | .stem loc head child => by
    rw [moved, normalForm, normalForm, moved, normalSlot_moved child]
  | .fork loc head first second => by
    rw [moved, normalForm, normalForm, moved, normalSlot_moved first, normalSlot_moved second]
  | .stray _ => rfl
termination_by structural n => n

private theorem normalForms_moved : ∀ nodes : List Node,
    (normalForms (movedNodes k nodes)).flatMap spliced =
      ((normalForms nodes).flatMap spliced).map (moved k)
  | [] => rfl
  | n :: rest => by
    rw [movedNodes, normalForms, normalForms, List.flatMap_cons, List.flatMap_cons, List.map_append,
      normalForm_moved n, spliced_moved, normalForms_moved rest]
termination_by structural nodes => nodes

private theorem normalSlot_moved : ∀ child : Option Node,
    normalSlot (movedSlot k child) = movedSlot k (normalSlot child)
  | none => rfl
  | some n => congrArg some (normalForm_moved n)
termination_by structural child => child

end

private theorem isSequence_moved (n : Node) : (n.moved k).isSequence = n.isSequence := by
  simp only [isSequence, isKind_moved]

private theorem accepts_movedSlot (head : Stem) (child : Option Node) :
    head.accepts (movedSlot k child) = head.accepts child := by
  cases child with
  | none => rfl
  | some n => cases head <;> simp [Stem.accepts, movedSlot, isSequence_moved]

private theorem acceptsFirst_movedSlot (head : Fork) (child : Option Node) :
    head.acceptsFirst (movedSlot k child) = head.acceptsFirst child := by
  cases child with
  | none => rfl
  | some n => cases head <;> simp [Fork.acceptsFirst, movedSlot, isSequence_moved]

private theorem acceptsSecond_movedSlot (head : Fork) (child : Option Node) :
    head.acceptsSecond (movedSlot k child) = head.acceptsSecond child := by
  cases child with
  | none => rfl
  | some n => cases head <;> simp [Fork.acceptsSecond, movedSlot, isSequence_moved]

mutual

private theorem wellFormed_moved : ∀ n : Node, (n.moved k).wellFormed = n.wellFormed
  | .leaf _ _ => rfl
  | .block loc kind yields nodes => by
    rw [moved, wellFormed, wellFormed, wellFormedNodes_moved nodes]
  | .oddBlock _ _ _ _ => rfl
  | .stem loc head child => by
    rw [moved, wellFormed, wellFormed, accepts_movedSlot, wellFormedSlot_moved child]
  | .fork loc head first second => by
    rw [moved, wellFormed, wellFormed, acceptsFirst_movedSlot, acceptsSecond_movedSlot,
      wellFormedSlot_moved first, wellFormedSlot_moved second]
  | .stray _ => rfl
termination_by structural n => n

private theorem wellFormedNodes_moved : ∀ nodes : List Node,
    wellFormedNodes (movedNodes k nodes) = wellFormedNodes nodes
  | [] => rfl
  | n :: rest => by
    rw [movedNodes, wellFormedNodes, wellFormedNodes, wellFormed_moved n, wellFormedNodes_moved rest]
termination_by structural nodes => nodes

private theorem wellFormedSlot_moved : ∀ child : Option Node,
    wellFormedSlot (movedSlot k child) = wellFormedSlot child
  | none => rfl
  | some n => wellFormed_moved n
termination_by structural child => child

end

end Node

namespace Printer

private theorem withoutUnit_agrees {emission other : Emission} (same : emission.Agrees other) :
    (withoutUnit emission).Agrees (withoutUnit other) := by
  unfold withoutUnit
  rw [same.out]
  exact .ite (.refl _) same

private theorem print_result_of_agrees {config : Config} {root other : Node}
    (same : (rootEmission config.style root).Agrees (rootEmission config.style other)) (text : Text) :
    (print { config, root }).result = .ok text ↔
      (print { config, root := other }).result = .ok text := by
  have writable : (writable { config, root }).Agrees (writable { config, root := other }) := by
    unfold Printer.writable
    cases config.indentUnit with
    | of unit => exact same
    | odd value => exact withoutUnit_agrees same
  have ended := writable.result ()
  simp only [print, writable.out]
  cases own : (Printer.writable { config, root }).result with
  | ok _ => simp only [ended.mp own]
  | error fault =>
    cases others : (Printer.writable { config, root := other }).result with
    | ok _ =>
      rw [ended.mpr others] at own
      cases own
    | error fault => simp only [reduceCtorEq]

private theorem rootEmission_moved (style : Style) (k : Int) (root : Node) :
    (rootEmission style (root.moved k)).Agrees (rootEmission style root) := by
  have depth : startDepth (root.moved k) = startDepth root := by cases root <;> rfl
  unfold rootEmission
  rw [depth]
  exact emit_moved k style root { depth := startDepth root }

end Printer

private theorem source_moved {tree : Node} (formed : tree.wellFormed = true) (k : Int)
    (config : Config) (text : Text) :
    (sourceOfTree config (tree.moved k)).result = .ok text ↔
      (sourceOfTree config tree).result = .ok text := by
  have movedFormed : (tree.moved k).wellFormed = true := by rw [Node.wellFormed_moved, formed]
  rw [sourceOfTree_result config (Node.normalize_eq formed),
    sourceOfTree_result config (Node.normalize_eq movedFormed), Node.normalForm_moved]
  exact Printer.print_result_of_agrees
    (Printer.rootEmission_moved config.style k tree.normalForm) text

/-- Two well-formed trees that differ only in where their nodes stand, and whose lines differ by the
same number everywhere, are printed as the same text or both refused: columns and files do not
matter, and of the lines only their differences do. -/
theorem source_relative_lines {tree other : Node} {k : Int} (formed : tree.wellFormed = true)
    (shifted : other.moved 0 = tree.moved k) (config : Config) (text : Text) :
    (sourceOfTree config other).result = .ok text ↔
      (sourceOfTree config tree).result = .ok text := by
  have otherFormed : other.wellFormed = true := by
    rw [← Node.wellFormed_moved 0, shifted, Node.wellFormed_moved, formed]
  rw [← source_moved otherFormed 0, shifted, source_moved formed k]

namespace Node

/-- A tag whose text starts in its line, below a loop, and a line of running text before it. -/
def linesSample : Node :=
  .block { line := 1 } .plain (.of false)
    [.leaf { line := 1 } (.text (.of "a ") (.of false)),
      .stem { line := 1 } (.code { val := .of "x", buffer := .of true }) none,
      .stem { line := 2 } (.whileLoop (.of "y"))
        (some (.block { line := 2 } .plain (.of false)
          [.fork { line := 3 } (.tag { name := .of "p" })
            (some (.block { line := 3 } .plain (.of false)
              [.leaf { line := 3 } (.text (.of "b") (.of false))])) none]))]

/-- The same tree further down in a file, with some columns known. -/
def linesSampleBelow : Node :=
  .block { line := 41, filename := some "a.pug" } .plain (.of false)
    [.leaf { line := 41, column := some 3 } (.text (.of "a ") (.of false)),
      .stem { line := 41 } (.code { val := .of "x", buffer := .of true }) none,
      .stem { line := 42, filename := some "b.pug" } (.whileLoop (.of "y"))
        (some (.block { line := 42 } .plain (.of false)
          [.fork { line := 43, column := some 1 } (.tag { name := .of "p" })
            (some (.block { line := 43 } .plain (.of false)
              [.leaf { line := 43 } (.text (.of "b") (.of false))])) none]))]

end Node

theorem source_relative_lines_sample :
    Node.linesSample.wellFormed = true ∧
    Node.linesSampleBelow.moved 0 = Node.linesSample.moved 40 ∧
    (sourceOfTree .standard Node.linesSampleBelow).result =
      .ok "| a #{x}\nwhile y\n  p b" := by
  have formed : Node.linesSample.wellFormed = true := by decide
  have shifted : Node.linesSampleBelow.moved 0 = Node.linesSample.moved 40 := rfl
  exact ⟨formed, shifted, (source_relative_lines formed shifted .standard _).mpr rfl⟩

end PugPrinter
