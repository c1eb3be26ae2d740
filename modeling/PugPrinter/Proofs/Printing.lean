import PugPrinter.Proofs.Runs
import PugPrinter.Source

/-!
Printing a tree comes down to three steps: the tree is brought into normal form, its root is turned
into pieces, and the pieces are written with the unit of indentation.
-/

set_option autoImplicit false

namespace PugPrinter

namespace Printer

def rootEmission (style : Style) (root : Node) : Emission :=
  emit style { depth := startDepth root } root

private theorem withoutUnit_eq_of_ok {emission : Emission}
    (ended : (withoutUnit emission).result = .ok ()) :
    withoutUnit emission = emission := by
  unfold withoutUnit at ended ⊢
  split at ended
  · cases ended
  · rename_i none
    exact if_neg none

private theorem rootEmission_of_print {p : Printer} {text : Text}
    (printed : p.print.result = .ok text) :
    (rootEmission p.config.style p.root).result = .ok () := by
  cases ended : p.writable.result with
  | error fault => simp [print, ended] at printed
  | ok _ =>
    unfold writable at ended
    split at ended
    · exact ended
    · have whole := withoutUnit_eq_of_ok ended
      rw [whole] at ended
      exact ended

theorem print_result_congr {config : Config} {root other : Node}
    (same : rootEmission config.style root = rootEmission config.style other) :
    (print { config, root }).result = (print { config, root := other }).result := by
  have pieces : Printer.pieces { config, root } = Printer.pieces { config, root := other } := same
  have writable : Printer.writable { config, root } = Printer.writable { config, root := other } := by
    simp only [Printer.writable, pieces]
  simp only [print, writable]
  split <;> rfl

end Printer

/-- A tree that can be normalized is printed as its normal form. -/
theorem sourceOfTree_result {tree root : Node} {count : Nat} (config : Config)
    (normal : tree.normalize = .ok (root, count)) :
    (sourceOfTree config tree).result = (Printer.print { config, root }).result := by
  have prepared : (Printer.ofTree config tree).result = .ok { config, root } := by
    simp [Printer.ofTree, normal]
  simp [sourceOfTree, Run.bind_def, Run.andThen, prepared]

/-- What a printed tree was made of: a normal form whose emission ends well. -/
theorem rootEmission_of_sourceOfTree {config : Config} {tree : Node} {text : Text}
    (printed : (sourceOfTree config tree).result = .ok text) :
    ∃ root count, tree.normalize = .ok (root, count) ∧
      (Printer.rootEmission config.style root).result = .ok () := by
  obtain ⟨p, prepared, ended⟩ := (Run.bind_result_eq_ok_iff _ _ _).mp printed
  unfold Printer.ofTree at prepared
  cases normal : tree.normalize with
  | error fault =>
    rw [normal] at prepared
    cases prepared
  | ok result =>
    rw [normal] at prepared
    cases prepared
    exact ⟨result.1, result.2, rfl, Printer.rootEmission_of_print ended⟩

/-- A tree whose normal form has an emission that ends well is printed as the pieces of it, written
with the unit of indentation. -/
theorem sourceOfTree_of_rootEmission {config : Config} {tree root : Node} {count : Nat}
    {unit : Text} (given : config.indentUnit = .of unit)
    (normal : tree.normalize = .ok (root, count))
    (ended : (Printer.rootEmission config.style root).result = .ok ()) :
    (sourceOfTree config tree).result =
      .ok (Piece.writeAll unit (Printer.rootEmission config.style root).out).build := by
  have prepared : (Printer.ofTree config tree).result = .ok { config, root } := by
    simp [Printer.ofTree, normal]
  have whole : Printer.writable { config, root } = Printer.rootEmission config.style root := by
    simp only [Printer.writable, given]
    rfl
  refine (Run.bind_result_eq_ok_iff _ _ _).mpr ⟨{ config, root }, prepared, ?_⟩
  simp [Printer.print, whole, ended, given, Loose.value?]

theorem rootEmission_error_of_sourceOfTree {config : Config} {tree root : Node} {count : Nat}
    {unit : Text} {fault : Fault} (given : config.indentUnit = .of unit)
    (normal : tree.normalize = .ok (root, count))
    (stopped : (sourceOfTree config tree).result = .error fault) :
    (Printer.rootEmission config.style root).result = .error fault := by
  cases ended : (Printer.rootEmission config.style root).result with
  | ok _ =>
    rw [sourceOfTree_of_rootEmission given normal ended] at stopped
    cases stopped
  | error cause =>
    have prepared : (Printer.ofTree config tree).result = .ok { config, root } := by
      simp [Printer.ofTree, normal]
    have whole : Printer.writable { config, root } = Printer.rootEmission config.style root := by
      simp only [Printer.writable, given]
      rfl
    have same : (sourceOfTree config tree).result = .error cause := by
      simp [sourceOfTree, Run.bind_def, Run.andThen, prepared, Printer.print, whole, ended]
    rw [same] at stopped
    cases stopped
    rfl

end PugPrinter
