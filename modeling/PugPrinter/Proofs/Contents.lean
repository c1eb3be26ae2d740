import PugPrinter.Proofs.Edit.NormalForm
import PugPrinter.Proofs.Emit.Texts
import PugPrinter.Proofs.Printing

/-!
The texts of a printed tree. They are written in the order of the document, each of them once, and only
those are missing that stand below code in running text: such code is written between its own marks,
and its block is left out.
-/

set_option autoImplicit false

namespace PugPrinter

/-- The source of a tree is made of pieces that write the texts of its normal form in the order of the
document and none of them twice. The texts below code in running text are left out, and no others: all
texts are written exactly when no text stands there. -/
theorem source_writes_texts {config : Config} {tree root : Node} {count : Nat} {text : Text}
    (normal : tree.normalize = .ok (root, count)) (fair : Fair root.subtrees)
    (printed : (sourceOfTree config tree).result = .ok text) :
    ∃ pieces, pieces = (Printer.rootEmission config.style root).out ∧
      (∀ unit, config.indentUnit = .of unit → text = Piece.render unit pieces) ∧
      writtenTexts pieces = TextPlace.kept (root.textPlaces false false) ∧
      List.Sublist (writtenTexts pieces) root.texts ∧
      (writtenTexts pieces = root.texts ↔
        ∀ place ∈ root.textPlaces false false, place.lost = false) := by
  obtain ⟨root', count', normal', ended⟩ := rootEmission_of_sourceOfTree printed
  rw [normal] at normal'
  cases normal'
  have written : writtenTexts (Printer.rootEmission config.style root).out =
      TextPlace.kept (root.textPlaces false false) :=
    emit_shows config.style root fair { depth := Printer.startDepth root } () ended
  have all : (root.textPlaces false false).map TextPlace.val = root.texts :=
    Node.map_val_textPlaces false false root
  refine ⟨_, rfl, ?_, written, ?_, ?_⟩
  · intro unit given
    rw [sourceOfTree_of_rootEmission given normal ended] at printed
    cases printed
    rfl
  · rw [written, ← all]
    exact TextPlace.kept_sublist _
  · rw [written, ← all]
    exact TextPlace.kept_eq_map_val_iff _

namespace TextPlace

def sampleText (line : Int) (val : Text) : Node :=
  .leaf { line } (.text (.of val) (.of false))

def sampleCode (line : Int) (val : Text) : Node :=
  .stem { line } (.code { val := .of "if (x)" })
    (some (.block { line } .plain (.of false) [sampleText (line + 1) val]))

/-- A paragraph with code in its line, a text, and a statement on a line of its own. -/
def keptSample : Node :=
  .fork { line := 1 } (.tag { name := .of "p" })
    (some (.block { line := 3 } .plain (.of false) [sampleText 3 "two", sampleCode 4 "three"]))
    (some (sampleCode 1 "one"))

def lostSample : Node :=
  .block { line := 1 } .plain (.of false) [sampleText 1 "a ", sampleCode 1 "b"]

end TextPlace

/-- The texts below the code of a tag and below a statement on its own line are written; those below a
statement in running text are not. -/
theorem source_writes_texts_samples :
    (TextPlace.keptSample.wellFormed = true ∧ ∃ pieces,
      (sourceOfTree .standard TextPlace.keptSample).result = .ok (Piece.render "  " pieces) ∧
      writtenTexts pieces = [("one" : Text), ("two" : Text), ("three" : Text)]) ∧
    (TextPlace.lostSample.wellFormed = true ∧ ∃ pieces,
      (sourceOfTree .standard TextPlace.lostSample).result = .ok (Piece.render "  " pieces) ∧
      writtenTexts pieces = [("a " : Text)]) := by
  constructor
  · obtain ⟨pieces, _, source, written, _⟩ := @source_writes_texts .standard TextPlace.keptSample
      TextPlace.keptSample 0 "p- if (x)\n  | one\n  | two\n  - if (x)\n    | three" rfl
      (by unfold Fair; decide) rfl
    refine ⟨by decide, pieces, ?_, written⟩
    rw [← source "  " rfl]
    rfl
  · obtain ⟨pieces, _, source, written, _⟩ := @source_writes_texts .standard TextPlace.lostSample
      TextPlace.lostSample 0 "| a #[- if (x)]" rfl (by unfold Fair; decide) rfl
    refine ⟨by decide, pieces, ?_, written⟩
    rw [← source "  " rfl]
    rfl

/-- Not every text is written: a statement that shares the line of the text before it loses its
block. -/
theorem not_all_texts_written :
    ¬ (∀ (config : Config) (tree : Node) (text : Text), tree.wellFormed = true →
        tree.normalize = .ok (tree, 0) → Fair tree.subtrees →
        (sourceOfTree config tree).result = .ok text →
        writtenTexts (Printer.rootEmission config.style tree).out = tree.texts) ∧
    (sourceOfTree .standard TextPlace.lostSample).result = .ok "| a #[- if (x)]" := by
  constructor
  · intro all
    have written := all .standard TextPlace.lostSample "| a #[- if (x)]" (by decide) rfl
      (by unfold Fair; decide) rfl
    exact absurd written (by decide)
  · rfl

end PugPrinter
