import PugPrinter.Proofs.Attribute.Canonical
import PugPrinter.Proofs.Emit.Styles
import PugPrinter.Proofs.Printing

/-!
Options that make no difference. The option for colons acts only below a node that owns a block with one
child that may follow a colon, and the preferred quote only on a name in brackets that is not bare. On a
tree with nothing of the kind, what is printed, what is noted and what stops are the same for all values
of the option.
-/

set_option autoImplicit false

namespace PugPrinter

namespace Attribute

/-- The names that attributes are written with in brackets. -/
def listedNames : Attributes → List Text
  | .of items => (otherAttributes (proper items)).map name
  | .odd _ => []

private theorem render_of_bare {attrs : Attributes}
    (bare : ∀ name ∈ listedNames attrs, isBareName name = true) (quote other : Text) :
    render quote attrs = render other attrs := by
  cases attrs with
  | odd value => rfl
  | of items =>
    have texts : (otherAttributes (proper items)).map (inBrackets quote ·) =
        (otherAttributes (proper items)).map (inBrackets other ·) := by
      refine List.map_congr_left fun attr member => ?_
      have isBare := bare attr.name (List.mem_map_of_mem member)
      simp only [inBrackets, listed, writtenName, isBare, if_true]
    have same : renderAll quote Constant.Grammar.nestingLimit (proper items) =
        renderAll other Constant.Grammar.nestingLimit (proper items) := by
      rw [renderAll_eq, renderAll_eq, written, written, texts]
    rw [render, render, same]

end Attribute

namespace Node

/-- The names that the attributes of a node are written with in brackets. -/
def listedNames (n : Node) : List Text :=
  (n.headAttributes?.map Attribute.listedNames).getD []

variable {s s' : Style} {n : Node}

private theorem writtenAlike_of_quote (sameQuote : s.quote = s'.quote)
    (noColon : n.offersColon = false) :
    n.WrittenAlike s s' where
  attributes attrs _ := by
    unfold Emit.attributes
    rw [sameQuote]
  colon offers := by
    rw [noColon] at offers
    cases offers

private theorem writtenAlike_of_bare
    (bare : ∀ name ∈ n.listedNames, Attribute.isBareName name = true)
    (sameColon : s.colon = s'.colon) : n.WrittenAlike s s' where
  attributes attrs written := by
    have names : n.listedNames = Attribute.listedNames attrs := by
      rw [listedNames, written]
      rfl
    unfold Emit.attributes
    rw [Attribute.render_of_bare (names ▸ bare) [s.quote.mark] [s'.quote.mark]]
  colon _ := sameColon

end Node

private theorem sourceOfTree_congr {config other : Config} {tree root : Node} {count : Nat}
    (normal : tree.normalize = .ok (root, count)) (sameUnit : other.indentUnit = config.indentUnit)
    (same : Printer.rootEmission config.style root = Printer.rootEmission other.style root) :
    sourceOfTree other tree = sourceOfTree config tree := by
  have pieces : Printer.pieces { config := other, root } = Printer.pieces { config, root } := same.symm
  have writable : Printer.writable { config := other, root } = Printer.writable { config, root } := by
    simp only [Printer.writable, sameUnit, pieces]
  have printed : Printer.print { config := other, root } = Printer.print { config, root } := by
    simp only [Printer.print, writable, sameUnit]
  simp [sourceOfTree, Printer.ofTree, normal, Run.bind_def, Run.andThen, printed]

/-- Options act only where they apply. When no node of the normal form owns a block whose only child could
stand after a colon, whether colons are used makes no difference. When all names in the brackets of nodes
that are visited are bare, the preferred quote makes none. -/
theorem source_ignores_options {config other : Config} {tree root : Node} {count : Nat}
    (normal : tree.normalize = .ok (root, count)) (sameUnit : other.indentUnit = config.indentUnit) :
    ((∀ n ∈ root.subtrees, n.offersColon = false) → other.preferredQuote = config.preferredQuote →
      sourceOfTree other tree = sourceOfTree config tree) ∧
    ((∀ n ∈ root.visited config.useColon.isOn none false, ∀ name ∈ n.listedNames,
        Attribute.isBareName name = true) → other.useColon = config.useColon →
      sourceOfTree other tree = sourceOfTree config tree) := by
  have alike (agree : Agree config.style other.style
      (root.visited config.useColon.isOn none false)) :
      sourceOfTree other tree = sourceOfTree config tree :=
    sourceOfTree_congr normal sameUnit (emit_alike _ _ root _ (Spot.settled_of_no_parent rfl) agree)
  constructor
  · intro noColon sameQuote
    refine alike fun n visited => ?_
    exact Node.writtenAlike_of_quote sameQuote.symm (noColon n (Node.visited_subset _ _ _ root visited))
  · intro bare sameColon
    refine alike fun n visited => ?_
    exact Node.writtenAlike_of_bare (bare n visited) (congrArg Loose.isOn sameColon.symm)

namespace Emit

def optionBlock (line : Int) (nodes : List Node) (yields : Bool) : Node :=
  .block { line } .plain (.of yields) nodes

def optionText (line : Int) (val : Text) : Node :=
  .leaf { line } (.text (.of val) (.of false))

def optionTag (line : Int) (name : Text) (nodes : List Node) : Node :=
  .fork { line } (.tag { name := .of "a", attrs := .of [.of { name, val := "x" }] })
    (some (optionBlock line nodes false)) none

/-- Tags with bare names, in a list and in an arm, and names with a blank where nothing is visited: in a
placeholder and below code in running text. -/
def optionSample : Node :=
  optionBlock 1
    [optionTag 1 "href" [optionTag 2 "data-x" [], optionTag 3 "id" []],
      .stem { line := 4 } (.caseOf (.of "v")) (some (optionBlock 5
        [.stem { line := 5 } (.when (.of "1")) (some (optionBlock 6 [optionText 6 "t"] false))] false)),
      optionBlock 7 [optionTag 7 "no name" []] true,
      optionTag 8 "title" [optionText 8 "n ",
        .stem { line := 8 } (.code { val := .of "f" })
          (some (optionBlock 9 [optionTag 9 "no name" []] false))]]
    false

end Emit

open Emit

/-- Neither option makes a difference to the sample, which has no colons, and no quotes where anything is
visited. -/
theorem source_ignores_options_sample :
    sourceOfTree { useColon := .of true } optionSample = sourceOfTree .standard optionSample ∧
    sourceOfTree { preferredQuote := .double } optionSample = sourceOfTree .standard optionSample ∧
    (sourceOfTree .standard optionSample).result =
      .ok ("a(href=x)\n  a(data-x=x)\n  a(id=x)\n" ++
        "case v\n  when 1\n    | t\nyield\na(title=x) n #[- f]") := by
  have normal : optionSample.normalize = .ok (optionSample, 0) := by rfl
  have colons := (@source_ignores_options .standard { useColon := .of true } _ _ _ normal rfl).1
  have quotes := (@source_ignores_options .standard { preferredQuote := .double } _ _ _ normal rfl).2
  exact ⟨colons (by decide) rfl, quotes (by decide) rfl, by decide +kernel⟩

/-- Where a tag owns just another one, and where a name has a blank, the options do act. -/
example :
    (sourceOfTree .standard (optionTag 1 "no name" [optionTag 2 "href" []])).result =
      .ok "a('no name'=x)\n  a(href=x)" ∧
    (sourceOfTree { useColon := .of true, preferredQuote := .double }
      (optionTag 1 "no name" [optionTag 2 "href" []])).result = .ok "a(\"no name\"=x): a(href=x)" := by
  decide +kernel

end PugPrinter
