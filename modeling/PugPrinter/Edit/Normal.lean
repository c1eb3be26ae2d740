import PugPrinter.Edit

/-!
The normal form of a tree: sequences without a name are spliced into the sequence they stand in.
Placeholders and named blocks stay.
-/

set_option autoImplicit false

namespace PugPrinter.Node

def isWrapper : Node → Bool
  | .block _ .plain yields _ => !yields.isOn
  | .oddBlock _ .plain yields _ => !yields.isOn
  | _ => false

def spliced (n : Node) : List Node :=
  if n.isWrapper then
    match n with
    | .block _ _ _ nodes => nodes
    | .oddBlock _ _ _ value => (value.items?.getD []).map .stray
    | _ => []
  else [n]

/-- Splices the wrappers among the children of a sequence. A sequence must have something to walk
through in place of its nodes. -/
def flatten : Node → Except Fault Node
  | .block loc kind yields nodes => .ok (.block loc kind yields (nodes.flatMap spliced))
  | .oddBlock loc kind yields value =>
    match value.items? with
    | some _ => .ok (.oddBlock loc kind yields value)
    | none => .error .unsupportedShape
  | n => .ok n

def wrapperCount : Node → Nat
  | .block _ _ _ nodes => nodes.countP isWrapper
  | _ => 0

def wrapperTotal : List Node → Nat
  | [] => 0
  | n :: rest => n.wrapperCount + wrapperTotal rest

/-- The normal form of a tree, with the number of sequences that were spliced. -/
def normalize (root : Node) : Except Fault (Node × Nat) :=
  let run := edit (fun n => some <$> n.flatten) root
  run.result.map fun new => (new, wrapperTotal run.out)

end PugPrinter.Node
