import PugPrinter.Node
import PugPrinter.Run

/-!
Editing a tree from the leaves up. An editing function is given every node with its children
already edited, and answers with a node, or with nothing to take the node out of its sequence.
A node in a slot and the root cannot be taken out. Values that are no nodes are left alone, but a
sequence that holds nodes must not hold anything else.
-/

set_option autoImplicit false

namespace PugPrinter.Node

abbrev Editor := Node → Except Fault (Option Node)

def consult (f : Editor) (n : Node) : Run Node (Option Node) :=
  ⟨[n], f n⟩

mutual

/-- Edits a tree. What is put out are the nodes that the function was given, in order. -/
def editFrom (f : Editor) : Node → Run Node (Option Node)
  | .leaf loc head => consult f (.leaf loc head)
  | .block loc kind yields nodes => do
    let nodes ← if nodes.any isNode then editNodes f nodes else .done nodes
    consult f (.block loc kind yields nodes)
  | .oddBlock loc kind yields nodes => consult f (.oddBlock loc kind yields nodes)
  | .stem loc head child => do
    let child ← editSlot f head.kind.name head.slot child
    consult f (.stem loc head child)
  | .fork loc head first second => do
    let first ← editSlot f head.kind.name head.firstSlot first
    let second ← editSlot f head.kind.name head.secondSlot second
    consult f (.fork loc head first second)
  | .stray _ => .fail .unsupportedShape
termination_by structural node => node

def editNodes (f : Editor) : List Node → Run Node (List Node)
  | [] => .done []
  | n :: rest => do
    let new ← editFrom f n
    let more ← editNodes f rest
    return new.toList ++ more
termination_by structural nodes => nodes

def editSlot (f : Editor) (owner field : Text) : Option Node → Run Node (Option Node)
  | none => .done none
  | some n =>
    if n.isNode then do
      match ← editFrom f n with
      | some new => return some new
      | none => .fail (.edit (.cannotRemove n.typeName owner field))
    else .done (some n)
termination_by structural child => child

end

def edit (f : Editor) (root : Node) : Run Node Node := do
  match ← editFrom f root with
  | some new => return new
  | none => .fail (.edit .cannotRemoveRoot)

end PugPrinter.Node
