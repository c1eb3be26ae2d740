import PugPrinter.Edit

/-!
Editing that keeps what stays the same. Edited children are compared with those that they come from;
a sequence is put in only when it has lost a node or one of its nodes has come back as another one,
and the child of a slot only when it has come back as another one. What counts as the same node is
left open.
-/

set_option autoImplicit false

namespace PugPrinter.Node

/-- A sequence after its nodes were edited: the one from before if nothing has changed. -/
def keptSequence (same : Node → Node → Bool) (old new : List Node) : List Node :=
  if new.length != old.length || (new.zip old).any fun pair => !same pair.1 pair.2 then new else old

/-- A slot after its child was edited: the one from before if nothing has changed. -/
def keptSlot (same : Node → Node → Bool) : Option Node → Option Node → Option Node
  | some old, some new => if same new old then some old else some new
  | _, new => new

mutual

def editSharingFrom (same : Node → Node → Bool) (f : Editor) : Node → Run Node (Option Node)
  | .leaf loc head => consult f (.leaf loc head)
  | .block loc kind yields nodes => do
    let new ← if nodes.any isNode then editSharingNodes same f nodes else .done nodes
    consult f (.block loc kind yields (keptSequence same nodes new))
  | .oddBlock loc kind yields nodes => consult f (.oddBlock loc kind yields nodes)
  | .stem loc head child => do
    let new ← editSharingSlot same f head.kind.name head.slot child
    consult f (.stem loc head (keptSlot same child new))
  | .fork loc head first second => do
    let newFirst ← editSharingSlot same f head.kind.name head.firstSlot first
    let newSecond ← editSharingSlot same f head.kind.name head.secondSlot second
    consult f (.fork loc head (keptSlot same first newFirst) (keptSlot same second newSecond))
  | .stray _ => .fail .unsupportedShape
termination_by structural node => node

def editSharingNodes (same : Node → Node → Bool) (f : Editor) : List Node → Run Node (List Node)
  | [] => .done []
  | n :: rest => do
    let new ← editSharingFrom same f n
    let more ← editSharingNodes same f rest
    return new.toList ++ more
termination_by structural nodes => nodes

def editSharingSlot (same : Node → Node → Bool) (f : Editor) (owner field : Text) :
    Option Node → Run Node (Option Node)
  | none => .done none
  | some n =>
    if n.isNode then do
      match ← editSharingFrom same f n with
      | some new => return some new
      | none => .fail (.edit (.cannotRemove n.typeName owner field))
    else .done (some n)
termination_by structural child => child

end

def editSharing (same : Node → Node → Bool) (f : Editor) (root : Node) : Run Node Node := do
  match ← editSharingFrom same f root with
  | some new => return new
  | none => .fail (.edit .cannotRemoveRoot)

end PugPrinter.Node
