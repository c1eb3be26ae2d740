import PugPrinter.Config
import PugPrinter.Document.Load
import PugPrinter.Log
import PugPrinter.Edit.Normal

/-!
Template source from a tree: the tree is brought into normal form, turned into pieces, and the
pieces are written with the unit of indentation of the configuration. On the way notes are put
out.
-/

set_option autoImplicit false

namespace PugPrinter

/-- A tree in normal form together with the options it is printed with. -/
structure Printer where
  config : Config
  root : Node

namespace Printer

def ofTree (config : Config) (tree : Node) : Run Note Printer :=
  match tree.normalize with
  | .ok (root, count) =>
    ⟨if count == 0 then [] else [.flattened count], .ok { config, root }⟩
  | .error fault => .fail fault

/-- The depth at which a root stands: the children of a sequence come to depth zero. -/
def startDepth : Node → Int
  | .block _ _ _ _ => -1
  | .oddBlock _ _ _ _ => -1
  | _ => 0

def pieces (p : Printer) : Emission :=
  emit p.config.style { depth := startDepth p.root } p.root

def noteOf? : Piece → Option Note
  | .notConstant source => some (.notConstant source)
  | _ => none

def withoutUnit (emission : Emission) : Emission :=
  if emission.out.any Piece.isIndented then
    ⟨emission.out.takeWhile fun piece => !piece.isIndented, .error .unsupportedShape⟩
  else emission

def writable (p : Printer) : Emission :=
  match p.config.indentUnit with
  | .of _ => p.pieces
  | .odd _ => withoutUnit p.pieces

def print (p : Printer) : Run Note Text :=
  let emission := p.writable
  let notes := .started p.root.typeName :: emission.out.filterMap noteOf?
  match emission.result with
  | .error fault => ⟨notes, .error fault⟩
  | .ok () =>
    let buffer := Piece.writeAll (p.config.indentUnit.value?.getD []) emission.out
    ⟨notes ++ [.finished buffer.size], .ok buffer.build⟩

end Printer

def sourceOfTree (config : Config) (tree : Node) : Run Note Text := do
  (← Printer.ofTree config tree).print

def sourceOfJson (config : Config) (tree : Json) : Run Note Text := do
  sourceOfTree config (← Run.ofExcept (Document.loadRoot tree))

end PugPrinter
