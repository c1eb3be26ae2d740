import PugPrinter.LineBuffer
import PugPrinter.Text.Interpolation

/-!
The pieces that template source is made of. A tree is turned into pieces without knowing how wide
an indent is; only writing the pieces into a buffer brings in the unit of indentation.
-/

set_option autoImplicit false

namespace PugPrinter

inductive Piece where
  /-- A new line at a depth. -/
  | line (depth : Int)
  /-- Words, operators and expressions, written as they are. -/
  | markup (text : Text)
  /-- The value of a text node that continues the line, with its interpolation escaped. -/
  | prose (text : Text)
  /-- A text node that is nothing but a line feed; the end of its line stands for it. -/
  | lineFeed
  /-- The value of a text node as raw lines at a depth, escaped unless verbatim. -/
  | raw (depth : Int) (verbatim : Bool) (text : Text)
  /-- JavaScript of several lines at a depth. -/
  | script (depth : Int) (text : Text)
  /-- A note that the value of an attribute is not constant; nothing is written. -/
  | notConstant (source : Text)
  deriving DecidableEq, Repr

namespace Piece

def isIndented : Piece → Bool
  | line _ => true
  | raw _ _ _ => true
  | script _ _ => true
  | _ => false

def write (b : LineBuffer) : Piece → LineBuffer
  | line depth => { b with depth := depth }.newLine
  | markup text => b.append text
  | prose text => b.append text.escapeInterpolation
  | lineFeed => b
  | raw depth verbatim text =>
    let lines := Text.indentLines (Text.repeated b.unit depth) text
    b.append (if verbatim then lines else lines.escapeInterpolation)
  | script depth text => b.append (Text.indentLines (Text.repeated b.unit depth) text)
  | notConstant _ => b

def writeAll (unit : Text) (pieces : List Piece) : LineBuffer :=
  pieces.foldl write { unit }

def render (unit : Text) (pieces : List Piece) : Text :=
  (writeAll unit pieces).build

end Piece

end PugPrinter
