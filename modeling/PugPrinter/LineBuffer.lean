import PugPrinter.Text

/-!
A buffer of lines. Text is only ever added to the last line or as a new line; earlier lines are
never touched again.
-/

set_option autoImplicit false

namespace PugPrinter

/-- Lines written so far, the newest first, with the unit and the depth of indentation. -/
structure LineBuffer where
  unit : Text
  depth : Int := -1
  newestFirst : List Text := []
  deriving DecidableEq, Repr

namespace LineBuffer

def lines (b : LineBuffer) : List Text :=
  b.newestFirst.reverse

def size (b : LineBuffer) : Nat :=
  b.newestFirst.length

def isEmpty (b : LineBuffer) : Bool :=
  b.newestFirst.isEmpty

def indent (b : LineBuffer) (delta : Int := 0) : Text :=
  Text.repeated b.unit (b.depth + delta)

def newLine (b : LineBuffer) (text : Text := []) (delta : Int := 0) : LineBuffer :=
  { b with newestFirst := (b.indent delta ++ text) :: b.newestFirst }

/-- Continues the last line; the first text of an empty buffer starts a line without indent. -/
def append (b : LineBuffer) (text : Text) : LineBuffer :=
  if text.isEmpty then b
  else
    match b.newestFirst with
    | [] => { b with newestFirst := [text] }
    | last :: earlier => { b with newestFirst := (last ++ text) :: earlier }

def deepen (b : LineBuffer) (delta : Int) : LineBuffer :=
  { b with depth := b.depth + delta }

def build (b : LineBuffer) : Text :=
  Text.join "\n" b.lines

end LineBuffer

end PugPrinter
