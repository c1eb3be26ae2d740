import PugPrinter.Text

/-!
Where a node stood in its template. The line drives the layout: nodes that share a line with
their predecessor continue it.
-/

set_option autoImplicit false

namespace PugPrinter

/-- A place in a template; line 0 is an unknown one. -/
structure Location where
  line : Int := 0
  column : Option Int := none
  filename : Option Text := none
  deriving DecidableEq, Repr, Inhabited

namespace Location

def unknown : Location := {}

def defaultName : Text := "Pug"

def shown (l : Location) : Text :=
  let name := match l.filename with
    | some (c :: rest) => c :: rest
    | _ => defaultName
  name ++ (":" : Text) ++ Text.ofInt l.line

end Location

end PugPrinter
