import PugPrinter.Text

/-!
Interpolation openers in running text. The two openers are written `#` followed by an opening
brace or an opening bracket; a backslash directly before an opener takes its meaning away.
-/

set_option autoImplicit false

namespace PugPrinter.Text

def isOpenerEnd (c : CodePoint) : Bool :=
  c == '{' || c == '['

def continuesOpener : Text → Bool
  | c :: _ => isOpenerEnd c
  | [] => false

def escapeAfter (slash : Bool) : Text → Text
  | [] => []
  | c :: rest =>
    if c == '#' && !slash && continuesOpener rest then '\\' :: c :: escapeAfter false rest
    else c :: escapeAfter (c == '\\') rest

/-- Gives every opener that has no backslash directly before it exactly one. -/
def escapeInterpolation (t : Text) : Text :=
  escapeAfter false t

end PugPrinter.Text
