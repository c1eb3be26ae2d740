import PugPrinter.Json

/-!
The keys of parser trees. A key is taken for the field whose name it has in lower case, with an
underscore before every capital letter that is not the first character.
-/

set_option autoImplicit false

namespace PugPrinter.Document

/-- Lower case, as far as it matters for field names: the ASCII capitals, and the one other
character whose lower case is an ASCII letter. -/
def lower : CodePoint → CodePoint
  | .scalar c => if c == '\u212a' then 'k' else c.toLower
  | half => half

def snake (c : CodePoint) : Text :=
  if c.holds Char.isUpper then ['_', lower c] else [lower c]

def fieldName (key : Text) : Text :=
  if key == ("yield" : Text) then "yield_"
  else
    match key with
    | [] => []
    | c :: rest => lower c :: rest.flatMap snake

/-- The value of a field: that of the last key that stands for it, unless it is null. -/
def field? (name : Text) (entries : List (Text × Json)) : Option Json :=
  Json.present? name (entries.map fun entry => (fieldName entry.1, entry.2))

end PugPrinter.Document
