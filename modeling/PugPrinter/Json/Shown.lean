import PugPrinter.Double.Written
import PugPrinter.Json
import PugPrinter.Text.Shown

/-!
JSON values shown in a message or in running text.
-/

set_option autoImplicit false

namespace PugPrinter.Json

mutual

def shown : Json → Text
  | null => "None"
  | bool true => "True"
  | bool false => "False"
  | int i => Text.ofInt i
  | float f => Double.write "nan" "inf" f
  | str s => s.shown
  | arr items => Text.between '[' ']' (Text.join ", " (shownItems items))
  | obj fields => Text.between '{' '}' (Text.join ", " (shownFields fields))

def shownItems : List Json → List Text
  | [] => []
  | item :: rest => shown item :: shownItems rest

def shownFields : List (Text × Json) → List Text
  | [] => []
  | (key, value) :: rest => (key.shown ++ (": " : Text) ++ shown value) :: shownFields rest

end

end PugPrinter.Json
