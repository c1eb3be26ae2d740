import PugPrinter.Double
import PugPrinter.Text

/-!
JSON values. Whole numbers and doubles are kept apart, and the fields of an object keep their
order.
-/

set_option autoImplicit false

namespace PugPrinter

inductive Json where
  | null
  | bool (value : Bool)
  | int (value : Int)
  | float (value : Float)
  | str (value : Text)
  | arr (items : List Json)
  | obj (fields : List (Text × Json))
  deriving Inhabited

namespace Json

def lookup? (key : Text) (fields : List (Text × Json)) : Option Json :=
  (fields.reverse.find? fun field => field.1 == key).map Prod.snd

def present? (key : Text) (fields : List (Text × Json)) : Option Json :=
  match lookup? key fields with
  | some null => none
  | found => found

def put (key : Text) (value : Json) : List (Text × Json) → List (Text × Json)
  | [] => [(key, value)]
  | field :: rest => if field.1 == key then (key, value) :: rest else field :: put key value rest

def bit (b : Bool) : Int :=
  if b then 1 else 0

def equalNumbers : Json → Json → Bool
  | bool a, bool b => a == b
  | bool a, int b => bit a == b
  | int a, bool b => a == bit b
  | bool a, float b => Double.equalsInt (bit a) b
  | float a, bool b => Double.equalsInt (bit b) a
  | int a, int b => a == b
  | int a, float b => Double.equalsInt a b
  | float a, int b => Double.equalsInt b a
  | float a, float b => a == b
  | _, _ => false

mutual

/-- Equality of values: numbers are compared as numbers, and the order of fields does not
matter. -/
def equal : Json → Json → Bool
  | null, null => true
  | str a, str b => a == b
  | arr a, arr b => equalItems a b
  | obj a, obj b => a.length == b.length && equalFields a b
  | a, b => equalNumbers a b

def equalItems : List Json → List Json → Bool
  | [], [] => true
  | a :: as, b :: bs => equal a b && equalItems as bs
  | _, _ => false

def equalFields : List (Text × Json) → List (Text × Json) → Bool
  | [], _ => true
  | (key, a) :: as, others =>
    (match lookup? key others with
      | some b => equal a b
      | none => false) && equalFields as others

end

instance : BEq Json := ⟨equal⟩

def isNull : Json → Bool
  | null => true
  | _ => false

/-- Whether a value counts as true: null, false, zero and empty values do not. -/
def truthy : Json → Bool
  | null => false
  | bool b => b
  | int i => i != 0
  | float f => f != 0.0
  | str s => !s.isEmpty
  | arr items => !items.isEmpty
  | obj fields => !fields.isEmpty

def kindName : Json → Text
  | null => "NoneType"
  | bool _ => "bool"
  | int _ => "int"
  | float _ => "float"
  | str _ => "str"
  | arr _ => "list"
  | obj _ => "dict"

/-- What a walk through a value meets: the items of an array, the code points of a string, the
keys of an object. There is no walk through the others. -/
def items? : Json → Option (List Json)
  | arr items => some items
  | str s => some (s.map fun c => str [c])
  | obj fields => some (fields.map fun field => str field.1)
  | _ => none

section Every

variable (scalar : Json → Bool) (keys : List Text → Bool)

mutual

/-- Whether a test holds of all values that are neither arrays nor objects, and another one of the
keys of each object. -/
def every : Json → Bool
  | arr items => everyItem items
  | obj fields => keys (fields.map Prod.fst) && everyField fields
  | value => scalar value
termination_by structural value => value

def everyItem : List Json → Bool
  | [] => true
  | item :: rest => every item && everyItem rest
termination_by structural items => items

def everyField : List (Text × Json) → Bool
  | [] => true
  | (_, value) :: rest => every value && everyField rest
termination_by structural fields => fields

end

end Every

def digitLimit : Nat := 4300

/-- Whether a number has at most as many decimal digits as can be read and written. -/
def isShort (i : Int) : Bool :=
  (Text.ofNat i.natAbs).length ≤ digitLimit

def isLongNumber : Json → Bool
  | int i => !isShort i
  | _ => false

def hasShortNumbers : Json → Bool :=
  every (fun value => !value.isLongNumber) fun _ => true

end Json

end PugPrinter
