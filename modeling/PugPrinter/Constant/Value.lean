import PugPrinter.Constant.Number

/-!
The values of constant JavaScript expressions and the conversions between them. A string may hold
halves of surrogate pairs. Conversions have no result where they would have to write a whole
number with too many digits.
-/

set_option autoImplicit false

namespace PugPrinter.Constant

/-- The code points that are trimmed off both ends of a string before it is read as a number. -/
def isSpace (c : CodePoint) : Bool :=
  let code := c.code
  (9 ≤ code && code ≤ 13) || (0x1c ≤ code && code ≤ 0x20) || code == 0x85 || code == 0xa0 ||
    code == 0x1680 || (0x2000 ≤ code && code ≤ 0x200a) || code == 0x2028 || code == 0x2029 ||
    code == 0x202f || code == 0x205f || code == 0x3000

def trim (t : Text) : Text :=
  ((t.dropWhile isSpace).reverse.dropWhile isSpace).reverse

def numberOfString (t : Text) : Number :=
  let trimmed := trim t
  if trimmed.isEmpty then .int 0
  else if trimmed.all Numeral.isNumeral then (Numeral.read? trimmed).getD .nan
  else .nan

/-- A constant value. Fields of an object keep their order. -/
inductive Value where
  | undefined
  | null
  | bool (value : Bool)
  | num (value : Number)
  | str (value : Text)
  | arr (items : List Value)
  | obj (fields : List (Text × Value))
  deriving Inhabited

namespace Value

def isNullish : Value → Bool
  | undefined => true
  | null => true
  | _ => false

def isCompound : Value → Bool
  | arr _ => true
  | obj _ => true
  | _ => false

mutual

def string? : Value → Option Text
  | undefined => some "undefined"
  | null => some "null"
  | bool true => some "true"
  | bool false => some "false"
  | num n => n.text?
  | str s => some s
  | arr items => (itemStrings? items).map (Text.join [','])
  | obj _ => some "[object Object]"

/-- The string forms of the items of an array; null and undefined are empty. -/
def itemStrings? : List Value → Option (List Text)
  | [] => some []
  | item :: rest => do
    let head ← if item.isNullish then some [] else string? item
    let tail ← itemStrings? rest
    return head :: tail

end

def toNumber? : Value → Option Number
  | undefined => some .nan
  | null => some (.int 0)
  | bool b => some (.int (if b then 1 else 0))
  | num n => some n
  | str s => some (numberOfString s)
  | arr items => (string? (arr items)).map numberOfString
  | obj _ => some .nan

def truthy : Value → Bool
  | undefined => false
  | null => false
  | bool b => b
  | num n => !n.isZero && !n.isNaN
  | str s => !s.isEmpty
  | arr _ => true
  | obj _ => true

def typeOf : Value → Text
  | undefined => "undefined"
  | null => "object"
  | bool _ => "boolean"
  | num _ => "number"
  | str _ => "string"
  | arr _ => "object"
  | obj _ => "object"

def primitive? (v : Value) : Option Value :=
  if v.isCompound then v.string?.map str else some v

/-- Strict equality. Each array and object is equal only to itself, so never to another one. -/
def strictEquals : Value → Value → Bool
  | undefined, undefined => true
  | null, null => true
  | bool a, bool b => a == b
  | num a, num b => a.equal b
  | str a, str b => a == b
  | _, _ => false

def sameType : Value → Value → Bool
  | undefined, undefined => true
  | null, null => true
  | bool _, bool _ => true
  | num _, num _ => true
  | str _, str _ => true
  | arr _, arr _ => true
  | obj _, obj _ => true
  | _, _ => false

def primitiveEquals? (a b : Value) : Option Bool :=
  if a.isNullish || b.isNullish then some (a.isNullish && b.isNullish)
  else if sameType a b then some (strictEquals a b)
  else do return (← a.toNumber?).equal (← b.toNumber?)

/-- Loose equality: null and undefined equal each other, values of one type are compared strictly,
and all others are converted first. -/
def looseEquals? (a b : Value) : Option Bool :=
  if a.isNullish || b.isNullish then some (a.isNullish && b.isNullish)
  else if sameType a b then some (strictEquals a b)
  else do primitiveEquals? (← a.primitive?) (← b.primitive?)

/-- Sum of numbers, or the strings of both values one after the other when one is a string, an
array or an object. -/
def add? (a b : Value) : Option Value := do
  let a ← a.primitive?
  let b ← b.primitive?
  match a, b with
  | str _, _ => return str ((← a.string?) ++ (← b.string?))
  | _, str _ => return str ((← a.string?) ++ (← b.string?))
  | _, _ => return num (← Number.add (← a.toNumber?) (← b.toNumber?))

def order? (a b : Value) : Option (Option Ordering) :=
  match a, b with
  | str a, str b => some (some (Text.order a b))
  | a, b => do return Number.compare? (← a.toNumber?) (← b.toNumber?)

end Value

end PugPrinter.Constant
