import PugPrinter.Double.Written

/-!
The numbers of constant expressions. Whole numbers are exact at any size; all others are doubles.
A double that is a whole number below `2 ^ 53` is kept as that whole number, so the two kinds
overlap only above. Operations that would need a whole number too large for a double have no
result.
-/

set_option autoImplicit false

namespace PugPrinter.Constant

/-- An exact whole number or a double. -/
inductive Number where
  | int (value : Int)
  | float (value : Float)
  deriving Inhabited

namespace Number

/-- Whole numbers with more decimal digits than this are neither read nor written. -/
def digitLimit : Nat := 4300

def nan : Number := .float Double.notANumber

def normal (f : Float) : Number :=
  match (Double.decode? f).bind Double.Dyadic.toInt? with
  | some i => if i.natAbs < Double.pow2 53 then .int i else .float f
  | none => .float f

/-- The double nearest to a number, unless a whole number is too large for one. -/
def toFloat? : Number → Option Float
  | .float f => some f
  | .int i =>
    let f := Double.ofInt i
    if Double.isInfinite f then none else some f

def isZero : Number → Bool
  | .int i => i == 0
  | .float f => f == 0.0

def isNaN : Number → Bool
  | .int _ => false
  | .float f => f.isNaN

def compareIntFloat? (i : Int) (f : Float) : Option Ordering :=
  match Double.decode? f with
  | some d => some (d.compareInt i)
  | none => if f.isNaN then none else if Double.isNegative f then some .gt else some .lt

/-- How two numbers compare, without rounding; nothing when one of them is not a number. -/
def compare? : Number → Number → Option Ordering
  | .int a, .int b => some (compare a b)
  | .int a, .float b => compareIntFloat? a b
  | .float a, .int b => (compareIntFloat? b a).map Ordering.swap
  | .float a, .float b =>
    if a < b then some .lt else if b < a then some .gt else if a == b then some .eq else none

def equal (a b : Number) : Bool :=
  compare? a b == some .eq

def onFloats (op : Float → Float → Float) (a b : Number) : Option Number := do
  return normal (op (← a.toFloat?) (← b.toFloat?))

def add : Number → Number → Option Number
  | .int a, .int b => some (.int (a + b))
  | a, b => onFloats (· + ·) a b

def sub : Number → Number → Option Number
  | .int a, .int b => some (.int (a - b))
  | a, b => onFloats (· - ·) a b

def mul : Number → Number → Option Number
  | .int a, .int b => some (.int (a * b))
  | a, b => onFloats (· * ·) a b

def neg : Number → Number
  | .int a => .int (-a)
  | .float f => normal (-f)

def isNegative : Number → Bool
  | .int i => i < 0
  | .float f => Double.isNegative f

/-- The double nearest to the quotient of two whole numbers, unless it is too large. -/
def quotient? (a b : Int) : Option Number :=
  let f := Double.ofRatio ((a < 0) != (b < 0)) a.natAbs b.natAbs
  if Double.isInfinite f then none else some (normal f)

/-- Quotient. By zero it is infinite, or not a number when the dividend is zero or none; the
dividend must then fit a double. -/
def div (a b : Number) : Option Number :=
  if b.isZero then
    if a.isZero || a.isNaN then some nan
    else do
      let _ ← a.toFloat?
      return .float (if a.isNegative != b.isNegative then Double.negativeInfinity
        else Double.infinity)
  else
    match a, b with
    | .int a, .int b => quotient? a b
    | a, b => onFloats (· / ·) a b

/-- Remainder with the sign of the dividend. An infinite divisor leaves the dividend as it is. -/
def rem (a b : Number) : Option Number :=
  if b.isZero then some nan
  else do
    let x ← a.toFloat?
    if Double.isInfinite x then return nan
    let y ← b.toFloat?
    if Double.isInfinite y then return a
    match Double.decode? x, Double.decode? y with
    | some dx, some dy => return normal (Double.remainder dx dy)
    | _, _ => return nan

/-- Power, in doubles. A power of finite numbers that is not finite has no result. -/
def pow (a b : Number) : Option Number := do
  let x ← a.toFloat?
  let y ← b.toFloat?
  let z := Float.pow x y
  let finite (f : Float) : Bool := (Double.decode? f).isSome
  if finite x && finite y && !finite z then none else return normal z

/-- The decimal text of a number, unless a whole number has too many digits. Doubles that are
whole numbers are written with all their digits. -/
def text? : Number → Option Text
  | .int i => if i.natAbs < Double.pow10 digitLimit then some (Text.ofInt i) else none
  | .float f =>
    match (Double.decode? f).bind Double.Dyadic.toInt? with
    | some i => some (Text.ofInt i)
    | none => some (Double.write "NaN" "Infinity" f)

end Number

namespace Numeral

def digits (t : Text) : Text × Text :=
  (t.takeWhile Text.isDigit, t.dropWhile Text.isDigit)

def sign : Text → Bool × Text
  | .scalar '-' :: rest => (true, rest)
  | .scalar '+' :: rest => (false, rest)
  | t => (false, t)

/-- The digits of a decimal numeral before and after its point. -/
structure Mantissa where
  whole : Text
  /-- The digits after the point, or nothing when there is no point. -/
  fraction : Option Text
  deriving DecidableEq, Repr

def Mantissa.toFloat (m : Mantissa) (negative : Bool) (scale : Int) : Float :=
  let fraction := m.fraction.getD []
  Double.ofDecimal negative (Text.natOfDigits 10 (m.whole ++ fraction))
    (scale - (fraction.length : Int))

/-- The mantissa of a decimal numeral split off the front of a text: digits before the point,
after it, or on both sides. -/
def mantissa? (t : Text) : Option (Mantissa × Text) :=
  let (whole, rest) := digits t
  match rest with
  | .scalar '.' :: tail =>
    let (fraction, after) := digits tail
    if whole.isEmpty && fraction.isEmpty then none else some (⟨whole, some fraction⟩, after)
  | _ => if whole.isEmpty then none else some (⟨whole, none⟩, rest)

/-- An exponent split off the front of a text: its value, and what it leaves. Without a digit
there is none. -/
def exponent (t : Text) : Option Int × Text :=
  match t with
  | mark :: rest =>
    if mark == 'e' || mark == 'E' then
      let (negative, tail) := sign rest
      let (size, after) := digits tail
      if size.isEmpty then (none, t)
      else
        let value : Int := (Text.natOfDigits 10 size : Int)
        (some (if negative then -value else value), after)
    else (none, t)
  | [] => (none, t)

/-- The base that a letter after a leading zero announces, and the digits of that base. -/
def base? (mark : CodePoint) : Option (Nat × (CodePoint → Bool)) :=
  if mark == 'x' || mark == 'X' then some (16, Text.isHexDigit)
  else if mark == 'b' || mark == 'B' then some (2, fun c => c == '0' || c == '1')
  else if mark == 'o' || mark == 'O' then some (8, CodePoint.holds fun c => '0' ≤ c && c ≤ '7')
  else none

def based? : Text → Option (Number × Text)
  | .scalar '0' :: mark :: rest => do
    let (base, isDigit) ← base? mark
    let row := rest.takeWhile isDigit
    if row.isEmpty then none
    else return (.int (Text.natOfDigits base row : Nat), rest.dropWhile isDigit)
  | _ => none

/-- A decimal numeral split off the front of a text. Digits alone are a whole number, unless
there are too many of them. -/
def decimal? (t : Text) : Option (Option Number × Text) := do
  let (m, rest) ← mantissa? t
  let (scale, after) := exponent rest
  if scale.isNone && m.fraction.isNone then
    if m.whole.length ≤ Number.digitLimit then
      return (some (.int (Text.natOfDigits 10 m.whole : Nat)), after)
    else return (none, after)
  else return (some (Number.normal (m.toFloat false (scale.getD 0))), after)

def isNumeral (c : CodePoint) : Bool :=
  Text.isHexDigit c || c == 'x' || c == 'X' || c == 'o' || c == 'O' || c == '.' || c == '+' ||
    c == '-'

/-- The number that a whole text spells as a decimal numeral without a sign. -/
def unsigned? (t : Text) : Option Number :=
  match decimal? t with
  | some (n, []) => n
  | _ => none

/-- The number that a whole text spells as a decimal numeral after a sign; digits alone are read
as a double, too. -/
def signed? (negative : Bool) (t : Text) : Option Number := do
  let (m, rest) ← mantissa? t
  let (scale, after) := exponent rest
  if after.isEmpty then return Number.normal (m.toFloat negative (scale.getD 0)) else none

/-- The number that a whole text spells. A sign stands only before a decimal numeral. -/
def read? (t : Text) : Option Number :=
  match t with
  | .scalar '-' :: rest => signed? true rest
  | .scalar '+' :: rest => signed? false rest
  | .scalar '0' :: mark :: _ =>
    if (base? mark).isSome then
      match based? t with
      | some (n, []) => some n
      | _ => none
    else unsigned? t
  | _ => unsigned? t

end Numeral

end PugPrinter.Constant
