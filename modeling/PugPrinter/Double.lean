/-!
Binary floating-point numbers taken apart and put together exactly: a finite double is a whole
number times a power of two, and every quotient of whole numbers has one nearest double.
-/

set_option autoImplicit false

namespace PugPrinter.Double

def pow2 (n : Nat) : Nat := Nat.pow 2 n

def pow10 (n : Nat) : Nat := Nat.pow 10 n

/-- The exact value of a finite double: `mantissa * 2 ^ exponent`, negated when `negative`. -/
structure Dyadic where
  negative : Bool
  mantissa : Nat
  exponent : Int
  deriving DecidableEq, Repr

/-- The exact value of a double, or nothing for an infinity and for what is not a number. -/
def decode? (f : Float) : Option Dyadic :=
  let bits : Nat := f.toBits.toNat
  let negative := bits / pow2 63 == 1
  let biased : Nat := bits / pow2 52 % pow2 11
  let fraction : Nat := bits % pow2 52
  if biased == 2047 then none
  else if biased == 0 then some ⟨negative, fraction, -1074⟩
  else some ⟨negative, fraction + pow2 52, (biased : Int) - 1075⟩

def isInfinite (f : Float) : Bool :=
  f.toBits.toNat % pow2 63 == 2047 * pow2 52

def isNegative (f : Float) : Bool :=
  f.toBits.toNat / pow2 63 == 1

def infinity : Float :=
  Float.ofBits 0x7ff0000000000000

def negativeInfinity : Float :=
  Float.ofBits 0xfff0000000000000

def notANumber : Float :=
  Float.ofBits 0x7ff8000000000000

/-- A quotient rounded to the nearest whole number, halves to the even one. -/
def roundQuotient (num den : Nat) : Nat :=
  let quotient := num / den
  let rest := num % den
  if 2 * rest > den || (2 * rest == den && quotient % 2 == 1) then quotient + 1 else quotient

/-- The exponent that gives a quotient a mantissa of 53 bits, but none below the least one. -/
def quotientExponent (num den : Nat) : Int :=
  let guess : Int := (num.log2 : Int) - den.log2 - 53
  let fits (e : Int) : Bool := num * pow2 (-e).toNat < den * pow2 (53 + e.toNat)
  let exact := if fits guess then guess else if fits (guess + 1) then guess + 1 else guess + 2
  max exact (-1074)

/-- The bits of the nonnegative double nearest to a quotient, halves to the even mantissa;
those of infinity when the quotient is too large. -/
def quotientBits (num den : Nat) : Nat :=
  if num == 0 then 0
  else
    let e := quotientExponent num den
    let mantissa := roundQuotient (num * pow2 (-e).toNat) (den * pow2 e.toNat)
    let bits :=
      if mantissa < pow2 52 then mantissa
      else (e + 1075).toNat * pow2 52 + (mantissa - pow2 52)
    min bits (2047 * pow2 52)

def ofRatio (negative : Bool) (num den : Nat) : Float :=
  let bits := quotientBits num den
  Float.ofBits (UInt64.ofNat (if negative then bits + pow2 63 else bits))

def ofInt (i : Int) : Float :=
  ofRatio (i < 0) i.natAbs 1

/-- The double nearest to `digits * 10 ^ exponent`. Exponents far outside the range of doubles
are cut short, so that no huge power is formed. -/
def ofDecimal (negative : Bool) (digits : Nat) (exponent : Int) : Float :=
  let size : Int := ((Nat.toDigits 10 digits).length : Int)
  if digits == 0 || size + exponent < -400 then ofRatio negative 0 1
  else if size + exponent > 400 then ofRatio negative (pow10 400) 1
  else ofRatio negative (digits * pow10 exponent.toNat) (pow10 (-exponent).toNat)

def Dyadic.ratio (d : Dyadic) : Nat × Nat :=
  (d.mantissa * pow2 d.exponent.toNat, pow2 (-d.exponent).toNat)

def Dyadic.toInt? (d : Dyadic) : Option Int :=
  let (num, den) := d.ratio
  if num % den == 0 then
    let size : Int := num / den
    some (if d.negative then -size else size)
  else none

def Dyadic.compareInt (i : Int) (d : Dyadic) : Ordering :=
  let (num, den) := d.ratio
  compare (i * den) (if d.negative then -(num : Int) else num)

def equalsInt (i : Int) (f : Float) : Bool :=
  match decode? f with
  | some d => d.compareInt i == .eq
  | none => false

/-- The remainder of a division that is cut off toward zero; it has the sign of the dividend and
is always representable. -/
def remainder (a b : Dyadic) : Float :=
  let e := min a.exponent b.exponent
  let dividend := a.mantissa * pow2 (a.exponent - e).toNat
  let rest := dividend % (b.mantissa * pow2 (b.exponent - e).toNat)
  ofRatio a.negative (rest * pow2 e.toNat) (pow2 (-e).toNat)

end PugPrinter.Double
