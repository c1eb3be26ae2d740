import PugPrinter.Double

/-!
The shortest decimal that reads back as a given double. Among the decimals with the least number
of digits inside the interval that rounds to the double, the nearest one is taken.
-/

set_option autoImplicit false

namespace PugPrinter.Double

/-- A decimal `0.d₁d₂d₃… * 10 ^ point`. -/
structure Decimal where
  digits : List Char
  point : Int
  deriving DecidableEq, Repr

/-- The reals that round to a positive dyadic number, over a common denominator. -/
structure Interval where
  low : Nat
  value : Nat
  high : Nat
  den : Nat
  closed : Bool
  deriving DecidableEq, Repr

/-- Half the gap to each neighbour, all numerators over one denominator. The gap below a power of
two is half the one above it. -/
def Dyadic.interval (d : Dyadic) : Interval :=
  let up := pow2 d.exponent.toNat
  let narrow := d.mantissa == pow2 52 && d.exponent > -1074
  { low := (4 * d.mantissa - (if narrow then 1 else 2)) * up
    value := 4 * d.mantissa * up
    high := (4 * d.mantissa + 2) * up
    den := 4 * pow2 (-d.exponent).toNat
    closed := d.mantissa % 2 == 0 }

def Interval.holds (i : Interval) (c num den : Nat) : Bool :=
  let x := c * num * i.den
  if i.closed then i.low * den ≤ x && x ≤ i.high * den
  else i.low * den < x && x < i.high * den

/-- The least `k` with `value < 10 ^ k`, searched upward from a bound below it. -/
def leadingPoint (num den : Nat) : Nat → Int → Int
  | 0, k => k
  | fuel + 1, k =>
    if num * pow10 (-k).toNat < den * pow10 k.toNat then k else leadingPoint num den fuel (k + 1)

/-- The position of the decimal point before the first digit of a quotient. -/
def pointOf (num den : Nat) : Int :=
  let bits : Int := (num.log2 : Int) - den.log2
  leadingPoint num den 8 (bits * 30103 / 100000 - 2)

/-- The better of the two decimals with `count` digits around the value, if one reads back. -/
def nearest? (i : Interval) (point : Int) (count : Nat) : Option Nat :=
  let e := point - count
  let num := pow10 e.toNat
  let den := pow10 (-e).toNat
  let below := i.value * den / (i.den * num)
  let lowHit := i.holds below num den
  let highHit := i.holds (below + 1) num den
  if lowHit && highHit then
    let twice := 2 * i.value * den
    let middle := (2 * below + 1) * num * i.den
    if twice < middle || (twice == middle && below % 2 == 0) then some below else some (below + 1)
  else if lowHit then some below
  else if highHit then some (below + 1)
  else none

def searchDigits (i : Interval) (point : Int) : Nat → Nat → Nat × Nat
  | 0, count => (count, i.value)
  | fuel + 1, count =>
    match nearest? i point count with
    | some n => (count, n)
    | none => searchDigits i point fuel (count + 1)

def trimZeros (digits : List Char) : List Char :=
  (digits.reverse.dropWhile (· == '0')).reverse

def shortest (d : Dyadic) : Decimal :=
  let i := d.interval
  let point := pointOf i.value i.den
  let (count, n) := searchDigits i point 17 1
  let digits := Nat.toDigits 10 n
  ⟨trimZeros digits, point + (digits.length - count : Int)⟩

end PugPrinter.Double
