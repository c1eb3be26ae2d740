import PugPrinter.Double.Shortest
import PugPrinter.Text

/-!
The written form of a double: the shortest digits that read back, in positional notation for
middle-sized numbers and with an exponent for the others.
-/

set_option autoImplicit false

namespace PugPrinter.Double

/-- How finite doubles are written. -/
structure NumberStyle where
  /-- Least exponent of ten that is written positionally. -/
  leastPositional : Int
  /-- First exponent of ten that is no longer written positionally. -/
  pastPositional : Int
  /-- Least number of digits in a written exponent. -/
  exponentWidth : Nat

/-- Positional from `10 ^ -4` up to, not including, `10 ^ 16`; exponents have two digits. -/
def standard : NumberStyle := ⟨-4, 16, 2⟩

/-- Digits with a decimal point, and a zero after it when nothing else follows. -/
def positional (d : Decimal) : List Char :=
  let count : Int := d.digits.length
  if d.point ≤ 0 then '0' :: '.' :: List.replicate (-d.point).toNat '0' ++ d.digits
  else if count ≤ d.point then
    d.digits ++ List.replicate (d.point - count).toNat '0' ++ ['.', '0']
  else d.digits.take d.point.toNat ++ '.' :: d.digits.drop d.point.toNat

def scientific (width : Nat) (d : Decimal) : List Char :=
  let e := d.point - 1
  let size := Nat.toDigits 10 e.natAbs
  let mark := if e < 0 then '-' else '+'
  let head := match d.digits with
    | [] => ['0']
    | [c] => [c]
    | c :: rest => c :: '.' :: rest
  head ++ 'e' :: mark :: List.replicate (width - size.length) '0' ++ size

def writeDyadic (style : NumberStyle) (d : Dyadic) : List Char :=
  let body :=
    if d.mantissa == 0 then ['0', '.', '0']
    else
      let decimal := shortest d
      let e := decimal.point - 1
      if style.leastPositional ≤ e && e < style.pastPositional then positional decimal
      else scientific style.exponentWidth decimal
  if d.negative then '-' :: body else body

/-- The written form of a double, with words for the values that are not finite. -/
def write (notNumber infinite : Text) (f : Float) : Text :=
  match decode? f with
  | some d => Text.ofChars (writeDyadic standard d)
  | none =>
    if !isInfinite f then notNumber
    else if isNegative f then '-' :: infinite
    else infinite

end PugPrinter.Double
