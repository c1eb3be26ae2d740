import PugPrinter.Double.Written
import PugPrinter.Json

/-!
JSON text. Every character outside the printable ASCII range is spelled with escapes; doubles are
written with the shortest digits that read back.
-/

set_option autoImplicit false

namespace PugPrinter.Json

structure Format where
  /-- Spaces for each level, or everything on one line. -/
  indent : Option Int := none
  /-- Whether the fields of an object come in the order of their keys. -/
  sorted : Bool := false

def unitEscape (code : Nat) : Text :=
  '\\' :: 'u' :: Text.hex 4 code

/-- One code point inside a string; a character past the first plane becomes two units. -/
def printPoint (c : CodePoint) : Text :=
  let code := c.code
  if c == '"' || c == '\\' then ['\\', c]
  else if c == '\n' then ['\\', 'n']
  else if c == '\r' then ['\\', 'r']
  else if c == '\t' then ['\\', 't']
  else if c == '\x08' then ['\\', 'b']
  else if c == '\x0c' then ['\\', 'f']
  else if 0x20 ≤ code && code < 0x7f then [c]
  else if code < 0x10000 then unitEscape code
  else
    let past := code - 0x10000
    unitEscape (0xd800 + past / 0x400) ++ unitEscape (0xdc00 + past % 0x400)

def printString (t : Text) : Text :=
  Text.between '"' '"' (t.flatMap printPoint)

/-- A double, with the words that readers accept for the values that are not finite. -/
def printFloat (f : Float) : Text :=
  Double.write "NaN" "Infinity" f

def wrap (format : Format) (level : Nat) (opening closing : CodePoint) (items : List Text) : Text :=
  if items.isEmpty then [opening, closing]
  else
    match format.indent with
    | none => Text.between opening closing (Text.join ", " items)
    | some width =>
      let line (n : Nat) : Text := '\n' :: List.replicate (n * width.toNat) (CodePoint.scalar ' ')
      opening :: line (level + 1) ++ Text.join (',' :: line (level + 1)) items
        ++ line level ++ [closing]

/-- Printed fields, put in the order of their keys when the format asks for it. -/
def orderFields (format : Format) (fields : List (Text × Text)) : List (Text × Text) :=
  if format.sorted then fields.mergeSort fun a b => Text.order a.1 b.1 != .gt else fields

mutual

def print (format : Format) (level : Nat) : Json → Text
  | null => "null"
  | bool true => "true"
  | bool false => "false"
  | int i => Text.ofInt i
  | float f => printFloat f
  | str s => printString s
  | arr items => wrap format level '[' ']' (printItems format (level + 1) items)
  | obj fields =>
    let entries := orderFields format (printFields format (level + 1) fields)
    wrap format level '{' '}'
      (entries.map fun entry => printString entry.1 ++ (": " : Text) ++ entry.2)

def printItems (format : Format) (level : Nat) : List Json → List Text
  | [] => []
  | item :: rest => print format level item :: printItems format level rest

def printFields (format : Format) (level : Nat) : List (Text × Json) → List (Text × Text)
  | [] => []
  | (key, value) :: rest => (key, print format level value) :: printFields format level rest

end

def compact (value : Json) : Text :=
  print {} 0 value

end PugPrinter.Json
