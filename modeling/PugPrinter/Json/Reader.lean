import PugPrinter.Double
import PugPrinter.Json

/-!
Reading JSON text. Beside the standard the words `NaN`, `Infinity` and `-Infinity` are numbers;
of several fields with one key the last value counts, at the place of the first. Control
characters inside strings, a byte order mark and anything after the value are refused.

Values are read within a bound on how deeply they are nested and on how many stand side by side;
the number of characters of the text is enough, since each of them takes at least one.
-/

set_option autoImplicit false

namespace PugPrinter.Json

/-- Why a text is not read as a JSON value. -/
inductive ReadError where
  | malformed
  | integerTooLong (digits : Nat)
  deriving DecidableEq, Repr

/-- A reader takes a value off the front of a text. -/
abbrev Reader (α : Type) := Text → Except ReadError (α × Text)

def isSpace (c : CodePoint) : Bool :=
  c == ' ' || c == '\t' || c == '\n' || c == '\r'

def skipSpace (t : Text) : Text :=
  t.dropWhile isSpace

def simpleEscape? (c : CodePoint) : Option CodePoint :=
  if c == '"' || c == '\\' || c == '/' then some c
  else if c == 'b' then some '\x08'
  else if c == 'f' then some '\x0c'
  else if c == 'n' then some '\n'
  else if c == 'r' then some '\r'
  else if c == 't' then some '\t'
  else none

def fourDigits? (a b c d : CodePoint) : Option Nat :=
  if [a, b, c, d].all Text.isHexDigit then some (Text.natOfDigits 16 [a, b, c, d]) else none

def isHighSurrogate (code : Nat) : Bool :=
  0xd800 ≤ code && code ≤ 0xdbff

def isLowSurrogate (code : Nat) : Bool :=
  0xdc00 ≤ code && code ≤ 0xdfff

def pointOfUnit (code : Nat) : CodePoint :=
  (CodePoint.ofCode? code).getD '\x00'

def joinHalves (high low : Nat) : CodePoint :=
  .scalar (Char.ofNat (0x10000 + (high - 0xd800) * 0x400 + (low - 0xdc00)))

/-- The rest of a string after its opening quote. Two halves of a pair are joined when one escape
directly follows the other. -/
def readStringBody : Reader Text
  | [] => .error .malformed
  | .scalar '"' :: rest => .ok ([], rest)
  | .scalar '\\' :: .scalar 'u' :: a :: b :: c :: d :: rest =>
    match fourDigits? a b c d with
    | none => .error .malformed
    | some code =>
      match rest with
      | .scalar '\\' :: .scalar 'u' :: e :: f :: g :: h :: after =>
        match fourDigits? e f g h with
        | some low =>
          if isHighSurrogate code && isLowSurrogate low then
            (readStringBody after).map fun (t, r) => (joinHalves code low :: t, r)
          else
            (readStringBody ('\\' :: 'u' :: e :: f :: g :: h :: after)).map fun (t, r) =>
              (pointOfUnit code :: t, r)
        | none => .error .malformed
      | rest => (readStringBody rest).map fun (t, r) => (pointOfUnit code :: t, r)
  | .scalar '\\' :: c :: rest =>
    match simpleEscape? c with
    | some x => (readStringBody rest).map fun (t, r) => (x :: t, r)
    | none => .error .malformed
  | c :: rest =>
    if c == '\\' || c.code < 0x20 then .error .malformed
    else (readStringBody rest).map fun (t, r) => (c :: t, r)

def readString : Reader Text
  | .scalar '"' :: rest => readStringBody rest
  | _ => .error .malformed

def readFraction (t : Text) : Text × Text :=
  match t with
  | .scalar '.' :: rest =>
    let digits := rest.takeWhile Text.isDigit
    if digits.isEmpty then ([], t) else (digits, rest.dropWhile Text.isDigit)
  | _ => ([], t)

def readExponent (t : Text) : Option Int × Text :=
  match t with
  | mark :: rest =>
    if mark == 'e' || mark == 'E' then
      let (negative, tail) := match rest with
        | .scalar '-' :: r => (true, r)
        | .scalar '+' :: r => (false, r)
        | r => (false, r)
      let digits := tail.takeWhile Text.isDigit
      if digits.isEmpty then (none, t)
      else
        let size : Int := (Text.natOfDigits 10 digits : Int)
        (some (if negative then -size else size), tail.dropWhile Text.isDigit)
    else (none, t)
  | [] => (none, t)

/-- The whole part of a number: a zero alone, or digits that do not start with one. -/
def readWhole : Text → Option (Text × Text)
  | .scalar '0' :: rest => some (['0'], rest)
  | t =>
    let digits := t.takeWhile Text.isDigit
    if digits.isEmpty then none else some (digits, t.dropWhile Text.isDigit)

/-- A number after its sign. A number with neither fraction nor exponent is whole. -/
def readNumber (negative : Bool) : Reader Json := fun t =>
  match readWhole t with
  | none => .error .malformed
  | some (whole, rest) =>
    let (fraction, rest) := readFraction rest
    let (exponent, rest) := readExponent rest
    if fraction.isEmpty && exponent.isNone then
      if whole.length > digitLimit then .error (.integerTooLong whole.length)
      else
        let size : Int := (Text.natOfDigits 10 whole : Int)
        .ok (.int (if negative then -size else size), rest)
    else
      let digits := Text.natOfDigits 10 (whole ++ fraction)
      let scale := exponent.getD 0 - (fraction.length : Int)
      .ok (.float (Double.ofDecimal negative digits scale), rest)

def words : List (Text × Json) :=
  [("null", .null), ("true", .bool true), ("false", .bool false),
    ("NaN", .float Double.notANumber), ("Infinity", .float Double.infinity),
    ("-Infinity", .float Double.negativeInfinity)]

def readWord? (t : Text) : Option (Json × Text) :=
  (words.find? fun word => Text.startsWith t word.1).map fun word => (word.2, t.drop word.1.length)

def readScalar : Reader Json
  | .scalar '"' :: rest => (readStringBody rest).map fun (s, r) => (.str s, r)
  | t =>
    match readWord? t with
    | some found => .ok found
    | none =>
      match t with
      | .scalar '-' :: rest => readNumber true rest
      | _ => readNumber false t

def readItems (value : Reader Json) : Nat → Reader (List Json)
  | 0, _ => .error .malformed
  | fuel + 1, t => do
    let (item, rest) ← value (skipSpace t)
    match skipSpace rest with
    | .scalar ',' :: rest =>
      let (items, rest) ← readItems value fuel rest
      return (item :: items, rest)
    | .scalar ']' :: rest => return ([item], rest)
    | _ => throw .malformed

def readFields (value : Reader Json) : Nat → List (Text × Json) → Reader (List (Text × Json))
  | 0, _, _ => .error .malformed
  | fuel + 1, before, t => do
    let (key, rest) ← readString (skipSpace t)
    match skipSpace rest with
    | .scalar ':' :: rest =>
      let (item, rest) ← value (skipSpace rest)
      let fields := put key item before
      match skipSpace rest with
      | .scalar ',' :: rest => readFields value fuel fields rest
      | .scalar '}' :: rest => return (fields, rest)
      | _ => throw .malformed
    | _ => throw .malformed

def readValue : Nat → Reader Json
  | 0, _ => .error .malformed
  | fuel + 1, '[' :: rest =>
    match skipSpace rest with
    | .scalar ']' :: rest => .ok (.arr [], rest)
    | rest =>
      (readItems (readValue fuel) fuel rest).map fun (items, r) => (.arr items, r)
  | fuel + 1, '{' :: rest =>
    match skipSpace rest with
    | .scalar '}' :: rest => .ok (.obj [], rest)
    | rest =>
      (readFields (readValue fuel) fuel [] rest).map fun (fields, r) => (.obj fields, r)
  | _ + 1, t => readScalar t

def read (t : Text) : Except ReadError Json := do
  let (value, rest) ← readValue (t.length + 1) (skipSpace t)
  if (skipSpace rest).isEmpty then return value else throw .malformed

end PugPrinter.Json
