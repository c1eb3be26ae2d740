/-!
Template text as the rules of the printer see it: a list of code points, with the ASCII classes
that the rules of Pug and of JavaScript literals speak about. Half of a surrogate pair may stand
alone in a text, since escapes can spell one.
-/

set_option autoImplicit false

namespace PugPrinter

/-- A code point: a character, or half of a surrogate pair, counted from U+D800. -/
inductive CodePoint where
  | scalar (c : Char)
  | surrogate (index : Fin 2048)
  deriving DecidableEq, Repr, Inhabited

namespace CodePoint

def code : CodePoint → Nat
  | scalar c => c.toNat
  | surrogate index => 0xd800 + index.val

def ofCode? (code : Nat) : Option CodePoint :=
  if code.isValidChar then some (scalar (Char.ofNat code))
  else if h : code - 0xd800 < 2048 then some (surrogate ⟨code - 0xd800, h⟩)
  else none

def holds (p : Char → Bool) : CodePoint → Bool
  | scalar c => p c
  | surrogate _ => false

/-- The character to show for a code point; half a pair has none of its own. -/
def toChar : CodePoint → Char
  | scalar c => c
  | surrogate _ => '\ufffd'

end CodePoint

/-- A character is a code point. -/
scoped instance : Coe Char CodePoint := ⟨.scalar⟩

/-- Template text, code point by code point. -/
abbrev Text := List CodePoint

namespace Text

def ofChars (chars : List Char) : Text :=
  chars.map CodePoint.scalar

def ofString (s : String) : Text :=
  ofChars s.toList

def toString (t : Text) : String :=
  String.ofList (t.map CodePoint.toChar)

end Text

/-- A written literal stands for its characters. -/
scoped instance : Coe String Text := ⟨Text.ofString⟩

namespace Text

def isDigit (c : CodePoint) : Bool :=
  c.holds Char.isDigit

def isLetter (c : CodePoint) : Bool :=
  c.holds Char.isAlpha

def isWord (c : CodePoint) : Bool :=
  c.holds fun c => c.isAlphanum || c == '_'

/-- The six ASCII blanks: space, tab, line feed, vertical tab, form feed, carriage return. -/
def isBlank (c : CodePoint) : Bool :=
  c.holds fun c => c == ' ' || (9 ≤ c.toNat && c.toNat ≤ 13)

def isHexDigit (c : CodePoint) : Bool :=
  c.holds fun c => c.isDigit || ('a' ≤ c && c ≤ 'f') || ('A' ≤ c && c ≤ 'F')

def digitValue (c : CodePoint) : Nat :=
  let code := c.code
  if code ≤ '9'.toNat then code - '0'.toNat
  else if 'a'.toNat ≤ code then code - 'a'.toNat + 10
  else code - 'A'.toNat + 10

def natOfDigits (base : Nat) (digits : Text) : Nat :=
  digits.foldl (fun n c => n * base + digitValue c) 0

def ofNat (n : Nat) : Text :=
  ofChars (Nat.toDigits 10 n)

def ofInt : Int → Text
  | .ofNat n => ofNat n
  | .negSucc n => '-' :: ofNat (n + 1)

def hex (width n : Nat) : Text :=
  let digits := Nat.toDigits 16 n
  ofChars (List.replicate (width - digits.length) '0' ++ digits)

def join (separator : Text) : List Text → Text
  | [] => []
  | [t] => t
  | t :: u :: rest => t ++ separator ++ join separator (u :: rest)

def between (opening closing : CodePoint) (t : Text) : Text :=
  opening :: t ++ [closing]

/-- A text repeated as often as a depth says; not at all when the depth is not positive. -/
def repeated (unit : Text) (depth : Int) : Text :=
  (List.replicate depth.toNat unit).flatten

def indentLines (indent : Text) (t : Text) : Text :=
  t.flatMap fun (c : CodePoint) => if c == '\n' then '\n' :: indent else [c]

def startsWith (t start : Text) : Bool :=
  start.isPrefixOf t

def order : Text → Text → Ordering
  | [], [] => .eq
  | [], _ :: _ => .lt
  | _ :: _, [] => .gt
  | c :: cs, d :: ds => if c == d then order cs ds else compare c.code d.code

end Text

end PugPrinter
