import PugPrinter.Text

/-!
Quoted text: a text between two equal marks, with as few backslashes as possible.
-/

set_option autoImplicit false

namespace PugPrinter

/-- The two quotation marks that attribute names may stand in. -/
inductive Quote where
  | single
  | double
  deriving DecidableEq, Repr, Inhabited

namespace Quote

def mark : Quote → CodePoint
  | single => '\''
  | double => '"'

def ofText? : Text → Option Quote
  | [.scalar '\''] => some single
  | [.scalar '"'] => some double
  | _ => none

end Quote

namespace Text

def otherMark (mark : Text) : Text :=
  match mark with
  | [.scalar '\''] => ['"']
  | _ => ['\'']

def enclose (mark : Text) (t : Text) : Text :=
  mark ++ t ++ mark

def occursIn (part : Text) : Text → Bool
  | [] => part.isEmpty
  | c :: rest => startsWith (c :: rest) part || occursIn part rest

/-- Puts a text in place of each occurrence of a text that is not empty, from left to right. The
number says how many code points of an occurrence are still to be passed over. -/
def replaceFrom (old new : Text) : Nat → Text → Text
  | _, [] => []
  | skip + 1, _ :: rest => replaceFrom old new skip rest
  | 0, c :: rest =>
    if startsWith (c :: rest) old then new ++ replaceFrom old new (old.length - 1) rest
    else c :: replaceFrom old new 0 rest

/-- Puts a text in place of each occurrence of another; the empty text occurs at both ends and
between all neighbours. -/
def replaceAll (old new t : Text) : Text :=
  if old.isEmpty then new ++ t.flatMap fun c => c :: new else replaceFrom old new 0 t

def escapeMark (mark t : Text) : Text :=
  replaceAll mark ('\\' :: mark) t

/-- A text in quotes: in the other mark when it holds only the preferred one, and otherwise in
the preferred mark, with a backslash before each of its occurrences. -/
def quote (preferred : Text) (t : Text) : Text :=
  if occursIn preferred t && !occursIn (otherMark preferred) t then
    enclose (otherMark preferred) t
  else
    enclose preferred (escapeMark preferred t)

def doubleBackslashes (t : Text) : Text :=
  t.flatMap fun (c : CodePoint) => if c == '\\' then ['\\', '\\'] else [c]

end Text

end PugPrinter
