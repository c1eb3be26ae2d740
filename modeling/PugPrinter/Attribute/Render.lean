import PugPrinter.Constant.Grammar
import PugPrinter.Node
import PugPrinter.Run
import PugPrinter.Text.Quotation

/-!
Attributes in their compact written form: the first constant id and the constant classes as
shorthand, all others in brackets, in the order in which they come.
-/

set_option autoImplicit false

namespace PugPrinter.Attribute

def startsClass (c : CodePoint) : Bool :=
  Text.isLetter c || c == '_'

def isShorthand (c : CodePoint) : Bool :=
  Text.isWord c || c == '-'

def isClassName (t : Text) : Bool :=
  match t with
  | .scalar '-' :: c :: rest => startsClass c && rest.all isShorthand
  | c :: rest => startsClass c && rest.all isShorthand
  | [] => false

def isIdName (t : Text) : Bool :=
  !t.isEmpty && t.all isShorthand

def breaksName (c : CodePoint) : Bool :=
  c == '(' || c == ')' || c == '[' || c == ']' || c == '=' || c == '!' || c == ',' ||
    c == '\x60' || c == '\'' || c == '"' || Text.isBlank c

def isBareName : Text → Bool
  | c :: rest => Text.isWord c && rest.all fun d => !breaksName d
  | [] => false

def writtenName (quote : Text) (name : Text) : Text :=
  if isBareName name then name else Text.quote quote (Text.doubleBackslashes name)

/-- An attribute as it is written in brackets; one that is constantly true is its name alone. -/
def listed (quote : Text) (attr : Attribute) (constantTrue : Bool) : Text :=
  let name := writtenName quote attr.name
  if constantTrue then name
  else name ++ (if attr.escaped then ("=" : Text) else ("!=" : Text)) ++ attr.val

inductive Placed where
  | id (name : Text)
  | className (name : Text)
  | listed (text : Text)
  deriving DecidableEq, Repr

/-- The text of a folded value that counts as true. It has no text when it holds a whole number
with too many digits. -/
def shorthandText (value : Option Constant.Value) : Except Fault (Option Text) :=
  match value with
  | some v =>
    if v.truthy then
      match v.string? with
      | some text => .ok (some text)
      | none => .error (.integerTooLong none)
    else .ok none
  | none => .ok none

def isConstantTrue : Option Constant.Value → Bool
  | some (.bool b) => b
  | _ => false

def place (quote : Text) (idTaken : Bool) (attr : Attribute) (value : Option Constant.Value) :
    Except Fault Placed := do
  match ← shorthandText value with
  | some text =>
    if attr.name == ("class" : Text) && isClassName text then return .className text
    else if attr.name == ("id" : Text) && !idTaken && isIdName text then return .id text
    else return .listed (listed quote attr (isConstantTrue value))
  | none => return .listed (listed quote attr (isConstantTrue value))

def Placed.isId : Placed → Bool
  | .id _ => true
  | _ => false

/-- Places attributes one by one. What is put out are the sources that are not constant. -/
def placeAll (quote : Text) (limit : Nat) : Bool → List Attribute → Run Text (List Placed)
  | _, [] => .done []
  | idTaken, attr :: rest => do
    let value := Constant.fold? attr.val limit
    if value.isNone then Run.put [attr.val]
    let placed ← Run.ofExcept (place quote idTaken attr value)
    let more ← placeAll quote limit (idTaken || placed.isId) rest
    return placed :: more

def idPart (placed : List Placed) : Text :=
  placed.flatMap fun
    | .id name => '#' :: name
    | _ => []

def classPart (placed : List Placed) : Text :=
  placed.flatMap fun
    | .className name => '.' :: name
    | _ => []

def listedTexts (placed : List Placed) : List Text :=
  placed.filterMap fun
    | .listed text => some text
    | _ => none

def assemble (placed : List Placed) : Text :=
  let texts := listedTexts placed
  idPart placed ++ classPart placed ++
    (if texts.isEmpty then [] else Text.between '(' ')' (Text.join " " texts))

def renderAll (quote : Text) (limit : Nat) (attrs : List Attribute) : Run Text Text := do
  return assemble (← placeAll quote limit false attrs)

/-- The attributes of a list up to the first one that lacks its name or its value. -/
def proper : List (Loose Attribute) → List Attribute
  | .of attr :: rest => attr :: proper rest
  | _ => []

def firstOdd? : List (Loose Attribute) → Option Json
  | [] => none
  | .of _ :: rest => firstOdd? rest
  | .odd value :: _ => some value

def oddNotes (limit : Nat) : Json → List Text
  | .obj fields =>
    match Json.lookup? "val" fields with
    | some (.str source) => if (Constant.fold? source limit).isNone then [source] else []
    | _ => []
  | _ => []

/-- Attributes in their written form. The first one without a name or a value stops at a shape that
nothing is defined for, and so does another value in place of the list, unless it is empty. The
limit is that on the nesting of constant values. -/
def render (quote : Text) (attrs : Attributes) (limit : Nat := Constant.Grammar.nestingLimit) :
    Run Text Text :=
  match attrs with
  | .of items => do
    let text ← renderAll quote limit (proper items)
    match firstOdd? items with
    | none => return text
    | some value => do
      Run.put (oddNotes limit value)
      .fail .unsupportedShape
  | .odd value =>
    match value.items? with
    | some [] => .done []
    | _ => .fail .unsupportedShape

def renderExprs (exprs : List Text) : Text :=
  exprs.flatMap fun expr => ("&attributes(" : Text) ++ expr ++ (")" : Text)

/-- Attribute blocks in their written form. Another value in place of the list is taken for the
list of its items, if it has some. -/
def renderBlocks : AttributeBlocks → Except Fault Text
  | .of exprs => .ok (renderExprs (exprs.map Loose.shown))
  | .odd value =>
    match value.items? with
    | some items => .ok (renderExprs (items.map fun item => (Loose.ofText item).shown))
    | none => .error .unsupportedShape

end PugPrinter.Attribute
