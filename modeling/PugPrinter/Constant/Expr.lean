import PugPrinter.Constant.Token

/-!
Constant expressions and their values. All parts of an expression are evaluated, also those that
are not chosen, and an expression has a value only when all its parts have one.
-/

set_option autoImplicit false

namespace PugPrinter.Constant

inductive UnaryOp where
  | not | neg | pos | typeOf
  deriving DecidableEq, Repr

/-- Operators with two operands that compute with both. -/
inductive BinaryOp where
  | strictEq | strictNe | looseEq | looseNe | less | greater | atMost | atLeast
  | add | sub | mul | div | rem | pow
  deriving DecidableEq, Repr

/-- Operators that choose one of their two operands. -/
inductive LogicalOp where
  | nullish | either | both
  deriving DecidableEq, Repr

inductive Keyword where
  | true | false | null | undefined | nan | infinity
  deriving DecidableEq, Repr

namespace Keyword

def spellings : List (Text × Keyword) :=
  [("true", .true), ("false", .false), ("null", .null), ("undefined", .undefined), ("NaN", .nan),
    ("Infinity", .infinity)]

def ofName? (name : Text) : Option Keyword :=
  (spellings.find? fun entry => entry.1 == name).map Prod.snd

def value : Keyword → Value
  | true => .bool Bool.true
  | false => .bool Bool.false
  | null => .null
  | undefined => .undefined
  | nan => .num .nan
  | infinity => .num (.float Double.infinity)

end Keyword

/-- The key of a field in an object. -/
inductive Key where
  | name (text : Text)
  | literal (value : Literal)
  deriving Inhabited

inductive Expr where
  | literal (value : Literal)
  | keyword (word : Keyword)
  | unary (op : UnaryOp) (operand : Expr)
  | binary (op : BinaryOp) (left right : Expr)
  | logical (op : LogicalOp) (left right : Expr)
  | conditional (test yes no : Expr)
  /-- An item left out of an array. -/
  | hole
  | array (items : List Expr)
  | object (fields : List (Key × Expr))
  deriving Inhabited

namespace UnaryOp

def apply : UnaryOp → Value → Option Value
  | not, v => some (.bool !v.truthy)
  | neg, v => v.toNumber?.map fun n => .num n.neg
  | pos, v => v.toNumber?.map .num
  | typeOf, v => some (.str v.typeOf)

end UnaryOp

namespace BinaryOp

def ordered (holds : Ordering → Bool) (a b : Value) : Option Value := do
  let order ← Value.order? a b
  return .bool (order.any holds)

def arithmetic (op : Number → Number → Option Number) (a b : Value) : Option Value := do
  return .num (← op (← a.toNumber?) (← b.toNumber?))

def apply : BinaryOp → Value → Value → Option Value
  | strictEq, a, b => some (.bool (Value.strictEquals a b))
  | strictNe, a, b => some (.bool !Value.strictEquals a b)
  | looseEq, a, b => (Value.looseEquals? a b).map .bool
  | looseNe, a, b => (Value.looseEquals? a b).map fun equal => .bool !equal
  | less, a, b => ordered (· == .lt) a b
  | greater, a, b => ordered (· == .gt) a b
  | atMost, a, b => ordered (· != .gt) a b
  | atLeast, a, b => ordered (· != .lt) a b
  | add, a, b => Value.add? a b
  | sub, a, b => arithmetic Number.sub a b
  | mul, a, b => arithmetic Number.mul a b
  | div, a, b => arithmetic Number.div a b
  | rem, a, b => arithmetic Number.rem a b
  | pow, a, b => arithmetic Number.pow a b

end BinaryOp

namespace LogicalOp

def choose : LogicalOp → Value → Value → Value
  | nullish, a, b => if a.isNullish then b else a
  | either, a, b => if a.truthy then a else b
  | both, a, b => if a.truthy then b else a

end LogicalOp

def Key.codes? : Key → Option Text
  | name text => some text
  | literal value => value.value.string?

/-- Sets a field in place, or at the end when there is none with that name. -/
def putField (name : Text) (value : Value) : List (Text × Value) → List (Text × Value)
  | [] => [(name, value)]
  | field :: rest =>
    if field.1 == name then (name, value) :: rest else field :: putField name value rest

namespace Expr

mutual

def eval : Expr → Option Value
  | literal value => some value.value
  | keyword word => some word.value
  | unary op operand => do op.apply (← eval operand)
  | binary op left right => do op.apply (← eval left) (← eval right)
  | logical op left right => do return op.choose (← eval left) (← eval right)
  | conditional test yes no => do
    let test ← eval test
    let yes ← eval yes
    let no ← eval no
    return if test.truthy then yes else no
  | hole => some .undefined
  | array items => (evalItems items).map .arr
  | object fields => (evalFields [] fields).map .obj

def evalItems : List Expr → Option (List Value)
  | [] => some []
  | item :: rest => do return (← eval item) :: (← evalItems rest)

/-- The fields of an object after those already set; of several with one name the last counts. -/
def evalFields (before : List (Text × Value)) :
    List (Key × Expr) → Option (List (Text × Value))
  | [] => some before
  | (key, item) :: rest => do
    let value ← eval item
    evalFields (putField (← key.codes?) value before) rest

end

end Expr

end PugPrinter.Constant
