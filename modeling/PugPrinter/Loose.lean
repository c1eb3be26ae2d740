import PugPrinter.Json.Shown

/-!
Loosely typed fields of nodes and options. A field holds a value of the kind that it is made for,
or any other JSON value, since trees and options come from outside. A field without a value holds
null.
-/

set_option autoImplicit false

namespace PugPrinter

inductive Loose (α : Type) where
  /-- A value of the kind that the field is made for. -/
  | of (value : α)
  /-- Another value. -/
  | odd (value : Json)
  deriving Inhabited

namespace Loose

def missing {α : Type} : Loose α := odd .null

def value? {α : Type} : Loose α → Option α
  | of value => some value
  | odd _ => none

def toJson {α : Type} (write : α → Json) : Loose α → Json
  | of value => write value
  | odd value => value

def ofText : Json → Loose Text
  | .str s => of s
  | value => odd value

def ofFlag : Json → Loose Bool
  | .bool b => of b
  | value => odd value

def textJson (field : Loose Text) : Json :=
  field.toJson .str

def flagJson (field : Loose Bool) : Json :=
  field.toJson .bool

def isOn (field : Loose Bool) : Bool :=
  field.flagJson.truthy

def isGiven (field : Loose Text) : Bool :=
  field.textJson.truthy

def isText (expected : Text) : Loose Text → Bool
  | of t => t == expected
  | odd _ => false

/-- A field in running text: a text as it is, another value as messages show it. -/
def shown : Loose Text → Text
  | of t => t
  | odd value => value.shown

instance : BEq (Loose Text) := ⟨fun a b => a.textJson == b.textJson⟩

instance : BEq (Loose Bool) := ⟨fun a b => a.flagJson == b.flagJson⟩

/-- Fields for lists are equal when both hold equal lists of the right kind, or both equal JSON
values. -/
def sameList {α : Type} [BEq α] : Loose (List α) → Loose (List α) → Bool
  | of a, of b => a == b
  | odd a, odd b => a == b
  | _, _ => false

instance : BEq (Loose (List (Loose Text))) := ⟨sameList⟩

end Loose

end PugPrinter
