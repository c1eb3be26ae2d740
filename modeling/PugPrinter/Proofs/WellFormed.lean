import PugPrinter.Node

/-!
Well-formed trees. Every field holds a value of the kind that it is made for, or null where it may be
missing; every slot holds a node of a kind that it is made for, and is filled where its head needs a
child; and no node is without a kind.
-/

set_option autoImplicit false

namespace PugPrinter

namespace Loose

/-- Whether a field holds a value of the kind that it is made for. -/
def isProper {α : Type} : Loose α → Bool
  | of _ => true
  | odd _ => false

def isProperOrMissing {α : Type} : Loose α → Bool
  | of _ => true
  | odd .null => true
  | odd _ => false

def isProperList {α : Type} : Loose (List (Loose α)) → Bool
  | of items => items.all isProper
  | odd _ => false

/-- Whether a field holds one of the ways in which a named block joins the block that it names. -/
def isMode (field : Loose Text) : Bool :=
  field.isText "replace" || field.isText "append" || field.isText "prepend"

theorem isProper_iff {α : Type} {field : Loose α} :
    field.isProper = true ↔ ∃ value, field = .of value := by
  cases field <;> simp [isProper]

theorem isProperOrMissing_iff {α : Type} {field : Loose α} :
    field.isProperOrMissing = true ↔ (∃ value, field = .of value) ∨ field = .missing := by
  cases field with
  | of value => simp [isProperOrMissing]
  | odd value => cases value <;> simp [isProperOrMissing, missing]

theorem isProperList_iff {α : Type} {field : Loose (List (Loose α))} :
    field.isProperList = true ↔ ∃ items : List α, field = .of (items.map .of) := by
  cases field with
  | odd value => simp [isProperList]
  | of fields =>
    simp only [isProperList, of.injEq]
    induction fields with
    | nil => exact ⟨fun _ => ⟨[], rfl⟩, fun _ => rfl⟩
    | cons field fields ih =>
      rw [List.all_cons, Bool.and_eq_true, isProper_iff, ih]
      constructor
      · rintro ⟨⟨value, rfl⟩, items, rfl⟩
        exact ⟨value :: items, rfl⟩
      · rintro ⟨items, same⟩
        cases items with
        | nil => cases same
        | cons value items =>
          injection same with first rest
          exact ⟨⟨value, first⟩, items, rest⟩

theorem isProper_of_isMode {field : Loose Text} (mode : field.isMode = true) :
    field.isProper = true := by
  cases field with
  | of value => rfl
  | odd value => cases mode

end Loose

def Leaf.wellFormed : Leaf → Bool
  | mixinBlock => true
  | text val isHtml => val.isProper && isHtml.isProper
  | comment val buffer => val.isProper && buffer.isProper
  | doctype val => val.isProperOrMissing
  | fileReference path => path.isProper
  | bare => false

def BlockKind.wellFormed : BlockKind → Bool
  | plain => true
  | named name mode => name.isProper && mode.isMode

def MixinHead.wellFormed (head : MixinHead) : Bool :=
  head.name.isProper && head.call.isProper && head.args.isProperOrMissing
    && head.attrs.isProperList && head.attributeBlocks.isProperList

def CodeHead.wellFormed (head : CodeHead) : Bool :=
  head.val.isProper && head.buffer.isProper && head.escape.isProper

def Stem.wellFormed : Stem → Bool
  | mixin head => head.wellFormed
  | code head => head.wellFormed
  | blockComment val buffer => val.isProper && buffer.isProper
  | caseOf expr => expr.isProper
  | when expr => expr.isProper
  | whileLoop test => test.isProper
  | extending => true
  | filter name attrs => name.isProper && attrs.isProperList

def TagHead.wellFormed (head : TagHead) : Bool :=
  head.name.isProper && head.attrs.isProperList && head.attributeBlocks.isProperList
    && head.selfClosing.isProper && head.interpolated.isProper

def Fork.wellFormed : Fork → Bool
  | tag head => head.wellFormed
  | conditional test => test.isProper
  | each val obj key => val.isProper && obj.isProper && key.isProperOrMissing
  | inclusion filter attrs => filter.isProperOrMissing && attrs.isProperList

def Node.isSequence (n : Node) : Bool :=
  n.isKind .block || n.isKind .namedBlock

/-- The children that the slot of a head is made for. A mixin, code and the arm of a case may be
without one. -/
def Stem.accepts (head : Stem) (child : Option Node) : Bool :=
  match head with
  | extending => child.any (Node.isKind .fileReference)
  | mixin _ | code _ | when _ => child.all Node.isSequence
  | blockComment _ _ | caseOf _ | whileLoop _ | filter _ _ => child.any Node.isSequence

def Fork.acceptsFirst (head : Fork) (child : Option Node) : Bool :=
  match head with
  | inclusion _ _ => child.any (Node.isKind .fileReference)
  | tag _ | conditional _ | each _ _ _ => child.any Node.isSequence

def Fork.acceptsSecond (head : Fork) (child : Option Node) : Bool :=
  match head with
  | tag _ => child.all (Node.isKind .code)
  | conditional _ => child.all fun n => n.isSequence || n.isKind .conditional
  | each _ _ _ | inclusion _ _ => child.all Node.isSequence

mutual

def Node.wellFormed : Node → Bool
  | .leaf _ head => head.wellFormed
  | .block _ kind yields nodes => kind.wellFormed && yields.isProper && wellFormedNodes nodes
  | .oddBlock _ _ _ _ => false
  | .stem _ head child => head.wellFormed && head.accepts child && wellFormedSlot child
  | .fork _ head first second =>
    head.wellFormed && head.acceptsFirst first && head.acceptsSecond second
      && wellFormedSlot first && wellFormedSlot second
  | .stray _ => false

def Node.wellFormedNodes : List Node → Bool
  | [] => true
  | n :: rest => n.wellFormed && wellFormedNodes rest

def Node.wellFormedSlot : Option Node → Bool
  | none => true
  | some n => n.wellFormed

end

end PugPrinter
