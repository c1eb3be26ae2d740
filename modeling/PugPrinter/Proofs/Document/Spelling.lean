import Mathlib.Data.List.Forall2
import PugPrinter.Proofs.Document.Fields
import PugPrinter.Proofs.WellFormed

/-!
The ways in which a tree may be written as JSON. An object has places; at each of them stands one
entry, under one of the keys of the place, or none where the place may stay empty. The entries may
come in any order, and others may stand between them as long as no place and no reader answers to
their keys.
-/

set_option autoImplicit false

namespace PugPrinter

namespace Document

def headingKeys : List Text :=
  ["type", "line", "column", "filename"]

def dialectKeys : List Text :=
  ["mustEscape", "alternate", "expr", "filters"]

end Document

def Kind.keys : Kind → List Text
  | block => ["nodes", "yield"]
  | namedBlock => ["nodes", "yield", "name", "mode"]
  | tag => ["name", "block", "attrs", "attributeBlocks", "selfClosing", "buffer", "code"]
  | mixin => ["name", "call", "args", "attrs", "attributeBlocks", "block"]
  | mixinBlock => []
  | text => ["val", "isHtml"]
  | code => ["val", "buffer", "escape", "block"]
  | comment => ["val", "buffer"]
  | blockComment => ["val", "block", "buffer"]
  | caseOf => ["expr", "block"]
  | when => ["expr", "block"]
  | conditional => ["test", "consequent", "alternate"]
  | whileLoop => ["test", "block"]
  | each => ["val", "obj", "block", "key", "alternative"]
  | doctype => ["val"]
  | fileReference => ["path"]
  | extending => ["file"]
  | inclusion => ["file", "filter", "attrs", "block"]
  | filter => ["name", "block", "attrs"]
  | bare => []

namespace Document

/-- A place in an object, with the values that may stand there. -/
structure Place where
  key : Text
  /-- Other names of the field. -/
  aliases : List Text := []
  value : Json → Prop
  /-- Whether nothing has to stand there. -/
  mayLack : Prop

namespace Place

/-- The keys of a place: its own in camelCase and in snake_case, and its other names as they are. -/
def keys (p : Place) : List Text :=
  p.key :: fieldName p.key :: p.aliases

def owns (p : Place) (entry : Text × Json) : Bool :=
  p.keys.contains entry.1

def Takes (p : Place) : List (Text × Json) → Prop
  | [] => p.mayLack
  | [(_, value)] => p.value value
  | _ => False

def Holds (p : Place) : Option Json → Prop
  | none => p.mayLack
  | some value => p.value value

def field (key : Text) (value missing : Json) : Place :=
  { key, value := (· = value), mayLack := value = missing }

def alsoAs (p : Place) (other : Text) : Place :=
  { p with aliases := [other] }

end Place

/-- Entries that fill all places, in any order, with some extra ones. -/
structure Fills (isExtra : Text → Bool) (places : List Place) (fields : List (Text × Json)) :
    Prop where
  takes : ∀ p ∈ places, p.Takes (fields.filter p.owns)
  others : ∀ entry ∈ fields, (∃ p ∈ places, p.owns entry = true) ∨ isExtra entry.1 = true

def isExtraKey (kind : Kind) (key : Text) : Bool :=
  !(headingKeys ++ dialectKeys).contains key && !(kind.keys.map fieldName).contains (fieldName key)

def attributeKeys : List Text :=
  ["name", "val", "escaped", "mustEscape"]

def filterKeys : List Text :=
  ["name", "attrs"]

def IsObject (isExtra : Text → Bool) (places : List Place) : Json → Prop
  | .obj fields => Fills isExtra places fields
  | _ => False

def attributePlaces (attr : Attribute) : List Place :=
  [.field "name" (.str attr.name) .null, .field "val" (.str attr.val) (.str "true"),
    (Place.field "escaped" (.bool attr.escaped) (.bool true)).alsoAs "mustEscape"]

def SpellsAttribute : Loose Attribute → Json → Prop
  | .of attr => IsObject (fun key => !attributeKeys.contains key) (attributePlaces attr)
  | .odd value => (· = value)

def SpellsAttributeBlock : Loose Text → Json → Prop
  | .of expr => fun json =>
    json = .str expr ∨ IsObject (fun key => key != "val") [.field "val" (.str expr) .null] json
  | .odd value => (· = value)

def SpellsList {α : Type} (item : α → Json → Prop) : Loose (List α) → Json → Prop
  | .of items => fun json => ∃ written, json = .arr written ∧ List.Forall₂ item items written
  | .odd value => (· = value)

def attributesPlace (attrs : Attributes) : Place :=
  { key := "attrs", value := SpellsList SpellsAttribute attrs, mayLack := attrs = .of [] }

def attributeBlocksPlace (blocks : AttributeBlocks) : Place :=
  { key := "attributeBlocks", value := SpellsList SpellsAttributeBlock blocks
    mayLack := blocks = .of [] }

/-- The place of a line. One that is not known may be left out, unless there is a column, which is
read only next to a line. -/
def linePlace (loc : Location) : Place :=
  { key := "line", value := (· = .int loc.line), mayLack := loc.line = 0 ∧ loc.column = none }

def headingPlaces (typeName : Text) (loc : Location) : List Place :=
  [.field "type" (.str typeName) .null, linePlace loc,
    .field "column" (loc.column.elim .null .int) .null,
    .field "filename" (loc.filename.elim .null .str) .null]

def leafPlaces : Leaf → List Place
  | .mixinBlock => []
  | .text val isHtml =>
    [.field "val" val.textJson .null, .field "isHtml" isHtml.flagJson (.bool false)]
  | .comment val buffer =>
    [.field "val" val.textJson .null, .field "buffer" buffer.flagJson (.bool true)]
  | .doctype val => [.field "val" val.textJson .null]
  | .fileReference path => [.field "path" path.textJson .null]
  | .bare => []

def blockPlaces (kind : BlockKind) (yields : Loose Bool) (nodes : Place) : List Place :=
  nodes :: .field "yield" yields.flagJson (.bool false) ::
    match kind with
    | .plain => []
    | .named name mode =>
      [.field "name" name.textJson (.str []), .field "mode" mode.textJson (.str "replace")]

def stemPlaces (head : Stem) (slot : Place) : List Place :=
  match head with
  | .mixin m =>
    [.field "name" m.name.textJson .null, .field "call" m.call.flagJson .null,
      .field "args" m.args.textJson .null, attributesPlace m.attrs,
      attributeBlocksPlace m.attributeBlocks, slot]
  | .code code =>
    [.field "val" code.val.textJson .null, .field "buffer" code.buffer.flagJson (.bool false),
      (Place.field "escape" code.escape.flagJson (.bool true)).alsoAs "mustEscape", slot]
  | .blockComment val buffer =>
    [.field "val" val.textJson .null, slot, .field "buffer" buffer.flagJson (.bool true)]
  | .caseOf expr => [.field "expr" expr.textJson .null, slot]
  | .when expr => [.field "expr" expr.textJson .null, slot]
  | .whileLoop test => [.field "test" test.textJson .null, slot]
  | .extending => [slot]
  | .filter name attrs => [.field "name" name.textJson .null, slot, attributesPlace attrs]

/-- The places of a tag, with those of its name, of the mark that the name is an expression, and of
its slots. -/
def tagPlaces (tag : TagHead) (name first interpolated second : Place) : List Place :=
  [name, first, attributesPlace tag.attrs, attributeBlocksPlace tag.attributeBlocks,
    .field "selfClosing" tag.selfClosing.flagJson (.bool false), interpolated, second]

def forkPlaces (head : Fork) (first second : Place) : List Place :=
  match head with
  | .tag tag =>
    tagPlaces tag (.field "name" tag.name.textJson .null) first
      (.field "buffer" tag.interpolated.flagJson (.bool false)) second
  | .conditional test => [.field "test" test.textJson .null, first, second]
  | .each val obj key =>
    [.field "val" val.textJson .null, .field "obj" obj.textJson .null, first,
      .field "key" key.textJson .null, second.alsoAs "alternate"]
  | .inclusion filter attrs =>
    [first, .field "filter" filter.textJson .null, attributesPlace attrs, second]

def filterPlace (name : Text) (attrs : Attributes) : Place :=
  { key := "filters"
    value := fun json => ∃ filter, json = .arr [filter] ∧
      IsObject (fun key => !filterKeys.contains key)
        [.field "name" (.str name) .null, attributesPlace attrs] filter
    mayLack := False }

def noFiltersPlace : Place :=
  { key := "filters", value := fun json => json = .null ∨ json = .arr [], mayLack := True }

def setPlace (key : Text) : Place :=
  { key, value := (· = .bool true), mayLack := True }

def blockForms (kind : BlockKind) (yields : Loose Bool) (nodes : Place) (isEmpty : Bool) :
    List (Text × List Place) :=
  (kind.kind.name, blockPlaces kind yields nodes) ::
    match kind, yields, isEmpty with
    | .plain, .of true, true => [("YieldBlock", [nodes, setPlace "yield"])]
    | _, _, _ => []

def tagForms (tag : TagHead) (first second : Place) : List (Text × List Place) :=
  (Kind.tag.name, forkPlaces (.tag tag) first second) ::
    match tag.interpolated with
    | .of true =>
      [("InterpolatedTag", tagPlaces tag (.field "expr" tag.name.textJson (.str [])) first
        (setPlace "buffer") second)]
    | _ => []

def inclusionForms (filter : Loose Text) (attrs : Attributes) (first second : Place) :
    List (Text × List Place) :=
  (Kind.inclusion.name, forkPlaces (.inclusion filter attrs) first second) ::
    match filter, attrs with
    | .of name, attrs => [("RawInclude", [first, filterPlace name attrs, second])]
    | .odd .null, .of [] =>
      [("RawInclude", noFiltersPlace :: forkPlaces (.inclusion .missing (.of [])) first second)]
    | _, _ => []

def forkForms (head : Fork) (first second : Place) : List (Text × List Place) :=
  match head with
  | .tag tag => tagForms tag first second
  | .inclusion filter attrs => inclusionForms filter attrs first second
  | head => [(head.kind.name, forkPlaces head first second)]

def SpellsForm (kind : Kind) (loc : Location) (forms : List (Text × List Place)) (json : Json) :
    Prop :=
  ∃ form ∈ forms, IsObject (isExtraKey kind) (headingPlaces form.1 loc ++ form.2) json

mutual

/-- The JSON values that a tree may be written as. -/
def Spells : Node → Json → Prop
  | .leaf loc head => SpellsForm head.kind loc [(head.kind.name, leafPlaces head)]
  | .block loc kind yields nodes =>
    SpellsForm kind.kind loc (blockForms kind yields
      { key := "nodes"
        value := fun json => ∃ items, json = .arr items ∧ SpellsNodes nodes items
        mayLack := nodes = [] }
      nodes.isEmpty)
  | .oddBlock _ _ _ _ => fun _ => False
  | .stem loc head child =>
    SpellsForm head.kind loc [(head.kind.name, stemPlaces head
      { key := head.slot, value := SpellsSlot child, mayLack := child = none })]
  | .fork loc head first second =>
    SpellsForm head.kind loc (forkForms head
      { key := head.firstSlot, value := SpellsSlot first, mayLack := first = none }
      { key := head.secondSlot, value := SpellsSlot second, mayLack := second = none })
  | .stray _ => fun _ => False
termination_by structural n => n

def SpellsNodes : List Node → List Json → Prop
  | [], [] => True
  | n :: rest, item :: items => Spells n item ∧ SpellsNodes rest items
  | _, _ => False
termination_by structural nodes => nodes

def SpellsSlot : Option Node → Json → Prop
  | none => (· = .null)
  | some n => Spells n
termination_by structural child => child

end

end Document

end PugPrinter
