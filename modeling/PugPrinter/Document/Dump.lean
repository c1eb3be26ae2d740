import PugPrinter.Document.Load

/-!
Trees as the JSON that parsers write. Every field is written, also one that has its usual value;
only a field that holds null is left out.
-/

set_option autoImplicit false

namespace PugPrinter.Document

def written (fields : List (Text × Json)) : List (Text × Json) :=
  fields.filter fun field => !field.2.isNull

def attributesJson (attrs : Attributes) : Json :=
  attrs.toJson fun items => .arr (items.map fun item => item.toJson Attribute.toJson)

def attributeBlocksJson (blocks : AttributeBlocks) : Json :=
  blocks.toJson fun exprs => .arr (exprs.map Loose.textJson)

def headingFields (kind : Kind) (loc : Location) : List (Text × Json) :=
  [("type", .str kind.name), ("line", .int loc.line), ("column", loc.column.elim .null .int),
    ("filename", loc.filename.elim .null .str)]

def leafFields : Leaf → List (Text × Json)
  | .mixinBlock => []
  | .text val isHtml => [("val", val.textJson), ("isHtml", isHtml.flagJson)]
  | .comment val buffer => [("val", val.textJson), ("buffer", buffer.flagJson)]
  | .doctype val => [("val", val.textJson)]
  | .fileReference path => [("path", path.textJson)]
  | .bare => []

/-- The fields of a sequence with some nodes, or another value in their place. -/
def blockFields (kind : BlockKind) (yields : Loose Bool) (nodes : Json) : List (Text × Json) :=
  ("nodes", nodes) :: ("yield", yields.flagJson) ::
    match kind with
    | .plain => []
    | .named name mode => [("name", name.textJson), ("mode", mode.textJson)]

def stemFields (head : Stem) (slot : Text × Json) : List (Text × Json) :=
  match head with
  | .mixin m =>
    [("name", m.name.textJson), ("call", m.call.flagJson), ("args", m.args.textJson),
      ("attrs", attributesJson m.attrs), ("attributeBlocks", attributeBlocksJson m.attributeBlocks),
      slot]
  | .code code =>
    [("val", code.val.textJson), ("buffer", code.buffer.flagJson),
      ("escape", code.escape.flagJson), slot]
  | .blockComment val buffer => [("val", val.textJson), slot, ("buffer", buffer.flagJson)]
  | .caseOf expr => [("expr", expr.textJson), slot]
  | .when expr => [("expr", expr.textJson), slot]
  | .whileLoop test => [("test", test.textJson), slot]
  | .extending => [slot]
  | .filter name attrs => [("name", name.textJson), slot, ("attrs", attributesJson attrs)]

def forkFields (head : Fork) (first second : Text × Json) : List (Text × Json) :=
  match head with
  | .tag tag =>
    [("name", tag.name.textJson), first, ("attrs", attributesJson tag.attrs),
      ("attributeBlocks", attributeBlocksJson tag.attributeBlocks),
      ("selfClosing", tag.selfClosing.flagJson), ("buffer", tag.interpolated.flagJson), second]
  | .conditional test => [("test", test.textJson), first, second]
  | .each val obj key =>
    [("val", val.textJson), ("obj", obj.textJson), first, ("key", key.textJson), second]
  | .inclusion filter attrs =>
    [first, ("filter", filter.textJson), ("attrs", attributesJson attrs), second]

mutual

def dump : Node → Json
  | .leaf loc head => .obj (written (headingFields head.kind loc ++ leafFields head))
  | .block loc kind yields nodes =>
    .obj (written (headingFields kind.kind loc ++ blockFields kind yields (.arr (dumpNodes nodes))))
  | .oddBlock loc kind yields nodes =>
    .obj (written (headingFields kind.kind loc ++ blockFields kind yields nodes))
  | .stem loc head child =>
    .obj (written (headingFields head.kind loc ++ stemFields head (head.slot, dumpSlot child)))
  | .fork loc head first second =>
    .obj (written (headingFields head.kind loc
      ++ forkFields head (head.firstSlot, dumpSlot first) (head.secondSlot, dumpSlot second)))
  | .stray value => value

def dumpNodes : List Node → List Json
  | [] => []
  | n :: rest => dump n :: dumpNodes rest

def dumpSlot : Option Node → Json
  | none => .null
  | some n => dump n

end

/-- The JSON text that spells a tree, with the fields in the order of their keys. -/
def toJsonText (indent : Option Int) (root : Node) : Text :=
  (dump root).print { indent, sorted := true } 0

/-- Writes a tree as JSON text. Whole numbers with too many digits are refused. -/
def writeJson (indent : Option Int) (root : Node) : Except Fault Text :=
  if (dump root).hasShortNumbers then .ok (toJsonText indent root)
  else .error (.integerTooLong none)

end PugPrinter.Document
