import PugPrinter.Document.FieldName
import PugPrinter.Json.Printer
import PugPrinter.Json.Reader
import PugPrinter.Node

/-!
Trees from the JSON that parsers write. Two dialects are understood: one marks attributes with
`escaped` and gives loops an `alternative`, the other has `mustEscape`, `alternate`, placeholders,
interpolated tags and raw inclusions as node types of their own, and attribute blocks as objects.

Fields are read in the order in which a kind of node declares them, and the first one that is
missing or cannot be read decides the fault.
-/

set_option autoImplicit false

namespace PugPrinter.Document

/-- JavaScript source for a JSON value: text is source already, anything else is written as JSON. -/
def expressionSource (value : Json) : Text :=
  match value with
  | .str s => s
  | other => other.compact

/-- An attribute. Without a value it is constantly true; without a flag it is escaped. A name has to
be there, but need not be a text. -/
def readAttribute : Json → Except Fault (Loose Attribute)
  | .obj fields => do
    let escaped := ((Json.lookup? "escaped" fields).or (Json.lookup? "mustEscape" fields)).getD
      (.bool true)
    let val := expressionSource ((Json.lookup? "val" fields).getD (.bool true))
    match Json.lookup? "name" fields with
    | some (.str name) => return .of { name, val, escaped := escaped.truthy }
    | some name =>
      return .odd (.obj [("name", name), ("val", .str val), ("escaped", .bool escaped.truthy)])
    | none => throw .unsupportedShape
  | _ => throw .unsupportedShape

def readAttributeBlock : Json → Except Fault (Loose Text)
  | .obj fields =>
    match Json.lookup? "val" fields with
    | some value => return .ofText value
    | none => throw .unsupportedShape
  | value => return .ofText value

def readList {α : Type} (item : Json → Except Fault α) (value : Json) :
    Except Fault (Loose (List α)) :=
  match value.items? with
  | some items => .of <$> items.mapM item
  | none => throw .unsupportedShape

def readText : Json → Except Fault (Loose Text)
  | .obj _ => throw .unsupportedShape
  | value => return .ofText value

def readFlag : Json → Except Fault (Loose Bool)
  | .obj _ => throw .unsupportedShape
  | value => return .ofFlag value

def int? : Json → Option Int
  | .int i => some i
  | _ => none

def text? : Json → Option Text
  | .str s => some s
  | _ => none

def readLocation (fields : List (Text × Json)) : Location :=
  let filename := (Json.present? "filename" fields).bind text?
  match (Json.present? "line" fields).bind int? with
  | some line => { line, column := (Json.present? "column" fields).bind int?, filename }
  | none => { filename }

def typeText : Json → Option Text
  | .str s => some s
  | .int i => some (Text.ofInt i)
  | .float f => some (Double.write "nan" "inf" f)
  | .bool true => some "True"
  | .bool false => some "False"
  | _ => none

/-- A node type after the dialect has been taken into account: the kind it stands for, and the
fields of the node other than its children. -/
structure Shape where
  kind : Kind
  entries : List (Text × Json)
  /-- Whether the children of the sequence are left out. -/
  empty : Bool := false

/-- The fields of a raw inclusion: those of its filter are its own. Only one filter is allowed. -/
def inclusionEntries (typeName : Text) (fields : List (Text × Json)) :
    Except Fault (List (Text × Json)) :=
  let filters := (Json.lookup? "filters" fields).getD .null
  match filters, filters.items? with
  | _, some (_ :: _ :: _) =>
    throw (.tree (.invalidFilterChain ⟨some typeName, some (readLocation fields)⟩))
  | .arr [.obj filter], _ =>
    let withName := Json.put "filter" ((Json.lookup? "name" filter).getD .null) fields
    return Json.put "attrs" ((Json.lookup? "attrs" filter).getD (.arr [])) withName
  | _, _ => if filters.truthy then throw .unsupportedShape else return fields

def hasKey (key : Text) (fields : List (Text × Json)) : Bool :=
  fields.any fun entry => entry.1 == key

def keyOf (name : Text) (key : Text) : Bool :=
  fieldName key == name

def lastKey? (fits : Text → Bool) (entries : List (Text × Json)) : Option Text :=
  (entries.reverse.find? fun entry => fits entry.1).map Prod.fst

/-- Whether the empty sequence that a placeholder has for its nodes is the one that counts: no other
key for them comes later. -/
def clearsNodes (fields : List (Text × Json)) : Bool :=
  lastKey? (keyOf "nodes") (Json.put "nodes" (.arr []) fields) == some ("nodes" : Text)

def shape (parent : Subject) (typeName : Text) (fields : List (Text × Json)) :
    Except Fault Shape :=
  if typeName == ("YieldBlock" : Text) then
    return { kind := .block
             entries := Json.put "yield" (.bool true) fields
             empty := clearsNodes fields }
  else if typeName == ("InterpolatedTag" : Text) then
    let name := (Json.lookup? "expr" fields).getD (.str [])
    return { kind := .tag, entries := Json.put "buffer" (.bool true) (Json.put "name" name fields) }
  else if typeName == ("RawInclude" : Text) then do
    return { kind := .inclusion, entries := ← inclusionEntries typeName fields }
  else
    match Kind.ofName? typeName with
    | some .code =>
      match Json.lookup? "mustEscape" fields with
      | some flag =>
        return { kind := .code
                 entries := if hasKey "escape" fields then fields
                   else Json.put "escape" flag fields }
      | none => return { kind := .code, entries := fields }
    | some kind => return { kind, entries := fields }
    | none =>
      throw (.tree (.unsupportedType ⟨some typeName, some (readLocation fields)⟩ parent))

def required {α : Type} (owner : Subject) (name : Text) (read : Json → Except Fault α)
    (entries : List (Text × Json)) : Except Fault α :=
  match field? name entries with
  | some value => read value
  | none => throw (.tree (.missingNode owner (some name)))

def defaulted {α : Type} (missing : α) (name : Text) (read : Json → Except Fault α)
    (entries : List (Text × Json)) : Except Fault α :=
  match field? name entries with
  | some value => read value
  | none => return missing

def optional {α : Type} (name : Text) (read : Json → Except Fault (Loose α))
    (entries : List (Text × Json)) : Except Fault (Loose α) :=
  defaulted .missing name read entries

def needed (owner : Subject) (name : Text) (child : Option Node) : Except Fault (Option Node) :=
  match child with
  | some n => return some n
  | none => throw (.tree (.missingNode owner (some name)))

def readType (parent : Subject) (fields : List (Text × Json)) : Except Fault Text :=
  match Json.present? "type" fields with
  | none => throw (.tree (.missingNode parent (some ("type" : Text))))
  | some value =>
    match typeText value with
    | some name => return name
    | none => throw .unsupportedShape

def isOverridden (matches? : Text → Bool) (rest : List (Text × Json)) : Bool :=
  rest.any fun entry => matches? entry.1

def alternativeKey (fields : List (Text × Json)) (key : Text) : Bool :=
  if hasKey "alternate" fields && !hasKey "alternative" fields then key == ("alternate" : Text)
  else fieldName key == ("alternative" : Text)

mutual

def loadBelow (parent : Subject) : Json → Except Fault Node
  | .obj fields => do
    let typeName ← readType parent fields
    let shape ← shape parent typeName fields
    let loc := readLocation fields
    let owner : Subject := ⟨some shape.kind.name, some loc⟩
    let entries := shape.entries
    match shape.kind with
    | .block => do
      let nodes ← if shape.empty then .ok (.of []) else loadSequence owner fields
      let yields ← defaulted (.of false) "yield_" readFlag entries
      return .ofSequence loc .plain yields nodes
    | .namedBlock => do
      let nodes ← loadSequence owner fields
      let yields ← defaulted (.of false) "yield_" readFlag entries
      let name ← defaulted (.of []) "name" readText entries
      let mode ← defaulted (.of "replace") "mode" readText entries
      return .ofSequence loc (.named name mode) yields nodes
    | .tag => do
      let name ← required owner "name" readText entries
      let block ← needed owner "block" (← loadSlot owner (keyOf "block") fields)
      let attrs ← defaulted (.of []) "attrs" (readList readAttribute) entries
      let attributeBlocks ← defaulted (.of []) "attribute_blocks" (readList readAttributeBlock) entries
      let selfClosing ← defaulted (.of false) "self_closing" readFlag entries
      let interpolated ← defaulted (.of false) "buffer" readFlag entries
      let code ← loadSlot owner (keyOf "code") fields
      return .fork loc (.tag { name, attrs, attributeBlocks, selfClosing, interpolated }) block code
    | .mixin => do
      let name ← required owner "name" readText entries
      let call ← required owner "call" readFlag entries
      let args ← optional "args" readText entries
      let attrs ← defaulted (.of []) "attrs" (readList readAttribute) entries
      let attributeBlocks ← defaulted (.of []) "attribute_blocks" (readList readAttributeBlock) entries
      let block ← loadSlot owner (keyOf "block") fields
      return .stem loc (.mixin { name, call, args, attrs, attributeBlocks }) block
    | .mixinBlock => return .leaf loc .mixinBlock
    | .text => do
      let val ← required owner "val" readText entries
      let isHtml ← defaulted (.of false) "is_html" readFlag entries
      return .leaf loc (.text val isHtml)
    | .code => do
      let val ← required owner "val" readText entries
      let buffer ← defaulted (.of false) "buffer" readFlag entries
      let escape ← defaulted (.of true) "escape" readFlag entries
      let block ← loadSlot owner (keyOf "block") fields
      return .stem loc (.code { val, buffer, escape }) block
    | .comment => do
      let val ← required owner "val" readText entries
      let buffer ← defaulted (.of true) "buffer" readFlag entries
      return .leaf loc (.comment val buffer)
    | .blockComment => do
      let val ← required owner "val" readText entries
      let block ← needed owner "block" (← loadSlot owner (keyOf "block") fields)
      let buffer ← defaulted (.of true) "buffer" readFlag entries
      return .stem loc (.blockComment val buffer) block
    | .caseOf => do
      let expr ← required owner "expr" readText entries
      let block ← needed owner "block" (← loadSlot owner (keyOf "block") fields)
      return .stem loc (.caseOf expr) block
    | .when => do
      let expr ← required owner "expr" readText entries
      let block ← loadSlot owner (keyOf "block") fields
      return .stem loc (.when expr) block
    | .conditional => do
      let test ← required owner "test" readText entries
      let yes ← needed owner "consequent" (← loadSlot owner (keyOf "consequent") fields)
      let no ← loadSlot owner (keyOf "alternate") fields
      return .fork loc (.conditional test) yes no
    | .whileLoop => do
      let test ← required owner "test" readText entries
      let block ← needed owner "block" (← loadSlot owner (keyOf "block") fields)
      return .stem loc (.whileLoop test) block
    | .each => do
      let val ← required owner "val" readText entries
      let obj ← required owner "obj" readText entries
      let block ← needed owner "block" (← loadSlot owner (keyOf "block") fields)
      let key ← optional "key" readText entries
      let alternative ← loadSlot owner (alternativeKey fields) fields
      return .fork loc (.each val obj key) block alternative
    | .doctype => do
      let val ← optional "val" readText entries
      return .leaf loc (.doctype val)
    | .fileReference => do
      let path ← required owner "path" readText entries
      return .leaf loc (.fileReference path)
    | .extending => do
      let file ← needed owner "file" (← loadSlot owner (keyOf "file") fields)
      return .stem loc .extending file
    | .inclusion => do
      let file ← needed owner "file" (← loadSlot owner (keyOf "file") fields)
      let filter ← optional "filter" readText entries
      let attrs ← defaulted (.of []) "attrs" (readList readAttribute) entries
      let block ← loadSlot owner (keyOf "block") fields
      return .fork loc (.inclusion filter attrs) file block
    | .filter => do
      let name ← required owner "name" readText entries
      let block ← needed owner "block" (← loadSlot owner (keyOf "block") fields)
      let attrs ← defaulted (.of []) "attrs" (readList readAttribute) entries
      return .stem loc (.filter name attrs) block
    | .bare => throw .unsupportedShape
  | _ => .error .unsupportedShape
termination_by structural value => value

/-- The child in the last entry whose key fits; null is no child, and all other values that are no
objects stay what they are. -/
def loadSlot (owner : Subject) (fits : Text → Bool) :
    List (Text × Json) → Except Fault (Option Node)
  | [] => return none
  | (key, value) :: rest =>
    if fits key && !isOverridden fits rest then
      match value with
      | .null => return none
      | .obj fields => some <$> loadBelow owner (.obj fields)
      | value => return some (.stray value)
    else loadSlot owner fits rest
termination_by structural entries => entries

def loadSequence (owner : Subject) : List (Text × Json) → Except Fault (Loose (List Node))
  | [] => return .of []
  | (key, value) :: rest =>
    if keyOf "nodes" key && !isOverridden (keyOf "nodes") rest then
      match value with
      | .null => return .of []
      | .arr items => .of <$> loadItems owner items
      | .obj _ => throw .unsupportedShape
      | value => return .odd value
    else loadSequence owner rest
termination_by structural entries => entries

/-- The items of a sequence: objects are nodes, all other values stay what they are. -/
def loadItems (owner : Subject) : List Json → Except Fault (List Node)
  | [] => return []
  | item :: rest => do
    let node ← match item with
      | .obj fields => loadBelow owner (.obj fields)
      | value => .ok (.stray value)
    return node :: (← loadItems owner rest)
termination_by structural items => items

end

def load : Json → Except Fault Node :=
  loadBelow {}

/-- The tree of a JSON value that is to be printed. Null is a missing root, and any other value
that is no object is a root of an unsupported type. -/
def loadRoot : Json → Except Fault Node
  | .null => throw (.tree (.missingNode {} none))
  | .obj fields => load (.obj fields)
  | value => throw (.tree (.unsupportedType ⟨some value.kindName, none⟩ {}))

def ofJsonText (t : Text) : Except Fault Node :=
  match Json.read t with
  | .ok (.obj fields) => load (.obj fields)
  | .ok other => throw (.notAnObject other.kindName)
  | .error .malformed => throw .malformedJson
  | .error (.integerTooLong digits) => throw (.integerTooLong (some digits))

end PugPrinter.Document
