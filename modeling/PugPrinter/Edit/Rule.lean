import PugPrinter.Document.Load
import PugPrinter.Edit

/-!
Editing by rules. A rule applies to the nodes of one kind and leaves all others as they are.
-/

set_option autoImplicit false

namespace PugPrinter

/-- What a rule does with a node of its kind. -/
inductive RuleAction where
  /-- Takes the node out. -/
  | remove
  /-- Sets a field, if it has the value that is asked for. -/
  | set (field : Text) (expected : Option Json) (value : Json)
  /-- Puts the node into a sequence of its own. -/
  | wrap
  /-- Puts another tree in place of the node. -/
  | replace (tree : Json)

/-- An action for the nodes with a type name; without one, nothing is changed. -/
structure Rule where
  typeName : Option Text := none
  action : RuleAction := .wrap

namespace Rule

/-- What can be asked of a field: whether it equals a JSON value, and, unless it is only read, the
node with another value in it. -/
structure Access where
  equals : Json → Bool
  set? : Option (Json → Node)

namespace Access

def text (field : Loose Text) (build : Loose Text → Node) : Access :=
  ⟨fun value => field.textJson == value, some fun value => build (.ofText value)⟩

def flag (field : Loose Bool) (build : Loose Bool → Node) : Access :=
  ⟨fun value => field.flagJson == value, some fun value => build (.ofFlag value)⟩

/-- A field for a list. No JSON value equals a list of things of the right kind. -/
def list {α : Type} (field : Loose (List α)) (build : Loose (List α) → Node) : Access :=
  ⟨fun value => match field with
      | .of _ => false
      | .odd current => current == value,
    some fun value => build (.odd value)⟩

def slot (child : Option Node) (build : Option Node → Node) : Access :=
  ⟨fun value => match child with
      | none => value.isNull
      | some (.stray current) => current == value
      | some _ => false,
    some fun value => build (if value.isNull then none else some (.stray value))⟩

def readOnly (current : Json) : Access :=
  ⟨fun value => current == value, none⟩

end Access

def leafFields (loc : Location) : Leaf → List (Text × Access)
  | .text val isHtml =>
    [("val", .text val fun v => .leaf loc (.text v isHtml)),
      ("is_html", .flag isHtml fun v => .leaf loc (.text val v))]
  | .comment val buffer =>
    [("val", .text val fun v => .leaf loc (.comment v buffer)),
      ("buffer", .flag buffer fun v => .leaf loc (.comment val v))]
  | .doctype val => [("val", .text val fun v => .leaf loc (.doctype v))]
  | .fileReference path => [("path", .text path fun v => .leaf loc (.fileReference v))]
  | .mixinBlock => []
  | .bare => []

def blockFields (loc : Location) (kind : BlockKind) (yields : Loose Bool)
    (nodes : Loose (List Node)) : List (Text × Access) :=
  let own : List (Text × Access) :=
    [("nodes", .list nodes fun v => .ofSequence loc kind yields v),
      ("yield_", .flag yields fun v => .ofSequence loc kind v nodes)]
  match kind with
  | .plain => own
  | .named name mode =>
    ("name", .text name fun v => .ofSequence loc (.named v mode) yields nodes)
      :: ("mode", .text mode fun v => .ofSequence loc (.named name v) yields nodes)
      :: own

def stemFields (build : Stem → Node) : Stem → List (Text × Access)
  | .mixin m =>
    [("name", .text m.name fun v => build (.mixin { m with name := v })),
      ("call", .flag m.call fun v => build (.mixin { m with call := v })),
      ("args", .text m.args fun v => build (.mixin { m with args := v })),
      ("attrs", .list m.attrs fun v => build (.mixin { m with attrs := v })),
      ("attribute_blocks",
        .list m.attributeBlocks fun v => build (.mixin { m with attributeBlocks := v }))]
  | .code code =>
    [("val", .text code.val fun v => build (.code { code with val := v })),
      ("buffer", .flag code.buffer fun v => build (.code { code with buffer := v })),
      ("escape", .flag code.escape fun v => build (.code { code with escape := v }))]
  | .blockComment val buffer =>
    [("val", .text val fun v => build (.blockComment v buffer)),
      ("buffer", .flag buffer fun v => build (.blockComment val v))]
  | .caseOf expr => [("expr", .text expr fun v => build (.caseOf v))]
  | .when expr => [("expr", .text expr fun v => build (.when v))]
  | .whileLoop test => [("test", .text test fun v => build (.whileLoop v))]
  | .extending => []
  | .filter name attrs =>
    [("name", .text name fun v => build (.filter v attrs)),
      ("attrs", .list attrs fun v => build (.filter name v))]

def forkFields (build : Fork → Node) : Fork → List (Text × Access)
  | .tag tag =>
    [("name", .text tag.name fun v => build (.tag { tag with name := v })),
      ("attrs", .list tag.attrs fun v => build (.tag { tag with attrs := v })),
      ("attribute_blocks",
        .list tag.attributeBlocks fun v => build (.tag { tag with attributeBlocks := v })),
      ("self_closing",
        .flag tag.selfClosing fun v => build (.tag { tag with selfClosing := v })),
      ("buffer", .flag tag.interpolated fun v => build (.tag { tag with interpolated := v }))]
  | .conditional test => [("test", .text test fun v => build (.conditional v))]
  | .each val obj key =>
    [("val", .text val fun v => build (.each v obj key)),
      ("obj", .text obj fun v => build (.each val v key)),
      ("key", .text key fun v => build (.each val obj v))]
  | .inclusion filter attrs =>
    [("filter", .text filter fun v => build (.inclusion v attrs)),
      ("attrs", .list attrs fun v => build (.inclusion filter v))]

def ownFields : Node → List (Text × Access)
  | .leaf loc head => leafFields loc head
  | .block loc kind yields nodes => blockFields loc kind yields (.of nodes)
  | .oddBlock loc kind yields nodes => blockFields loc kind yields (.odd nodes)
  | .stem loc head child =>
    (head.slot, .slot child fun v => .stem loc head v)
      :: stemFields (fun h => .stem loc h child) head
  | .fork loc head first second =>
    (head.firstSlot, .slot first fun v => .fork loc head v second)
      :: (head.secondSlot, .slot second fun v => .fork loc head first v)
      :: forkFields (fun h => .fork loc h first second) head
  | .stray _ => []

def placeFields (loc : Location) : List (Text × Access) :=
  [("line", .readOnly (.int loc.line)),
    ("filename", .readOnly ((loc.filename.map Json.str).getD .null))]

def access? (n : Node) (name : Text) : Option Access :=
  ((ownFields n ++ placeFields (n.location?.getD {})).find? fun entry => entry.1 == name).map
    Prod.snd

/-- A node with one of its fields set, if the field has the value that is expected. -/
def setField (n : Node) (field : Text) (expected : Option Json) (value : Json) :
    Except Fault Node :=
  match access? n field with
  | none => .error .unsupportedShape
  | some access =>
    if expected.all access.equals then
      match access.set? with
      | some set => .ok (set value)
      | none => .error .unsupportedShape
    else .ok n

def placeName : Text := "location"

def editor (rule : Rule) : Node.Editor := fun n =>
  if rule.typeName != some n.typeName then .ok (some n)
  else
    match rule.action with
    | .remove => .ok none
    | .set field expected value =>
      if field == placeName then .ok (some n) else some <$> setField n field expected value
    | .wrap => .ok (some (.block (n.location?.getD {}) .plain (.of false) [n]))
    | .replace tree => some <$> Document.load tree

def displaces (rule : Rule) : Bool :=
  match rule.action with
  | .set field none _ => field == placeName
  | _ => false

/-- Edits a tree by a rule. A tree in which a node has lost its place cannot be used. -/
def apply (rule : Rule) (tree : Node) : Run Node Node :=
  let run := tree.edit rule.editor
  if rule.displaces && run.out.any fun n => rule.typeName == some n.typeName then
    ⟨run.out, .error .unsupportedShape⟩
  else run

end Rule

end PugPrinter
