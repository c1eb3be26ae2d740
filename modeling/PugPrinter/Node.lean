import PugPrinter.Fault
import PugPrinter.Loose

/-!
The syntax tree of a Pug template. Every node has a head, which holds its kind and its own
fields, and zero, one or two slots for a child or a sequence of children. A slot may be empty
also where the kind of node needs a child, and any node may stand in any slot. A field may hold a
value that its kind is not made for, and so may a slot: the printer decides what it makes of it.
-/

set_option autoImplicit false

namespace PugPrinter

/-- An attribute of a tag, a mixin call or a filter. Its value is JavaScript source. -/
structure Attribute where
  name : Text
  val : Text
  escaped : Bool := true
  deriving DecidableEq, Repr, Inhabited

/-- The attributes of a node. One that lacks its name or its value is kept as it came. -/
abbrev Attributes := Loose (List (Loose Attribute))

/-- The attribute blocks of a node: expressions whose attributes are added as a whole. -/
abbrev AttributeBlocks := Loose (List (Loose Text))

def Attribute.toJson (attr : Attribute) : Json :=
  .obj [("name", .str attr.name), ("val", .str attr.val), ("escaped", .bool attr.escaped)]

instance : BEq (Loose Attribute) :=
  ⟨fun a b => a.toJson Attribute.toJson == b.toJson Attribute.toJson⟩

instance : BEq Attributes := ⟨Loose.sameList⟩

/-- The kinds of nodes. A bare node has no kind of its own. -/
inductive Kind where
  | block | namedBlock | tag | mixin | mixinBlock | text | code | comment | blockComment
  | caseOf | when | conditional | whileLoop | each | doctype | fileReference | extending
  | inclusion | filter | bare
  deriving DecidableEq, Repr

namespace Kind

def all : List Kind :=
  [block, namedBlock, tag, mixin, mixinBlock, text, code, comment, blockComment, caseOf, when,
    conditional, whileLoop, each, doctype, fileReference, extending, inclusion, filter]

def name : Kind → Text
  | block => "Block"
  | namedBlock => "NamedBlock"
  | tag => "Tag"
  | mixin => "Mixin"
  | mixinBlock => "MixinBlock"
  | text => "Text"
  | code => "Code"
  | comment => "Comment"
  | blockComment => "BlockComment"
  | caseOf => "Case"
  | when => "When"
  | conditional => "Conditional"
  | whileLoop => "While"
  | each => "Each"
  | doctype => "Doctype"
  | fileReference => "FileReference"
  | extending => "Extends"
  | inclusion => "Include"
  | filter => "Filter"
  | bare => "Node"

def ofName? (typeName : Text) : Option Kind :=
  all.find? fun kind => kind.name == typeName

end Kind

/-- A sequence of nodes without a name, or a block of template inheritance. -/
inductive BlockKind where
  | plain
  | named (name mode : Loose Text)
  deriving BEq

/-- Heads of nodes without children. -/
inductive Leaf where
  /-- The place of the content that is passed to a mixin. -/
  | mixinBlock
  /-- Literal text, or a verbatim line of HTML. -/
  | text (val : Loose Text) (isHtml : Loose Bool)
  /-- A comment on one line; a silent one is not rendered. -/
  | comment (val : Loose Text) (buffer : Loose Bool)
  | doctype (val : Loose Text)
  | fileReference (path : Loose Text)
  /-- A node without a kind. -/
  | bare
  deriving BEq

/-- The head of a mixin, declared or called. -/
structure MixinHead where
  name : Loose Text
  call : Loose Bool
  args : Loose Text := .missing
  attrs : Attributes := .of []
  attributeBlocks : AttributeBlocks := .of []
  deriving BEq

/-- Embedded JavaScript; `buffer` when its value is rendered, `escape` when it is escaped. -/
structure CodeHead where
  val : Loose Text
  buffer : Loose Bool := .of false
  escape : Loose Bool := .of true
  deriving BEq

inductive Stem where
  | mixin (head : MixinHead)
  | code (head : CodeHead)
  | blockComment (val : Loose Text) (buffer : Loose Bool)
  | caseOf (expr : Loose Text)
  | when (expr : Loose Text)
  | whileLoop (test : Loose Text)
  | extending
  | filter (name : Loose Text) (attrs : Attributes)
  deriving BEq

/-- The head of an HTML element; the name of an interpolated tag is an expression. -/
structure TagHead where
  name : Loose Text
  attrs : Attributes := .of []
  attributeBlocks : AttributeBlocks := .of []
  selfClosing : Loose Bool := .of false
  interpolated : Loose Bool := .of false
  deriving BEq

/-- Heads of nodes with two slots: the body and the code of a tag, the arms of a conditional, the
body of a loop and what stands for an empty one, the file and the content of an inclusion. -/
inductive Fork where
  | tag (head : TagHead)
  | conditional (test : Loose Text)
  | each (val obj key : Loose Text)
  | inclusion (filter : Loose Text) (attrs : Attributes)
  deriving BEq

/-- A node of the tree, or a stray value where a node was expected. -/
inductive Node where
  | leaf (loc : Location) (head : Leaf)
  | block (loc : Location) (kind : BlockKind) (yields : Loose Bool) (nodes : List Node)
  /-- A sequence that has another value in place of its nodes. -/
  | oddBlock (loc : Location) (kind : BlockKind) (yields : Loose Bool) (nodes : Json)
  | stem (loc : Location) (head : Stem) (child : Option Node)
  | fork (loc : Location) (head : Fork) (first second : Option Node)
  | stray (value : Json)
  deriving Inhabited

def Leaf.kind : Leaf → Kind
  | mixinBlock => .mixinBlock
  | text _ _ => .text
  | comment _ _ => .comment
  | doctype _ => .doctype
  | fileReference _ => .fileReference
  | bare => .bare

def BlockKind.kind : BlockKind → Kind
  | plain => .block
  | named _ _ => .namedBlock

def Stem.kind : Stem → Kind
  | mixin _ => .mixin
  | code _ => .code
  | blockComment _ _ => .blockComment
  | caseOf _ => .caseOf
  | when _ => .when
  | whileLoop _ => .whileLoop
  | extending => .extending
  | filter _ _ => .filter

def Stem.slot : Stem → Text
  | extending => "file"
  | _ => "block"

def Fork.kind : Fork → Kind
  | tag _ => .tag
  | conditional _ => .conditional
  | each _ _ _ => .each
  | inclusion _ _ => .inclusion

def Fork.firstSlot : Fork → Text
  | tag _ => "block"
  | conditional _ => "consequent"
  | each _ _ _ => "block"
  | inclusion _ _ => "file"

def Fork.secondSlot : Fork → Text
  | tag _ => "code"
  | conditional _ => "alternate"
  | each _ _ _ => "alternative"
  | inclusion _ _ => "block"

namespace Node

def kind? : Node → Option Kind
  | leaf _ head => some head.kind
  | block _ kind _ _ => some kind.kind
  | oddBlock _ kind _ _ => some kind.kind
  | stem _ head _ => some head.kind
  | fork _ head _ _ => some head.kind
  | stray _ => none

def location? : Node → Option Location
  | leaf loc _ => some loc
  | block loc _ _ _ => some loc
  | oddBlock loc _ _ _ => some loc
  | stem loc _ _ => some loc
  | fork loc _ _ _ => some loc
  | stray _ => none

def line? (n : Node) : Option Int :=
  n.location?.map Location.line

def isNode : Node → Bool
  | stray _ => false
  | _ => true

def typeName : Node → Text
  | stray value => value.kindName
  | leaf _ head => head.kind.name
  | block _ kind _ _ => kind.kind.name
  | oddBlock _ kind _ _ => kind.kind.name
  | stem _ head _ => head.kind.name
  | fork _ head _ _ => head.kind.name

def subject : Node → Subject
  | stray .null => {}
  | n => ⟨some n.typeName, n.location?⟩

def ofSequence (loc : Location) (kind : BlockKind) (yields : Loose Bool) :
    Loose (List Node) → Node
  | .of nodes => block loc kind yields nodes
  | .odd value => oddBlock loc kind yields value

/-- The children of a sequence, by position. Another value in their place has its items as
children; an object with keys has none by position. -/
def nodes? : Node → Option (List Node)
  | block _ _ _ nodes => some nodes
  | oddBlock _ _ _ (.obj (_ :: _)) => none
  | oddBlock _ _ _ value => value.items?.map (·.map stray)
  | _ => none

def isKind (kind : Kind) (n : Node) : Bool :=
  n.kind? == some kind

def isCall : Node → Bool
  | stem _ (.mixin head) _ => head.call.value?.getD false
  | _ => false

mutual

def same : Node → Node → Bool
  | leaf l h, leaf l' h' => l == l' && h == h'
  | block l k y ns, block l' k' y' ns' => l == l' && k == k' && y == y' && sameNodes ns ns'
  | oddBlock l k y v, oddBlock l' k' y' v' => l == l' && k == k' && y == y' && v == v'
  | stem l h c, stem l' h' c' => l == l' && h == h' && sameSlot c c'
  | fork l h a b, fork l' h' a' b' => l == l' && h == h' && sameSlot a a' && sameSlot b b'
  | stray v, stray v' => v == v'
  | _, _ => false

def sameNodes : List Node → List Node → Bool
  | [], [] => true
  | n :: ns, m :: ms => same n m && sameNodes ns ms
  | _, _ => false

def sameSlot : Option Node → Option Node → Bool
  | none, none => true
  | some n, some m => same n m
  | _, _ => false

end

instance : BEq Node := ⟨same⟩

end Node

end PugPrinter
