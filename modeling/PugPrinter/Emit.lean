import PugPrinter.Attribute.Render
import PugPrinter.Layout
import PugPrinter.Piece

/-!
Trees as pieces of template source. What a node becomes depends on where it stands: how deep, below
which parent, whether it continues a line (`inline`) and whether it stands where an element needs
no brackets even so (`nested`), which is after a colon and in a chain of filters.

The recursion is in `emit` and the functions beside it; what a head contributes is said by plain
functions before them, which are given the emission of their children as a function of the spot.
-/

set_option autoImplicit false

namespace PugPrinter

/-- The options that decide between forms of the same content. -/
structure Style where
  colon : Bool := false
  quote : Quote := .single
  deriving DecidableEq, Repr

/-- The emission of a node: its pieces, until the end or a fault. -/
abbrev Emission := Run Piece Unit

namespace Emission

def nothing : Emission := .done ()

def append (text : Text) : Emission := .put [.markup text]

def newLine (depth : Int) (text : Text) : Emission := .put [.line depth, .markup text]

def refuse (error : TreeError) : Emission := .fail (.tree error)

def unsupported : Emission := .fail .unsupportedShape

def head (inline : Bool) (depth : Int) (text : Text) : Emission :=
  if inline then append text else newLine depth text

/-- An emission between the brackets of an interpolated element, if asked for. -/
def bracketed (brackets : Bool) (inner : Emission) : Emission :=
  if brackets then do
    append "#["
    inner
    append "]"
  else inner

end Emission

structure Spot where
  depth : Int
  nested : Bool := false
  parent : Option Node := none
  inline : Bool := false

def Spot.below (spot : Spot) (parent : Node) : Spot :=
  { spot with parent := some parent, inline := false }

def Spot.detached (spot : Spot) : Spot :=
  { spot with parent := none, inline := false }

namespace Emit

open Emission

def defaultTag : Text := "div"

/-- Attributes in their written form; values that are not constant are noted. -/
def attributes (style : Style) (attrs : Attributes) : Run Piece Text :=
  (Attribute.render [style.quote.mark] attrs).mapOut .notConstant

def attributeBlocks (blocks : AttributeBlocks) : Run Piece Text :=
  .ofExcept (Attribute.renderBlocks blocks)

def isShorthand : Text → Bool
  | c :: _ => c == '#' || c == '.'
  | [] => false

/-- The head of a tag before its attributes: an interpolated name, or a name that is left out when
it is the default one and shorthand follows; and a slash when the tag closes itself. -/
def tagName (tag : TagHead) (name attrs : Text) : Text :=
  let start : Text :=
    if tag.interpolated.isOn then '#' :: Text.between '{' '}' name
    else if tag.selfClosing.isOn || name != defaultTag || !isShorthand attrs then name
    else []
  start ++ (if tag.selfClosing.isOn then ("/" : Text) else [])

def tagHead (style : Style) (tag : TagHead) : Run Piece Text := do
  let attrs := (← attributes style tag.attrs) ++ (← attributeBlocks tag.attributeBlocks)
  match tag.name with
  | .of name => return tagName tag name attrs ++ attrs
  | .odd _ => .fail .unsupportedShape

def mixinArgs (args : Loose Text) : Text :=
  if args.isGiven then Text.between '(' ')' args.shown else []

def callHead (style : Style) (m : MixinHead) : Run Piece Text := do
  return ("+" : Text) ++ m.name.shown ++ mixinArgs m.args ++ (← attributes style m.attrs)
    ++ (← attributeBlocks m.attributeBlocks)

def namedBlockHead (name mode : Loose Text) : Text :=
  (if mode.isText "replace" then ("block" : Text) else mode.shown) ++ (" " : Text) ++ name.shown

def commentMark (buffer : Loose Bool) : Text :=
  if buffer.isOn then "//" else "//-"

def text (spot : Spot) (node : Node) (isHtml : Bool) (val : Text) : Emission :=
  if isHtml then
    if spot.inline then refuse (.illegalInlineHtml node.subject)
    else .put [.line spot.depth, .raw spot.depth false val]
  else if spot.inline then .put [.prose val]
  else if val == "\n" then .put [.line spot.depth, .markup "| ", .lineFeed]
  else if val.isEmpty then nothing
  else .put [.line spot.depth, .markup "| ", .prose val]

/-- A text node whose value is no text: it has no line when the value counts as false. -/
def oddText (spot : Spot) (node : Node) (isHtml : Bool) (value : Json) : Emission :=
  if isHtml then
    if spot.inline then refuse (.illegalInlineHtml node.subject) else unsupported
  else if spot.inline || value.truthy then unsupported
  else nothing

def leaf (spot : Spot) (node : Node) : Leaf → Emission
  | .mixinBlock => newLine spot.depth "block"
  | .text (.of val) isHtml => text spot node isHtml.isOn val
  | .text (.odd value) isHtml => oddText spot node isHtml.isOn value
  | .comment (.of val) buffer => newLine spot.depth (commentMark buffer ++ val)
  | .comment (.odd _) _ => unsupported
  | .doctype val =>
    newLine spot.depth (if val.isGiven then ("doctype " : Text) ++ val.shown else "doctype")
  | .fileReference (.of path) => append path
  | .fileReference (.odd value) => if value.truthy then unsupported else nothing
  | .bare => refuse (.unsupportedType node.subject ((spot.parent.map Node.subject).getD {}))

def codeOperator (code : CodeHead) : Text :=
  if !code.buffer.isOn then "-" else if code.escape.isOn then "=" else "!="

def interpolatedCode (code : CodeHead) (val : Text) : Text :=
  if code.buffer.isOn then (if code.escape.isOn then '#' else '!') :: Text.between '{' '}' val
  else '#' :: Text.between '[' ']' (("- " : Text) ++ val)

/-- Whether code stands in running text: it continues a line and has siblings in its block. -/
def isRunning (spot : Spot) : Bool :=
  spot.inline &&
    match (spot.parent.bind Layout.blockOf?).bind Node.nodes? with
    | some nodes => nodes.length != 1
    | none => false

/-- Code on a line, in the line of a tag, or in running text, where its block is left out. -/
def code (spot : Spot) (owner : Node) (code : CodeHead) (block : Spot → Emission) : Emission :=
  match code.val with
  | .odd _ => unsupported
  | .of val =>
    if isRunning spot then append (interpolatedCode code val)
    else do
      head spot.inline spot.depth (codeOperator code)
      if val.contains '\n' then .put [.line (spot.depth + 1), .script (spot.depth + 1) val]
      else append (' ' :: val)
      block (spot.below owner)

/-- The content of an element, in the line of its head when it starts there. -/
def ownContent (style : Style) (spot : Spot) (owner block : Node) (content : Spot → Emission) :
    Emission :=
  match block.nodes? with
  | none => unsupported
  | some [] => nothing
  | some nodes =>
    match Layout.startsOnSameLine? style.colon owner true nodes with
    | none => unsupported
    | some same => do
      if same && Layout.needsSpace nodes then append " "
      content { spot with nested := false, parent := some owner, inline := same }

def tag (style : Style) (spot : Spot) (owner : Node) (head : TagHead) (block : Option Node)
    (code content : Spot → Emission) : Emission :=
  match block with
  | none => refuse (.missingNode owner.subject (some ("block" : Text)))
  | some block => do
    let text ← tagHead style head
    bracketed (spot.inline && !spot.nested) do
      Emission.head spot.inline spot.depth text
      code { spot with parent := none, inline := true }
      ownContent style spot owner block content

def mixin (style : Style) (spot : Spot) (owner : Node) (m : MixinHead) (block : Option Node)
    (content : Spot → Emission) : Emission :=
  if m.call.isOn then do
    let text ← callHead style m
    bracketed (spot.inline && !spot.nested) do
      head spot.inline spot.depth text
      match block with
      | none => nothing
      | some block => ownContent style spot owner block content
  else do
    newLine spot.depth (("mixin " : Text) ++ m.name.shown ++ mixinArgs m.args)
    content (spot.below owner)

/-- The arm of a case. An empty body keeps a line of its own, without which the arm would fall
through. -/
def when (spot : Spot) (owner : Node) (expr : Loose Text) (block : Option Node)
    (body : Spot → Emission) : Emission := do
  newLine spot.depth
    (if expr.isText "default" then ("default" : Text) else ("when " : Text) ++ expr.shown)
  match block with
  | none => nothing
  | some block =>
    match block.nodes? with
    | none => unsupported
    | some [] => newLine (spot.depth + 1) []
    | some _ => body (spot.below owner)

/-- The depth of raw lines below a depth; at the top level they still need one indent. -/
def rawDepth (depth : Int) : Int :=
  if depth + 1 == 0 then 1 else depth + 1

def rawBlock (depth : Int) (lines : Int → Emission) : Emission := do
  newLine (rawDepth depth) []
  lines (rawDepth depth)

/-- The first line of a comment with a body; a value that counts as false is left out. -/
def blockCommentHead (buffer : Loose Bool) : Loose Text → Except Fault Text
  | .of val => .ok (commentMark buffer ++ val)
  | .odd value => if value.truthy then .error .unsupportedShape else .ok (commentMark buffer)

def blockComment (spot : Spot) (owner : Node) (val : Loose Text) (buffer : Loose Bool)
    (block : Option Node) (lines : Int → Emission) : Emission :=
  match block with
  | none => refuse (.missingNode owner.subject (some ("block" : Text)))
  | some _ => do
    newLine spot.depth (← .ofExcept (blockCommentHead buffer val))
    rawBlock spot.depth lines

def filterHead (style : Style) (attrs : Attributes) : Loose Text → Run Piece Text
  | .of name => do return (":" : Text) ++ name ++ (← attributes style attrs)
  | .odd _ => .fail .unsupportedShape

/-- A filter: the next filter of a chain in the same line, a body in running text, or a body of
raw lines. -/
def filter (style : Style) (spot : Spot) (owner : Node) (name : Loose Text) (attrs : Attributes)
    (block : Option Node) (chained content : Spot → Emission) (lines : Int → Emission) :
    Emission :=
  match block with
  | none => refuse (.missingNode owner.subject (some ("block" : Text)))
  | some block => do
    let text ← filterHead style attrs name
    bracketed (spot.inline && !spot.nested) do
      head (spot.inline || spot.nested) spot.depth text
      match block.nodes? with
      | none => unsupported
      | some [] => nothing
      | some (first :: rest) =>
        if first.isKind .filter then
          if rest.isEmpty then chained { spot with nested := true, parent := some owner }
          else refuse (.invalidFilterChain owner.subject)
        else if spot.inline then do
          if first.isKind .text then append " "
          content { spot with nested := false }
        else rawBlock spot.depth lines

/-- The content of a sequence in the form that its layout asks for: a placeholder, a dot block of
raw lines, the only child after a colon, or child after child one level deeper. -/
def content (style : Style) (spot : Spot) (yields : Loose Bool) (nodes : List Node)
    (lines : Int → Emission) (run : Int → Bool → Bool → Emission) : Emission :=
  if yields.isOn then newLine spot.depth "yield"
  else
    match Layout.usesDot? spot.parent nodes with
    | none => unsupported
    | some true =>
      match spot.parent.bind Node.kind? with
      | some .tag | some .mixin => do
        append "."
        rawBlock spot.depth lines
      | _ => do
        newLine (spot.depth + 1) "."
        rawBlock (spot.depth + 1) lines
    | some false =>
      if Layout.usesColon style.colon (.ofParent spot.parent) nodes then do
        append ": "
        run spot.depth true true
      else run (spot.depth + 1) spot.nested spot.inline

/-- The content of a sequence that has another value in place of its nodes: only an empty one can
be printed, or one that is a placeholder. -/
def oddContent (depth : Int) (yields : Loose Bool) (value : Json) : Emission :=
  if yields.isOn then newLine depth "yield"
  else
    match value.items? with
    | some [] => nothing
    | _ => unsupported

/-- The value in place of the nodes of a sequence, as raw lines: no item of it can be one. -/
def oddLines (block : Node) (value : Json) : Emission :=
  match value.items? with
  | some [] => nothing
  | some (item :: _) =>
    refuse (.unexpectedRawChild (Node.stray item).subject (some block.subject))
  | none => unsupported

def eachHead (val obj key : Loose Text) : Text :=
  ("each " : Text) ++ val.shown ++ (if key.isGiven then (", " : Text) ++ key.shown else [])
    ++ (" in " : Text) ++ obj.shown

def inclusionFilter (style : Style) (attrs : Attributes) (name : Loose Text) : Emission :=
  if name.isGiven then do append (← filterHead style attrs name) else nothing

def continuesLine (n : Node) (rest : List Node) : Bool :=
  match rest with
  | [] => false
  | next :: _ =>
    match n.line?, next.line? with
    | some line, some nextLine => line == nextLine
    | _, _ => false

end Emit

open Emission in
mutual

def emit (style : Style) (spot : Spot) : Node → Emission
  | .stray value =>
    refuse (.unsupportedType (Node.stray value).subject ((spot.parent.map Node.subject).getD {}))
  | .leaf loc head => Emit.leaf spot (.leaf loc head) head
  | .block loc kind yields nodes =>
    let self := Node.block loc kind yields nodes
    let lines (depth : Int) : Emission := emitLines style depth spot.nested self false nodes
    let run (depth : Int) (nested inline : Bool) : Emission :=
      emitRun style { depth, nested, parent := some self, inline } nodes
    match kind with
    | .named name mode => do
      newLine spot.depth (Emit.namedBlockHead name mode)
      Emit.content style spot.detached yields nodes lines run
    | .plain => Emit.content style spot yields nodes lines run
  | .oddBlock _ (.named name mode) yields value => do
    newLine spot.depth (Emit.namedBlockHead name mode)
    Emit.oddContent spot.depth yields value
  | .oddBlock _ .plain yields value => Emit.oddContent spot.depth yields value
  | .stem loc (.mixin m) block =>
    Emit.mixin style spot (.stem loc (.mixin m) block) m block
      fun inner => emitOptional style inner block
  | .stem loc (.code head) block =>
    Emit.code spot (.stem loc (.code head) block) head fun inner => emitOptional style inner block
  | .stem loc (.blockComment val buffer) block =>
    Emit.blockComment spot (.stem loc (.blockComment val buffer) block) val buffer block
      fun depth => emitBlockLines style depth spot.nested block
  | .stem loc (.caseOf expr) block => do
    newLine spot.depth (("case " : Text) ++ expr.shown)
    emitChild style (spot.below (.stem loc (.caseOf expr) block)) block
  | .stem loc (.when expr) block =>
    Emit.when spot (.stem loc (.when expr) block) expr block
      fun inner => emitOptional style inner block
  | .stem loc (.whileLoop test) block => do
    newLine spot.depth (("while " : Text) ++ test.shown)
    emitChild style (spot.below (.stem loc (.whileLoop test) block)) block
  | .stem loc .extending file => do
    newLine spot.depth "extends "
    emitChild style (spot.below (.stem loc .extending file)) file
  | .stem loc (.filter name attrs) block =>
    Emit.filter style spot (.stem loc (.filter name attrs) block) name attrs block
      (fun inner => emitChildren style inner block)
      (fun inner => emitOptional style inner block)
      fun depth => emitBlockLines style depth spot.nested block
  | .fork loc (.tag head) block code =>
    Emit.tag style spot (.fork loc (.tag head) block code) head block
      (fun inner => emitTagCode style inner code)
      fun inner => emitOptional style inner block
  | .fork loc (.conditional test) yes no => do
    newLine spot.depth (("if " : Text) ++ test.shown)
    let self := Node.fork loc (.conditional test) yes no
    emitChild style (spot.below self) yes
    emitAlternate style (spot.below self) no
  | .fork loc (.each val obj key) block alternative => do
    newLine spot.depth (Emit.eachHead val obj key)
    emitChild style (spot.below (.fork loc (.each val obj key) block alternative)) block
    if alternative.isSome then newLine spot.depth "else"
    emitOptional style spot.detached alternative
  | .fork loc (.inclusion filter attrs) file block => do
    newLine spot.depth "include"
    Emit.inclusionFilter style attrs filter
    append " "
    emitChild style (spot.below (.fork loc (.inclusion filter attrs) file block)) file
    emitOptional style spot.detached block
termination_by structural node => node

def emitChild (style : Style) (spot : Spot) : Option Node → Emission
  | none => refuse (.missingNode ((spot.parent.map Node.subject).getD {}) none)
  | some n => emit style spot n
termination_by structural child => child

def emitOptional (style : Style) (spot : Spot) : Option Node → Emission
  | none => nothing
  | some n => emit style spot n
termination_by structural child => child

def emitChildren (style : Style) (spot : Spot) : Option Node → Emission
  | some (.block _ _ _ nodes) => emitRun style spot nodes
  | _ => unsupported
termination_by structural child => child

def emitBlockLines (style : Style) (depth : Int) (nested : Bool) : Option Node → Emission
  | some (.block loc kind yields nodes) =>
    emitLines style depth nested (.block loc kind yields nodes) true nodes
  | some (.oddBlock loc kind yields value) => Emit.oddLines (.oddBlock loc kind yields value) value
  | _ => unsupported
termination_by structural child => child

/-- The code in the line of a tag. A silent comment with a body reads as a statement. -/
def emitTagCode (style : Style) (spot : Spot) : Option Node → Emission
  | none => nothing
  | some (.stem loc (.code head) body) =>
    Emit.code spot (.stem loc (.code head) body) head fun inner => emitOptional style inner body
  | some (.stem loc (.blockComment val buffer) body) =>
    if buffer.isOn then unsupported
    else
      Emit.code spot (.stem loc (.blockComment val buffer) body) { val }
        fun inner => emitOptional style inner body
  | some _ => unsupported
termination_by structural child => child

/-- The other arm of a conditional; one that is itself a conditional goes on in the line of the
`else`. -/
def emitAlternate (style : Style) (spot : Spot) : Option Node → Emission
  | none => nothing
  | some (.fork loc (.conditional test) yes no) => do
    newLine spot.depth "else "
    append (("if " : Text) ++ test.shown)
    let self := Node.fork loc (.conditional test) yes no
    emitChild style (spot.below self) yes
    emitAlternate style (spot.below self) no
  | some other => do
    newLine spot.depth "else"
    emit style spot other
termination_by structural child => child

/-- The pieces of siblings, one after the other. The inline flag is that of the first; each of the
others continues the line of the one before when they share it. -/
def emitRun (style : Style) (spot : Spot) : List Node → Emission
  | [] => nothing
  | n :: rest => do
    if n.isNode then emit style spot n else unsupported
    emitRun style { spot with inline := Emit.continuesLine n rest } rest
termination_by structural nodes => nodes

/-- The pieces of siblings as raw lines below their block: text, code and tags only. -/
def emitLines (style : Style) (depth : Int) (nested : Bool) (block : Node) (verbatim : Bool) :
    List Node → Emission
  | [] => nothing
  | n :: rest => do
    match n with
    | .leaf _ (.text (.of val) _) => .put [.raw depth verbatim val]
    | .leaf _ (.text (.odd _) _) => unsupported
    | .stem _ (.code _) _ | .fork _ (.tag _) _ _ =>
      emit style { depth, nested, parent := some block, inline := true } n
    | other => refuse (.unexpectedRawChild other.subject (some block.subject))
    emitLines style depth nested block verbatim rest
termination_by structural nodes => nodes

end

end PugPrinter
