import PugPrinter.Emit

/-!
A walk through a tree with a cursor. The walk prints a tree into a buffer as it goes; the depth of the
buffer and the flag for elements without brackets are kept in the cursor, and whoever changes them
has to set them back: the depth by counting it up and down or by keeping the old one, the flag around
the part that needs it. After a fault only the flag is set back. What is entered is noted with the
depth at which it is entered.
-/

set_option autoImplicit false

namespace PugPrinter

/-- What a walk enters: a node, or a block that is written as raw lines. -/
inductive Entry where
  | node (n : Node) (depth : Int)
  | raw (depth : Int)

def Entry.depth : Entry → Int
  | node _ depth => depth
  | raw depth => depth

/-- What a walk changes: the buffer with its depth, the flag, and the entries so far, the newest
first. -/
structure Cursor where
  buffer : LineBuffer
  nested : Bool := false
  entries : List Entry := []

/-- A step of a walk: how it ends, and where it leaves the cursor. -/
def Walk (α : Type) : Type :=
  Cursor → Except Fault α × Cursor

namespace Walk

variable {α β : Type}

def andThen (first : Walk α) (next : α → Walk β) : Walk β := fun c =>
  match first c with
  | (.ok a, after) => next a after
  | (.error fault, after) => (.error fault, after)

instance : Monad Walk where
  pure a := fun c => (.ok a, c)
  bind := andThen

def ofRun (run : Run Piece α) : Walk α := fun c => (run.result, c)

def move (f : Cursor → Cursor) : Walk Unit := fun c => (.ok (), f c)

def nothing : Walk Unit := pure ()

def refuse (error : TreeError) : Walk Unit := fun c => (.error (.tree error), c)

def unsupported : Walk Unit := fun c => (.error .unsupportedShape, c)

def depth : Walk Int := fun c => (.ok c.buffer.depth, c)

def isNested : Walk Bool := fun c => (.ok c.nested, c)

def setDepth (depth : Int) : Walk Unit :=
  move fun c => { c with buffer := { c.buffer with depth } }

def deepen (delta : Int) : Walk Unit :=
  move fun c => { c with buffer := c.buffer.deepen delta }

def append (text : Text) : Walk Unit :=
  move fun c => { c with buffer := c.buffer.append text }

def newLine (text : Text) (delta : Int := 0) : Walk Unit :=
  move fun c => { c with buffer := c.buffer.newLine text delta }

def rawText (verbatim : Bool) (val : Text) : Walk Unit :=
  move fun c =>
    let lines := Text.indentLines c.buffer.indent val
    { c with buffer := c.buffer.append (if verbatim then lines else lines.escapeInterpolation) }

def enter (entry : Int → Entry) : Walk Unit :=
  move fun c => { c with entries := entry c.buffer.depth :: c.entries }

def nesting (flag : Bool) (inner : Walk Unit) : Walk Unit := fun c =>
  let (result, after) := inner { c with nested := flag }
  (result, { after with nested := c.nested })

def deeper (inner : Walk Unit) : Walk Unit := do
  deepen 1
  inner
  deepen (-1)

def head (inline : Bool) (text : Text) : Walk Unit :=
  if inline then append text else newLine text

def bracketed (brackets : Bool) (inner : Walk Unit) : Walk Unit :=
  if brackets then do
    append "#["
    inner
    append "]"
  else inner

def text (inline : Bool) (node : Node) (isHtml : Bool) (val : Text) : Walk Unit :=
  if isHtml then
    if inline then refuse (.illegalInlineHtml node.subject)
    else do
      newLine []
      rawText false val
  else if inline then append val.escapeInterpolation
  else if val == "\n" then newLine "| "
  else if val.isEmpty then nothing
  else newLine (("| " : Text) ++ val.escapeInterpolation)

def oddText (inline : Bool) (node : Node) (isHtml : Bool) (value : Json) : Walk Unit :=
  if isHtml then
    if inline then refuse (.illegalInlineHtml node.subject) else unsupported
  else if inline || value.truthy then unsupported
  else nothing

def leaf (parent : Option Node) (inline : Bool) (node : Node) : Leaf → Walk Unit
  | .mixinBlock => newLine "block"
  | .text (.of val) isHtml => text inline node isHtml.isOn val
  | .text (.odd value) isHtml => oddText inline node isHtml.isOn value
  | .comment (.of val) buffer => newLine (Emit.commentMark buffer ++ val)
  | .comment (.odd _) _ => unsupported
  | .doctype val => newLine (if val.isGiven then ("doctype " : Text) ++ val.shown else "doctype")
  | .fileReference (.of path) => append path
  | .fileReference (.odd value) => if value.truthy then unsupported else nothing
  | .bare => refuse (.unsupportedType node.subject ((parent.map Node.subject).getD {}))

/-- Code on a line, in the line of a tag, or in running text. JavaScript of several lines is written
one level deeper. -/
def code (parent : Option Node) (inline : Bool) (owner : Node) (code : CodeHead)
    (block : Option Node → Bool → Walk Unit) : Walk Unit :=
  match code.val with
  | .odd _ => unsupported
  | .of val =>
    if Emit.isRunning { depth := 0, parent, inline } then append (Emit.interpolatedCode code val)
    else do
      head inline (Emit.codeOperator code)
      if val.contains '\n' then
        deeper do
          newLine []
          rawText true val
      else append (' ' :: val)
      block (some owner) false

def ownContent (style : Style) (owner block : Node) (content : Option Node → Bool → Walk Unit) :
    Walk Unit :=
  match block.nodes? with
  | none => unsupported
  | some [] => nothing
  | some nodes =>
    match Layout.startsOnSameLine? style.colon owner true nodes with
    | none => unsupported
    | some same => do
      if same && Layout.needsSpace nodes then append " "
      nesting false (content (some owner) same)

def tag (style : Style) (inline : Bool) (owner : Node) (tag : TagHead) (block : Option Node)
    (code content : Option Node → Bool → Walk Unit) : Walk Unit :=
  match block with
  | none => refuse (.missingNode owner.subject (some ("block" : Text)))
  | some block => do
    let text ← ofRun (Emit.tagHead style tag)
    let nested ← isNested
    bracketed (inline && !nested) do
      head inline text
      code none true
      ownContent style owner block content

def mixin (style : Style) (inline : Bool) (owner : Node) (m : MixinHead) (block : Option Node)
    (content : Option Node → Bool → Walk Unit) : Walk Unit :=
  if m.call.isOn then do
    let text ← ofRun (Emit.callHead style m)
    let nested ← isNested
    bracketed (inline && !nested) do
      head inline text
      match block with
      | none => nothing
      | some block => ownContent style owner block content
  else do
    newLine (("mixin " : Text) ++ m.name.shown ++ Emit.mixinArgs m.args)
    content (some owner) false

def when (owner : Node) (expr : Loose Text) (block : Option Node)
    (body : Option Node → Bool → Walk Unit) : Walk Unit := do
  newLine (if expr.isText "default" then ("default" : Text) else ("when " : Text) ++ expr.shown)
  match block with
  | none => nothing
  | some block =>
    match block.nodes? with
    | none => unsupported
    | some [] => newLine [] 1
    | some _ => body (some owner) false

/-- Goes to the depth of raw lines: one level deeper; at the top level they still need one indent. -/
def toRawDepth : Walk Unit := do
  deepen 1
  if (← depth) == 0 then deepen 1

def rawBlock (lines : Walk Unit) : Walk Unit := do
  enter .raw
  let original ← depth
  toRawDepth
  (do newLine []; lines)
  setDepth original

def blockComment (owner : Node) (val : Loose Text) (buffer : Loose Bool) (block : Option Node)
    (lines : Walk Unit) : Walk Unit :=
  match block with
  | none => refuse (.missingNode owner.subject (some ("block" : Text)))
  | some _ => do
    newLine (← ofRun (.ofExcept (Emit.blockCommentHead buffer val)))
    rawBlock lines

/-- A filter: the next filter of a chain in the same line, a body in running text, or a body of
raw lines. -/
def filter (style : Style) (parent : Option Node) (inline : Bool) (owner : Node) (name : Loose Text)
    (attrs : Attributes) (block : Option Node) (chained content : Option Node → Bool → Walk Unit)
    (lines : Walk Unit) : Walk Unit :=
  match block with
  | none => refuse (.missingNode owner.subject (some ("block" : Text)))
  | some block => do
    let text ← ofRun (Emit.filterHead style attrs name)
    let nested ← isNested
    bracketed (inline && !nested) do
      head (inline || nested) text
      match block.nodes? with
      | none => unsupported
      | some [] => nothing
      | some (first :: rest) =>
        if first.isKind .filter then
          if rest.isEmpty then nesting true (chained (some owner) inline)
          else refuse (.invalidFilterChain owner.subject)
        else if inline then do
          if first.isKind .text then append " "
          nesting false (content parent inline)
        else rawBlock lines

/-- The content of a sequence in the form that its layout asks for. -/
def content (style : Style) (parent : Option Node) (inline : Bool) (yields : Loose Bool)
    (nodes : List Node) (lines : Walk Unit) (run : Bool → Walk Unit) : Walk Unit :=
  if yields.isOn then newLine "yield"
  else
    match Layout.usesDot? parent nodes with
    | none => unsupported
    | some true =>
      match parent.bind Node.kind? with
      | some .tag | some .mixin => do
        append "."
        rawBlock lines
      | _ =>
        deeper do
          newLine "."
          rawBlock lines
    | some false =>
      if Layout.usesColon style.colon (.ofParent parent) nodes then do
        append ": "
        nesting true (run true)
      else deeper (run inline)

def oddContent (yields : Loose Bool) (value : Json) : Walk Unit :=
  if yields.isOn then newLine "yield"
  else
    match value.items? with
    | some [] => nothing
    | _ => unsupported

def inclusionFilter (style : Style) (attrs : Attributes) (name : Loose Text) : Walk Unit :=
  if name.isGiven then do append (← ofRun (Emit.filterHead style attrs name)) else nothing

end Walk

open Walk in
mutual

/-- Walks through a node below a parent, which continues a line or does not. -/
def walk (style : Style) (parent : Option Node) (inline : Bool) : Node → Walk Unit
  | .stray value => do
    enter (.node (.stray value))
    refuse (.unsupportedType (Node.stray value).subject ((parent.map Node.subject).getD {}))
  | .leaf loc head => do
    enter (.node (.leaf loc head))
    Walk.leaf parent inline (.leaf loc head) head
  | .block loc kind yields nodes => do
    let self := Node.block loc kind yields nodes
    enter (.node self)
    match kind with
    | .named name mode =>
      newLine (Emit.namedBlockHead name mode)
      content style none false yields nodes (walkLines style self false nodes)
        fun inline => walkRun style (some self) inline nodes
    | .plain =>
      content style parent inline yields nodes (walkLines style self false nodes)
        fun inline => walkRun style (some self) inline nodes
  | .oddBlock loc kind yields value => do
    enter (.node (.oddBlock loc kind yields value))
    match kind with
    | .named name mode =>
      newLine (Emit.namedBlockHead name mode)
      oddContent yields value
    | .plain => oddContent yields value
  | .stem loc (.mixin m) block => do
    enter (.node (.stem loc (.mixin m) block))
    Walk.mixin style inline (.stem loc (.mixin m) block) m block
      fun parent inline => walkOptional style parent inline block
  | .stem loc (.code head) block => do
    enter (.node (.stem loc (.code head) block))
    Walk.code parent inline (.stem loc (.code head) block) head
      fun parent inline => walkOptional style parent inline block
  | .stem loc (.blockComment val buffer) block => do
    enter (.node (.stem loc (.blockComment val buffer) block))
    Walk.blockComment (.stem loc (.blockComment val buffer) block) val buffer block
      (walkBlockLines style block)
  | .stem loc (.caseOf expr) block => do
    enter (.node (.stem loc (.caseOf expr) block))
    newLine (("case " : Text) ++ expr.shown)
    walkChild style (.stem loc (.caseOf expr) block) block
  | .stem loc (.when expr) block => do
    enter (.node (.stem loc (.when expr) block))
    Walk.when (.stem loc (.when expr) block) expr block
      fun parent inline => walkOptional style parent inline block
  | .stem loc (.whileLoop test) block => do
    enter (.node (.stem loc (.whileLoop test) block))
    newLine (("while " : Text) ++ test.shown)
    walkChild style (.stem loc (.whileLoop test) block) block
  | .stem loc .extending file => do
    enter (.node (.stem loc .extending file))
    newLine "extends "
    walkChild style (.stem loc .extending file) file
  | .stem loc (.filter name attrs) block => do
    enter (.node (.stem loc (.filter name attrs) block))
    Walk.filter style parent inline (.stem loc (.filter name attrs) block) name attrs block
      (fun parent inline => walkChildren style parent inline block)
      (fun parent inline => walkOptional style parent inline block)
      (walkBlockLines style block)
  | .fork loc (.tag head) block code => do
    enter (.node (.fork loc (.tag head) block code))
    Walk.tag style inline (.fork loc (.tag head) block code) head block
      (fun parent inline => walkTagCode style parent inline code)
      fun parent inline => walkOptional style parent inline block
  | .fork loc (.conditional test) yes no => do
    enter (.node (.fork loc (.conditional test) yes no))
    newLine (("if " : Text) ++ test.shown)
    walkChild style (.fork loc (.conditional test) yes no) yes
    walkAlternate style (.fork loc (.conditional test) yes no) no
  | .fork loc (.each val obj key) block alternative => do
    enter (.node (.fork loc (.each val obj key) block alternative))
    newLine (Emit.eachHead val obj key)
    walkChild style (.fork loc (.each val obj key) block alternative) block
    if alternative.isSome then newLine "else"
    walkOptional style none false alternative
  | .fork loc (.inclusion filter attrs) file block => do
    enter (.node (.fork loc (.inclusion filter attrs) file block))
    newLine "include"
    inclusionFilter style attrs filter
    append " "
    walkChild style (.fork loc (.inclusion filter attrs) file block) file
    walkOptional style none false block
termination_by structural node => node

def walkChild (style : Style) (parent : Node) : Option Node → Walk Unit
  | none => refuse (.missingNode parent.subject none)
  | some n => walk style (some parent) false n
termination_by structural child => child

def walkOptional (style : Style) (parent : Option Node) (inline : Bool) : Option Node → Walk Unit
  | none => nothing
  | some n => walk style parent inline n
termination_by structural child => child

def walkChildren (style : Style) (parent : Option Node) (inline : Bool) : Option Node → Walk Unit
  | some (.block _ _ _ nodes) => walkRun style parent inline nodes
  | _ => unsupported
termination_by structural child => child

def walkBlockLines (style : Style) : Option Node → Walk Unit
  | some (.block loc kind yields nodes) =>
    walkLines style (.block loc kind yields nodes) true nodes
  | some (.oddBlock loc kind yields value) =>
    ofRun (Emit.oddLines (.oddBlock loc kind yields value) value)
  | _ => unsupported
termination_by structural child => child

def walkTagCode (style : Style) (parent : Option Node) (inline : Bool) : Option Node → Walk Unit
  | none => nothing
  | some (.stem loc (.code head) body) => do
    enter (.node (.stem loc (.code head) body))
    Walk.code parent inline (.stem loc (.code head) body) head
      fun parent inline => walkOptional style parent inline body
  | some (.stem loc (.blockComment val buffer) body) =>
    if buffer.isOn then unsupported
    else do
      enter (.node (.stem loc (.blockComment val buffer) body))
      Walk.code parent inline (.stem loc (.blockComment val buffer) body) { val }
        fun parent inline => walkOptional style parent inline body
  | some _ => unsupported
termination_by structural child => child

def walkAlternate (style : Style) (parent : Node) : Option Node → Walk Unit
  | none => nothing
  | some (.fork loc (.conditional test) yes no) => do
    newLine "else "
    enter (.node (.fork loc (.conditional test) yes no))
    append (("if " : Text) ++ test.shown)
    walkChild style (.fork loc (.conditional test) yes no) yes
    walkAlternate style (.fork loc (.conditional test) yes no) no
  | some other => do
    newLine "else"
    walk style (some parent) false other
termination_by structural child => child

def walkRun (style : Style) (parent : Option Node) (inline : Bool) : List Node → Walk Unit
  | [] => nothing
  | n :: rest => do
    if n.isNode then walk style parent inline n else unsupported
    walkRun style parent (Emit.continuesLine n rest) rest
termination_by structural nodes => nodes

def walkLines (style : Style) (block : Node) (verbatim : Bool) : List Node → Walk Unit
  | [] => nothing
  | n :: rest => do
    match n with
    | .leaf _ (.text (.of val) _) => rawText verbatim val
    | .leaf _ (.text (.odd _) _) => unsupported
    | .stem _ (.code _) _ | .fork _ (.tag _) _ _ => walk style (some block) true n
    | other => refuse (.unexpectedRawChild other.subject (some block.subject))
    walkLines style block verbatim rest
termination_by structural nodes => nodes

end

end PugPrinter
