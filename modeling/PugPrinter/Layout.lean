import PugPrinter.Node

/-!
The choice between forms of the same content: a dot block of raw text instead of piped lines, a
colon before an only child instead of an indented line, and content that goes on in the line of
its owner. A choice that would have to look at the line of a stray value, or at the words of
something other than text, has no result.
-/

set_option autoImplicit false

namespace PugPrinter.Layout

/-- The block that a node owns: sequences are their own block, that of a conditional is its first
arm. -/
def blockOf? : Node → Option Node
  | .block loc kind yields nodes => some (.block loc kind yields nodes)
  | .oddBlock loc kind yields nodes => some (.oddBlock loc kind yields nodes)
  | .stem _ .extending _ => none
  | .stem _ _ child => child
  | .fork _ (.inclusion _ _) _ _ => none
  | .fork _ _ first _ => first
  | _ => none

inductive Owner where
  /-- The block belongs to no node. -/
  | nobody
  /-- The block stands below a node, as its own block or as a foreign one. -/
  | node (parent : Node) (own : Bool)

namespace Owner

def ofParent : Option Node → Owner
  | some parent => node parent true
  | none => nobody

end Owner

/-- Nodes whose only child may follow after a colon: tags, arms of a case and mixin calls. -/
def takesColon (n : Node) : Bool :=
  n.isKind .tag || n.isKind .when || n.isCall

def followsColon (n : Node) : Bool :=
  n.isKind .tag || n.isCall

def usesColon (enabled : Bool) (owner : Owner) (nodes : List Node) : Bool :=
  match owner, nodes with
  | .node parent true, [child] => enabled && takesColon parent && followsColon child
  | _, _ => false

/-- The number of words in a text: runs of word characters before a blank or the end. The flag
says whether the character before belonged to a run. -/
def countWords (inWord : Bool) : Text → Nat
  | [] => if inWord then 1 else 0
  | c :: rest =>
    if Text.isWord c then countWords true rest
    else (if inWord && Text.isBlank c then 1 else 0) + countWords false rest

def isLineFeed : Node → Bool
  | .leaf _ (.text val _) => val.isText "\n"
  | _ => false

def startsLine (n : Node) (before : Option Node) : Bool :=
  match before with
  | none => true
  | some prev =>
    (match n.line?, prev.line? with
      | some line, some prevLine => prevLine < line
      | _, _ => false) || isLineFeed prev

/-- What a block holds that could be a dot block: words of text, and lines that are only code. -/
structure DotCount where
  words : Nat := 0
  codeLines : Nat := 0
  deriving DecidableEq, Repr

/-- How a count of words and code lines ends. -/
inductive DotAnswer where
  | counted (count : DotCount)
  /-- The block holds more than text and code. -/
  | mixed
  /-- The value of a text is none. -/
  | noText
  deriving DecidableEq, Repr

/-- Counts words and code lines. The flag says whether the node before started its line. -/
def countDot (count : DotCount) (before : Option Node) (beforeStarts : Bool) :
    List Node → DotAnswer
  | [] => .counted count
  | n :: rest =>
    let starts := startsLine n before
    match n with
    | .leaf _ (.text (.of val) _) =>
      countDot { count with words := count.words + countWords false val } (some n) starts rest
    | .leaf _ (.text (.odd _) _) => .noText
    | .stem _ (.code head) none =>
      let codeLines :=
        count.codeLines + (if head.buffer.isOn && starts && beforeStarts then 1 else 0)
      countDot { count with codeLines } (some n) starts rest
    | _ => .mixed

/-- Whether a block reads as a dot block of raw text: it spans more than one line, holds only text
and code without blocks, has at least one word, and less than 35 percent of its lines are code on
its own. -/
def usesDot? (parent : Option Node) (nodes : List Node) : Option Bool :=
  match nodes with
  | [] => some false
  | first :: rest => do
    let lastLine ← ((first :: rest).getLast (List.cons_ne_nil first rest)).line?
    let firstLine ← first.line?
    let lines := lastLine - firstLine + 1
    if lines < 2 then return false
    match countDot {} parent false nodes with
    | .counted count => return count.words > 0 && 20 * (count.codeLines : Int) < 7 * lines
    | .mixed => return false
    | .noText => none

/-- Whether the content of a block goes on in the line of its owner: its first node stands in that
line, and neither a colon nor a dot is used. -/
def startsOnSameLine? (colon : Bool) (owner : Node) (own : Bool) (nodes : List Node) :
    Option Bool :=
  match nodes with
  | [] => some false
  | first :: _ => do
    let line ← first.line?
    if owner.line? != some line then return false
    if usesColon colon (.node owner own) nodes then return false
    return !(← usesDot? (some owner) nodes)

/-- Whether content in the line of its owner needs a space before it; code alone brings its own
operator. -/
def needsSpace : List Node → Bool
  | [n] => !n.isKind .code
  | _ => true

end PugPrinter.Layout
