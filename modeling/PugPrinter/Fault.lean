import PugPrinter.Location

/-!
What can go wrong, as causes, and the one place where each cause is put into words.
-/

set_option autoImplicit false

namespace PugPrinter

/-- What a message is about: the type name of a node and its place, as far as known. -/
structure Subject where
  typeName : Option Text := none
  location : Option Location := none
  deriving DecidableEq, Repr, Inhabited

namespace Subject

def nameOrNone (s : Subject) : Text :=
  s.typeName.getD "None"

def describe (s : Subject) : Text :=
  match s.location with
  | some l => s.nameOrNone ++ (" (" : Text) ++ l.shown ++ (")" : Text)
  | none =>
    match s.typeName with
    | some (c :: rest) => c :: rest
    | _ => "node"

def childPhrase (parent : Subject) : Text :=
  match parent.typeName with
  | some _ => ("A child of " : Text) ++ parent.describe
  | none => "A top-level node"

end Subject

inductive TreeError where
  | general (text : Text) (node : Subject)
  | missingNode (parent : Subject) (field : Option Text)
  | unsupportedType (node parent : Subject)
  | invalidFilterChain (node : Subject)
  | illegalInlineHtml (node : Subject)
  | unexpectedRawChild (node : Subject) (parent : Option Subject)
  deriving DecidableEq, Repr

namespace TreeError

def subject : TreeError → Subject
  | general _ node => node
  | missingNode parent _ => parent
  | unsupportedType node _ => node
  | invalidFilterChain node => node
  | illegalInlineHtml node => node
  | unexpectedRawChild node _ => node

def fieldPhrase : Option Text → Text
  | some (c :: rest) => (" (" : Text) ++ (c :: rest) ++ (")" : Text)
  | _ => []

def message : TreeError → Text
  | general text _ => text
  | missingNode parent field =>
    parent.childPhrase ++ fieldPhrase field ++ " is missing, expected a Pug AST node."
  | unsupportedType node parent =>
    let place : Text := match node.location with
      | some l => (" (" : Text) ++ l.shown ++ (")" : Text)
      | none => []
    parent.childPhrase ++ place ++ " is of type " ++ node.nameOrNone
      ++ ", which is not supported by pugsrc."
  | invalidFilterChain node =>
    node.describe ++ " chains into a filter but has other children."
  | illegalInlineHtml node =>
    "HTML text " ++ node.describe ++ " cannot be rendered inline."
  | unexpectedRawChild node parent =>
    let owner : Text := match parent with
      | some p => p.describe
      | none => "the document"
    ("Unexpected " : Text) ++ node.describe ++ (" in pipeless text block of " : Text) ++ owner
      ++ ("." : Text)

def isTypeError : TreeError → Bool
  | missingNode _ _ => true
  | unsupportedType _ _ => true
  | _ => false

end TreeError

inductive ConfigError where
  | badQuote (shown : Text)
  | emptyIndent
  deriving DecidableEq, Repr

def ConfigError.message : ConfigError → Text
  | badQuote shown => "preferred_quote must be ' or \", got " ++ shown
  | emptyIndent => "indent_unit must not be empty"

inductive EditError where
  | cannotRemove (child owner field : Text)
  | cannotRemoveRoot
  deriving DecidableEq, Repr

def EditError.message : EditError → Text
  | cannotRemove child owner field =>
    ("cannot remove " : Text) ++ child ++ (" from " : Text) ++ owner ++ ("." : Text) ++ field
  | cannotRemoveRoot => "transform fn must return a node for the root (cannot remove root)"

/-- Everything that can stop an operation. -/
inductive Fault where
  | tree (error : TreeError)
  | config (error : ConfigError)
  | edit (error : EditError)
  /-- A JSON text spells something other than an object. -/
  | notAnObject (kind : Text)
  /-- A text is no JSON text. -/
  | malformedJson
  /-- An integer has too many digits to be read or written. -/
  | integerTooLong (digits : Option Nat)
  /-- An input has a shape that no operation is defined for. -/
  | unsupportedShape
  deriving DecidableEq, Repr

def Fault.message? : Fault → Option Text
  | tree error => some error.message
  | config error => some error.message
  | edit error => some error.message
  | notAnObject kind => some ("Expected a JSON object, got " ++ kind)
  | malformedJson => none
  | integerTooLong digits =>
    let count : Text := match digits with
      | some n => ": value has " ++ Text.ofNat n ++ " digits"
      | none => []
    some ("Exceeds the limit (4300 digits) for integer string conversion" ++ count
      ++ "; use sys.set_int_max_str_digits() to increase the limit")
  | unsupportedShape => none

end PugPrinter
