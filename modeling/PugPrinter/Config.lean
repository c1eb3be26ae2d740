import PugPrinter.Emit

/-!
Options of the printer. Every configuration is valid: its unit of indentation counts as given, and
its quote is one of the two marks. A unit that is no text is refused only when a line is indented
with it.
-/

set_option autoImplicit false

namespace PugPrinter

structure Config where
  indentUnit : Loose Text := .of [' ', ' ']
  useColon : Loose Bool := .of false
  preferredQuote : Quote := .single
  indentUnit_given : indentUnit.isGiven = true := by decide

namespace Config

def standard : Config := {}

instance : Inhabited Config := ⟨standard⟩

def style (c : Config) : Style :=
  { colon := c.useColon.isOn, quote := c.preferredQuote }

/-- Options as they are given, not yet checked. -/
structure Settings where
  indentUnit : Json
  useColon : Json
  preferredQuote : Json

def settings (c : Config) : Settings :=
  { indentUnit := c.indentUnit.textJson
    useColon := c.useColon.flagJson
    preferredQuote := .str [c.preferredQuote.mark] }

def quoteOf? : Json → Option Quote
  | .str s => Quote.ofText? s
  | _ => none

def check (s : Settings) : Except Fault Config :=
  match quoteOf? s.preferredQuote with
  | none => .error (.config (.badQuote s.preferredQuote.shown))
  | some quote =>
    if given : (Loose.ofText s.indentUnit).isGiven then
      .ok { indentUnit := .ofText s.indentUnit
            useColon := .ofFlag s.useColon
            preferredQuote := quote
            indentUnit_given := given }
    else .error (.config .emptyIndent)

def Settings.set? (s : Settings) (name : Text) (value : Json) : Option Settings :=
  if name == ("indent_unit" : Text) then some { s with indentUnit := value }
  else if name == ("use_colon" : Text) then some { s with useColon := value }
  else if name == ("preferred_quote" : Text) then some { s with preferredQuote := value }
  else none

/-- A configuration with some options replaced. An unknown name is refused before any value is
looked at. -/
def override (c : Config) (options : List (Text × Json)) : Except Fault Config :=
  match options.foldlM (fun s (name, value) => s.set? name value) c.settings with
  | some s => check s
  | none => .error .unsupportedShape

def ofOptions (options : List (Text × Json)) : Except Fault Config :=
  override standard options

def aliasOf (name : Text) : Text :=
  if name == ("indentChar" : Text) then "indent_unit"
  else if name == ("useColon" : Text) then "use_colon"
  else if name == ("preferredQuote" : Text) then "preferred_quote"
  else name

/-- A configuration from options by either name; unknown names are passed over. -/
def ofDictionary (options : List (Text × Json)) : Except Fault Config :=
  check (options.foldl (fun s (name, value) => (s.set? (aliasOf name) value).getD s)
    standard.settings)

end Config

end PugPrinter
