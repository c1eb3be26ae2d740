import PugPrinter.Source

/-!
Sessions: a configuration is active at a time, regions of a session can have one of their own, and
leaving a region brings back the one that was active before it.
-/

set_option autoImplicit false

namespace PugPrinter

/-- The active configuration, those to come back to, and the printers that were built, the oldest
first. -/
structure Session where
  active : Config := .standard
  outer : List Config := []
  kept : List Printer := []

/-- What can be done in a session. Options are given by name. A printer is run by its number, or the
one that was built last. -/
inductive Session.Action where
  | set (options : List (Text × Json))
  | setDictionary (options : List (Text × Json))
  | reset
  | enter (options : List (Text × Json))
  | leave
  | make (tree : Json) (options : Option (List (Text × Json)))
  | run (number : Option Nat := none)
  | print (tree : Json) (options : Option (List (Text × Json))) (overrides : List (Text × Json))

inductive Session.Reply where
  | nothing
  | config (value : Config)
  | source (text : Text)

namespace Session

def configOf (s : Session) : Option (List (Text × Json)) → Except Fault Config
  | some options => Config.ofOptions options
  | none => .ok s.active

def printer? (s : Session) : Option Nat → Option Printer
  | some number => s.kept[number]?
  | none => s.kept.getLast?

def step (s : Session) : Action → Session × Except Fault Reply
  | .set options =>
    match Config.ofOptions options with
    | .ok config => ({ s with active := config }, .ok .nothing)
    | .error fault => (s, .error fault)
  | .setDictionary options =>
    match Config.ofDictionary options with
    | .ok config => ({ s with active := config }, .ok .nothing)
    | .error fault => (s, .error fault)
  | .reset => ({ s with active := .standard }, .ok .nothing)
  | .enter options =>
    match Config.ofOptions options with
    | .ok config => ({ s with active := config, outer := s.active :: s.outer }, .ok .nothing)
    | .error fault => (s, .error fault)
  | .leave =>
    match s.outer with
    | previous :: outer => ({ s with active := previous, outer }, .ok .nothing)
    | [] => (s, .ok .nothing)
  | .make tree options =>
    let printer := do
      let config ← s.configOf options
      (Printer.ofTree config (← Document.loadRoot tree)).result
    match printer with
    | .ok p => ({ s with kept := s.kept ++ [p] }, .ok (.config p.config))
    | .error fault => (s, .error fault)
  | .run number =>
    match s.printer? number with
    | some p => (s, p.print.result.map .source)
    | none => (s, .error .unsupportedShape)
  | .print tree options overrides =>
    let source := do
      let base ← s.configOf options
      let config ← if overrides.isEmpty then .ok base else base.override overrides
      (sourceOfJson config tree).result
    (s, source.map .source)

end Session

end PugPrinter
