import PugPrinter.Text.Shown

/-!
Notes about the course of an operation, each under the name of the part that wrote it.
-/

set_option autoImplicit false

namespace PugPrinter

inductive Logger where
  | normalize | generator | constants
  deriving DecidableEq, Repr

namespace Logger

def root : Text := "pugsrc"

def qualify (name : Text) : Text :=
  if name == root || Text.startsWith name (root ++ ("." : Text)) then name
  else root ++ ("." : Text) ++ name

def name : Logger → Text
  | normalize => qualify "normalize"
  | generator => qualify "generator"
  | constants => qualify "constants"

end Logger

inductive Note where
  | flattened (count : Nat)
  | started (typeName : Text)
  | notConstant (source : Text)
  | finished (lines : Nat)
  deriving DecidableEq, Repr

namespace Note

def logger : Note → Logger
  | flattened _ => .normalize
  | started _ => .generator
  | notConstant _ => .constants
  | finished _ => .generator

def message : Note → Text
  | flattened count => ("Flattened " : Text) ++ Text.ofNat count ++ (" anonymous block(s)" : Text)
  | started typeName => ("Generating source from " : Text) ++ typeName
  | notConstant source => ("Not a constant expression: " : Text) ++ source.shown
  | finished lines => ("Generated " : Text) ++ Text.ofNat lines ++ (" line(s)" : Text)

end Note

end PugPrinter
