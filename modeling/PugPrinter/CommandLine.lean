import PugPrinter.CommandLine.Arguments
import PugPrinter.Source

/-!
The command: reads a parser tree from a file or from standard input and prints template source.
It ends with 0 on success, with 1 when the options or the tree cannot be used, and with 2 when the
input cannot be read or is no JSON object.
-/

set_option autoImplicit false

namespace PugPrinter.CommandLine

/-- What the command leaves behind. -/
structure Exit where
  code : Nat
  stdout : Text := []
  stderr : Text := []
  deriving DecidableEq, Repr

/-- Input, if its bytes are text at all. -/
inductive Contents where
  | text (t : Text)
  | notText

def Contents.ofBytes (bytes : ByteArray) : Contents :=
  match String.fromUTF8? bytes with
  | some s => .text (Text.ofString s)
  | none => .notText

inductive FileError where
  | missing
  | directory
  /-- A part of the path before the last one is a file. -/
  | belowFile
  /-- Any other error, as the system numbers and words it. -/
  | other (number : Nat) (reason : Text)

def FileError.message (path : Text) : FileError → Text
  | missing => ("[Errno 2] No such file or directory: " : Text) ++ path.shown
  | directory => ("[Errno 21] Is a directory: " : Text) ++ path.shown
  | belowFile => ("[Errno 20] Not a directory: " : Text) ++ path.shown
  | other number reason =>
    ("[Errno " : Text) ++ Text.ofNat number ++ ("] " : Text) ++ reason ++ (": " : Text) ++ path.shown

def splitSlashes : Text → List Text
  | [] => [[]]
  | c :: rest =>
    if c == '/' then [] :: splitSlashes rest
    else
      match splitSlashes rest with
      | part :: parts => (c :: part) :: parts
      | [] => [[c]]

/-- The slashes that a path starts with: exactly two of them stay two, more count as one. -/
def leadingSlashes : Text → Text
  | [.scalar '/', .scalar '/'] => "//"
  | .scalar '/' :: .scalar '/' :: c :: _ => if c == '/' then "/" else "//"
  | .scalar '/' :: _ => "/"
  | _ => []

/-- A path without empty and single-dot parts; the empty path is the current directory. -/
def normalPath (t : Text) : Text :=
  let parts := (splitSlashes t).filter fun (part : Text) => !part.isEmpty && part != "."
  let path := leadingSlashes t ++ Text.join "/" parts
  if path.isEmpty then "." else path

/-- The bound below which a text can be repeated, which is 2 to the power of 63. -/
def repetitionLimit : Int := 9223372036854775808

/-- Some spaces: none for a negative count, and no text at all for a count beyond the limit. -/
def spaces? (count : Int) : Option Text :=
  if -repetitionLimit ≤ count ∧ count < repetitionLimit then
    some (List.replicate count.toNat ' ')
  else none

def Arguments.unit? (a : Arguments) : Option Text :=
  if a.tabs then some "\t" else a.indent.bind spaces?

def Arguments.config (a : Arguments) : Except Fault Config :=
  match a.unit?, a.quote with
  | some unit, some quote =>
    Config.check
      { indentUnit := .str unit
        useColon := .bool a.colon
        preferredQuote := .str [quote.mark] }
  | _, _ => .error .unsupportedShape

def Arguments.path? (a : Arguments) : Option Text :=
  match a.file.map normalPath with
  | some path => if path == "-" then none else some path
  | none => none

/-- Whether a code point can stand in the name of a file: it is not null, and half a pair only when
it stands for a byte. -/
def standsInPath : CodePoint → Bool
  | .scalar c => c != '\x00'
  | .surrogate index => 0x480 ≤ index.val && index.val < 0x500

def command : Text := "pugsrc"

def complaint (text : Text) : Text :=
  command ++ (": " : Text) ++ text ++ ("\n" : Text)

def invalidInput : Text := "invalid input: "

/-- The end of a command that was stopped by a fault. A shape that nothing is defined for and a
refused edit are not reported but passed on. -/
def failure : Fault → Except Fault Exit
  | .unsupportedShape => .error .unsupportedShape
  | .tree error => .ok { code := 1, stderr := complaint error.message }
  | .config error => .ok { code := 1, stderr := complaint error.message }
  | .edit error => .error (.edit error)
  | fault =>
    .ok { code := 2
          stderr := complaint (invalidInput ++ fault.message?.getD ("malformed JSON" : Text)) }

def printText (config : Config) (t : Text) : Except Fault Text := do
  (sourceOfTree config (← Document.ofJsonText t)).result

/-- The command with its input in hand, up to the point where its output is written. -/
def finish (config : Config) : Contents → Except Fault Exit
  | .notText => failure .malformedJson
  | .text t =>
    match printText config t with
    | .ok source => .ok { code := 0, stdout := source ++ ("\n" : Text) }
    | .error fault => failure fault

/-- The command for arguments that make sense, up to the point where its output is written. The
options are checked before input is read. -/
def perform (a : Arguments) (stdin : Contents) (read : Text → Except FileError Contents) :
    Except Fault Exit :=
  match a.config with
  | .error fault => failure fault
  | .ok config =>
    match a.path? with
    | none => finish config stdin
    | some path =>
      if path.all standsInPath then
        match read path with
        | .ok contents => finish config contents
        | .error error => .ok { code := 2, stderr := complaint (error.message path) }
      else finish config .notText

/-- How a run of the command is over. -/
inductive Ending where
  | exits (exit : Exit)
  /-- A fault that the command does not handle gets out of it. -/
  | stopped (fault : Fault)
  /-- Standard output does not take what is to be written, and nothing handles that either. -/
  | unwritten (output : Text)

/-- Writes what the command leaves behind, on a standard output that takes some texts. Complaints
can always be written. -/
def deliver (takes : Text → Bool) : Except Fault Exit → Ending
  | .ok exit =>
    if exit.stdout.isEmpty || takes exit.stdout then .exits exit else .unwritten exit.stdout
  | .error fault => .stopped fault

def run (a : Arguments) (stdin : Contents) (read : Text → Except FileError Contents)
    (takes : Text → Bool) : Ending :=
  deliver takes (perform a stdin read)

/-- The texts that a standard output in UTF-8 takes: those without halves of surrogate pairs. -/
def isUnicode (t : Text) : Bool :=
  t.all fun c => c.holds fun _ => true

def version : Text := "0.1.0"

def usage : Text :=
  "usage: pugsrc [-h] [-V] [--indent N | --tabs] [--colon] [--quote double|single] [file]"

end PugPrinter.CommandLine
