import PugPrinter.CommandLine

/-!
The command itself: arguments, input and output.
-/

set_option autoImplicit false

namespace PugPrinter

open CommandLine

def readInput (path : Text) : IO (Except FileError Contents) := do
  try
    return .ok (Contents.ofBytes (← IO.FS.readBinFile path.toString))
  catch
    | .noFileOrDirectory .. => return .error .missing
    | .inappropriateType _ 20 _ => return .error .belowFile
    | .inappropriateType .. => return .error .directory
    | .permissionDenied _ number reason =>
      return .error (.other number.toNat (Text.ofString reason))
    | error => return .error (.other 5 (Text.ofString error.toString))

def readStandardInput : IO Contents := do
  return Contents.ofBytes (← (← IO.getStdin).readBinToEnd)

def performInput (arguments : Arguments) : IO UInt32 := do
  let stdin ← if arguments.path?.isNone then readStandardInput else pure .notText
  let read ← match arguments.path? with
    | some path => readInput path
    | none => pure (.error .missing)
  match run arguments stdin (fun _ => read) isUnicode with
  | .exits result =>
    (← IO.getStdout).putStr result.stdout.toString
    (← IO.getStderr).putStr result.stderr.toString
    return UInt32.ofNat result.code
  | .stopped _ => throw (IO.userError "the tree has a shape that cannot be printed")
  | .unwritten _ => throw (IO.userError "the source holds half of a surrogate pair")

end PugPrinter

open PugPrinter PugPrinter.CommandLine in
def main (args : List String) : IO UInt32 := do
  match parse (args.map Text.ofString) with
  | .help => IO.println usage.toString; return 0
  | .version => IO.println (Text.toString (command ++ (" " : Text) ++ version)); return 0
  | .misuse => (← IO.getStderr).putStrLn usage.toString; return 2
  | .print arguments => performInput arguments
