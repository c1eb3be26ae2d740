import PugPrinter.Constant.Value
import PugPrinter.Text.Decimal
import PugPrinter.Text.Quotation

/-!
Arguments of the command line. Long options may be cut short as long as they stay unique and may
bring their value after an equals sign; everything after two hyphens is the name of a file.
-/

set_option autoImplicit false

namespace PugPrinter.CommandLine

inductive Flag where
  | help | version | indent | tabs | colon | quote
  deriving DecidableEq, Repr

namespace Flag

def spellings : List (Text × Flag) :=
  [("-h", help), ("--help", help), ("-V", version), ("--version", version),
    ("--indent", indent), ("--tabs", tabs), ("--colon", colon), ("--quote", quote)]

def ofSpelling? (t : Text) : Option Flag :=
  (spellings.find? fun entry => entry.1 == t).map Prod.snd

def takesValue : Flag → Bool
  | indent => true
  | quote => true
  | _ => false

end Flag

inductive Word where
  /-- A value or the name of a file. -/
  | plain
  /-- The two hyphens that end the options. -/
  | separator
  /-- An option, perhaps with a value after an equals sign. -/
  | option (flag : Flag) (value : Option Text)
  /-- A short option with more letters after it, perhaps behind an equals sign. -/
  | cluster (flag : Flag) (letters : Text)
  /-- Something that looks like an option but is none. -/
  | unknown
  /-- The beginning of several options. -/
  | ambiguous
  deriving DecidableEq, Repr

def dropFinalLineFeed (t : Text) : Text :=
  if t.getLast? == some (CodePoint.scalar '\n') then t.dropLast else t

/-- Whether a text is a negative number in decimal notation, perhaps with a line feed at its end. -/
def isNegativeNumber (t : Text) : Bool :=
  match dropFinalLineFeed t with
  | .scalar '-' :: rest =>
    let whole := rest.takeWhile Text.isDecimal
    match rest.dropWhile Text.isDecimal with
    | [] => !whole.isEmpty
    | .scalar '.' :: fraction => !fraction.isEmpty && fraction.all Text.isDecimal
    | _ => false
  | _ => false

def splitEquals (t : Text) : Text × Option Text :=
  let isBefore (c : CodePoint) : Bool := c != '='
  match t.dropWhile isBefore with
  | _ :: value => (t.takeWhile isBefore, some value)
  | [] => (t, none)

def classifyRest (t : Text) : Word :=
  if isNegativeNumber t || t.contains ' ' then .plain else .unknown

def classifyShort (t : Text) : Word :=
  match Flag.ofSpelling? (t.take 2) with
  | some flag => .cluster flag (t.drop 2)
  | none => classifyRest t

def classifyLong (t : Text) : Word :=
  let (name, value) := splitEquals t
  match Flag.spellings.filter fun entry => Text.startsWith entry.1 name with
  | [] => classifyRest t
  | [entry] => .option entry.2 value
  | _ => .ambiguous

def classify (t : Text) : Word :=
  match t with
  | [.scalar '-', .scalar '-'] => .separator
  | .scalar '-' :: second :: _ =>
    match Flag.ofSpelling? t with
    | some flag => .option flag none
    | none =>
      let isLong := second == '-'
      let (name, value) := splitEquals t
      match Flag.ofSpelling? name, value with
      | some flag, some value =>
        if isLong then .option flag (some value) else .cluster flag value
      | _, _ => if isLong then classifyLong t else classifyShort t
  | _ => .plain

def classifyAll : List Text → List (Text × Word)
  | [] => []
  | t :: rest =>
    match classify t with
    | .separator => (t, .separator) :: rest.map fun u => (u, .plain)
    | word => (t, word) :: classifyAll rest

/-- The arguments that the command works with. An indent or a quote is nothing when the two hyphens
stand in place of its value. -/
structure Arguments where
  file : Option Text := none
  indent : Option Int := some 2
  tabs : Bool := false
  colon : Bool := false
  quote : Option Quote := some .single
  deriving DecidableEq, Repr

inductive Request where
  | help
  | version
  | misuse
  | print (arguments : Arguments)
  deriving DecidableEq, Repr

/-- The arguments as far as they have been taken in. -/
structure Progress where
  arguments : Arguments := {}
  /-- Whether a file has been named. -/
  fileTaken : Bool := false
  /-- Whether the file was the last argument taken in. -/
  fileLast : Bool := false
  /-- Whether an indent other than the usual one was asked for. -/
  indentTaken : Bool := false
  /-- Whether something was left over. -/
  leftOver : Bool := false
  /-- The option whose value comes next. -/
  waiting : Option Flag := none

/-- The values of a row of digits in which single underscores may stand between digits. The flag
says whether the code point before was a digit. -/
def digitValues? (afterDigit : Bool) : Text → Option (List Nat)
  | [] => if afterDigit then some [] else none
  | c :: rest =>
    match Text.decimalValue? c with
    | some value => (digitValues? true rest).map (value :: ·)
    | none => if c == '_' && afterDigit then digitValues? false rest else none

def digitsValue? (t : Text) : Option Nat := do
  let values ← digitValues? false t
  if values.length ≤ Constant.Number.digitLimit then
    return values.foldl (fun n value => n * 10 + value) 0
  else none

def integer? (t : Text) : Option Int :=
  match Constant.trim t with
  | .scalar '-' :: rest => (digitsValue? rest).map fun n => -(n : Int)
  | .scalar '+' :: rest => (digitsValue? rest).map fun n => (n : Int)
  | rest => (digitsValue? rest).map fun n => (n : Int)

def valueOf? {α : Type} (read : Text → Option α) (value : Text) : Option (Option α) :=
  if value == ("--" : Text) then some none else (read value).map some

def quoteNamed? (name : Text) : Option Quote :=
  if name == ("single" : Text) then some .single
  else if name == ("double" : Text) then some .double
  else none

/-- Takes in an option with a value. An indent other than the usual one and tabs exclude each
other. -/
def takeValue (p : Progress) (flag : Flag) (value : Text) : Option Progress :=
  match flag with
  | .indent => do
    let indent ← valueOf? integer? value
    let isUsual := indent == ({} : Arguments).indent
    if !isUsual && p.arguments.tabs then none
    else
      return { p with
        arguments := { p.arguments with indent }
        indentTaken := p.indentTaken || !isUsual }
  | .quote => do
    let quote ← valueOf? quoteNamed? value
    return { p with arguments := { p.arguments with quote } }
  | _ => none

def takeSwitch (p : Progress) (flag : Flag) : Option Progress :=
  match flag with
  | .tabs =>
    if p.indentTaken then none else some { p with arguments := { p.arguments with tabs := true } }
  | .colon => some { p with arguments := { p.arguments with colon := true } }
  | _ => none

/-- Whether letters after a short option can be read: there are some, and each is a short option
itself. -/
def clusterReads (letters : Text) : Bool :=
  !letters.isEmpty && letters.all fun c => (Flag.ofSpelling? ['-', c]).isSome

def immediate? : Flag → Option Request
  | .help => some .help
  | .version => some .version
  | _ => none

def orMisuse : Option Progress → Except Request Progress
  | some p => .ok p
  | none => .error .misuse

/-- Takes in an option without a value after an equals sign; its value may come next. -/
def takeFlag (p : Progress) (flag : Flag) : Except Request Progress :=
  match immediate? flag with
  | some request => .error request
  | none =>
    if flag.takesValue then .ok { p with waiting := some flag } else orMisuse (takeSwitch p flag)

/-- Takes in an argument where no value is waited for. The first plain one is the file, with a
separator before it or right after it; any other is left over. -/
def takeFree (p : Progress) (t : Text) : Word → Except Request Progress
  | .plain =>
    if p.fileTaken then .ok { p with leftOver := true }
    else
      .ok { p with
        arguments := { p.arguments with file := some t }
        fileTaken := true
        fileLast := true }
  | .separator => .ok { p with leftOver := p.leftOver || p.fileTaken }
  | .unknown => .ok { p with leftOver := true }
  | .ambiguous => .error .misuse
  | .cluster flag letters =>
    if clusterReads letters then takeFlag p flag else .error .misuse
  | .option flag (some value) => orMisuse (takeValue p flag value)
  | .option flag none => takeFlag p flag

/-- Takes in an argument: the value that an option waits for, or something new. -/
def takeWord (p : Progress) (word : Text × Word) : Except Request Progress :=
  match p.waiting, word.2 with
  | some flag, .plain => orMisuse (takeValue { p with waiting := none } flag word.1)
  | some _, _ => .error .misuse
  | none, .separator =>
    if p.fileLast then .ok { p with fileLast := false } else takeFree p word.1 .separator
  | none, kind => takeFree { p with fileLast := false } word.1 kind

def takeAll (words : List (Text × Word)) : Request :=
  match words.foldlM takeWord {} with
  | .error request => request
  | .ok p => if p.leftOver || p.waiting.isSome then .misuse else .print p.arguments

/-- What arguments ask for. An option that is cut too short is refused before anything else. -/
def parse (args : List Text) : Request :=
  let words := classifyAll args
  if words.any fun word => word.2 == .ambiguous then .misuse else takeAll words

end PugPrinter.CommandLine
