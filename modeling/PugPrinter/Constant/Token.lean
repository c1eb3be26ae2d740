import PugPrinter.Constant.Value

/-!
Tokens of constant expressions: literals, names and symbols, with blanks in between. A text that
holds anything else has no tokens.
-/

set_option autoImplicit false

namespace PugPrinter.Constant

/-- The symbols of the expressions that can be folded. -/
inductive Symbol where
  | strictEq | strictNe | power | looseEq | looseNe | atMost | atLeast | both | either | nullish
  | minus | plus | times | slash | percent | less | greater | bang | openParen | closeParen
  | openBrace | closeBrace | openBracket | closeBracket | comma | colon | question
  deriving DecidableEq, Repr

namespace Symbol

def spellings : List (Text × Symbol) :=
  [("===", strictEq), ("!==", strictNe), ("**", power), ("==", looseEq), ("!=", looseNe),
    ("<=", atMost), (">=", atLeast), ("&&", both), ("||", either), ("??", nullish),
    ("-", minus), ("+", plus), ("*", times), ("/", slash), ("%", percent), ("<", less),
    (">", greater), ("!", bang), ("(", openParen), (")", closeParen), ("\x7b", openBrace),
    ("\x7d", closeBrace), ("[", openBracket), ("]", closeBracket), (",", comma), (":", colon),
    ("?", question)]

end Symbol

inductive Literal where
  | num (value : Number)
  | str (value : Text)
  deriving Inhabited

def Literal.value : Literal → Value
  | num n => .num n
  | str s => .str s

inductive Token where
  | literal (value : Literal)
  | name (text : Text)
  | symbol (kind : Symbol)
  deriving Inhabited

namespace Token

/-- What a one-letter escape in a string stands for; any other code point stands for itself. -/
def simpleEscape (c : CodePoint) : CodePoint :=
  if c == 'n' then '\n'
  else if c == 't' then '\t'
  else if c == 'r' then '\r'
  else if c == 'b' then '\x08'
  else if c == 'f' then '\x0c'
  else if c == 'v' then '\x0b'
  else if c == '0' then '\x00'
  else c

/-- The characters that end a line; after a backslash they continue the string. -/
def isLineEnd (c : CodePoint) : Bool :=
  c == '\n' || c == '\r' || c == '\u2028' || c == '\u2029'

def bracedCode? (t : Text) : Option (Nat × Text) :=
  match t with
  | .scalar '{' :: rest =>
    let row := rest.takeWhile Text.isHexDigit
    match rest.dropWhile Text.isHexDigit with
    | .scalar '}' :: after =>
      if row.isEmpty then none else some (Text.natOfDigits 16 row, after)
    | _ => none
  | _ => none

def fixedCode? (width : Nat) (t : Text) : Option (Nat × Text) :=
  let row := t.take width
  if row.length == width && row.all Text.isHexDigit then
    some (Text.natOfDigits 16 row, t.drop width)
  else none

/-- The text that an escape stands for, and the rest after it. The escape starts after its
backslash; nothing is returned for a number too large to be a code point. -/
def escape? (t : Text) : Option (Text × Text) :=
  match t with
  | .scalar 'u' :: rest =>
    match (bracedCode? rest).or (fixedCode? 4 rest) with
    | some (code, after) => (CodePoint.ofCode? code).map fun c => ([c], after)
    | none => some (['u'], rest)
  | .scalar 'x' :: rest =>
    match fixedCode? 2 rest with
    | some (code, after) => (CodePoint.ofCode? code).map fun c => ([c], after)
    | none => some (['x'], rest)
  | .scalar '\r' :: .scalar '\n' :: rest => some ([], rest)
  | c :: rest => some (if isLineEnd c then [] else [simpleEscape c], rest)
  | [] => some (['\\'], [])

def unescape? : Nat → Text → Option Text
  | 0, _ => some []
  | _ + 1, [] => some []
  | fuel + 1, .scalar '\\' :: rest => do
    let (text, after) ← escape? rest
    return text ++ (← unescape? fuel after)
  | fuel + 1, c :: rest => do return c :: (← unescape? fuel rest)

/-- The body of a quoted string up to its closing mark, and the rest after the mark. A backslash
takes the next code point along; a bare line feed is refused. -/
def quotedBody? (mark : CodePoint) : Text → Option (Text × Text)
  | [] => none
  | [.scalar '\\'] => none
  | .scalar '\\' :: c :: rest =>
    (quotedBody? mark rest).map fun (body, after) => ('\\' :: c :: body, after)
  | c :: rest =>
    if c == mark then some ([], rest)
    else if c == '\n' then none
    else (quotedBody? mark rest).map fun (body, after) => (c :: body, after)

def backtick : CodePoint := '\x60'

/-- The body of a template literal up to its closing mark; one that interpolates is refused. -/
def templateBody? : Text → Option (Text × Text)
  | [] => none
  | [.scalar '\\'] => none
  | .scalar '\\' :: c :: rest =>
    (templateBody? rest).map fun (body, after) => ('\\' :: c :: body, after)
  | c :: rest =>
    if c == backtick then some ([], rest)
    else if c == '$' && Text.startsWith rest ['{'] then none
    else (templateBody? rest).map fun (body, after) => (c :: body, after)

def ofBody? (found : Option (Text × Text)) : Option (Token × Text) := do
  let (body, after) ← found
  return (.literal (.str (← unescape? body.length body)), after)

def startsName (c : CodePoint) : Bool :=
  Text.isLetter c || c == '_' || c == '$'

def continuesName (c : CodePoint) : Bool :=
  Text.isWord c || c == '$'

def symbol? (t : Text) : Option (Token × Text) :=
  (Symbol.spellings.find? fun entry => Text.startsWith t entry.1).map fun entry =>
    (.symbol entry.2, t.drop entry.1.length)

/-- A number at the front of a text: nothing when there is none, and nothing inside when it has
too many digits. -/
def number? (t : Text) : Option (Option Number × Text) :=
  match Numeral.based? t with
  | some (n, rest) => some (some n, rest)
  | none => Numeral.decimal? t

def next? (t : Text) : Option (Token × Text) :=
  match number? t with
  | some (n, rest) => n.map fun n => (.literal (.num n), rest)
  | none =>
    match t with
    | .scalar '\'' :: rest => ofBody? (quotedBody? '\'' rest)
    | .scalar '"' :: rest => ofBody? (quotedBody? '"' rest)
    | c :: rest =>
      if c == backtick then ofBody? (templateBody? rest)
      else if startsName c then
        some (.name (c :: rest.takeWhile continuesName), rest.dropWhile continuesName)
      else symbol? t
    | [] => none

/-- All tokens of a text. The bound is on their number; that of the characters is enough. -/
def readAll? : Nat → Text → Option (List Token)
  | 0, t => if (t.dropWhile Text.isBlank).isEmpty then some [] else none
  | fuel + 1, t =>
    match t.dropWhile Text.isBlank with
    | [] => some []
    | c :: rest => do
      let (token, after) ← next? (c :: rest)
      return token :: (← readAll? fuel after)

def tokenize? (source : Text) : Option (List Token) :=
  readAll? source.length source

end Token

end PugPrinter.Constant
