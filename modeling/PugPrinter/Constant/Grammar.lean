import PugPrinter.Constant.Expr

/-!
The grammar of constant expressions, level by level from the loosest binding to the tightest. The
two-operand levels below the power group to the left, powers group to the right. Expressions that
are nested too deeply are refused: every step from one level to the next takes one unit of a
budget, while chains of operators of one level may have any length.
-/

set_option autoImplicit false

namespace PugPrinter.Constant

inductive Level where
  | conditional | nullish | either | both | equality | relational | additive | multiplicative
  | exponent | unary | primary
  deriving DecidableEq, Repr

namespace Level

def next : Level → Level
  | conditional => nullish
  | nullish => either
  | either => both
  | both => equality
  | equality => relational
  | relational => additive
  | additive => multiplicative
  | multiplicative => exponent
  | exponent => unary
  | unary => primary
  | primary => primary

def join? : Level → Symbol → Option (Expr → Expr → Expr)
  | nullish, .nullish => some (.logical .nullish)
  | either, .either => some (.logical .either)
  | both, .both => some (.logical .both)
  | equality, .looseEq => some (.binary .looseEq)
  | equality, .looseNe => some (.binary .looseNe)
  | equality, .strictEq => some (.binary .strictEq)
  | equality, .strictNe => some (.binary .strictNe)
  | relational, .less => some (.binary .less)
  | relational, .greater => some (.binary .greater)
  | relational, .atMost => some (.binary .atMost)
  | relational, .atLeast => some (.binary .atLeast)
  | additive, .plus => some (.binary .add)
  | additive, .minus => some (.binary .sub)
  | multiplicative, .times => some (.binary .mul)
  | multiplicative, .slash => some (.binary .div)
  | multiplicative, .percent => some (.binary .rem)
  | _, _ => none

end Level

namespace Grammar

/-- A parser takes something off the front of a list of tokens. -/
abbrev Parser (α : Type) := List Token → Option (α × List Token)

/-- Operands joined from the left for as long as a joining symbol follows. The bound is on the
number of joins; that of the tokens is enough. -/
def chain (operand : Parser Expr) (join? : Symbol → Option (Expr → Expr → Expr)) :
    Nat → Expr → Parser Expr
  | 0, left, tokens => some (left, tokens)
  | fuel + 1, left, .symbol s :: rest =>
    match join? s with
    | some join => do
      let (right, rest) ← operand rest
      chain operand join? fuel (join left right) rest
    | none => some (left, .symbol s :: rest)
  | _ + 1, left, tokens => some (left, tokens)

/-- The items of an array up to the closing bracket. A comma where an item could stand leaves one
out, and the last comma may be followed by nothing. -/
def items (item : Parser Expr) : Nat → Parser (List Expr)
  | 0, _ => none
  | _ + 1, .symbol .closeBracket :: rest => some ([], rest)
  | fuel + 1, .symbol .comma :: rest => do
    let (more, rest) ← items item fuel rest
    return (.hole :: more, rest)
  | fuel + 1, tokens => do
    let (first, rest) ← item tokens
    match rest with
    | .symbol .comma :: rest =>
      let (more, rest) ← items item fuel rest
      return (first :: more, rest)
    | .symbol .closeBracket :: rest => return ([first], rest)
    | _ => none

def key? : Token → Option Key
  | .name text => some (.name text)
  | .literal value => some (.literal value)
  | .symbol _ => none

/-- The fields of an object up to the closing brace; the last comma may be followed by nothing. -/
def fields (item : Parser Expr) : Nat → Parser (List (Key × Expr))
  | 0, _ => none
  | _ + 1, .symbol .closeBrace :: rest => some ([], rest)
  | fuel + 1, token :: .symbol .colon :: rest => do
    let key ← key? token
    let (value, rest) ← item rest
    match rest with
    | .symbol .comma :: rest =>
      let (more, rest) ← fields item fuel rest
      return ((key, value) :: more, rest)
    | .symbol .closeBrace :: rest => return ([(key, value)], rest)
    | _ => none
  | _ + 1, _ => none

def unaryOp? : Token → Option UnaryOp
  | .symbol .bang => some .not
  | .symbol .minus => some .neg
  | .symbol .plus => some .pos
  | .name text => if text == ("typeof" : Text) then some .typeOf else none
  | _ => none

/-- An expression of a level at the front of a list of tokens, within a budget of steps. The
bound is that of the loops over operands, items and fields. -/
def expression (bound : Nat) : Nat → Level → Parser Expr
  | 0, _, _ => none
  | budget + 1, .conditional, tokens => do
    let (test, rest) ← expression bound budget .nullish tokens
    match rest with
    | .symbol .question :: rest =>
      let (yes, rest) ← expression bound budget .conditional rest
      match rest with
      | .symbol .colon :: rest =>
        let (no, rest) ← expression bound budget .conditional rest
        return (.conditional test yes no, rest)
      | _ => none
    | _ => return (test, rest)
  | budget + 1, .exponent, tokens => do
    let (base, rest) ← expression bound budget .unary tokens
    match rest with
    | .symbol .power :: rest =>
      let (power, rest) ← expression bound budget .exponent rest
      return (.binary .pow base power, rest)
    | _ => return (base, rest)
  | budget + 1, .unary, tokens =>
    match tokens with
    | token :: rest =>
      match unaryOp? token with
      | some op => do
        let (operand, rest) ← expression bound budget .unary rest
        return (.unary op operand, rest)
      | none => expression bound budget .primary tokens
    | [] => none
  | budget + 1, .primary, tokens =>
    match tokens with
    | .literal value :: rest => some (.literal value, rest)
    | .name text :: rest => (Keyword.ofName? text).map fun word => (.keyword word, rest)
    | .symbol .openParen :: rest => do
      let (inner, rest) ← expression bound budget .conditional rest
      match rest with
      | .symbol .closeParen :: rest => return (inner, rest)
      | _ => none
    | .symbol .openBracket :: rest => do
      let (inner, rest) ← items (expression bound budget .conditional) bound rest
      return (.array inner, rest)
    | .symbol .openBrace :: rest => do
      let (inner, rest) ← fields (expression bound budget .conditional) bound rest
      return (.object inner, rest)
    | _ => none
  | budget + 1, level, tokens => do
    let (left, rest) ← expression bound budget level.next tokens
    chain (expression bound budget level.next) level.join? bound left rest

/-- How many steps from level to level may be nested where no other limit is asked for. What a
process can nest depends on its stack. -/
def nestingLimit : Nat := 900

/-- The expression that a whole list of tokens spells, unless it is nested more deeply than a
limit. -/
def parse? (tokens : List Token) (limit : Nat := nestingLimit) : Option Expr :=
  match expression (tokens.length + 1) limit .conditional tokens with
  | some (e, []) => some e
  | _ => none

end Grammar

/-- The value of a source text, if it is a constant expression that is not nested too deeply. -/
def fold? (source : Text) (limit : Nat := Grammar.nestingLimit) : Option Value := do
  let tokens ← Token.tokenize? source
  let e ← Grammar.parse? tokens limit
  e.eval

end PugPrinter.Constant
