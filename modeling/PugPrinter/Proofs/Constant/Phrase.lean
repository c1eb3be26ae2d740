import PugPrinter.Constant.Grammar

/-!
Derivations of constant expressions. A phrase of a level is a derivation tree of the grammar: levels
with two operands group to the left, powers to the right, and parentheses, arrays and objects hold
phrases of the loosest level. A phrase has the tokens that it spells, a value if all its parts have
one, and a height; it ends before tokens that do not go on at its level.
-/

set_option autoImplicit false

namespace PugPrinter.Constant

def Level.rank : Level → Nat
  | conditional => 0
  | nullish => 1
  | either => 2
  | both => 3
  | equality => 4
  | relational => 5
  | additive => 6
  | multiplicative => 7
  | exponent => 8
  | unary => 9
  | primary => 10

def Level.groupsLeft : Level → Bool
  | conditional => false
  | exponent => false
  | unary => false
  | primary => false
  | _ => true

private theorem Level.rank_next {level : Level} (loose : level ≠ .primary) :
    level.next.rank = level.rank + 1 := by
  cases level with
  | primary => exact absurd rfl loose
  | _ => rfl

inductive Operator where
  | logical (op : LogicalOp)
  | binary (op : BinaryOp)
  deriving DecidableEq, Repr

namespace Operator

def level? : Operator → Option Level
  | logical .nullish => some .nullish
  | logical .either => some .either
  | logical .both => some .both
  | binary .looseEq | binary .looseNe | binary .strictEq | binary .strictNe => some .equality
  | binary .less | binary .greater | binary .atMost | binary .atLeast => some .relational
  | binary .add | binary .sub => some .additive
  | binary .mul | binary .div | binary .rem => some .multiplicative
  | binary .pow => none

def symbol : Operator → Symbol
  | logical .nullish => .nullish
  | logical .either => .either
  | logical .both => .both
  | binary .looseEq => .looseEq
  | binary .looseNe => .looseNe
  | binary .strictEq => .strictEq
  | binary .strictNe => .strictNe
  | binary .less => .less
  | binary .greater => .greater
  | binary .atMost => .atMost
  | binary .atLeast => .atLeast
  | binary .add => .plus
  | binary .sub => .minus
  | binary .mul => .times
  | binary .div => .slash
  | binary .rem => .percent
  | binary .pow => .power

def expr : Operator → Expr → Expr → Expr
  | logical op => .logical op
  | binary op => .binary op

def apply : Operator → Value → Value → Option Value
  | logical op, a, b => some (op.choose a b)
  | binary op, a, b => op.apply a b

theorem symbol_injective {op other : Operator} (same : op.symbol = other.symbol) : op = other := by
  cases op with
  | logical op => cases op <;> cases other with
    | logical other => cases other <;> first | rfl | cases same
    | binary other => cases other <;> cases same
  | binary op => cases op <;> cases other with
    | logical other => cases other <;> cases same
    | binary other => cases other <;> first | rfl | cases same

private theorem groupsLeft_of_level? {op : Operator} {level : Level}
    (joins : op.level? = some level) :
    level.groupsLeft = true := by
  cases op with
  | logical op => cases op <;> cases joins <;> rfl
  | binary op => cases op <;> cases joins <;> rfl

theorem join?_eq_some_iff {level : Level} {s : Symbol} {join : Expr → Expr → Expr} :
    level.join? s = some join ↔
      ∃ op : Operator, op.level? = some level ∧ op.symbol = s ∧ op.expr = join := by
  constructor
  · intro joins
    unfold Level.join? at joins
    split at joins <;> cases joins
    all_goals first
      | refine ⟨.logical _, ?_, ?_, rfl⟩ <;> rfl
      | refine ⟨.binary _, ?_, ?_, rfl⟩ <;> rfl
  · rintro ⟨op, joins, rfl, rfl⟩
    cases op with
    | logical op => cases op <;> cases joins <;> rfl
    | binary op => cases op <;> cases joins <;> rfl

end Operator

def UnaryOp.token : UnaryOp → Token
  | not => .symbol .bang
  | neg => .symbol .minus
  | pos => .symbol .plus
  | typeOf => .name "typeof"

def Keyword.spelling : Keyword → Text
  | true => "true"
  | false => "false"
  | null => "null"
  | undefined => "undefined"
  | nan => "NaN"
  | infinity => "Infinity"

theorem Keyword.spelling_injective {word other : Keyword} (same : word.spelling = other.spelling) :
    word = other := by
  cases word <;> cases other <;> first | rfl | exact absurd same (by decide)

theorem UnaryOp.token_ne_spelling (op : UnaryOp) (word : Keyword) :
    op.token ≠ .name word.spelling := by
  intro same
  cases op with
  | typeOf => cases word <;> exact absurd (Token.name.inj same) (by decide)
  | _ => cases same

def Key.token : Key → Token
  | name text => .name text
  | literal value => .literal value

def Token.continues? : Token → Option Level
  | .symbol .question => some .conditional
  | .symbol .nullish => some .nullish
  | .symbol .either => some .either
  | .symbol .both => some .both
  | .symbol .looseEq | .symbol .looseNe | .symbol .strictEq | .symbol .strictNe => some .equality
  | .symbol .less | .symbol .greater | .symbol .atMost | .symbol .atLeast => some .relational
  | .symbol .plus | .symbol .minus => some .additive
  | .symbol .times | .symbol .slash | .symbol .percent => some .multiplicative
  | .symbol .power => some .exponent
  | _ => none

mutual

inductive Phrase : Level → Type where
  /-- A phrase of the next tighter level. -/
  | step {level : Level} (loose : level ≠ .primary) (inner : Phrase level.next) : Phrase level
  | conditional (test : Phrase .nullish) (yes no : Phrase .conditional) : Phrase .conditional
  /-- Two operands of an operator that groups to the left. -/
  | joined {level : Level} (op : Operator) (joins : op.level? = some level) (left : Phrase level)
      (right : Phrase level.next) : Phrase level
  | power (base : Phrase .unary) (exponent : Phrase .exponent) : Phrase .exponent
  | applied (op : UnaryOp) (operand : Phrase .unary) : Phrase .unary
  | literal (value : Literal) : Phrase .primary
  | keyword (word : Keyword) : Phrase .primary
  | parenthesized (inner : Phrase .conditional) : Phrase .primary
  | array (items : Items) : Phrase .primary
  | object (fields : Fields) : Phrase .primary

inductive Items : Type where
  | closed
  /-- A comma where an item could stand. -/
  | hole (rest : Items)
  | last (item : Phrase .conditional)
  | item (first : Phrase .conditional) (rest : Items)

inductive Fields : Type where
  | closed
  | last (key : Key) (value : Phrase .conditional)
  | field (key : Key) (value : Phrase .conditional) (rest : Fields)

end

mutual

def Phrase.tokens : {level : Level} → Phrase level → List Token
  | _, .step _ inner => inner.tokens
  | _, .conditional test yes no =>
    test.tokens ++ .symbol .question :: (yes.tokens ++ .symbol .colon :: no.tokens)
  | _, .joined op _ left right => left.tokens ++ .symbol op.symbol :: right.tokens
  | _, .power base exponent => base.tokens ++ .symbol .power :: exponent.tokens
  | _, .applied op operand => op.token :: operand.tokens
  | _, .literal value => [.literal value]
  | _, .keyword word => [.name word.spelling]
  | _, .parenthesized inner => .symbol .openParen :: (inner.tokens ++ [.symbol .closeParen])
  | _, .array items => .symbol .openBracket :: items.tokens
  | _, .object fields => .symbol .openBrace :: fields.tokens

/-- The tokens of items, with the closing bracket. -/
def Items.tokens : Items → List Token
  | .closed => [.symbol .closeBracket]
  | .hole rest => .symbol .comma :: rest.tokens
  | .last item => item.tokens ++ [.symbol .closeBracket]
  | .item first rest => first.tokens ++ .symbol .comma :: rest.tokens

def Fields.tokens : Fields → List Token
  | .closed => [.symbol .closeBrace]
  | .last key value => key.token :: .symbol .colon :: (value.tokens ++ [.symbol .closeBrace])
  | .field key value rest =>
    key.token :: .symbol .colon :: (value.tokens ++ .symbol .comma :: rest.tokens)

end

mutual

/-- The value of a phrase: all parts are evaluated, also those that are not chosen. -/
def Phrase.value? : {level : Level} → Phrase level → Option Value
  | _, .step _ inner => inner.value?
  | _, .conditional test yes no => do
    let test ← test.value?
    let yes ← yes.value?
    let no ← no.value?
    return if test.truthy then yes else no
  | _, .joined op _ left right => do op.apply (← left.value?) (← right.value?)
  | _, .power base exponent => do BinaryOp.pow.apply (← base.value?) (← exponent.value?)
  | _, .applied op operand => do op.apply (← operand.value?)
  | _, .literal value => some value.value
  | _, .keyword word => some word.value
  | _, .parenthesized inner => inner.value?
  | _, .array items => items.values?.map .arr
  | _, .object fields => (fields.values? []).map .obj

def Items.values? : Items → Option (List Value)
  | .closed => some []
  | .hole rest => do return .undefined :: (← rest.values?)
  | .last item => do return [← item.value?]
  | .item first rest => do return (← first.value?) :: (← rest.values?)

def Fields.values? (before : List (Text × Value)) : Fields → Option (List (Text × Value))
  | .closed => some before
  | .last key value => do
    let value ← value.value?
    return putField (← key.codes?) value before
  | .field key value rest => do
    let value ← value.value?
    rest.values? (putField (← key.codes?) value before)

end

mutual

/-- How many steps from level to level a phrase nests. Operands of one chain are at the same height. -/
def Phrase.height : {level : Level} → Phrase level → Nat
  | _, .step _ inner => inner.height + 1
  | _, .conditional test yes no => max test.height (max yes.height no.height) + 1
  | _, .joined _ _ left right => max left.height (right.height + 1)
  | _, .power base exponent => max base.height exponent.height + 1
  | _, .applied _ operand => operand.height + 1
  | _, .literal _ => 1
  | _, .keyword _ => 1
  | _, .parenthesized inner => inner.height + 1
  | _, .array items => items.height + 1
  | _, .object fields => fields.height + 1

def Items.height : Items → Nat
  | .closed => 0
  | .hole rest => rest.height
  | .last item => item.height
  | .item first rest => max first.height rest.height

def Fields.height : Fields → Nat
  | .closed => 0
  | .last _ value => value.height
  | .field _ value rest => max value.height rest.height

end

-- The equations are derived with the tag, before the proofs that rewrite with them.
attribute [grind =] Phrase.tokens Phrase.height Items.tokens Items.height Fields.tokens Fields.height

/-- A phrase of a level ends before these tokens: they do not go on at this level or a tighter one. -/
def Stops (level : Level) (rest : List Token) : Prop :=
  ∀ token ∈ rest.head?, ∀ other ∈ token.continues?, other.rank < level.rank

section Stops

variable {level other : Level} {token : Token} {rest : List Token}

theorem stops_nil (level : Level) : Stops level [] :=
  fun _ none => nomatch none

private theorem stops_cons :
    Stops level (token :: rest) ↔ ∀ other, token.continues? = some other → other.rank < level.rank := by
  simp [Stops]

theorem stops_of_none (ends : token.continues? = none) : Stops level (token :: rest) := by
  rw [stops_cons, ends]
  intro other impossible
  cases impossible

theorem stops_of_lt (goesOn : token.continues? = some other) (looser : other.rank < level.rank) :
    Stops level (token :: rest) := by
  rw [stops_cons, goesOn]
  intro level' same
  cases same
  exact looser

theorem not_stops (goesOn : token.continues? = some level) : ¬ Stops level (token :: rest) := by
  intro stops
  exact absurd (stops_cons.mp stops level goesOn) (Nat.lt_irrefl _)

theorem Stops.next (stops : Stops level rest) : Stops level.next rest := by
  intro token first other goesOn
  have looser := stops token first other goesOn
  by_cases tightest : level = .primary
  · rw [tightest] at looser ⊢
    exact looser
  · rw [Level.rank_next tightest]
    omega

end Stops

theorem Operator.continues?_symbol {op : Operator} {level : Level} (joins : op.level? = some level) :
    (Token.symbol op.symbol).continues? = some level := by
  cases op with
  | logical op => cases op <;> cases joins <;> rfl
  | binary op => cases op <;> cases joins <;> rfl

theorem Operator.rank_lt_next {op : Operator} {level : Level} (joins : op.level? = some level) :
    level.rank < level.next.rank := by
  have loose : level ≠ .primary := by
    rintro rfl
    exact absurd (op.groupsLeft_of_level? joins) (by decide)
  rw [Level.rank_next loose]
  omega

def Token.startsPhrase : Token → Bool
  | .literal _ => true
  | .name _ => true
  | .symbol .bang | .symbol .minus | .symbol .plus => true
  | .symbol .openParen | .symbol .openBracket | .symbol .openBrace => true
  | .symbol _ => false

namespace Phrase

/-! What phrases of the levels can be that do not group to the left. -/

@[elab_as_elim]
theorem conditionalCases {motive : Phrase .conditional → Prop}
    (step : ∀ loose test, motive (.step loose test))
    (conditional : ∀ test yes no, motive (.conditional test yes no)) (p : Phrase .conditional) :
    motive p := by
  cases p with
  | step loose test => exact step loose test
  | conditional test yes no => exact conditional test yes no
  | joined op joins => exact absurd (op.groupsLeft_of_level? joins) (by decide)

@[elab_as_elim]
theorem exponentCases {motive : Phrase .exponent → Prop}
    (step : ∀ loose base, motive (.step loose base))
    (power : ∀ base exponent, motive (.power base exponent)) (p : Phrase .exponent) : motive p := by
  cases p with
  | step loose base => exact step loose base
  | power base exponent => exact power base exponent
  | joined op joins => exact absurd (op.groupsLeft_of_level? joins) (by decide)

@[elab_as_elim]
theorem unaryCases {motive : Phrase .unary → Prop}
    (step : ∀ loose inner, motive (.step loose inner))
    (applied : ∀ op operand, motive (.applied op operand)) (p : Phrase .unary) : motive p := by
  cases p with
  | step loose inner => exact step loose inner
  | applied op operand => exact applied op operand
  | joined op joins => exact absurd (op.groupsLeft_of_level? joins) (by decide)

@[elab_as_elim]
theorem primaryCases {motive : Phrase .primary → Prop} (literal : ∀ value, motive (.literal value))
    (keyword : ∀ word, motive (.keyword word))
    (parenthesized : ∀ inner, motive (.parenthesized inner))
    (array : ∀ items, motive (.array items)) (object : ∀ fields, motive (.object fields))
    (p : Phrase .primary) : motive p := by
  cases p with
  | literal value => exact literal value
  | keyword word => exact keyword word
  | parenthesized inner => exact parenthesized inner
  | array items => exact array items
  | object fields => exact object fields
  | step loose => exact absurd rfl loose
  | joined op joins => exact absurd (op.groupsLeft_of_level? joins) (by decide)

theorem exists_start : ∀ {level : Level} (p : Phrase level),
    ∃ token rest, p.tokens = token :: rest ∧ token.startsPhrase = true
  | _, .step _ inner => by
    obtain ⟨token, rest, tokens, starts⟩ := inner.exists_start
    exact ⟨token, rest, by rw [Phrase.tokens, tokens], starts⟩
  | _, .conditional test _ _ => by
    obtain ⟨token, rest, tokens, starts⟩ := test.exists_start
    exact ⟨token, _, by rw [Phrase.tokens, tokens]; rfl, starts⟩
  | _, .joined _ _ left _ => by
    obtain ⟨token, rest, tokens, starts⟩ := left.exists_start
    exact ⟨token, _, by rw [Phrase.tokens, tokens]; rfl, starts⟩
  | _, .power base _ => by
    obtain ⟨token, rest, tokens, starts⟩ := base.exists_start
    exact ⟨token, _, by rw [Phrase.tokens, tokens]; rfl, starts⟩
  | _, .applied op operand => ⟨op.token, operand.tokens, by rw [Phrase.tokens], by cases op <;> rfl⟩
  | _, .literal value => ⟨.literal value, [], by rw [Phrase.tokens], rfl⟩
  | _, .keyword word => ⟨.name word.spelling, [], by rw [Phrase.tokens], rfl⟩
  | _, .parenthesized inner => ⟨_, _, by rw [Phrase.tokens], rfl⟩
  | _, .array items => ⟨_, _, by rw [Phrase.tokens], rfl⟩
  | _, .object fields => ⟨_, _, by rw [Phrase.tokens], rfl⟩

end Phrase

end PugPrinter.Constant
