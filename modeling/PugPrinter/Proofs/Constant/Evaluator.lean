import PugPrinter.Proofs.Constant.Phrase

/-!
The evaluator of constant expressions by positions. The tokens stand in a list with a mark after the last
one, a position moves over the list, and values are computed on the way. A run notes down what it does:
which positions it looks at and moves to, where each turn of a loop begins, and which levels it calls.
It can stop for more reasons than the parser has: an entry that is not there, a loop that takes too many
turns, and calls that are nested too deeply are told apart.
-/

set_option autoImplicit false

namespace PugPrinter.Constant

def Symbol.operator? : Symbol → Option Operator
  | .nullish => some (.logical .nullish)
  | .either => some (.logical .either)
  | .both => some (.logical .both)
  | .looseEq => some (.binary .looseEq)
  | .looseNe => some (.binary .looseNe)
  | .strictEq => some (.binary .strictEq)
  | .strictNe => some (.binary .strictNe)
  | .less => some (.binary .less)
  | .greater => some (.binary .greater)
  | .atMost => some (.binary .atMost)
  | .atLeast => some (.binary .atLeast)
  | .plus => some (.binary .add)
  | .minus => some (.binary .sub)
  | .times => some (.binary .mul)
  | .slash => some (.binary .div)
  | .percent => some (.binary .rem)
  | .power => some (.binary .pow)
  | _ => none

theorem Level.rank_lt (level : Level) : level.rank < 11 := by
  cases level <;> decide

namespace Operator

private theorem operator?_eq_some_iff {s : Symbol} {op : Operator} :
    s.operator? = some op ↔ op.symbol = s := by
  constructor
  · intro found
    cases s <;> cases found <;> rfl
  · rintro rfl
    cases op with
    | logical op => cases op <;> rfl
    | binary op => cases op <;> rfl

theorem join?_eq (level : Level) (s : Symbol) :
    level.join? s = (s.operator?.filter fun op => op.level? = some level).map Operator.expr := by
  ext join
  rw [join?_eq_some_iff, Option.map_eq_some_iff]
  constructor
  · rintro ⟨op, isLevel, isSymbol, isExpr⟩
    have found := operator?_eq_some_iff.mpr isSymbol
    exact ⟨op, by rw [found, Option.filter_some, if_pos (decide_eq_true isLevel)], isExpr⟩
  · rintro ⟨op, found, isExpr⟩
    obtain ⟨isOp, isLevel⟩ := Option.filter_eq_some_iff.mp found
    exact ⟨op, of_decide_eq_true isLevel, operator?_eq_some_iff.mp isOp, isExpr⟩

end Operator

namespace Evaluator

/-- An entry of the list that is read: a token, or the mark after the last one. -/
inductive Entry where
  | token (token : Token)
  | finish

def entriesOf (tokens : List Token) : List Entry :=
  tokens.map .token ++ [.finish]

def entryAt (tokens : List Token) (position : Nat) : Entry :=
  tokens[position]?.elim .finish .token

theorem length_entriesOf (tokens : List Token) : (entriesOf tokens).length = tokens.length + 1 := by
  simp [entriesOf]

private theorem getElem?_entriesOf {tokens : List Token} {position : Nat}
    (inRange : position ≤ tokens.length) :
    (entriesOf tokens)[position]? = some (entryAt tokens position) := by
  rcases Nat.lt_or_eq_of_le inRange with before | rfl
  · have short : position < (tokens.map Entry.token).length := by rwa [List.length_map]
    rw [entriesOf, List.getElem?_append_left short, List.getElem?_map, entryAt,
      List.getElem?_eq_getElem before]
    rfl
  · simp [entriesOf, entryAt]

theorem entry_cases {tokens : List Token} {position : Nat} (inRange : position ≤ tokens.length) :
    (position = tokens.length ∧ entryAt tokens position = .finish ∧ tokens.drop position = []) ∨
      ∃ token, position < tokens.length ∧ tokens[position]? = some token ∧
        entryAt tokens position = .token token ∧
        tokens.drop position = token :: tokens.drop (position + 1) := by
  rcases Nat.lt_or_eq_of_le inRange with before | rfl
  · have found := List.getElem?_eq_getElem before
    exact .inr ⟨_, before, found, by rw [entryAt, found]; rfl, List.drop_eq_getElem_cons before⟩
  · have past : tokens[tokens.length]? = none := List.getElem?_eq_none (Nat.le_refl _)
    exact .inl ⟨rfl, by rw [entryAt, past]; rfl, List.drop_length⟩

theorem lt_length_of_entryAt {tokens : List Token} {position : Nat}
    (present : entryAt tokens position ≠ .finish) : position < tokens.length := by
  refine Nat.lt_of_not_le fun past => present ?_
  rw [entryAt, List.getElem?_eq_none past]
  rfl

inductive Halt where
  /-- The tokens spell no expression. -/
  | notConstant
  /-- An operator has no value for its operands, or a key has no name. -/
  | noValue
  /-- An entry was to be read that is not there. -/
  | outOfRange
  /-- A loop was to take more turns than its bound. -/
  | tooLong
  /-- Calls were nested more deeply than the budget. -/
  | tooDeep
  deriving DecidableEq, Repr

inductive Event where
  /-- The entry at a position is looked at. -/
  | look (position : Nat)
  /-- The position becomes another one. -/
  | move (position : Nat)
  /-- A turn of a loop begins at a position. -/
  | turn (position : Nat)
  /-- A level is called at a position; what is noted down during the call stands inside. -/
  | call (level : Level) (position : Nat) (inner : List Event)

/-- What a run notes down and how it ends: with a result and a position, or halted. -/
structure Outcome (α : Type) where
  events : List Event
  result : Except Halt (α × Nat)

def Reading (α : Type) : Type := Nat → Outcome α

namespace Reading

variable {α β : Type}

def done (a : α) : Reading α := fun position => ⟨[], .ok (a, position)⟩

def halt (why : Halt) : Reading α := fun _ => ⟨[], .error why⟩

def andThen (first : Reading α) (next : α → Reading β) : Reading β := fun position =>
  match (first position).result with
  | .ok (a, reached) =>
    ⟨(first position).events ++ (next a reached).events, (next a reached).result⟩
  | .error why => ⟨(first position).events, .error why⟩

instance : Monad Reading where
  pure := done
  bind := andThen

def compute (value? : Option α) : Reading α :=
  match value? with
  | some value => done value
  | none => halt .noValue

def peek (entries : List Entry) : Reading Entry := fun position =>
  ⟨[.look position], match entries[position]? with
    | some entry => .ok (entry, position)
    | none => .error .outOfRange⟩

def advance : Reading Unit := fun position => ⟨[.move (position + 1)], .ok ((), position + 1)⟩

/-- The entry at the position, which is passed unless it is the mark at the end. -/
def next (entries : List Entry) : Reading Entry := do
  match ← peek entries with
  | .token token =>
    advance
    return .token token
  | .finish => return .finish

def accept (entries : List Entry) (s : Symbol) : Reading Bool := do
  match ← peek entries with
  | .token (.symbol found) =>
    if found = s then
      advance
      return true
    else return false
  | _ => return false

def expect (entries : List Entry) (s : Symbol) : Reading Unit := do
  if ← accept entries s then return () else halt .notConstant

def turn : Reading Unit := fun position => ⟨[.turn position], .ok ((), position)⟩

def call (level : Level) (body : Reading α) : Reading α := fun position =>
  ⟨[.call level position (body position).events], (body position).result⟩

section Lemmas

variable {first : Reading α} {rest : α → Reading β} {position reached : Nat} {a : α}
  {events : List Event} {why : Halt}

theorem bind_of_ok (isFirst : first position = ⟨events, .ok (a, reached)⟩) :
    (first >>= rest) position = ⟨events ++ (rest a reached).events, (rest a reached).result⟩ := by
  simp only [Bind.bind, andThen, isFirst]

theorem bind_of_error (isFirst : first position = ⟨events, .error why⟩) :
    (first >>= rest) position = ⟨events, .error why⟩ := by
  simp only [Bind.bind, andThen, isFirst]

theorem bind_pure (first : Reading α) : first >>= pure = first := by
  funext position
  cases isFirst : first position with
  | mk events result =>
    cases result with
    | ok found => exact (bind_of_ok isFirst).trans (by simp only [pure, done, List.append_nil])
    | error why => exact bind_of_error isFirst

theorem bind_assoc {γ : Type} (first : Reading α) (rest : α → Reading β) (last : β → Reading γ) :
    first >>= rest >>= last = first >>= fun a => rest a >>= last := by
  funext position
  simp only [Bind.bind, andThen]
  cases (first position).result with
  | error why => rfl
  | ok found =>
    obtain ⟨a, reached⟩ := found
    dsimp only
    cases (rest a reached).result with
    | error why => rfl
    | ok found => simp only [List.append_assoc]

variable {tokens : List Token} {token : Token} {s : Symbol}

theorem peek_eq (inRange : position ≤ tokens.length) :
    peek (entriesOf tokens) position = ⟨[.look position], .ok (entryAt tokens position, position)⟩ := by
  rw [peek, getElem?_entriesOf inRange]

theorem next_of_token (found : tokens[position]? = some token) :
    next (entriesOf tokens) position =
      ⟨[.look position, .move (position + 1)], .ok (.token token, position + 1)⟩ := by
  have inRange := (List.getElem?_eq_some_iff.mp found).1
  rw [next, bind_of_ok (peek_eq (Nat.le_of_lt inRange)), entryAt, found]
  rfl

theorem next_of_finish (finished : position = tokens.length) :
    next (entriesOf tokens) position = ⟨[.look position], .ok (.finish, position)⟩ := by
  have atEnd : tokens[position]? = none := List.getElem?_eq_none (Nat.le_of_eq finished.symm)
  rw [next, bind_of_ok (peek_eq (Nat.le_of_eq finished)), entryAt, atEnd]
  rfl

theorem accept_of_eq (found : tokens[position]? = some (.symbol s)) :
    accept (entriesOf tokens) s position =
      ⟨[.look position, .move (position + 1)], .ok (true, position + 1)⟩ := by
  have inRange := (List.getElem?_eq_some_iff.mp found).1
  rw [accept, bind_of_ok (peek_eq (Nat.le_of_lt inRange)), entryAt, found]
  simp only [Option.elim, if_true]
  rfl

theorem accept_of_ne (inRange : position ≤ tokens.length)
    (other : tokens[position]? ≠ some (.symbol s)) :
    accept (entriesOf tokens) s position = ⟨[.look position], .ok (false, position)⟩ := by
  rw [accept, bind_of_ok (peek_eq inRange), entryAt]
  cases entry : tokens[position]? with
  | none => rfl
  | some token =>
    cases token with
    | symbol found =>
      have apart : found ≠ s := by
        rintro rfl
        exact other entry
      simp only [Option.elim, if_neg apart]
      rfl
    | _ => rfl

end Lemmas

end Reading

open Reading

def operatorAt? (level : Level) : Entry → Option Operator
  | .token (.symbol s) => s.operator?.filter fun op => op.level? = some level
  | _ => none

def unaryAt? : Entry → Option UnaryOp
  | .token token => Grammar.unaryOp? token
  | .finish => none

def keyAt? : Entry → Option Key
  | .token token => Grammar.key? token
  | .finish => none

variable (entries : List Entry)

def operands (operand : Reading Value) (level : Level) : Nat → Value → Reading Value
  | 0, _ => halt .tooLong
  | fuel + 1, left => do
    turn
    match operatorAt? level (← peek entries) with
    | some op =>
      advance
      let right ← operand
      operands operand level fuel (← compute (op.apply left right))
    | none => return left

/-- The items of an array up to the closing bracket. -/
def items (item : Reading Value) : Nat → Reading (List Value)
  | 0 => halt .tooLong
  | fuel + 1 => do
    turn
    if ← accept entries .closeBracket then return []
    else if ← accept entries .comma then return .undefined :: (← items item fuel)
    else
      let first ← item
      if ← accept entries .comma then return first :: (← items item fuel)
      else
        expect entries .closeBracket
        return [first]

/-- The fields of an object up to the closing brace, after those already set. -/
def fields (item : Reading Value) : Nat → List (Text × Value) → Reading (List (Text × Value))
  | 0, _ => halt .tooLong
  | fuel + 1, before => do
    turn
    if ← accept entries .closeBrace then return before
    else
      match keyAt? (← next entries) with
      | some key =>
        expect entries .colon
        let value ← item
        let name ← compute key.codes?
        if ← accept entries .comma then fields item fuel (putField name value before)
        else
          expect entries .closeBrace
          return putField name value before
      | none => halt .notConstant

def evaluate (bound : Nat) : Nat → Level → Reading Value
  | 0, level => call level (halt .tooDeep)
  | budget + 1, .conditional => call .conditional do
    let test ← evaluate bound budget .nullish
    if ← accept entries .question then
      let yes ← evaluate bound budget .conditional
      expect entries .colon
      let no ← evaluate bound budget .conditional
      return if test.truthy then yes else no
    else return test
  | budget + 1, .exponent => call .exponent do
    let base ← evaluate bound budget .unary
    if ← accept entries .power then
      let power ← evaluate bound budget .exponent
      compute (BinaryOp.pow.apply base power)
    else return base
  | budget + 1, .unary => call .unary do
    match unaryAt? (← peek entries) with
    | some op =>
      advance
      let operand ← evaluate bound budget .unary
      compute (op.apply operand)
    | none => evaluate bound budget .primary
  | budget + 1, .primary => call .primary do
    match ← next entries with
    | .token (.literal literal) => return literal.value
    | .token (.name text) =>
      match Keyword.ofName? text with
      | some word => return word.value
      | none => halt .notConstant
    | .token (.symbol .openParen) =>
      let inner ← evaluate bound budget .conditional
      expect entries .closeParen
      return inner
    | .token (.symbol .openBracket) =>
      return .arr (← items entries (evaluate bound budget .conditional) bound)
    | .token (.symbol .openBrace) =>
      return .obj (← fields entries (evaluate bound budget .conditional) bound [])
    | _ => halt .notConstant
  | budget + 1, level => call level do
    let left ← evaluate bound budget level.next
    operands entries (evaluate bound budget level.next) level bound left

def run (budget : Nat) : Reading Value := do
  let value ← evaluate entries entries.length budget .conditional
  match ← peek entries with
  | .finish => return value
  | .token _ => halt .notConstant

end Evaluator

end PugPrinter.Constant
