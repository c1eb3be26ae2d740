import Mathlib.Data.List.TakeWhile
import PugPrinter.Proofs.Constant.JsonSource

/-!
The whole numbers in the values of constant expressions. Rounding gives whole numbers below `2 ^ 53` only,
which are doubles. All larger ones come from steps that are exact: numerals without a point or an exponent,
signs, sums, differences and products of whole numbers, and remainders by an infinite number. They need not
be doubles; there is no whole number that is not the value of some source text.
-/

set_option autoImplicit false

namespace PugPrinter.Constant

/-- Whether an integer is a double: a mantissa of 53 bits times a power of two. -/
def IsDouble (i : Int) : Prop :=
  ∃ (m : Int) (e : Nat), m.natAbs < 2 ^ 53 ∧ i = m * (2 ^ e : Nat)

private theorem isDouble_of_lt {i : Int} (small : i.natAbs < 2 ^ 53) : IsDouble i :=
  ⟨i, 0, small, by omega⟩

private theorem not_isDouble_of_odd {i : Int} (odd : i % 2 = 1) (large : 2 ^ 53 ≤ i.natAbs) :
    ¬ IsDouble i := by
  rintro ⟨m, e, small, rfl⟩
  cases e with
  | zero => omega
  | succ e =>
    rw [Nat.pow_succ, Int.natCast_mul, ← Int.mul_assoc] at odd
    omega

namespace Number

section Rounded

variable {a b : Number} {i : Int}

private theorem lt_of_normal {f : Float} (rounded : normal f = .int i) : i.natAbs < 2 ^ 53 := by
  rw [normal] at rounded
  split at rounded
  · split at rounded
    · next small =>
      cases rounded
      exact small
    · cases rounded
  · cases rounded

private theorem lt_of_onFloats {op : Float → Float → Float}
    (result : onFloats op a b = some (.int i)) :
    i.natAbs < 2 ^ 53 := by
  simp only [onFloats, Option.bind_eq_bind, Option.bind_eq_some_iff] at result
  obtain ⟨x, -, y, -, rounded⟩ := result
  exact lt_of_normal (Option.some.inj rounded)

private theorem lt_or_exact (op : Number → Number → Option Number) {exact : Int → Int → Int}
    {rounded : Float → Float → Float} (ints : ∀ j k, op (.int j) (.int k) = some (.int (exact j k)))
    (left : ∀ f b, op (.float f) b = onFloats rounded (.float f) b)
    (right : ∀ j g, op (.int j) (.float g) = onFloats rounded (.int j) (.float g))
    (result : op a b = some (.int i)) :
    i.natAbs < 2 ^ 53 ∨ ∃ j k, a = .int j ∧ b = .int k ∧ i = exact j k := by
  -- An operation that is exact on whole numbers and else works on doubles: its result is small, or
  -- that of two whole numbers.
  match a, b with
  | .float f, b => exact .inl (lt_of_onFloats (left f b ▸ result))
  | .int j, .float g => exact .inl (lt_of_onFloats (right j g ▸ result))
  | .int j, .int k =>
    rw [ints] at result
    cases result
    exact .inr ⟨j, k, rfl, rfl, rfl⟩

private theorem lt_or_of_add (result : add a b = some (.int i)) :
    i.natAbs < 2 ^ 53 ∨ ∃ j k, a = .int j ∧ b = .int k ∧ i = j + k :=
  lt_or_exact add (fun _ _ => rfl) (fun _ _ => rfl) (fun _ _ => rfl) result

private theorem lt_or_of_sub (result : sub a b = some (.int i)) :
    i.natAbs < 2 ^ 53 ∨ ∃ j k, a = .int j ∧ b = .int k ∧ i = j - k :=
  lt_or_exact sub (fun _ _ => rfl) (fun _ _ => rfl) (fun _ _ => rfl) result

private theorem lt_or_of_mul (result : mul a b = some (.int i)) :
    i.natAbs < 2 ^ 53 ∨ ∃ j k, a = .int j ∧ b = .int k ∧ i = j * k :=
  lt_or_exact mul (fun _ _ => rfl) (fun _ _ => rfl) (fun _ _ => rfl) result

private theorem lt_of_div (result : div a b = some (.int i)) : i.natAbs < 2 ^ 53 := by
  unfold div at result
  split at result
  · split at result
    · cases result
    · obtain ⟨x, -, infinite⟩ := Option.bind_eq_some_iff.mp result
      cases infinite
  · split at result
    · rw [quotient?] at result
      split at result
      · cases result
      · exact lt_of_normal (Option.some.inj result)
    · exact lt_of_onFloats result

private theorem lt_of_pow (result : pow a b = some (.int i)) : i.natAbs < 2 ^ 53 := by
  simp only [pow, Option.bind_eq_bind, Option.bind_eq_some_iff] at result
  obtain ⟨x, -, y, -, result⟩ := result
  split at result
  · cases result
  · exact lt_of_normal (Option.some.inj result)

private theorem finite_of_toFloat? {f : Float} (isFloat : (Number.int i).toFloat? = some f) :
    Double.isInfinite f = false := by
  simp only [toFloat?] at isFloat
  split at isFloat
  · cases isFloat
  · next finite => exact Option.some.inj isFloat ▸ Bool.eq_false_iff.mpr finite

private theorem lt_or_of_rem (result : rem a b = some (.int i)) :
    i.natAbs < 2 ^ 53 ∨ a = .int i ∧ ∃ f, b = .float f ∧ Double.isInfinite f = true := by
  rw [rem] at result
  split at result
  · cases result
  · simp only [Option.bind_eq_bind, Option.bind_eq_some_iff] at result
    obtain ⟨x, -, result⟩ := result
    split at result
    · cases result
    · obtain ⟨y, isDivisor, result⟩ := Option.bind_eq_some_iff.mp result
      split at result
      · next infinite =>
        refine .inr ⟨Option.some.inj result, ?_⟩
        cases b with
        | float f => exact ⟨f, rfl, Option.some.inj isDivisor ▸ infinite⟩
        | int j => exact absurd infinite (Bool.eq_false_iff.mp (finite_of_toFloat? isDivisor))
      · split at result
        · exact .inl (lt_of_normal (Option.some.inj result))
        · cases result

end Rounded

end Number

/-- A value has an integer in it: it is the integer, or an array or an object with such a value. -/
inductive Value.Holds (i : Int) : Value → Prop where
  | number : Holds i (.num (.int i))
  | item {item : Value} {items : List Value} (member : item ∈ items) (inner : Holds i item) :
      Holds i (.arr items)
  | field {field : Text × Value} {fields : List (Text × Value)} (member : field ∈ fields)
      (inner : Holds i field.2) : Holds i (.obj fields)

private theorem Value.eq_int_of_holds {n : Number} {i : Int} (holds : (Value.num n).Holds i) :
    n = .int i := by
  cases holds
  rfl

/-- Signs give the whole number that their operand is taken for, or its negation, as it is. -/
inductive UnaryOp.Exact : UnaryOp → Value → Int → Prop where
  | pos {v : Value} {i : Int} (taken : v.toNumber? = some (.int i)) : Exact .pos v i
  | neg {v : Value} {i : Int} (taken : v.toNumber? = some (.int i)) : Exact .neg v (-i)

/-- Sums, differences and products of whole numbers are not rounded, and neither is what is left of a
whole number by an infinite divisor. -/
inductive BinaryOp.Exact : BinaryOp → Value → Value → Int → Prop where
  | add {a b : Value} {j k : Int} (first : a.toNumber? = some (.int j))
      (second : b.toNumber? = some (.int k)) : Exact .add a b (j + k)
  | sub {a b : Value} {j k : Int} (first : a.toNumber? = some (.int j))
      (second : b.toNumber? = some (.int k)) : Exact .sub a b (j - k)
  | mul {a b : Value} {j k : Int} (first : a.toNumber? = some (.int j))
      (second : b.toNumber? = some (.int k)) : Exact .mul a b (j * k)
  | rem {a b : Value} {i : Int} {f : Float} (first : a.toNumber? = some (.int i))
      (second : b.toNumber? = some (.float f)) (infinite : Double.isInfinite f = true) :
      Exact .rem a b i

section Operators

variable {a b result : Value} {i : Int}

private theorem UnaryOp.lt_or_exact {op : UnaryOp} (applied : op.apply a = some result)
    (holds : result.Holds i) :
    result = .num (.int i) ∧ (i.natAbs < 2 ^ 53 ∨ op.Exact a i) := by
  cases op with
  | not | typeOf =>
    cases applied
    cases holds
  | pos =>
    obtain ⟨n, taken, rfl⟩ := Option.map_eq_some_iff.mp applied
    cases Value.eq_int_of_holds holds
    exact ⟨rfl, .inr (.pos taken)⟩
  | neg =>
    obtain ⟨n, taken, rfl⟩ := Option.map_eq_some_iff.mp applied
    have negated := Value.eq_int_of_holds holds
    refine ⟨congrArg Value.num negated, ?_⟩
    cases n with
    | int j =>
      cases negated
      exact .inr (.neg taken)
    | float f => exact .inl (Number.lt_of_normal negated)

private theorem BinaryOp.exists_of_arithmetic {op : Number → Number → Option Number}
    (applied : arithmetic op a b = some result) (holds : result.Holds i) :
    result = .num (.int i) ∧ ∃ m n, a.toNumber? = some m ∧ b.toNumber? = some n ∧
      op m n = some (.int i) := by
  simp only [arithmetic, Option.bind_eq_bind, Option.bind_eq_some_iff] at applied
  obtain ⟨m, first, n, second, number, isNumber, isResult⟩ := applied
  cases isResult
  cases Value.eq_int_of_holds holds
  exact ⟨rfl, m, n, first, second, isNumber⟩

private theorem Value.eq_or_str_of_primitive? {p : Value} (converted : a.primitive? = some p) :
    p = a ∨ ∃ t, p = .str t := by
  rw [primitive?] at converted
  split at converted
  · obtain ⟨t, -, rfl⟩ := Option.map_eq_some_iff.mp converted
    exact .inr ⟨t, rfl⟩
  · exact .inl (Option.some.inj converted).symm

private theorem Value.exists_of_add? (applied : add? a b = some result) (holds : result.Holds i) :
    result = .num (.int i) ∧ ∃ m n, a.toNumber? = some m ∧ b.toNumber? = some n ∧
      Number.add m n = some (.int i) := by
  obtain ⟨p, first, more⟩ := Option.bind_eq_some_iff.mp applied
  obtain ⟨q, second, sum⟩ := Option.bind_eq_some_iff.mp more
  have isText {s t : Option Text} (joined : (do return .str ((← s) ++ (← t))) = some result) :
      False := by
    simp only [Option.bind_eq_bind, Option.bind_eq_some_iff] at joined
    obtain ⟨_, -, _, -, isResult⟩ := joined
    cases isResult
    cases holds
  split at sum
  · exact (isText sum).elim
  · exact (isText sum).elim
  · next notLeft notRight =>
    have isLeft : p = a :=
      (eq_or_str_of_primitive? first).resolve_right fun ⟨t, isStr⟩ => notLeft t isStr
    have isRight : q = b :=
      (eq_or_str_of_primitive? second).resolve_right fun ⟨t, isStr⟩ => notRight t isStr
    subst isLeft isRight
    exact BinaryOp.exists_of_arithmetic sum holds

private theorem BinaryOp.lt_or_exact {op : BinaryOp} (applied : op.apply a b = some result)
    (holds : result.Holds i) :
    result = .num (.int i) ∧ (i.natAbs < 2 ^ 53 ∨ op.Exact a b i) := by
  cases op with
  | strictEq | strictNe =>
    cases applied
    cases holds
  | looseEq | looseNe =>
    obtain ⟨_, -, rfl⟩ := Option.map_eq_some_iff.mp applied
    cases holds
  | less | greater | atMost | atLeast =>
    obtain ⟨_, -, isResult⟩ := Option.bind_eq_some_iff.mp applied
    cases isResult
    cases holds
  | add =>
    obtain ⟨rfl, m, n, first, second, result⟩ := Value.exists_of_add? applied holds
    refine ⟨rfl, ?_⟩
    rcases Number.lt_or_of_add result with small | ⟨j, k, rfl, rfl, rfl⟩
    · exact .inl small
    · exact .inr (.add first second)
  | sub =>
    obtain ⟨rfl, m, n, first, second, result⟩ := exists_of_arithmetic applied holds
    refine ⟨rfl, ?_⟩
    rcases Number.lt_or_of_sub result with small | ⟨j, k, rfl, rfl, rfl⟩
    · exact .inl small
    · exact .inr (.sub first second)
  | mul =>
    obtain ⟨rfl, m, n, first, second, result⟩ := exists_of_arithmetic applied holds
    refine ⟨rfl, ?_⟩
    rcases Number.lt_or_of_mul result with small | ⟨j, k, rfl, rfl, rfl⟩
    · exact .inl small
    · exact .inr (.mul first second)
  | div =>
    -- Quotients and powers are rounded, and what is rounded is a whole number only below the bound.
    obtain ⟨rfl, m, n, -, -, result⟩ := exists_of_arithmetic applied holds
    exact ⟨rfl, .inl (Number.lt_of_div result)⟩
  | rem =>
    obtain ⟨rfl, m, n, first, second, result⟩ := exists_of_arithmetic applied holds
    refine ⟨rfl, ?_⟩
    rcases Number.lt_or_of_rem result with small | ⟨rfl, f, rfl, infinite⟩
    · exact .inl small
    · exact .inr (.rem first second infinite)
  | pow =>
    obtain ⟨rfl, m, n, -, -, result⟩ := exists_of_arithmetic applied holds
    exact ⟨rfl, .inl (Number.lt_of_pow result)⟩

end Operators

section Fields

variable {name : Text} {value : Value} {entry : Text × Value}

private theorem mem_putField_self : ∀ before : List (Text × Value),
    (name, value) ∈ putField name value before
  | [] => List.mem_singleton_self _
  | field :: rest => by
    rw [putField]
    split
    · exact List.mem_cons_self
    · exact List.mem_cons_of_mem field (mem_putField_self rest)

private theorem mem_putField_of_mem (other : entry.1 ≠ name) :
    ∀ {before : List (Text × Value)}, entry ∈ before → entry ∈ putField name value before
  | field :: rest, old => by
    rw [putField]
    rcases List.mem_cons.mp old with rfl | later
    · rw [if_neg fun same => other (eq_of_beq same)]
      exact List.mem_cons_self
    · split
      · exact List.mem_cons_of_mem _ later
      · exact List.mem_cons_of_mem field (mem_putField_of_mem other later)

private theorem mem_putField : ∀ {before : List (Text × Value)}, (before.map Prod.fst).Nodup →
    entry ∈ putField name value before → entry = (name, value) ∨ entry ∈ before ∧ entry.1 ≠ name
  | [], _, set => .inl (List.mem_singleton.mp set)
  | field :: rest, distinct, set => by
    obtain ⟨new, distinct⟩ := List.nodup_cons.mp distinct
    rw [putField] at set
    split at set
    · next same =>
      rcases List.mem_cons.mp set with rfl | old
      · exact .inl rfl
      · refine .inr ⟨List.mem_cons_of_mem field old, ?_⟩
        rintro rfl
        exact new (eq_of_beq same ▸ List.mem_map_of_mem old)
    · next other =>
      rcases List.mem_cons.mp set with rfl | later
      · exact .inr ⟨List.mem_cons_self, fun same => other (beq_iff_eq.mpr same)⟩
      · exact (mem_putField distinct later).imp_right (And.imp_left (List.mem_cons_of_mem field))

private theorem nodup_putField : ∀ {before : List (Text × Value)}, (before.map Prod.fst).Nodup →
    ((putField name value before).map Prod.fst).Nodup
  | [], _ => List.nodup_cons.mpr ⟨nofun, List.nodup_nil⟩
  | field :: rest, distinct => by
    obtain ⟨new, ofRest⟩ := List.nodup_cons.mp distinct
    rw [putField]
    split
    · next same =>
      rw [← eq_of_beq same]
      exact distinct
    · next other =>
      refine List.nodup_cons.mpr ⟨fun member => ?_, nodup_putField ofRest⟩
      obtain ⟨entry, set, sameName⟩ := List.mem_map.mp member
      rcases mem_putField ofRest set with rfl | ⟨old, -⟩
      · exact other (beq_iff_eq.mpr sameName.symm)
      · exact new (sameName ▸ List.mem_map_of_mem old)

end Fields

def LogicalOp.choosesLeft : LogicalOp → Value → Bool
  | nullish, a => !a.isNullish
  | either, a => a.truthy
  | both, a => !a.truthy

private theorem LogicalOp.choose_eq (op : LogicalOp) (a b : Value) :
    op.choose a b = if op.choosesLeft a then a else b := by
  cases op with
  | nullish => cases chosen : a.isNullish <;> simp [choose, choosesLeft, chosen]
  | either => rfl
  | both => cases chosen : a.truthy <;> simp [choose, choosesLeft, chosen]

namespace Expr

inductive LastNamed (field : Key × Expr) : List (Key × Expr) → Prop where
  | head {rest : List (Key × Expr)} (last : ∀ later ∈ rest, later.1.codes? ≠ field.1.codes?) :
      LastNamed field (field :: rest)
  | tail {other : Key × Expr} {rest : List (Key × Expr)} (inner : LastNamed field rest) :
      LastNamed field (other :: rest)

/-- The parts of an expression whose values stand in its own: the expression itself, what is chosen by an
operator or a condition, the items of an array, and the fields of an object unless a later one has their
name. -/
inductive Gives (x : Expr) : Expr → Prop where
  | self : Gives x x
  | left {op : LogicalOp} {left right : Expr} {a : Value} (value : left.eval = some a)
      (chosen : op.choosesLeft a = true) (inner : Gives x left) : Gives x (.logical op left right)
  | right {op : LogicalOp} {left right : Expr} {a : Value} (value : left.eval = some a)
      (chosen : op.choosesLeft a = false) (inner : Gives x right) : Gives x (.logical op left right)
  | yes {test yes no : Expr} {t : Value} (value : test.eval = some t) (chosen : t.truthy = true)
      (inner : Gives x yes) : Gives x (.conditional test yes no)
  | no {test yes no : Expr} {t : Value} (value : test.eval = some t) (chosen : t.truthy = false)
      (inner : Gives x no) : Gives x (.conditional test yes no)
  | item {item : Expr} {items : List Expr} (member : item ∈ items) (inner : Gives x item) :
      Gives x (.array items)
  | field {field : Key × Expr} {fields : List (Key × Expr)} (last : LastNamed field fields)
      (inner : Gives x field.2) : Gives x (.object fields)

/-- The expressions that have an integer as their value without rounding. -/
inductive Exact : Expr → Int → Prop where
  | numeral (i : Int) : Exact (.literal (.num (.int i))) i
  | unary {op : UnaryOp} {operand : Expr} {v : Value} {i : Int} (value : operand.eval = some v)
      (exact : op.Exact v i) : Exact (.unary op operand) i
  | binary {op : BinaryOp} {left right : Expr} {a b : Value} {i : Int} (first : left.eval = some a)
      (second : right.eval = some b) (exact : op.Exact a b i) : Exact (.binary op left right) i

def Explains (e : Expr) (i : Int) : Prop :=
  i.natAbs < 2 ^ 53 ∨ ∃ x : Expr, x.Gives e ∧ x.Exact i ∧ x.eval = some (.num (.int i))

section Explains

variable {e inner : Expr} {i : Int}

private theorem Explains.of_part (explains : inner.Explains i)
    (step : ∀ x : Expr, x.Gives inner → x.Gives e) :
    e.Explains i := by
  rcases explains with small | ⟨x, gives, exact⟩
  · exact .inl small
  · exact .inr ⟨x, step x gives, exact⟩

private theorem explains_of_exact (value : e.eval = some (.num (.int i)))
    (step : i.natAbs < 2 ^ 53 ∨ e.Exact i) : e.Explains i := by
  rcases step with small | exact
  · exact .inl small
  · exact .inr ⟨e, .self, exact, value⟩

end Explains

mutual

/-- Every integer in the value of an expression is small, or a part gives it without rounding. -/
theorem explains_of_eval : ∀ {e : Expr} {v : Value} {i : Int}, e.eval = some v → v.Holds i →
    e.Explains i
  | .literal value, v, i, evaluated, holds => by
    cases evaluated
    match value, holds with
    | .num _, .number => exact explains_of_exact rfl (.inr (.numeral i))
  | .keyword word, v, i, evaluated, holds => by
    cases evaluated
    cases word <;> cases holds
  | .unary op operand, v, i, evaluated, holds => by
    obtain ⟨w, ofOperand, applied⟩ := Option.bind_eq_some_iff.mp evaluated
    obtain ⟨rfl, step⟩ := UnaryOp.lt_or_exact applied holds
    exact explains_of_exact evaluated (step.imp_right (.unary ofOperand))
  | .binary op left right, v, i, evaluated, holds => by
    obtain ⟨a, ofLeft, more⟩ := Option.bind_eq_some_iff.mp evaluated
    obtain ⟨b, ofRight, applied⟩ := Option.bind_eq_some_iff.mp more
    obtain ⟨rfl, step⟩ := BinaryOp.lt_or_exact applied holds
    exact explains_of_exact evaluated (step.imp_right (.binary ofLeft ofRight))
  | .logical op left right, v, i, evaluated, holds => by
    obtain ⟨a, ofLeft, more⟩ := Option.bind_eq_some_iff.mp evaluated
    obtain ⟨b, ofRight, chosen⟩ := Option.bind_eq_some_iff.mp more
    have isChoice := Option.some.inj chosen
    -- A choice hands on one of the values as it is, so what explains that part explains the whole.
    rw [LogicalOp.choose_eq] at isChoice
    split at isChoice
    · next isLeft =>
      subst isChoice
      exact (explains_of_eval ofLeft holds).of_part fun _ => .left ofLeft isLeft
    · next isRight =>
      subst isChoice
      exact (explains_of_eval ofRight holds).of_part fun _ =>
        .right ofLeft (Bool.eq_false_iff.mpr isRight)
  | .conditional test yes no, v, i, evaluated, holds => by
    obtain ⟨t, ofTest, more⟩ := Option.bind_eq_some_iff.mp evaluated
    obtain ⟨a, ofYes, more⟩ := Option.bind_eq_some_iff.mp more
    obtain ⟨b, ofNo, chosen⟩ := Option.bind_eq_some_iff.mp more
    have isChoice := Option.some.inj chosen
    split at isChoice
    · next isYes =>
      subst isChoice
      exact (explains_of_eval ofYes holds).of_part fun _ => .yes ofTest isYes
    · next isNo =>
      subst isChoice
      exact (explains_of_eval ofNo holds).of_part fun _ =>
        .no ofTest (Bool.eq_false_iff.mpr isNo)
  | .hole, v, i, evaluated, holds => by
    cases evaluated
    cases holds
  | .array items, v, i, evaluated, holds => by
    obtain ⟨values, ofItems, rfl⟩ := Option.map_eq_some_iff.mp evaluated
    cases holds with
    | item member inner =>
      obtain ⟨item, isItem, explains⟩ := explains_of_evalItems ofItems member inner
      exact explains.of_part fun _ => .item isItem
  | .object fields, v, i, evaluated, holds => by
    obtain ⟨entries, ofFields, rfl⟩ := Option.map_eq_some_iff.mp evaluated
    cases holds with
    | field member inner =>
      rcases explains_of_evalFields ofFields List.nodup_nil member inner with
        ⟨before, -⟩ | ⟨field, last, explains⟩
      · cases before
      · exact explains.of_part fun _ => .field last

private theorem explains_of_evalItems : ∀ {items : List Expr} {values : List Value} {v : Value}
    {i : Int}, evalItems items = some values → v ∈ values → v.Holds i → ∃ e ∈ items, e.Explains i
  | [], values, v, i, evaluated, member, holds => by
    cases evaluated
    cases member
  | item :: rest, values, v, i, evaluated, member, holds => by
    obtain ⟨head, ofItem, more⟩ := Option.bind_eq_some_iff.mp evaluated
    obtain ⟨tail, ofRest, isValues⟩ := Option.bind_eq_some_iff.mp more
    rw [← Option.some.inj isValues] at member
    rcases List.mem_cons.mp member with rfl | inRest
    · exact ⟨item, List.mem_cons_self, explains_of_eval ofItem holds⟩
    · obtain ⟨e, isItem, explains⟩ := explains_of_evalItems ofRest inRest holds
      exact ⟨e, List.mem_cons_of_mem item isItem, explains⟩

private theorem explains_of_evalFields : ∀ {fields : List (Key × Expr)}
    {before after : List (Text × Value)} {entry : Text × Value}
    {i : Int}, evalFields before fields = some after →
    (before.map Prod.fst).Nodup → entry ∈ after → entry.2.Holds i →
    (entry ∈ before ∧ ∀ field ∈ fields, field.1.codes? ≠ some entry.1) ∨
      ∃ field, LastNamed field fields ∧ field.2.Explains i
  | [], before, after, entry, i, evaluated, distinct, member, holds => by
    cases evaluated
    exact .inl ⟨member, nofun⟩
  | (key, item) :: rest, before, after, entry, i, evaluated, distinct, member, holds => by
    obtain ⟨v, ofItem, more⟩ := Option.bind_eq_some_iff.mp evaluated
    obtain ⟨name, isName, ofRest⟩ := Option.bind_eq_some_iff.mp more
    rcases explains_of_evalFields ofRest (nodup_putField distinct) member holds with
      ⟨set, lone⟩ | ⟨field, last, explains⟩
    · rcases mem_putField distinct set with rfl | ⟨old, other⟩
      · refine .inr ⟨(key, item), .head fun later inRest same => ?_, explains_of_eval ofItem holds⟩
        exact lone later inRest (same.trans isName)
      · refine .inl ⟨old, List.forall_mem_cons.mpr ⟨fun same => ?_, lone⟩⟩
        exact other (Option.some.inj (same.symm.trans isName))
    · exact .inr ⟨field, .tail last, explains⟩

end

section Giving

variable {before after : List (Text × Value)}

private theorem mem_evalFields_of_mem {entry : Text × Value} : ∀ {fields : List (Key × Expr)}
    {before after : List (Text × Value)}, evalFields before fields = some after → entry ∈ before →
    (∀ field ∈ fields, field.1.codes? ≠ some entry.1) → entry ∈ after
  | [], before, after, evaluated, old, _ => by
    cases evaluated
    exact old
  | (key, item) :: rest, before, after, evaluated, old, lone => by
    obtain ⟨v, -, more⟩ := Option.bind_eq_some_iff.mp evaluated
    obtain ⟨name, isName, ofRest⟩ := Option.bind_eq_some_iff.mp more
    obtain ⟨differs, later⟩ := List.forall_mem_cons.mp lone
    have other : entry.1 ≠ name := by
      rintro rfl
      exact differs isName
    exact mem_evalFields_of_mem ofRest (mem_putField_of_mem other old) later

private theorem LastNamed.exists_entry {field : Key × Expr} {fields : List (Key × Expr)}
    (last : LastNamed field fields) (evaluated : evalFields before fields = some after) :
    ∃ name v, field.2.eval = some v ∧ (name, v) ∈ after := by
  induction last generalizing before with
  | head lone =>
    obtain ⟨v, ofItem, more⟩ := Option.bind_eq_some_iff.mp evaluated
    obtain ⟨name, isName, ofRest⟩ := Option.bind_eq_some_iff.mp more
    refine ⟨name, v, ofItem, mem_evalFields_of_mem ofRest (mem_putField_self before) ?_⟩
    exact fun later inRest same => lone later inRest (same.trans isName.symm)
  | tail _ ih =>
    obtain ⟨v, -, more⟩ := Option.bind_eq_some_iff.mp evaluated
    obtain ⟨name, -, ofRest⟩ := Option.bind_eq_some_iff.mp more
    exact ih ofRest

private theorem exists_mem_evalItems {item : Expr} {items : List Expr} {values : List Value}
    (member : item ∈ items) (evaluated : evalItems items = some values) :
    ∃ v ∈ values, item.eval = some v := by
  induction member generalizing values with
  | head rest =>
    obtain ⟨v, ofItem, more⟩ := Option.bind_eq_some_iff.mp evaluated
    obtain ⟨tail, -, isValues⟩ := Option.bind_eq_some_iff.mp more
    cases isValues
    exact ⟨v, List.mem_cons_self, ofItem⟩
  | tail first _ ih =>
    obtain ⟨w, -, more⟩ := Option.bind_eq_some_iff.mp evaluated
    obtain ⟨tail, ofRest, isValues⟩ := Option.bind_eq_some_iff.mp more
    cases isValues
    obtain ⟨v, inRest, ofItem⟩ := ih ofRest
    exact ⟨v, List.mem_cons_of_mem w inRest, ofItem⟩

private theorem Gives.holds {x e : Expr} {v w : Value} {i : Int} (gives : x.Gives e)
    (given : x.eval = some w) (inner : w.Holds i) (evaluated : e.eval = some v) : v.Holds i := by
  induction gives generalizing v with
  | self =>
    cases given.symm.trans evaluated
    exact inner
  | left value chosen _ ih =>
    obtain ⟨a, ofLeft, more⟩ := Option.bind_eq_some_iff.mp evaluated
    obtain ⟨b, -, isChoice⟩ := Option.bind_eq_some_iff.mp more
    cases value.symm.trans ofLeft
    cases isChoice
    rw [LogicalOp.choose_eq, if_pos chosen]
    exact ih ofLeft
  | right value chosen _ ih =>
    obtain ⟨a, ofLeft, more⟩ := Option.bind_eq_some_iff.mp evaluated
    obtain ⟨b, ofRight, isChoice⟩ := Option.bind_eq_some_iff.mp more
    cases value.symm.trans ofLeft
    cases isChoice
    rw [LogicalOp.choose_eq, if_neg (Bool.eq_false_iff.mp chosen)]
    exact ih ofRight
  | yes value chosen _ ih =>
    obtain ⟨t, ofTest, more⟩ := Option.bind_eq_some_iff.mp evaluated
    obtain ⟨a, ofYes, more⟩ := Option.bind_eq_some_iff.mp more
    obtain ⟨b, -, isChoice⟩ := Option.bind_eq_some_iff.mp more
    cases value.symm.trans ofTest
    cases isChoice
    rw [if_pos chosen]
    exact ih ofYes
  | no value chosen _ ih =>
    obtain ⟨t, ofTest, more⟩ := Option.bind_eq_some_iff.mp evaluated
    obtain ⟨a, -, more⟩ := Option.bind_eq_some_iff.mp more
    obtain ⟨b, ofNo, isChoice⟩ := Option.bind_eq_some_iff.mp more
    cases value.symm.trans ofTest
    cases isChoice
    rw [if_neg (Bool.eq_false_iff.mp chosen)]
    exact ih ofNo
  | item member _ ih =>
    obtain ⟨values, ofItems, rfl⟩ := Option.map_eq_some_iff.mp evaluated
    obtain ⟨u, isValue, ofItem⟩ := exists_mem_evalItems member ofItems
    exact .item isValue (ih ofItem)
  | field last _ ih =>
    obtain ⟨entries, ofFields, rfl⟩ := Option.map_eq_some_iff.mp evaluated
    obtain ⟨name, u, ofField, isEntry⟩ := last.exists_entry ofFields
    exact .field isEntry (ih ofField)

/-- The integers that are no doubles in the value of an expression are those that a part gives without
rounding. -/
private theorem holds_iff_gives {e : Expr} {v : Value} {i : Int} (evaluated : e.eval = some v)
    (notDouble : ¬ IsDouble i) :
    v.Holds i ↔ ∃ x : Expr, x.Gives e ∧ x.Exact i ∧ x.eval = some (.num (.int i)) := by
  constructor
  · intro holds
    exact (explains_of_eval evaluated holds).resolve_left fun small =>
      notDouble (isDouble_of_lt small)
  · rintro ⟨x, gives, -, value⟩
    exact gives.holds value .number evaluated

end Giving

end Expr

section Hexadecimal

private theorem trim_eq_self {t : Text} (solid : ∀ c ∈ t, isSpace c = false) : trim t = t := by
  have kept : ∀ {u : Text}, (∀ c ∈ u, isSpace c = false) → u.dropWhile isSpace = u
    | [], _ => rfl
    | c :: u, solid => List.dropWhile_cons_of_neg (by simp [solid c List.mem_cons_self])
  rw [trim, kept solid, kept fun c member => solid c (List.mem_reverse.mp member),
    List.reverse_reverse]

private theorem isSpace_of_isHexDigit {c : CodePoint} (digit : Text.isHexDigit c = true) :
    isSpace c = false := by
  have range : 0x20 < c.code ∧ c.code < 0x85 := by
    cases c with
    | surrogate _ => cases digit
    | scalar c =>
      simp only [Text.isHexDigit, CodePoint.holds, Char.isDigit, Bool.or_eq_true, Bool.and_eq_true,
        decide_eq_true_eq] at digit
      have ranges : ((48 ≤ c.toNat ∧ c.toNat ≤ 57) ∨ (97 ≤ c.toNat ∧ c.toNat ≤ 102)) ∨
          (65 ≤ c.toNat ∧ c.toNat ≤ 70) := digit
      change 0x20 < c.toNat ∧ c.toNat < 0x85
      omega
  simp only [isSpace]
  generalize c.code = code at range
  simp
  omega

variable {row : Text} (digits : ∀ c ∈ row, Text.isHexDigit c = true) (filled : row ≠ [])

include digits filled

private theorem Numeral.based?_hex :
    based? (.scalar '0' :: .scalar 'x' :: row) = some (.int (Text.natOfDigits 16 row : Nat), []) := by
  have taken : row.takeWhile Text.isHexDigit = row := List.takeWhile_eq_self_iff.mpr digits
  have left : row.dropWhile Text.isHexDigit = [] := List.dropWhile_eq_nil_iff.mpr digits
  change (if (row.takeWhile Text.isHexDigit).isEmpty then none
    else some (Number.int (Text.natOfDigits 16 (row.takeWhile Text.isHexDigit) : Nat),
      row.dropWhile Text.isHexDigit)) = _
  rw [taken, left, if_neg (by simpa using filled)]

theorem numberOfString_hex :
    numberOfString (.scalar '0' :: .scalar 'x' :: row) = .int (Text.natOfDigits 16 row : Nat) := by
  have solid : ∀ c ∈ CodePoint.scalar '0' :: CodePoint.scalar 'x' :: row, isSpace c = false := by
    simp only [List.forall_mem_cons]
    exact ⟨rfl, rfl, fun c member => isSpace_of_isHexDigit (digits c member)⟩
  have numeral : (CodePoint.scalar '0' :: .scalar 'x' :: row).all Numeral.isNumeral = true := by
    simp only [List.all_eq_true, List.forall_mem_cons]
    refine ⟨rfl, rfl, fun c member => ?_⟩
    simp only [Numeral.isNumeral, digits c member, Bool.true_or]
  have read : Numeral.read? (.scalar '0' :: .scalar 'x' :: row) =
      some (.int (Text.natOfDigits 16 row : Nat)) := by
    have marked : (Numeral.base? (.scalar 'x')).isSome = true := rfl
    simp only [Numeral.read?, marked, if_true, Numeral.based?_hex digits filled]
  rw [numberOfString, trim_eq_self solid]
  simp only [List.isEmpty_cons, Bool.false_eq_true, if_false, numeral, if_true, read,
    Option.getD_some]

end Hexadecimal

def hexNumeral (n : Nat) : Text :=
  '0' :: 'x' :: Text.ofChars (Nat.toDigits 16 n)

private theorem Token.reads_hexNumeral (n : Nat) : Reads (hexNumeral n)
    [.literal (.num (.int n))] := by
  have digits : ∀ c ∈ Text.ofChars (Nat.toDigits 16 n), Text.isHexDigit c = true :=
    Text.isHexDigit_of_mem_toDigits (by decide) (by decide) n
  have filled : Text.ofChars (Nat.toDigits 16 n) ≠ [] := by
    rw [Text.ofChars, Ne, List.map_eq_nil_iff]
    exact Nat.toDigits_ne_nil
  have based : Numeral.based? (hexNumeral n) = some (.int n, []) := by
    rw [hexNumeral]
    exact (Numeral.based?_hex digits filled).trans
      (by rw [Text.natOfDigits_toDigits (by decide) (by decide) n])
  have first : next? (hexNumeral n) = some (.literal (.num (.int n)), []) := by
    unfold next? number?
    rw [based]
    rfl
  exact reads_nil.next rfl first (Nat.zero_le _)

/-- A source of an integer: its hexadecimal numeral, after a sign when it is negative. -/
def hexSource : Int → Text
  | .ofNat n => hexNumeral n
  | .negSucc n => '-' :: hexNumeral (n + 1)

theorem fold?_hexSource (i : Int) : fold? (hexSource i) = some (.num (.int i)) := by
  cases i with
  | ofNat n =>
    refine fold?_of_phrase (Phrase.loosened (.step (by decide) (.literal (.num (.int n)))))
      (Token.reads_hexNumeral n) ?_
    change 11 ≤ Grammar.nestingLimit
    decide
  | negSucc n =>
    have sign : ('-', Symbol.minus) ∈ Token.marks := by decide
    refine fold?_of_phrase
      (Phrase.loosened (.applied .neg (.step (by decide) (.literal (.num (.int (n + 1 : Nat)))))))
      ((Token.reads_hexNumeral (n + 1)).mark sign) ?_
    change 12 ≤ Grammar.nestingLimit
    decide

/-- All integers in the value of a source text are doubles exactly when all are that its parts give without
rounding: as a numeral, a sign, a sum, a difference, a product or a remainder. The others are given in this
way only. It does not matter how deeply parts may be nested. -/
theorem fold?_integers {source : Text} {limit : Nat} {v : Value}
    (folded : fold? source limit = some v) :
    ∃ tokens e, Token.tokenize? source = some tokens ∧ Grammar.parse? tokens limit = some e ∧
      ((∀ i : Int, v.Holds i → IsDouble i) ↔
        ∀ (x : Expr) (i : Int), x.Gives e → x.Exact i → x.eval = some (.num (.int i)) → IsDouble i) ∧
      ∀ i : Int, ¬ IsDouble i →
        (v.Holds i ↔ ∃ x : Expr, x.Gives e ∧ x.Exact i ∧ x.eval = some (.num (.int i))) := by
  obtain ⟨tokens, isTokens, more⟩ := Option.bind_eq_some_iff.mp folded
  obtain ⟨e, parsed, evaluated⟩ := Option.bind_eq_some_iff.mp more
  refine ⟨tokens, e, isTokens, parsed, ⟨fun doubles x i gives _ value => ?_, fun doubles i holds => ?_⟩,
    fun i => Expr.holds_iff_gives evaluated⟩
  · exact doubles i (gives.holds value .number evaluated)
  · by_contra notDouble
    obtain ⟨x, gives, exact, value⟩ := (Expr.holds_iff_gives evaluated notDouble).mp holds
    exact notDouble (doubles x i gives exact value)

theorem fold?_integers_sample :
    ∃ tokens e, Token.tokenize? "[3 * 3002399751580331]" = some tokens ∧
      Grammar.parse? tokens = some e ∧ ∃ x : Expr, x.Gives e ∧ x.Exact 9007199254740993 := by
  have folded : fold? "[3 * 3002399751580331]" = some (.arr [.num (.int 9007199254740993)]) := by rfl
  obtain ⟨tokens, e, isTokens, parsed, -, given⟩ := fold?_integers folded
  obtain ⟨x, gives, exact, -⟩ := (given 9007199254740993
    (not_isDouble_of_odd (by decide) (by decide))).mp (.item (List.mem_singleton_self _) .number)
  exact ⟨tokens, e, isTokens, parsed, x, gives, exact⟩

/-- Not every integer that a source text stands for is a double, though the same number with an exponent
is rounded to one. -/
theorem not_all_folded_doubles :
    (¬ ∀ (source : Text) (v : Value) (i : Int), fold? source = some v → v.Holds i → IsDouble i) ∧
    fold? "9007199254740993" = some (.num (.int 9007199254740993)) ∧
    (fold? "9007199254740993e0").bind Value.string? = some "9007199254740992" := by
  have folded : fold? "9007199254740993" = some (.num (.int 9007199254740993)) := by rfl
  refine ⟨fun all => ?_, folded, by decide +kernel⟩
  exact not_isDouble_of_odd (by decide) (by decide) (all _ _ _ folded .number)

end PugPrinter.Constant
