import PugPrinter.Proofs.Constant.Integers
import PugPrinter.Proofs.Constant.Strings
import PugPrinter.Proofs.Emit.Faults

/-!
When attributes can be rendered. A value that is not constant is written as it is, so only a constant can
stop the rendering, and only one that has no string: a whole number with too many digits, or an array with
such an item. No numeral in decimal digits is so long and no rounding gives such a number, but hexadecimal
numerals and exact arithmetic do, so that every whole number beyond the limit occurs.
-/

set_option autoImplicit false

namespace PugPrinter

namespace Constant

private theorem small_lt_digitLimit : 2 ^ 53 < 10 ^ Number.digitLimit := by
  have wide : 10 ^ 53 ≤ 10 ^ Number.digitLimit := Nat.pow_le_pow_right (by decide) (by decide)
  have narrow : 2 ^ 53 < 10 ^ 53 := by decide
  exact Nat.lt_of_lt_of_le narrow wide

namespace Value

variable {v : Value}

private theorem truthy_of_writesLong (long : v.WritesLong) : v.truthy = true := by
  cases long with
  | item _ _ => rfl
  | @number i long =>
    have notZero : i ≠ 0 := by
      rintro rfl
      exact absurd long (Nat.not_le.mpr (Nat.pow_pos (by decide)))
    simp [truthy, Number.isZero, Number.isNaN, notZero]

private theorem exists_holds_of_writesLong (long : v.WritesLong) :
    ∃ i : Int, v.Holds i ∧ 10 ^ Number.digitLimit ≤ i.natAbs := by
  induction long with
  | @number i long => exact ⟨i, .number, long⟩
  | item member _ ih =>
    obtain ⟨i, holds, long⟩ := ih
    exact ⟨i, .item member holds, long⟩

end Value

end Constant

open Constant

namespace Attribute

/-- Whether the value of an attribute is a constant with a whole number that cannot be written. -/
def HasLongInteger (attr : Attribute) (limit : Nat := Grammar.nestingLimit) : Prop :=
  ∃ v, fold? attr.val limit = some v ∧ v.WritesLong

section Rendering

variable {attr : Attribute} {limit : Nat}

private theorem isReadable_iff : attr.isReadable limit = true ↔ ¬ attr.HasLongInteger limit := by
  rw [isReadable, HasLongInteger]
  cases folded : fold? attr.val limit with
  | none => simp [shorthandText, Except.isOk, Except.toBool]
  | some v =>
    simp only [Option.some.injEq, exists_eq_left', ← Value.string?_eq_none_iff, shorthandText]
    cases written : v.string? with
    | some text => cases v.truthy <;> simp [Except.isOk, Except.toBool]
    | none =>
      have truthy := Value.truthy_of_writesLong (Value.string?_eq_none_iff v |>.mp written)
      simp [truthy, Except.isOk, Except.toBool]

private theorem exists_exact_of_hasLongInteger (long : attr.HasLongInteger limit) :
    ∃ tokens e, Token.tokenize? attr.val = some tokens ∧ Grammar.parse? tokens limit = some e ∧
      ∃ (x : Expr) (i : Int), x.Gives e ∧ x.Exact i ∧ 10 ^ Number.digitLimit ≤ i.natAbs := by
  obtain ⟨v, folded, writesLong⟩ := long
  obtain ⟨tokens, isTokens, more⟩ := Option.bind_eq_some_iff.mp folded
  obtain ⟨e, parsed, evaluated⟩ := Option.bind_eq_some_iff.mp more
  obtain ⟨i, holds, atLeast⟩ := Value.exists_holds_of_writesLong writesLong
  have large : ¬ i.natAbs < 2 ^ 53 :=
    Nat.not_lt.mpr ((Nat.le_of_lt small_lt_digitLimit).trans atLeast)
  obtain ⟨x, gives, exact, -⟩ := (Expr.explains_of_eval evaluated holds).resolve_left large
  exact ⟨tokens, e, isTokens, parsed, x, i, gives, exact, atLeast⟩

private theorem hasLongInteger_hexSource {i : Int} (long : 10 ^ Number.digitLimit ≤ i.natAbs)
    (name : Text) (escaped : Bool) : HasLongInteger ⟨name, hexSource i, escaped⟩ :=
  ⟨_, fold?_hexSource i, .number long⟩

private theorem render_eq_readAll (quote : Text) (limit : Nat) (attrs : List Attribute) :
    render quote (.of (attrs.map .of)) limit =
      readAll limit attrs >>= fun _ => pure (assemble (places quote limit false attrs)) := by
  rw [render, proper_map_of, firstOdd?_map_of, renderAll, placeAll_eq]
  simp only [Run.bind_assoc, Run.pure_bind]

private theorem exists_rendered_iff (quote : Text) (limit : Nat) (attrs : List Attribute) :
    (∃ text, (render quote (.of (attrs.map .of)) limit).result = .ok text) ↔
      ∀ attr ∈ attrs, ¬ attr.HasLongInteger limit := by
  simp only [render_eq_readAll, Run.bind_result_eq_ok_iff, ← isReadable_iff,
    ← readAll_result_eq_ok_iff]
  constructor
  · rintro ⟨_, _, ended, -⟩
    exact ended
  · intro ended
    exact ⟨_, _, ended, rfl⟩

private theorem eq_integerTooLong_of_render (quote : Text) (limit : Nat) (attrs : List Attribute)
    (fault : Fault) (stopped : (render quote (.of (attrs.map .of)) limit).result = .error fault) :
    fault = .integerTooLong none := by
  have only : (render quote (.of (attrs.map .of)) limit).FailsOnly
      (fun fault => fault = .integerTooLong none) := by
    rw [render_eq_readAll]
    refine Run.FailsOnly.bind ?_ fun _ _ => Run.failsOnly_pure _
    exact readAll_failsOnly fun _ _ _ _ _ => rfl
  exact only fault stopped

end Rendering

/-- Attributes are rendered exactly when no value of theirs is a constant with a whole number that has too
many digits, and nothing else stops the rendering, however deeply values may be nested. Such a number is
given by a part of the expression without rounding. -/
theorem render_ends_iff (quote : Text) (limit : Nat) (attrs : List Attribute) :
    ((∃ text, (render quote (.of (attrs.map .of)) limit).result = .ok text) ↔
      ∀ attr ∈ attrs, ¬ attr.HasLongInteger limit) ∧
    (∀ fault, (render quote (.of (attrs.map .of)) limit).result = .error fault →
      fault = .integerTooLong none) ∧
    ∀ attr ∈ attrs, attr.HasLongInteger limit →
      ∃ tokens e, Token.tokenize? attr.val = some tokens ∧ Grammar.parse? tokens limit = some e ∧
        ∃ (x : Expr) (i : Int), x.Gives e ∧ x.Exact i ∧ 10 ^ Number.digitLimit ≤ i.natAbs :=
  ⟨exists_rendered_iff quote limit attrs, eq_integerTooLong_of_render quote limit attrs,
    fun _ _ => exists_exact_of_hasLongInteger⟩

theorem render_ends_iff_samples :
    (∃ text, (render "'" (.of [.of ⟨"class", "'a'", true⟩])).result = .ok text) ∧
    ¬ ∃ text, (render "'" (.of [.of ⟨"class", hexSource (10 ^ Number.digitLimit : Nat), true⟩])).result =
      .ok text := by
  have short : ¬ HasLongInteger ⟨"class", "'a'", true⟩ := by
    rintro ⟨v, folded, long⟩
    have isText : fold? "'a'" = some (.str "a") := by rfl
    rw [isText] at folded
    cases folded
    cases long
  have atLimit (n : Nat) : n ≤ (n : Int).natAbs := Nat.le_of_eq (Int.natAbs_natCast n).symm
  refine ⟨(render_ends_iff "'" _ [_]).1.mpr (List.forall_mem_singleton.mpr short), fun rendered => ?_⟩
  exact List.forall_mem_singleton.mp ((render_ends_iff "'" _ [_]).1.mp rendered)
    (hasLongInteger_hexSource (atLimit _) _ _)

/-- The digits of large doubles, one after the other, taken for the digits of one number. -/
def longSource : Text :=
  "+('0x'+1e308+1e308+1e308+1e308+1e308+1e308+1e308+1e308+1e308+1e308+1e308+1e308)"

private def largeDouble : Number :=
  .normal (Numeral.Mantissa.toFloat ⟨"1", none⟩ false 308)

def appended (n : Number) : Nat → Expr
  | 0 => .literal (.str "0x")
  | count + 1 => .binary .add (appended n count) (.literal (.num n))

private theorem eval_appended {n : Number} {digits : Text} (shown : n.text? = some digits)
    (count : Nat) :
    (appended n count).eval = some (.str ("0x" ++ (List.replicate count digits).flatten)) := by
  induction count with
  | zero => rfl
  | succ count ih =>
    rw [List.replicate_succ', List.flatten_append, List.flatten_singleton, ← List.append_assoc,
      appended, Expr.eval, ih]
    change (n.text?.bind fun digits => some (Value.str (_ ++ digits))) = _
    rw [shown, Option.bind_some]

private def isLongRow : Text → Bool
  | c :: rest => 0 < Text.digitValue c && rest.length == 308 && (c :: rest).all Text.isHexDigit
  | [] => false

private theorem digitLimit_le_natOfDigits {c : CodePoint} {rest : Text}
    (notZero : 0 < Text.digitValue c) (long : rest.length = 308) :
    10 ^ Number.digitLimit ≤ Text.natOfDigits 16 (List.replicate 12 (c :: rest)).flatten := by
  have count : (rest ++ (List.replicate 11 (c :: rest)).flatten).length = 3707 := by
    simp [long]
  calc 10 ^ Number.digitLimit
    _ ≤ 16 ^ 3707 := by decide +kernel
    _ ≤ _ := by
      rw [← count, List.replicate_succ, List.flatten_cons, List.cons_append]
      exact Text.pow_le_natOfDigits 16 notZero _

private theorem hasLongInteger_longSource (name : Text) (escaped : Bool) :
    HasLongInteger ⟨name, longSource, escaped⟩ := by
  have parsed : (Token.tokenize? longSource).bind (Grammar.parse? ·) =
      some (.unary .pos (appended largeDouble 12)) := by rfl
  have shown : largeDouble.text?.any isLongRow = true := by decide +kernel
  obtain ⟨digits, isText, shape⟩ := (Option.any_eq_true _ _).mp shown
  cases digits with
  | nil => cases shape
  | cons c rest =>
    simp only [isLongRow, Bool.and_eq_true, decide_eq_true_eq, beq_iff_eq, List.all_eq_true] at shape
    obtain ⟨⟨notZero, long⟩, isHex⟩ := shape
    have allHex : ∀ d ∈ (List.replicate 12 (c :: rest)).flatten, Text.isHexDigit d = true := by
      intro d member
      obtain ⟨part, isPart, inPart⟩ := List.mem_flatten.mp member
      exact isHex d (List.eq_of_mem_replicate isPart ▸ inPart)
    have filled : (List.replicate 12 (c :: rest)).flatten ≠ [] := List.cons_ne_nil c _
    obtain ⟨tokens, isTokens, isExpr⟩ := Option.bind_eq_some_iff.mp parsed
    have folded : fold? longSource =
        some (.num (.int (Text.natOfDigits 16 (List.replicate 12 (c :: rest)).flatten : Nat))) := by
      rw [fold?, isTokens, Option.bind_eq_bind, Option.bind_some, isExpr, Option.bind_eq_bind,
        Option.bind_some, Expr.eval, eval_appended isText, ← numberOfString_hex allHex filled]
      rfl
    refine ⟨_, folded, .number ?_⟩
    rw [Int.natAbs_natCast]
    exact digitLimit_le_natOfDigits notZero long

theorem not_all_attributes_render :
    (¬ ∀ (quote : Text) (attrs : List Attribute),
      ∃ text, (render quote (.of (attrs.map .of))).result = .ok text) ∧
    (render "'" (.of [.of ⟨"data-n", longSource, true⟩])).result = .error (.integerTooLong none) := by
  have stops : ¬ ∃ text, (render "'" (.of [.of ⟨"data-n", longSource, true⟩])).result = .ok text :=
    fun rendered => (exists_rendered_iff "'" _ [_]).mp rendered _ (List.mem_singleton_self _)
      (hasLongInteger_longSource _ _)
  refine ⟨fun all => stops (all "'" [_]), ?_⟩
  cases ended : (render "'" (.of [.of ⟨"data-n", longSource, true⟩])).result with
  | ok text => exact absurd ⟨text, ended⟩ stops
  | error fault =>
    rw [eq_integerTooLong_of_render "'" _ [_] fault ended]

end Attribute

end PugPrinter
