import PugPrinter.Proofs.Constant.Strings

/-!
Equality of constants. Numbers compare without rounding, and the other way round when they change places;
from this both equalities are symmetric, loose equality holds wherever strict equality does, and null and
undefined are loosely equal to each other and to nothing else. An array or an object is not strictly equal
to another one. Loosely, an array can be equal to an object: both are turned into strings, and the string
of an object is also that of some arrays.
-/

set_option autoImplicit false

namespace PugPrinter

namespace Double

open Float.Model in
private theorem swap_compare (a b : UnpackedFloat) :
    (a.compare b).map Ordering.swap = b.compare a := by
  cases a with
  | notANumber => cases b <;> rfl
  | infinity s =>
    cases s <;> cases b with
    | infinity t => cases t <;> rfl
    | _ => rfl
  | zero s =>
    cases b with
    | infinity t => cases t <;> rfl
    | finite t => cases t <;> rfl
    | _ => rfl
  | finite s m e positive =>
    cases b with
    | infinity t => cases s <;> cases t <;> rfl
    | notANumber => cases s <;> rfl
    | zero t => cases s <;> rfl
    | finite t m' e' positive' =>
      have swapped : ((compare e e').then (compare m m')).swap =
          (compare e' e).then (compare m' m) := by
        rw [Ordering.swap_then, Int.compare_swap, Nat.compare_swap]
      cases s <;> cases t
      case negative.negative => exact congrArg (fun order => some order.swap) swapped
      case positive.positive => exact congrArg some swapped
      all_goals rfl

def order? (a b : Float) : Option Ordering :=
  a.toModel.unpack.compare b.toModel.unpack

private theorem order?_swap (a b : Float) : (order? a b).map Ordering.swap = order? b a :=
  swap_compare _ _

private theorem lt_iff (a b : Float) : a < b ↔ order? a b = some .lt := by
  have decided : a < b ↔ decide (a.toModel < b.toModel) = true := Iff.rfl
  rw [decided, decide_eq_true_iff]
  exact beq_iff_eq

private theorem beq_iff (a b : Float) : (a == b) = true ↔ order? a b = some .eq := by
  have compared : (a == b) = (order? a b == some .eq) := rfl
  rw [compared]
  exact beq_iff_eq

end Double

namespace Constant

namespace Number

private theorem compare?_float (a b : Float) : compare? (.float a)
    (.float b) = Double.order? a b := by
  have swapped := Double.order?_swap a b
  simp only [compare?, Double.lt_iff, Double.beq_iff, ← swapped]
  cases Double.order? a b with
  | none => rfl
  | some order => cases order <;> rfl

private theorem compare?_swap (a b : Number) : (compare? a b).map Ordering.swap = compare? b a := by
  cases a with
  | int i =>
    cases b with
    | int j => exact congrArg some (Int.compare_swap i j)
    | float f => rfl
  | float f =>
    cases b with
    | int j =>
      rw [compare?, compare?, Option.map_map]
      cases compareIntFloat? j f with
      | none => rfl
      | some order => exact congrArg some Ordering.swap_swap
    | float g => rw [compare?_float, compare?_float, Double.order?_swap]

private theorem equal_comm (a b : Number) : a.equal b = b.equal a := by
  rw [equal, equal, ← compare?_swap b a]
  cases compare? b a with
  | none => rfl
  | some order => cases order <;> rfl

end Number

namespace Value

section Laws

variable {a b : Value}

private theorem strictEquals_comm (a b : Value) : strictEquals a b = strictEquals b a := by
  cases a <;> cases b <;> first
    | rfl
    | exact Number.equal_comm _ _
    | exact Bool.beq_comm

private theorem sameType_comm (a b : Value) : sameType a b = sameType b a := by
  cases a <;> cases b <;> rfl

private theorem converted_comm {α β : Type} {f : α → α → Option β} (comm : ∀ x y, f x y = f y x)
    (first second : Option α) :
    (first.bind fun x => second.bind fun y => f x y) =
      second.bind fun y => first.bind fun x => f y x := by
  cases first <;> cases second <;> first | rfl | exact comm _ _

private theorem primitiveEquals?_comm (a b : Value) :
    primitiveEquals? a b = primitiveEquals? b a := by
  rw [primitiveEquals?, primitiveEquals?, Bool.or_comm, Bool.and_comm, sameType_comm a b,
    strictEquals_comm a b]
  split
  · rfl
  · split
    · rfl
    · exact converted_comm (fun x y => congrArg some (Number.equal_comm x y)) _ _

private theorem looseEquals?_comm (a b : Value) : looseEquals? a b = looseEquals? b a := by
  rw [looseEquals?, looseEquals?, Bool.or_comm, Bool.and_comm, sameType_comm a b,
    strictEquals_comm a b]
  split
  · rfl
  · split
    · rfl
    · exact converted_comm primitiveEquals?_comm _ _

private theorem looseEquals?_of_isNullish (nullish : a.isNullish = true) :
    looseEquals? a b = some b.isNullish := by
  rw [looseEquals?, nullish]
  rfl

private theorem sameType_of_strictEquals (equal : strictEquals a b = true) :
    sameType a b = true := by
  cases a <;> cases b <;> first | rfl | cases equal

private theorem isNullish_of_sameType (same : sameType a b = true) : b.isNullish = a.isNullish := by
  cases a <;> cases b <;> first | rfl | cases same

private theorem looseEquals?_of_sameType (same : sameType a b = true)
    (notNullish : a.isNullish = false) :
    looseEquals? a b = some (strictEquals a b) := by
  rw [looseEquals?, isNullish_of_sameType same, notNullish, same]
  rfl

private theorem looseEquals?_of_strictEquals (equal : strictEquals a b = true) :
    looseEquals? a b = some true := by
  have same := sameType_of_strictEquals equal
  cases nullish : a.isNullish with
  | false => rw [looseEquals?_of_sameType same nullish, equal]
  | true => rw [looseEquals?_of_isNullish nullish, isNullish_of_sameType same, nullish]

private theorem strictEquals_of_isCompound (compound : a.isCompound = true) :
    strictEquals a b = false := by
  cases a <;> cases b <;> first | rfl | cases compound

end Laws

section Compound

variable {a b : Value}

private theorem looseEquals?_arr_obj (items : List Value) (fields : List (Text × Value)) :
    looseEquals? (.arr items) (.obj fields) =
      (Value.arr items).string?.map fun t => t == objectText := by
  have converted : looseEquals? (.arr items) (.obj fields) =
      ((Value.arr items).string?.map .str).bind fun v => primitiveEquals? v (.str objectText) := rfl
  rw [converted]
  cases (Value.arr items).string? <;> rfl

private theorem looseEquals?_arr_obj_iff (items : List Value) (fields : List (Text × Value)) :
    looseEquals? (.arr items) (.obj fields) = some true ↔ (Value.arr items).ReadsAsObject := by
  rw [looseEquals?_arr_obj, ← string?_eq_objectText_iff, Option.map_eq_some_iff]
  simp only [beq_iff_eq, exists_eq_right]

private theorem looseEquals?_of_isCompound (first : a.isCompound = true)
    (second : b.isCompound = true) :
    looseEquals? a b = some true ↔ sameType a b = false ∧ a.ReadsAsObject ∧ b.ReadsAsObject := by
  -- Two arrays or objects are loosely equal when one is an object and the other an array that reads
  -- as an object.
  cases same : sameType a b with
  | true =>
    have notNullish : a.isNullish = false := by cases a <;> first | rfl | cases first
    rw [looseEquals?_of_sameType same notNullish, strictEquals_of_isCompound first]
    exact ⟨fun equal => (nomatch equal), fun different => (nomatch different.1)⟩
  | false =>
    match a, b with
    | .arr items, .obj fields =>
      rw [looseEquals?_arr_obj_iff]
      exact ⟨fun reads => ⟨rfl, reads, .object fields⟩, fun reads => reads.2.1⟩
    | .obj fields, .arr items =>
      rw [looseEquals?_comm, looseEquals?_arr_obj_iff]
      exact ⟨fun reads => ⟨rfl, .object fields, reads⟩, fun reads => reads.2.2⟩

end Compound

/-- Equality, on two values that come from two places. It is symmetric, strict equality implies loose
equality, and null and undefined are loosely equal to each other only. No array or object is strictly
equal to another one; but an array is loosely equal to an object exactly when it has the same string. -/
theorem equality_laws (a b : Value) :
    strictEquals a b = strictEquals b a ∧ looseEquals? a b = looseEquals? b a ∧
      (strictEquals a b = true → looseEquals? a b = some true) ∧
      (a.isNullish = true → looseEquals? a b = some b.isNullish) ∧
      (a.isCompound = true → strictEquals a b = false ∧
        (b.isCompound = true → (looseEquals? a b = some true ↔
          sameType a b = false ∧ a.ReadsAsObject ∧ b.ReadsAsObject))) :=
  ⟨strictEquals_comm a b, looseEquals?_comm a b, looseEquals?_of_strictEquals,
    looseEquals?_of_isNullish,
    fun compound => ⟨strictEquals_of_isCompound compound, looseEquals?_of_isCompound compound⟩⟩

theorem equality_laws_samples :
    looseEquals? .null .undefined = some true ∧
      looseEquals? (.obj []) (.arr [.arr [.obj []]]) = some true := by
  obtain ⟨-, -, -, nullish, -⟩ := equality_laws .null .undefined
  obtain ⟨-, -, -, -, compound⟩ := equality_laws (.obj []) (.arr [.arr [.obj []]])
  exact ⟨nullish rfl,
    ((compound rfl).2 rfl).mpr ⟨rfl, .object [], .array (.array (.object []))⟩⟩

end Value

/-- Arrays and objects from two places are not always unequal. -/
theorem not_all_compounds_differ :
    (¬∀ (first second : Text) (a b : Value), fold? first = some a → fold? second = some b →
      a.isCompound = true → b.isCompound = true →
      Value.strictEquals a b = false ∧ Value.looseEquals? a b ≠ some true) ∧
    fold? "[\x7b\x7d] == \x7b\x7d" = some (.bool true) := by
  refine ⟨fun differ => ?_, by rfl⟩
  have different := differ "[\x7b\x7d]" "\x7b\x7d" (.arr [.obj []]) (.obj []) (by rfl) (by rfl) rfl rfl
  exact different.2 rfl

end Constant

end PugPrinter
