import Mathlib.Algebra.Ring.Nat
import PugPrinter.Text

/-!
Numbers written in digits. The digits of a number, in any base up to sixteen, are digits of that base
and spell the number; a decimal row starts with a zero only when it is that of zero. Four hexadecimal
digits are enough for every code unit.
-/

set_option autoImplicit false

namespace PugPrinter.Text

section Rows

variable {p : CodePoint → Bool} {row rest : Text}

theorem takeWhile_row (belongs : ∀ c ∈ row, p c = true) (ends : ∀ c ∈ rest.head?, p c = false) :
    (row ++ rest).takeWhile p = row := by
  rw [List.takeWhile_append_of_pos belongs]
  cases rest with
  | nil => exact List.append_nil row
  | cons c rest => rw [List.takeWhile_cons_of_neg (by simp [ends c rfl]), List.append_nil]

theorem dropWhile_row (belongs : ∀ c ∈ row, p c = true) (ends : ∀ c ∈ rest.head?, p c = false) :
    (row ++ rest).dropWhile p = rest := by
  rw [List.dropWhile_append_of_pos belongs]
  cases rest with
  | nil => rfl
  | cons c rest => rw [List.dropWhile_cons_of_neg (by simp [ends c rfl])]

end Rows

private theorem digitValue_digitChar : ∀ d < 16, digitValue d.digitChar = d := by
  decide

private theorem isHexDigit_digitChar : ∀ d < 16, isHexDigit d.digitChar = true := by
  decide

theorem natOfDigits_append_digit (base : Nat) (digits : Text) (c : CodePoint) :
    natOfDigits base (digits ++ [c]) = natOfDigits base digits * base + digitValue c := by
  rw [natOfDigits, List.foldl_append]
  rfl

private theorem mul_pow_le_foldl (base n : Nat) (digits : Text) :
    n * base ^ digits.length ≤ digits.foldl (fun n c => n * base + digitValue c) n := by
  induction digits generalizing n with
  | nil => exact Nat.le_of_eq (Nat.mul_one n)
  | cons c rest ih =>
    calc n * base ^ (rest.length + 1)
      _ = n * base * base ^ rest.length := by rw [Nat.pow_succ', Nat.mul_assoc]
      _ ≤ (n * base + digitValue c) * base ^ rest.length :=
        Nat.mul_le_mul_right _ (Nat.le_add_right ..)
      _ ≤ _ := ih _

theorem pow_le_natOfDigits (base : Nat) {c : CodePoint} (notZero : 0 < digitValue c) (rest : Text) :
    base ^ rest.length ≤ natOfDigits base (c :: rest) := by
  calc base ^ rest.length
    _ ≤ (0 * base + digitValue c) * base ^ rest.length := by
      rw [Nat.zero_mul, Nat.zero_add]
      exact Nat.le_mul_of_pos_left _ notZero
    _ ≤ natOfDigits base (c :: rest) := mul_pow_le_foldl base _ rest

section ToDigits

variable {base : Nat} (atLeast : 1 < base) (atMost : base ≤ 16)

include atLeast atMost

theorem natOfDigits_toDigits (n : Nat) : natOfDigits base (ofChars (Nat.toDigits base n)) = n := by
  induction n using Nat.strongRecOn with
  | ind n ih =>
    have known (d : Nat) (small : d < base) : digitValue d.digitChar = d :=
      digitValue_digitChar d (by omega)
    rw [Nat.toDigits_eq_if atLeast]
    split
    case isTrue small =>
      change 0 * base + digitValue n.digitChar = n
      rw [known n small, Nat.zero_mul, Nat.zero_add]
    case isFalse large =>
      have smaller : n / base < n := Nat.div_lt_self (by omega) atLeast
      have last : n % base < base := Nat.mod_lt n (by omega)
      rw [ofChars, List.map_append, ← ofChars, List.map_singleton, natOfDigits_append_digit,
        ih _ smaller, known _ last, Nat.mul_comm]
      exact Nat.div_add_mod n base

theorem isHexDigit_of_mem_toDigits (n : Nat) :
    ∀ c ∈ ofChars (Nat.toDigits base n), isHexDigit c = true := by
  induction n using Nat.strongRecOn with
  | ind n ih =>
    rw [Nat.toDigits_eq_if atLeast]
    intro c member
    split at member
    case isTrue small =>
      rw [List.mem_singleton.mp member]
      exact isHexDigit_digitChar n (by omega)
    case isFalse large =>
      have smaller : n / base < n := Nat.div_lt_self (by omega) atLeast
      have last : n % base < base := Nat.mod_lt n (by omega)
      rw [ofChars, List.map_append, List.mem_append] at member
      rcases member with first | isLast
      · exact ih _ smaller c first
      · rw [List.mem_singleton.mp isLast]
        exact isHexDigit_digitChar _ (by omega)

end ToDigits

section Decimal

variable (n : Nat)

theorem natOfDigits_ofNat : natOfDigits 10 (ofNat n) = n :=
  natOfDigits_toDigits (by decide) (by decide) n

theorem isDigit_of_mem_ofNat : ∀ c ∈ ofNat n, isDigit c = true := by
  intro c member
  obtain ⟨char, isDigit, rfl⟩ := List.mem_map.mp member
  exact Nat.isDigit_of_mem_toDigits (by decide) (by decide) isDigit

theorem ofNat_ne_nil : ofNat n ≠ [] := by
  rw [ofNat, ofChars, Ne, List.map_eq_nil_iff]
  exact Nat.toDigits_ne_nil

theorem length_ofNat_le_iff {width : Nat} (wide : 0 < width) :
    (ofNat n).length ≤ width ↔ n < 10 ^ width := by
  rw [ofNat, ofChars, List.length_map]
  exact Nat.length_toDigits_le_iff (by decide) wide

theorem eq_zero_of_ofNat {rest : Text} (starts : ofNat n = .scalar '0' :: rest) : n = 0 ∧ rest = [] := by
  induction n using Nat.strongRecOn generalizing rest with
  | ind n ih =>
    rw [ofNat, Nat.toDigits_eq_if (by decide)] at starts
    split at starts
    case isTrue small =>
      obtain ⟨first, isRest⟩ := List.cons.inj starts
      exact ⟨Nat.digitChar_eq_zero.mp (CodePoint.scalar.inj first), isRest.symm⟩
    case isFalse large =>
      rw [ofChars, List.map_append, ← ofChars, ← ofNat] at starts
      cases front : ofNat (n / 10) with
      | nil => exact absurd front (ofNat_ne_nil _)
      | cons c more =>
        rw [front, List.cons_append] at starts
        obtain ⟨rfl, -⟩ := List.cons.inj starts
        have zero := (ih (n / 10) (by omega) front).1
        omega

end Decimal

theorem hex_four {code : Nat} (unit : code < 0x10000) :
    ∃ a b c d : CodePoint, hex 4 code = [a, b, c, d] ∧
      [a, b, c, d].all isHexDigit = true ∧ natOfDigits 16 [a, b, c, d] = code := by
  have width : (Nat.toDigits 16 code).length ≤ 4 :=
    (Nat.length_toDigits_le_iff (by decide) (by decide)).mpr unit
  have filled : hex 4 code =
      List.replicate (4 - (Nat.toDigits 16 code).length) (CodePoint.scalar '0') ++
        ofChars (Nat.toDigits 16 code) := by
    rw [hex, ofChars, List.map_append, List.map_replicate, ofChars]
  have four : (hex 4 code).length = 4 := by
    rw [filled, List.length_append, List.length_replicate, ofChars, List.length_map]
    omega
  have digits : (hex 4 code).all isHexDigit = true := by
    rw [filled, List.all_append, List.all_replicate, Bool.and_eq_true]
    constructor
    · split <;> rfl
    · exact List.all_eq_true.mpr (isHexDigit_of_mem_toDigits (by decide) (by decide) code)
  have zeros (count : Nat) (row : Text) :
      natOfDigits 16 (List.replicate count (CodePoint.scalar '0') ++ row) = natOfDigits 16 row := by
    induction count with
    | zero => rfl
    | succ count ih => exact ih
  have spelled : natOfDigits 16 (hex 4 code) = code := by
    rw [filled, zeros]
    exact natOfDigits_toDigits (by decide) (by decide) code
  match isHex : hex 4 code, four with
  | [a, b, c, d], _ =>
    rw [isHex] at digits spelled
    exact ⟨a, b, c, d, rfl, digits, spelled⟩

end PugPrinter.Text
