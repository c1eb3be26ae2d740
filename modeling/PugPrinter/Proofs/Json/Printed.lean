import PugPrinter.Json.Reader
import PugPrinter.Proofs.Digits
import PugPrinter.Proofs.Json.Arranged

/-!
JSON values that can be read back, and what their texts are made of. A code point inside a string is
printed in one of four ways. A value is readable when it holds no doubles, when the keys of each of its
objects are distinct, when its whole numbers are not too long, and when its strings hold only code points
that are allowed.
-/

set_option autoImplicit false

namespace PugPrinter

namespace CodePoint

theorem code_lt (c : CodePoint) : c.code < 0x110000 := by
  cases c with
  | scalar c =>
    rcases c.valid with low | ⟨-, high⟩
    · exact Nat.lt_trans low (by decide)
    · exact high
  | surrogate index =>
    have small := index.isLt
    change 0xd800 + index.val < 0x110000
    omega

theorem ofCode?_code (c : CodePoint) : ofCode? c.code = some c := by
  cases c with
  | scalar c =>
    change (if c.toNat.isValidChar then some (scalar (Char.ofNat c.toNat)) else _) = _
    rw [if_pos (show c.toNat.isValidChar from c.valid), Char.ofNat_toNat]
  | surrogate index =>
    have small := index.isLt
    have invalid : ¬ (0xd800 + index.val).isValidChar := by
      unfold Nat.isValidChar
      omega
    have counted : 0xd800 + index.val - 0xd800 = index.val := Nat.add_sub_cancel_left ..
    rw [code, ofCode?, if_neg invalid, dif_pos (by omega)]
    simp only [counted]

end CodePoint

namespace Json

def letterEscapes : List (Char × Char) :=
  [('"', '"'), ('\\', '\\'), ('\n', 'n'), ('\r', 'r'), ('\t', 't'), ('\x08', 'b'), ('\x0c', 'f')]

inductive Printed : CodePoint → Text → Prop where
  | letter {c letter : Char} (escape : (c, letter) ∈ letterEscapes) :
    Printed c [.scalar '\\', .scalar letter]
  | plain {c : CodePoint} (low : 0x20 ≤ c.code) (high : c.code < 0x7f) (notQuote : c ≠ '"')
    (notBackslash : c ≠ '\\') : Printed c [c]
  | unit {c : CodePoint} (unit : c.code < 0x10000) : Printed c (unitEscape c.code)
  | pair {c : CodePoint} (past : 0x10000 ≤ c.code) :
    Printed c (unitEscape (0xd800 + (c.code - 0x10000) / 0x400) ++
      unitEscape (0xdc00 + (c.code - 0x10000) % 0x400))

theorem printed (c : CodePoint) : Printed c (printPoint c) := by
  unfold printPoint
  simp only [Bool.or_eq_true, beq_iff_eq, Bool.and_eq_true, decide_eq_true_eq]
  split
  case isTrue marked =>
    rcases marked with rfl | rfl
    · exact .letter (by decide)
    · exact .letter (by decide)
  case isFalse unmarked =>
    rw [not_or] at unmarked
    split
    · next isChar => rw [isChar]; exact .letter (by decide)
    split
    · next isChar => rw [isChar]; exact .letter (by decide)
    split
    · next isChar => rw [isChar]; exact .letter (by decide)
    split
    · next isChar => rw [isChar]; exact .letter (by decide)
    split
    · next isChar => rw [isChar]; exact .letter (by decide)
    split
    · next printable => exact .plain printable.1 printable.2 unmarked.1 unmarked.2
    split
    · next unit => exact .unit unit
    · next past => exact .pair (Nat.le_of_not_lt past)

theorem printPoint_ne_nil (c : CodePoint) : printPoint c ≠ [] := by
  have ways := printed c
  generalize printPoint c = text at ways
  cases ways <;> nofun

theorem printString_append (s rest : Text) :
    printString s ++ rest = .scalar '"' :: (s.flatMap printPoint ++ .scalar '"' :: rest) := by
  rw [printString, Text.between, List.cons_append, List.cons_append, List.append_assoc,
    List.singleton_append]

def entryTexts (indent : Option Int) (level : Nat) (fields : List (Text × Json)) : List Text :=
  (printFields { indent } level fields).map fun entry => printString entry.1 ++ (": " : Text) ++ entry.2

section Every

variable (scalar : Json → Bool) (keys : List Text → Bool)

theorem everyItem_eq_all (items : List Json) :
    everyItem scalar keys items = items.all (every scalar keys) := by
  induction items with
  | nil => rfl
  | cons item rest ih => rw [everyItem, ih, List.all_cons]

theorem everyField_eq_all (fields : List (Text × Json)) :
    everyField scalar keys fields = fields.all fun field => every scalar keys field.2 := by
  induction fields with
  | nil => rfl
  | cons field rest ih => rw [everyField, ih, List.all_cons]

variable {keys} {order : List (Text × Json) → List (Text × Json)}

/-- Tests and orders of fields that do not get in each other's way: the tests do not ask for the order
of keys, and fields are only put in another order. -/
structure Unordered (keys : List Text → Bool) (order : List (Text × Json) → List (Text × Json)) :
    Prop where
  keys : ∀ names others : List Text, names.Perm others → keys names = keys others
  perm : ∀ fields, (order fields).Perm fields

mutual

private theorem every_arranged (unordered : Unordered keys order) : ∀ value : Json,
    every scalar keys (arranged order value) = every scalar keys value
  | null => rfl
  | bool _ => rfl
  | int _ => rfl
  | float _ => rfl
  | str _ => rfl
  | arr items => by rw [arranged, every, every, everyItem_arranged unordered items]
  | obj fields => by
    have names : (arrangedFields order fields).map Prod.fst = fields.map Prod.fst := by
      rw [arrangedFields_eq_map, List.map_map]
      rfl
    have perm := unordered.perm (arrangedFields order fields)
    have sameKeys := unordered.keys _ _ (perm.map Prod.fst)
    rw [arranged, every, every, sameKeys, names, everyField_eq_all, perm.all_eq,
      ← everyField_eq_all, everyField_arranged unordered fields]
termination_by structural value => value

private theorem everyItem_arranged (unordered : Unordered keys order) : ∀ items : List Json,
    everyItem scalar keys (arrangedItems order items) = everyItem scalar keys items
  | [] => rfl
  | item :: rest => by
    rw [arrangedItems, everyItem, everyItem, every_arranged unordered item,
      everyItem_arranged unordered rest]
termination_by structural items => items

private theorem everyField_arranged (unordered : Unordered keys order) : ∀ fields :
    List (Text × Json),
    everyField scalar keys (arrangedFields order fields) = everyField scalar keys fields
  | [] => rfl
  | (key, value) :: rest => by
    rw [arrangedFields, everyField, everyField, every_arranged unordered value,
      everyField_arranged unordered rest]
termination_by structural fields => fields

end

end Every

def isFloat : Json → Bool
  | float _ => true
  | _ => false

/-- Whether a value holds no doubles, and each object no key twice. -/
def isRegular : Json → Bool :=
  every (fun value => !value.isFloat) fun keys => keys.Nodup

def isForeignText (allowed : CodePoint → Bool) : Json → Bool
  | str s => !s.all allowed
  | _ => false

/-- Whether all strings and keys in a value have only code points that are allowed. -/
def hasTexts (allowed : CodePoint → Bool) : Json → Bool :=
  every (fun value => !value.isForeignText allowed) fun keys => keys.all fun key => key.all allowed

/-- A value is readable when it is regular, its numbers are not too long, and its texts have only code
points that are allowed. -/
structure Readable (allowed : CodePoint → Bool) (value : Json) : Prop where
  regular : value.isRegular = true
  numbers : value.hasShortNumbers = true
  texts : value.hasTexts allowed = true

section Readable

variable {allowed : CodePoint → Bool}

theorem Readable.number {i : Int} (readable : Readable allowed (int i)) :
    (Text.ofNat i.natAbs).length ≤ digitLimit := by
  have short : (!!isShort i) = true := readable.numbers
  rw [Bool.not_not] at short
  exact of_decide_eq_true short

theorem Readable.text {s : Text} (readable : Readable allowed (str s)) : ∀ c ∈ s, allowed c = true := by
  have texts : (!!s.all allowed) = true := readable.texts
  rw [Bool.not_not] at texts
  exact List.all_eq_true.mp texts

theorem Readable.item {items : List Json} (readable : Readable allowed (arr items)) :
    ∀ item ∈ items, Readable allowed item := by
  obtain ⟨regular, numbers, texts⟩ := readable
  simp only [isRegular, hasShortNumbers, hasTexts, every, everyItem_eq_all, List.all_eq_true]
    at regular numbers texts
  exact fun item member => ⟨regular item member, numbers item member, texts item member⟩

variable {fields : List (Text × Json)} (readable : Readable allowed (obj fields))

include readable

theorem Readable.distinct : (fields.map Prod.fst).Nodup := by
  have regular := readable.regular
  rw [isRegular, every, Bool.and_eq_true, decide_eq_true_eq] at regular
  exact regular.1

theorem Readable.key : ∀ field ∈ fields, ∀ c ∈ field.1, allowed c = true := by
  have texts := readable.texts
  rw [hasTexts, every, Bool.and_eq_true, List.all_map, List.all_eq_true] at texts
  intro field member
  exact List.all_eq_true.mp (texts.1 field member)

theorem Readable.field : ∀ field ∈ fields, Readable allowed field.2 := by
  obtain ⟨regular, numbers, texts⟩ := readable
  rw [isRegular, every, Bool.and_eq_true, everyField_eq_all] at regular
  rw [hasShortNumbers, every, Bool.and_eq_true, everyField_eq_all] at numbers
  rw [hasTexts, every, Bool.and_eq_true, everyField_eq_all] at texts
  intro field member
  exact ⟨List.all_eq_true.mp regular.2 field member, List.all_eq_true.mp numbers.2 field member,
    List.all_eq_true.mp texts.2 field member⟩

end Readable

theorem Readable.arranged {allowed : CodePoint → Bool} {value : Json}
    (readable : Readable allowed value) {order : List (Text × Json) → List (Text × Json)}
    (perm : ∀ fields, (order fields).Perm fields) : Readable allowed (value.arranged order) := by
  refine ⟨?_, ?_, ?_⟩
  · rw [isRegular, every_arranged _ ⟨?_, perm⟩]
    · exact readable.regular
    · exact fun names others same => decide_eq_decide.mpr same.nodup_iff
  · rw [hasShortNumbers, every_arranged _ ⟨fun _ _ _ => rfl, perm⟩]
    exact readable.numbers
  · rw [hasTexts, every_arranged _ ⟨?_, perm⟩]
    · exact readable.texts
    · exact fun names others same => same.all_eq

end Json

end PugPrinter
