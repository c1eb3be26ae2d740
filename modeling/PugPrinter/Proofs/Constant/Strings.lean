import Mathlib.Data.List.Basic
import PugPrinter.Constant.Grammar
import PugPrinter.Proofs.Digits

/-!
The strings of constants. A value has no string exactly when a whole number with too many digits would
have to be written: it is such a number, or an array with such an item; what stands in an object is not
written. A value has the string of an object exactly when it is an object, that string, or an array of one
such value, since no number is written with a bracket and two items are written with a comma.
-/

set_option autoImplicit false

namespace PugPrinter

namespace Double

private theorem pow10_eq (n : Nat) : pow10 n = 10 ^ n := rfl

private theorem isDigit_of_mem_shortest {d : Dyadic} {c : Char} (digit : c ∈ (shortest d).digits) :
    c.isDigit = true := by
  have inner : c ∈ (Nat.toDigits 10 (searchDigits d.interval (pointOf d.interval.value
      d.interval.den) 17 1).2).reverse :=
    (List.dropWhile_suffix _).subset (List.mem_reverse.mp digit)
  exact Nat.isDigit_of_mem_toDigits (by decide) (by decide) (List.mem_reverse.mp inner)

private def isNumberChar (c : Char) : Bool :=
  c.isDigit || c == '-' || c == '+' || c == '.' || c == 'e'

private theorem isNumberChar_of_isDigit {c : Char} (digit : c.isDigit = true) :
    isNumberChar c = true := by
  rw [isNumberChar, digit]
  rfl

section Written

variable {d : Decimal} {c : Char} (digits : ∀ c ∈ d.digits, isNumberChar c = true)

include digits

private theorem isNumberChar_of_mem_positional (member : c ∈ positional d) :
    isNumberChar c = true := by
  have zero {count : Nat} (padding : c ∈ List.replicate count '0') : isNumberChar c = true := by
    rw [List.eq_of_mem_replicate padding]
    rfl
  simp only [positional] at member
  split at member
  · simp only [List.cons_append, List.mem_cons, List.mem_append] at member
    rcases member with rfl | rfl | padding | digit
    · rfl
    · rfl
    · exact zero padding
    · exact digits c digit
  · split at member
    · simp only [List.mem_cons, List.mem_append, List.not_mem_nil, or_false] at member
      rcases member with (digit | padding) | rfl | rfl
      · exact digits c digit
      · exact zero padding
      · rfl
      · rfl
    · simp only [List.mem_cons, List.mem_append] at member
      rcases member with digit | rfl | digit
      · exact digits c (List.mem_of_mem_take digit)
      · rfl
      · exact digits c (List.mem_of_mem_drop digit)

private theorem isNumberChar_of_mem_scientific {width : Nat} (member : c ∈ scientific width d) :
    isNumberChar c = true := by
  simp only [scientific, List.mem_cons, List.mem_append] at member
  rcases member with ((head | rfl | rfl | padding) | size)
  · match written : d.digits with
    | [] =>
      rw [written] at head
      rw [List.mem_singleton.mp head]
      rfl
    | [first] =>
      rw [written] at head
      exact digits c (written ▸ head)
    | first :: second :: rest =>
      rw [written] at digits head
      rcases List.mem_cons.mp head with rfl | afterFirst
      · exact digits c List.mem_cons_self
      · rcases List.mem_cons.mp afterFirst with rfl | more
        · rfl
        · exact digits c (List.mem_cons_of_mem first more)
  · rfl
  · split <;> rfl
  · rw [List.eq_of_mem_replicate padding]
    rfl
  · exact isNumberChar_of_isDigit (Nat.isDigit_of_mem_toDigits (by decide) (by decide) size)

end Written

private theorem isNumberChar_of_mem_writeDyadic {style : NumberStyle} {d : Dyadic} {c : Char}
    (member : c ∈ writeDyadic style d) : isNumberChar c = true := by
  have digits : ∀ c ∈ (shortest d).digits, isNumberChar c = true :=
    fun c digit => isNumberChar_of_isDigit (isDigit_of_mem_shortest digit)
  have zero : ∀ c ∈ ['0', '.', '0'], isNumberChar c = true := by
    simp only [List.forall_mem_cons]
    exact ⟨rfl, rfl, rfl, nofun⟩
  have unsigned {positionally : Bool} {body : List Char}
      (isBody : body = if d.mantissa == 0 then ['0', '.', '0'] else
        if positionally then positional (shortest d)
        else scientific style.exponentWidth (shortest d))
      (inBody : c ∈ body) : isNumberChar c = true := by
    rw [isBody] at inBody
    split at inBody
    · exact zero c inBody
    · split at inBody
      · exact isNumberChar_of_mem_positional digits inBody
      · exact isNumberChar_of_mem_scientific digits inBody
  rw [writeDyadic] at member
  split at member
  · rcases List.mem_cons.mp member with rfl | inBody
    · rfl
    · exact unsigned rfl inBody
  · exact unsigned rfl member

end Double

namespace Constant

namespace Value

private def itemString? (item : Value) : Option Text :=
  if item.isNullish then some [] else item.string?

private theorem itemStrings?_cons (item : Value) (rest : List Value) :
    itemStrings? (item :: rest) =
      item.itemString?.bind fun head => (itemStrings? rest).map (head :: ·) := by
  rw [itemStrings?, itemString?]
  split
  · cases itemStrings? rest <;> rfl
  · cases item.string? with
    | none => rfl
    | some head => cases itemStrings? rest <;> rfl

private theorem itemString?_of_not_isNullish {item : Value} (some : item.isNullish = false) :
    item.itemString? = item.string? := by
  rw [itemString?, some]
  rfl

/-- Values with a whole number that has too many digits to be written: the number itself, and an array with
such an item. -/
inductive WritesLong : Value → Prop where
  | number {i : Int} (long : 10 ^ Number.digitLimit ≤ i.natAbs) : WritesLong (.num (.int i))
  | item {item : Value} {items : List Value} (member : item ∈ items) (inner : WritesLong item) :
      WritesLong (.arr items)

private theorem text?_eq_none_iff {n : Number} : n.text? = none ↔ (Value.num n).WritesLong := by
  cases n with
  | int i =>
    rw [Number.text?, ite_eq_right_iff, Double.pow10_eq]
    constructor
    · intro unwritten
      exact .number (Nat.le_of_not_lt fun short => nomatch unwritten short)
    · rintro ⟨long⟩ short
      exact absurd short (Nat.not_lt.mpr long)
  | float f =>
    rw [Number.text?]
    constructor
    · split <;> exact nofun
    · exact nofun

private theorem itemString?_eq_none_iff {item : Value} :
    item.itemString? = none ↔ item.string? = none := by
  cases nullish : item.isNullish with
  | false => rw [itemString?_of_not_isNullish nullish]
  | true =>
    rw [itemString?, if_pos nullish]
    cases item <;> first | exact (by decide) | cases nullish

mutual

theorem string?_eq_none_iff : ∀ v : Value, v.string? = none ↔ v.WritesLong
  | .undefined | .null | .bool true | .bool false | .str _ | .obj _ => by
    rw [string?]
    exact ⟨nofun, nofun⟩
  | .num n => text?_eq_none_iff
  | .arr items => by
    have ofItems := itemStrings?_eq_none_iff items
    rw [string?, Option.map_eq_none_iff, ofItems]
    exact ⟨fun ⟨item, member, long⟩ => .item member long,
      fun | .item member long => ⟨_, member, long⟩⟩

private theorem itemStrings?_eq_none_iff :
    ∀ items : List Value, itemStrings? items = none ↔ ∃ item ∈ items, item.WritesLong
  | [] => ⟨nofun, nofun⟩
  | item :: rest => by
    have first := string?_eq_none_iff item
    have later := itemStrings?_eq_none_iff rest
    rw [List.exists_mem_cons_iff, ← first, ← later, ← itemString?_eq_none_iff, itemStrings?_cons]
    cases item.itemString? <;> simp

end

def objectText : Text := "[object Object]"

/-- Values that have the string of an object: objects, that string itself, and an array of one such
value. -/
inductive ReadsAsObject : Value → Prop where
  | object (fields : List (Text × Value)) : ReadsAsObject (.obj fields)
  | text : ReadsAsObject (.str objectText)
  | array {item : Value} (inner : ReadsAsObject item) : ReadsAsObject (.arr [item])

private theorem string?_singleton (item : Value) :
    (Value.arr [item]).string? = item.itemString? := by
  rw [string?, itemStrings?_cons]
  cases item.itemString? <;> rfl

private theorem length_of_itemStrings? {items : List Value} {texts : List Text}
    (written : itemStrings? items = some texts) : texts.length = items.length := by
  induction items generalizing texts with
  | nil =>
    cases written
    rfl
  | cons item rest ih =>
    rw [itemStrings?_cons] at written
    obtain ⟨head, -, tail⟩ := Option.bind_eq_some_iff.mp written
    obtain ⟨tail, ofRest, rfl⟩ := Option.map_eq_some_iff.mp tail
    exact congrArg (· + 1) (ih ofRest)

private theorem comma_mem_of_string? {first second : Value} {rest : List Value} {t : Text}
    (written : (Value.arr (first :: second :: rest)).string? = some t) : .scalar ',' ∈ t := by
  obtain ⟨texts, items, rfl⟩ := Option.map_eq_some_iff.mp written
  match texts, length_of_itemStrings? items with
  | head :: next :: tail, _ => simp [Text.join]

private theorem bracket_notMem_text? {n : Number} {t : Text} (written : n.text? = some t) :
    .scalar '[' ∉ t := by
  have noDigit (k : Nat) : .scalar '[' ∉ Text.ofNat k :=
    fun member => absurd (Text.isDigit_of_mem_ofNat k _ member) (by decide)
  have ofInt : ∀ i : Int, .scalar '[' ∉ Text.ofInt i
    | .ofNat k => noDigit k
    | .negSucc k => fun member => noDigit (k + 1) (List.mem_of_ne_of_mem (by decide) member)
  cases n with
  | int i =>
    rw [Number.text?] at written
    split at written
    · rw [← Option.some.inj written]
      exact ofInt i
    · exact absurd written (by simp)
  | float f =>
    rw [Number.text?] at written
    split at written
    · rw [← Option.some.inj written]
      exact ofInt _
    · rw [← Option.some.inj written, Double.write]
      split
      · intro member
        obtain ⟨c, inBody, isBracket⟩ := List.mem_map.mp member
        cases isBracket
        exact absurd (Double.isNumberChar_of_mem_writeDyadic inBody) (by decide)
      · split
        · decide
        · split <;> decide

private theorem ReadsAsObject.not_isNullish {v : Value} (reads : v.ReadsAsObject) :
    v.isNullish = false := by
  cases reads <;> rfl

theorem string?_eq_objectText_iff : ∀ v : Value, v.string? = some objectText ↔ v.ReadsAsObject
  | .undefined => ⟨fun written => absurd written (by decide), fun reads => nomatch reads⟩
  | .null => ⟨fun written => absurd written (by decide), fun reads => nomatch reads⟩
  | .bool b =>
    ⟨fun written => absurd written (by cases b <;> decide), fun reads => nomatch reads⟩
  | .num n =>
    ⟨fun written => absurd (by decide) (bracket_notMem_text? written), fun reads => nomatch reads⟩
  | .str s => ⟨fun written => Option.some.inj written ▸ .text, fun reads => by cases reads; rfl⟩
  | .obj fields => ⟨fun _ => .object fields, fun _ => rfl⟩
  | .arr [] => ⟨fun written => absurd written (by decide), fun reads => nomatch reads⟩
  | .arr [item] => by
    have ih := string?_eq_objectText_iff item
    rw [string?_singleton]
    constructor
    · intro written
      cases nullish : item.isNullish with
      | true =>
        rw [itemString?, if_pos nullish] at written
        exact absurd written (by decide)
      | false =>
        rw [itemString?_of_not_isNullish nullish] at written
        exact .array (ih.mp written)
    · rintro ⟨⟩
      rename_i inner
      rw [itemString?_of_not_isNullish inner.not_isNullish]
      exact ih.mpr inner
  | .arr (first :: second :: rest) =>
    ⟨fun written => absurd (comma_mem_of_string? written) (by decide), fun reads => nomatch reads⟩

end Value

end Constant

end PugPrinter
