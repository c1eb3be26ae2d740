import PugPrinter.Proofs.Json.Printed

/-!
JSON text that is read again. A readable value without halves of surrogate pairs is read off the front
of its text, in every layout: pairs that spell one character are joined again, blanks are skipped, and
the keys of an object come back in order.
-/

set_option autoImplicit false

namespace PugPrinter.Json

/-- Whether a code point is a character, and not half of a pair. -/
def isCharacter (c : CodePoint) : Bool :=
  c.holds fun _ => true

section Strings

private theorem fourDigits?_hex {code : Nat} (unit : code < 0x10000) :
    ∃ a b c d : CodePoint, unitEscape code = [.scalar '\\', .scalar 'u', a, b, c, d] ∧
      fourDigits? a b c d = some code := by
  obtain ⟨a, b, c, d, isHex, digits, spelled⟩ := Text.hex_four unit
  refine ⟨a, b, c, d, ?_, ?_⟩
  · rw [unitEscape, isHex]
  · rw [fourDigits?, if_pos digits, spelled]

private def WellEscaped (t : Text) : Prop :=
  ∀ a b c d after, t = .scalar '\\' :: .scalar 'u' :: a :: b :: c :: d :: after →
    (fourDigits? a b c d).isSome

private theorem wellEscaped_unit {code : Nat} (unit : code < 0x10000) (t : Text) :
    WellEscaped (unitEscape code ++ t) := by
  obtain ⟨a, b, c, d, spelled, digits⟩ := fourDigits?_hex unit
  rw [spelled]
  rintro _ _ _ _ _ ⟨⟩
  rw [digits]
  rfl

private theorem wellEscaped_of_ne {c : CodePoint} (other : c ≠ '\\') (t : Text) :
    WellEscaped (c :: t) := by
  rintro a b d e after same
  exact absurd (List.cons.inj same).1 other

private theorem readStringBody_unit {code : Nat} (unit : code < 0x10000)
    (single : isHighSurrogate code = false) {t : Text} (escaped : WellEscaped t) :
    readStringBody (unitEscape code ++ t) =
      (readStringBody t).map fun found => (pointOfUnit code :: found.1, found.2) := by
  obtain ⟨a, b, c, d, spelled, digits⟩ := fourDigits?_hex unit
  rw [spelled]
  change readStringBody ('\\' :: 'u' :: a :: b :: c :: d :: t) = _
  rw [readStringBody]
  simp only [digits]
  split
  · next e f g h after =>
    obtain ⟨low, next⟩ := Option.isSome_iff_exists.mp (escaped e f g h after rfl)
    simp only [next, single, Bool.false_and]
    rfl
  · rfl

private theorem readStringBody_pair {high low : Nat} (isHigh : isHighSurrogate high = true)
    (isLow : isLowSurrogate low = true) (t : Text) :
    readStringBody (unitEscape high ++ unitEscape low ++ t) =
      (readStringBody t).map fun found => (joinHalves high low :: found.1, found.2) := by
  simp only [isHighSurrogate, isLowSurrogate, Bool.and_eq_true, decide_eq_true_eq] at isHigh isLow
  obtain ⟨a, b, c, d, spelledHigh, digitsHigh⟩ := fourDigits?_hex (show high < 0x10000 by omega)
  obtain ⟨e, f, g, h, spelledLow, digitsLow⟩ := fourDigits?_hex (show low < 0x10000 by omega)
  rw [spelledHigh, spelledLow]
  change readStringBody ('\\' :: 'u' :: a :: b :: c :: d :: '\\' :: 'u' :: e :: f :: g :: h :: t) = _
  rw [readStringBody]
  simp only [digitsHigh, digitsLow]
  rw [if_pos]
  simp only [isHighSurrogate, isLowSurrogate, Bool.and_eq_true, decide_eq_true_eq]
  omega

private theorem readStringBody_letter {letter c : CodePoint} (notUnit : letter ≠ 'u')
    (escape : simpleEscape? letter = some c) (t : Text) :
    readStringBody ('\\' :: letter :: t) =
      (readStringBody t).map fun found => (c :: found.1, found.2) := by
  rw [readStringBody]
  · rw [escape]
  · exact fun _ _ _ _ _ isUnit _ => notUnit isUnit

private theorem readStringBody_plain {c : CodePoint} (low : 0x20 ≤ c.code) (notQuote : c ≠ '"')
    (notBackslash : c ≠ '\\') (t : Text) :
    readStringBody (c :: t) = (readStringBody t).map fun found => (c :: found.1, found.2) := by
  have kept : ¬ (c == CodePoint.scalar '\\' || decide (c.code < 0x20)) = true := by
    simp [notBackslash, low]
  rw [readStringBody, if_neg kept]
  · exact notQuote
  · exact fun _ _ _ _ _ isBackslash _ => notBackslash isBackslash
  · exact fun _ _ isBackslash _ => notBackslash isBackslash

private theorem not_high_of_isCharacter {c : CodePoint} (isChar : isCharacter c = true) :
    isHighSurrogate c.code = false := by
  cases c with
  | surrogate index => cases isChar
  | scalar char =>
    have valid : char.toNat.isValidChar := char.valid
    have outside : ¬ (0xd800 ≤ char.toNat ∧ char.toNat ≤ 0xdbff) := by
      unfold Nat.isValidChar at valid
      omega
    rw [← Bool.not_eq_true, isHighSurrogate, Bool.and_eq_true, decide_eq_true_eq, decide_eq_true_eq]
    exact outside

private theorem joinHalves_of_past {c : CodePoint} (isChar : isCharacter c = true)
    (past : 0x10000 ≤ c.code) :
    joinHalves (0xd800 + (c.code - 0x10000) / 0x400) (0xdc00 + (c.code - 0x10000) % 0x400) = c := by
  cases c with
  | surrogate index => cases isChar
  | scalar char =>
    change 0x10000 ≤ char.toNat at past
    have sum : 0x10000 + (0xd800 + (char.toNat - 0x10000) / 0x400 - 0xd800) * 0x400 +
        (0xdc00 + (char.toNat - 0x10000) % 0x400 - 0xdc00) = char.toNat := by
      omega
    change CodePoint.scalar (Char.ofNat _) = _
    rw [CodePoint.code, sum, Char.ofNat_toNat]

private theorem readStringBody_printPoint {c : CodePoint} (isChar : isCharacter c = true) {t : Text}
    (escaped : WellEscaped t) :
    readStringBody (printPoint c ++ t) =
      (readStringBody t).map fun found => (c :: found.1, found.2) := by
  have ways := printed c
  generalize printPoint c = text at ways
  cases ways with
  | letter escape =>
    simp only [letterEscapes, List.mem_cons, Prod.mk.injEq, List.not_mem_nil, or_false] at escape
    rcases escape with ⟨rfl, rfl⟩ | ⟨rfl, rfl⟩ | ⟨rfl, rfl⟩ | ⟨rfl, rfl⟩ | ⟨rfl, rfl⟩ | ⟨rfl, rfl⟩ |
      ⟨rfl, rfl⟩
    all_goals exact readStringBody_letter (by decide) rfl t
  | plain low high notQuote notBackslash => exact readStringBody_plain low notQuote notBackslash t
  | unit unit =>
    rw [readStringBody_unit unit (not_high_of_isCharacter isChar) escaped, pointOfUnit,
      CodePoint.ofCode?_code]
    rfl
  | pair past =>
    have bounded := c.code_lt
    rw [readStringBody_pair, joinHalves_of_past isChar past]
    all_goals
      simp only [isHighSurrogate, isLowSurrogate, Bool.and_eq_true, decide_eq_true_eq]
      omega

private theorem wellEscaped_printed (s rest : Text) :
    WellEscaped (s.flatMap printPoint ++ .scalar '"' :: rest) := by
  cases s with
  | nil => exact wellEscaped_of_ne (by decide) rest
  | cons c s =>
    have ways := printed c
    rw [List.flatMap_cons, List.append_assoc]
    generalize printPoint c = text at ways
    cases ways with
    | letter escape =>
      have letters : letterEscapes.all (fun entry => entry.2 != 'u') = true := rfl
      have notUnit := List.all_eq_true.mp letters _ escape
      intro a b d e after same
      have second := (List.cons.inj (List.cons.inj same).2).1
      exact absurd (CodePoint.scalar.inj second) (bne_iff_ne.mp notUnit)
    | plain low high notQuote notBackslash => exact wellEscaped_of_ne notBackslash _
    | unit unit => exact wellEscaped_unit unit _
    | pair past =>
      have bounded := c.code_lt
      rw [List.append_assoc]
      exact wellEscaped_unit (by omega) _

private theorem readStringBody_printed {s : Text} (characters : ∀ c ∈ s, isCharacter c = true)
    (rest : Text) :
    readStringBody (s.flatMap printPoint ++ .scalar '"' :: rest) = .ok (s, rest) := by
  induction s with
  | nil => rw [List.flatMap_nil, List.nil_append, readStringBody]
  | cons c s ih =>
    rw [List.flatMap_cons, List.append_assoc,
      readStringBody_printPoint (characters c (List.mem_cons_self ..)) (wellEscaped_printed s rest),
      ih fun d member => characters d (List.mem_cons_of_mem c member)]
    rfl

end Strings

section Numbers

/-- Nothing that goes on in a number stands at the front of a text. -/
def Ends (t : Text) : Prop :=
  ∀ c ∈ t.head?, Text.isDigit c = false ∧ c ≠ '.' ∧ c ≠ 'e' ∧ c ≠ 'E'

variable {rest : Text}

private theorem Ends.not_digit (ends : Ends rest) : ∀ c ∈ rest.head?, Text.isDigit c = false :=
  fun c isHead => (ends c isHead).1

private theorem readWhole_ofNat (n : Nat) (ends : Ends rest) :
    readWhole (Text.ofNat n ++ rest) = some (Text.ofNat n, rest) := by
  have digits := Text.isDigit_of_mem_ofNat n
  unfold readWhole
  split
  · next tail same =>
    cases front : Text.ofNat n with
    | nil => exact absurd front (Text.ofNat_ne_nil n)
    | cons c more =>
      rw [front, List.cons_append] at same
      obtain ⟨rfl, after⟩ := List.cons.inj same
      rw [(Text.eq_zero_of_ofNat n front).2] at after ⊢
      rw [← after]
      rfl
  · rw [Text.takeWhile_row digits ends.not_digit, Text.dropWhile_row digits ends.not_digit, if_neg]
    rw [List.isEmpty_iff]
    exact Text.ofNat_ne_nil n

private theorem Ends.fraction (ends : Ends rest) : readFraction rest = ([], rest) := by
  unfold readFraction
  split
  · exact absurd rfl (ends '.' rfl).2.1
  · rfl

private theorem Ends.exponent (ends : Ends rest) : readExponent rest = (none, rest) := by
  unfold readExponent
  split
  · next mark tail =>
    have other := (ends mark rfl).2.2
    rw [if_neg]
    simpa using other
  · rfl

private theorem readNumber_ofNat (negative : Bool) (n : Nat) (ends : Ends rest) :
    readNumber negative (Text.ofNat n ++ rest) =
      if (Text.ofNat n).length > digitLimit then .error (.integerTooLong (Text.ofNat n).length)
      else .ok (.int (if negative then -n else n), rest) := by
  simp only [readNumber, readWhole_ofNat n ends, ends.fraction, ends.exponent, List.isEmpty_nil,
    Option.isNone_none, Bool.and_self, if_true, Text.natOfDigits_ofNat]

end Numbers

def Blank (t : Text) : Prop :=
  ∀ c ∈ t, isSpace c = true

def Opens (text : Text) : Prop :=
  ∃ c more, text = c :: more ∧ isSpace c = false ∧ c ≠ ']' ∧ c ≠ '\x7d'

section Blanks

variable {blank rest text : Text} {c : CodePoint}

private theorem blank_space : Blank [.scalar ' '] := by
  intro c member
  rw [List.mem_singleton.mp member]
  rfl

private theorem Blank.skipSpace (spaces : Blank blank) (solid : isSpace c = false) :
    skipSpace (blank ++ c :: rest) = c :: rest := by
  refine Text.dropWhile_row spaces ?_
  rintro _ ⟨⟩
  exact solid

theorem Blank.ends (spaces : Blank blank)
    (mark : c ∈ [CodePoint.scalar ',', .scalar ']', .scalar '\x7d']) : Ends (blank ++ c :: rest) := by
  have stops : ∀ c ∈ [CodePoint.scalar ' ', .scalar '\t', .scalar '\n', .scalar '\r', .scalar ',',
      .scalar ']', .scalar '\x7d'], Text.isDigit c = false ∧ c ≠ '.' ∧ c ≠ 'e' ∧ c ≠ 'E' := by
    decide
  cases blank with
  | nil =>
    rintro _ ⟨⟩
    exact stops c (List.mem_append_right [_, _, _, _] mark)
  | cons space blank =>
    rintro _ ⟨⟩
    have isSpace := spaces space (List.mem_cons_self ..)
    simp only [Json.isSpace, Bool.or_eq_true, beq_iff_eq] at isSpace
    apply stops
    rcases isSpace with ((rfl | rfl) | rfl) | rfl
    all_goals decide

theorem Opens.append (opens : Opens text) (more : Text) : Opens (text ++ more) := by
  obtain ⟨c, tail, front, isOpening⟩ := opens
  exact ⟨c, tail ++ more, by rw [front, List.cons_append], isOpening⟩

private theorem Opens.skipSpace (opens : Opens text) (spaces : Blank blank) (rest : Text) :
    skipSpace (blank ++ (text ++ rest)) = text ++ rest := by
  obtain ⟨c, tail, front, solid, -⟩ := opens
  rw [front, List.cons_append]
  exact spaces.skipSpace solid

private theorem Opens.exists_fuel (opens : Opens text) {fuel : Nat} (enough : text.length ≤ fuel) :
    ∃ n, fuel = n + 1 := by
  obtain ⟨c, tail, front, -⟩ := opens
  rw [front, List.length_cons] at enough
  exact ⟨fuel - 1, by omega⟩

end Blanks

structure ReadsAs (text : Text) (value : Json) : Prop where
  opens : Opens text
  reads : ∀ fuel rest, text.length ≤ fuel → Ends rest →
    readValue fuel (text ++ rest) = .ok (value, rest)

section Scalars

def StartsScalar (c : CodePoint) : Prop :=
  (isSpace c = false ∧ c ≠ ']' ∧ c ≠ '\x7d') ∧ c ≠ '[' ∧ c ≠ '\x7b'

instance (c : CodePoint) : Decidable (StartsScalar c) :=
  inferInstanceAs (Decidable (_ ∧ _))

private theorem readValue_scalar {c : CodePoint} (starts : StartsScalar c) (fuel : Nat) (t : Text) :
    readValue (fuel + 1) (c :: t) = readScalar (c :: t) := by
  rw [readValue]
  · exact fun _ isArray => starts.2.1 (List.cons.inj isArray).1
  · exact fun _ isObject => starts.2.2 (List.cons.inj isObject).1

private theorem readsAs_scalar {text more : Text} {c : CodePoint} {value : Json}
    (front : text = c :: more) (starts : StartsScalar c)
    (reads : ∀ rest, Ends rest → readScalar (text ++ rest) = .ok (value, rest)) :
    ReadsAs text value := by
  have opens : Opens text := ⟨c, more, front, starts.1⟩
  refine ⟨opens, ?_⟩
  intro fuel rest enough ends
  obtain ⟨fuel, rfl⟩ := opens.exists_fuel enough
  have scalar := reads rest ends
  rw [front, List.cons_append] at scalar ⊢
  rw [readValue_scalar starts]
  exact scalar

private theorem readsAs_null : ReadsAs ("null" : Text) .null :=
  readsAs_scalar rfl (by decide) fun _ _ => rfl

private theorem readsAs_bool (b : Bool) :
    ReadsAs (if b then ("true" : Text) else ("false" : Text)) (.bool b) := by
  cases b
  · exact readsAs_scalar rfl (by decide) fun _ _ => rfl
  · exact readsAs_scalar rfl (by decide) fun _ _ => rfl

private theorem readsAs_string {s : Text} (characters : ∀ c ∈ s, isCharacter c = true) :
    ReadsAs (printString s) (.str s) := by
  refine readsAs_scalar rfl (by decide) fun rest _ => ?_
  rw [printString_append, readScalar, readStringBody_printed characters]
  rfl

private theorem readWord?_eq_none {t : Text} {c : CodePoint} (digit : Text.isDigit c = true)
    (early : c ∈ t.take 2) : readWord? t = none := by
  have letters : ∀ word ∈ words.map Prod.fst, 2 ≤ word.length ∧
      ∀ c ∈ word.take 2, Text.isDigit c = false := by
    decide
  rw [readWord?, Option.map_eq_none_iff, List.find?_eq_none]
  intro word member starts
  obtain ⟨rest, rfl⟩ := List.isPrefixOf_iff_prefix.mp starts
  obtain ⟨long, none⟩ := letters word.1 (List.mem_map_of_mem member)
  rw [List.take_append_of_le_length long] at early
  rw [none c early] at digit
  cases digit

private theorem ne_of_isDigit {c d : CodePoint} (digit : Text.isDigit c = true)
    (notDigit : Text.isDigit d = false) : c ≠ d := by
  rintro rfl
  rw [digit] at notDigit
  cases notDigit

private theorem readScalar_ofInt (i : Int) {rest : Text} (ends : Ends rest) :
    readScalar (Text.ofInt i ++ rest) =
      if (Text.ofNat i.natAbs).length > digitLimit then
        .error (.integerTooLong (Text.ofNat i.natAbs).length)
      else .ok (.int i, rest) := by
  have digits := Text.isDigit_of_mem_ofNat i.natAbs
  obtain ⟨c, more, front⟩ := List.exists_cons_of_ne_nil (Text.ofNat_ne_nil i.natAbs)
  have digit : Text.isDigit c = true := digits c (by rw [front]; exact List.mem_cons_self ..)
  cases i with
  | ofNat n =>
    have notWord : readWord? (c :: (more ++ rest)) = none :=
      readWord?_eq_none digit (List.mem_cons_self ..)
    have notQuote : c ≠ '"' := ne_of_isDigit digit rfl
    have notSign : c ≠ '-' := ne_of_isDigit digit rfl
    refine Eq.trans ?_ (readNumber_ofNat false n ends)
    change Text.ofNat n = c :: more at front
    rw [Text.ofInt, front, List.cons_append, readScalar]
    · simp only [notWord]
    · exact fun _ isQuoted => notQuote (List.cons.inj isQuoted).1
    · exact fun _ isSigned => notSign (List.cons.inj isSigned).1
  | negSucc n =>
    have notWord : readWord? ('-' :: c :: (more ++ rest)) = none :=
      readWord?_eq_none digit (List.mem_cons_of_mem _ (List.mem_cons_self ..))
    refine Eq.trans ?_ (readNumber_ofNat true (n + 1) ends)
    change Text.ofNat (n + 1) = c :: more at front
    rw [Text.ofInt, front, List.cons_append, List.cons_append, readScalar]
    · simp only [notWord]

theorem exists_start_ofInt (i : Int) : ∃ c more, Text.ofInt i = c :: more ∧ StartsScalar c := by
  cases i with
  | negSucc n => exact ⟨_, _, rfl, by decide⟩
  | ofNat n =>
    obtain ⟨c, more, front⟩ := List.exists_cons_of_ne_nil (Text.ofNat_ne_nil n)
    have digit := Text.isDigit_of_mem_ofNat n c (by rw [front]; exact List.mem_cons_self ..)
    have other (d : CodePoint) (notDigit : Text.isDigit d = false) : c ≠ d :=
      ne_of_isDigit digit notDigit
    refine ⟨c, more, front, ⟨?_, other _ rfl, other _ rfl⟩, other _ rfl, other _ rfl⟩
    simp only [isSpace, Bool.or_eq_false_iff, beq_eq_false_iff_ne]
    exact ⟨⟨⟨other _ rfl, other _ rfl⟩, other _ rfl⟩, other _ rfl⟩

private theorem readsAs_int {i : Int} (short : (Text.ofNat i.natAbs).length ≤ digitLimit) :
    ReadsAs (Text.ofInt i) (.int i) := by
  obtain ⟨c, more, front, starts⟩ := exists_start_ofInt i
  refine readsAs_scalar front starts ?_
  intro rest ends
  rw [readScalar_ofInt i ends, if_neg (Nat.not_lt.mpr short)]

theorem readValue_long {i : Int} (long : digitLimit < (Text.ofNat i.natAbs).length) {rest : Text}
    (ends : Ends rest) (fuel : Nat) :
    readValue (fuel + 1) (Text.ofInt i ++ rest) =
      .error (.integerTooLong (Text.ofNat i.natAbs).length) := by
  have scalar := readScalar_ofInt i ends
  obtain ⟨c, more, front, starts⟩ := exists_start_ofInt i
  rw [front, List.cons_append] at scalar ⊢
  rw [readValue_scalar starts, scalar, if_pos long]

end Scalars

/-- A text reads as items up to the closing bracket, after any blanks. -/
structure ItemsReadAs (text : Text) (items : List Json) : Prop where
  opens : Opens text
  reads : ∀ inner fuel blank rest, text.length ≤ inner → text.length ≤ fuel → Blank blank →
    readItems (readValue inner) fuel (blank ++ (text ++ .scalar ']' :: rest)) = .ok (items, rest)

section Arrays

variable {text more before blank after : Text} {value : Json} {items : List Json}

private theorem itemsReadAs_last (item : ReadsAs text value) (spaces : Blank after) :
    ItemsReadAs (text ++ after) [value] := by
  refine ⟨item.opens.append after, ?_⟩
  intro inner fuel lead rest enoughInner enough blanks
  obtain ⟨fuel, rfl⟩ := (item.opens.append after).exists_fuel enough
  rw [List.length_append] at enoughInner
  have read := item.reads inner (after ++ .scalar ']' :: rest) (by omega) (spaces.ends (by decide))
  have closed : skipSpace (after ++ .scalar ']' :: rest) = .scalar ']' :: rest := spaces.skipSpace rfl
  rw [readItems, List.append_assoc, item.opens.skipSpace blanks, read]
  simp only [bind, Except.bind, closed]
  rfl

private theorem itemsReadAs_cons (item : ReadsAs text value) (spaces : Blank blank)
    (others : ItemsReadAs more items) :
    ItemsReadAs (text ++ .scalar ',' :: blank ++ more) (value :: items) := by
  have split : text ++ .scalar ',' :: blank ++ more = text ++ (.scalar ',' :: (blank ++ more)) := by
    rw [List.append_assoc, List.cons_append]
  rw [split]
  refine ⟨item.opens.append _, ?_⟩
  intro inner fuel lead rest enoughInner enough blanks
  obtain ⟨fuel, rfl⟩ := (item.opens.append _).exists_fuel enough
  simp only [List.length_append, List.length_cons] at enoughInner enough
  have read := item.reads inner (.scalar ',' :: (blank ++ (more ++ .scalar ']' :: rest))) (by omega)
    (Blank.ends (show Blank [] from nofun) (by decide))
  have readMore := others.reads inner fuel blank rest (by omega) (by omega) spaces
  rw [readItems, List.append_assoc, item.opens.skipSpace blanks, List.cons_append, List.append_assoc,
    read]
  have comma (t : Text) : skipSpace (.scalar ',' :: t) = .scalar ',' :: t := rfl
  simp only [bind, Except.bind, comma, readMore]
  rfl

private theorem readsAs_array (all : ItemsReadAs text items) (spaces : Blank before) :
    ReadsAs (.scalar '[' :: before ++ text ++ [.scalar ']']) (.arr items) := by
  have isOpening : Opens (.scalar '[' :: before ++ text ++ [.scalar ']']) :=
    ⟨.scalar '[', before ++ text ++ [.scalar ']'], rfl, by decide⟩
  refine ⟨isOpening, ?_⟩
  intro fuel rest enough _
  obtain ⟨fuel, rfl⟩ := isOpening.exists_fuel enough
  simp only [List.length_append, List.length_cons, List.length_nil] at enough
  have read := all.reads fuel fuel [] rest (by omega) (by omega) nofun
  have skipped : skipSpace (before ++ (text ++ .scalar ']' :: rest)) = text ++ .scalar ']' :: rest :=
    all.opens.skipSpace spaces _
  have split : .scalar '[' :: before ++ text ++ [.scalar ']'] ++ rest =
      .scalar '[' :: (before ++ (text ++ .scalar ']' :: rest)) := by
    simp only [List.cons_append, List.append_assoc, List.nil_append]
  rw [split, readValue, skipped]
  split
  · next same =>
    obtain ⟨c, tail, front, -, notClosed, -⟩ := all.opens
    rw [front] at same
    exact absurd (List.cons.inj same).1 notClosed
  · rw [← List.nil_append (text ++ _), read]
    rfl

end Arrays

/-- A text reads as fields up to the closing brace, after any blanks and fields with other keys. -/
structure FieldsReadAs (text : Text) (fields : List (Text × Json)) : Prop where
  opens : Opens text
  reads : ∀ inner fuel blank before rest, text.length ≤ inner → text.length ≤ fuel → Blank blank →
    ((before ++ fields).map Prod.fst).Nodup →
    readFields (readValue inner) fuel before (blank ++ (text ++ .scalar '\x7d' :: rest)) =
      .ok (before ++ fields, rest)

section Objects

variable {key text more before blank after : Text} {value : Json} {fields : List (Text × Json)}

private theorem put_new {before : List (Text × Json)} (new : key ∉ before.map Prod.fst) :
    put key value before = before ++ [(key, value)] := by
  induction before with
  | nil => rfl
  | cons field before ih =>
    rw [List.map_cons, List.mem_cons, not_or] at new
    have other : (field.1 == key) = false := beq_false_of_ne (Ne.symm new.1)
    rw [put, other, ih new.2]
    rfl

private theorem put_front {before : List (Text × Json)}
    (distinct : ((before ++ (key, value) :: fields).map Prod.fst).Nodup) :
    put key value before = before ++ [(key, value)] := by
  apply put_new
  rw [List.map_append, List.nodup_append] at distinct
  intro member
  exact distinct.2.2 key member key (List.mem_cons_self ..) rfl

private theorem opens_entry (key text : Text) :
    Opens (printString key ++ (": " : Text) ++ text) := by
  rw [List.append_assoc, printString_append]
  exact ⟨_, _, rfl, by decide⟩

private theorem readFields_key (characters : ∀ c ∈ key, isCharacter c = true) (opens : Opens text)
    (blanks : Blank blank) (reader : Reader Json) (fuel : Nat) (before : List (Text × Json)) :
    readFields reader (fuel + 1) before (blank ++ (printString key ++ (": " : Text) ++ text)) =
      (reader text).bind fun found =>
        match skipSpace found.2 with
        | .scalar ',' :: rest => readFields reader fuel (put key found.1 before) rest
        | .scalar '\x7d' :: rest => .ok (put key found.1 before, rest)
        | _ => .error .malformed := by
  have skipped := (opens_entry key text).skipSpace blanks []
  have readKey : readString (printString key ++ (": " : Text) ++ text) =
      .ok (key, (": " : Text) ++ text) := by
    rw [List.append_assoc, printString_append, readString, readStringBody_printed characters]
  have colon : skipSpace ((": " : Text) ++ text) = .scalar ':' :: .scalar ' ' :: text := rfl
  have space := opens.skipSpace blank_space []
  rw [List.append_nil] at skipped space
  rw [readFields, skipped, readKey]
  simp only [bind, Except.bind, colon]
  change (reader (skipSpace ([.scalar ' '] ++ text))).bind _ = _
  rw [space]
  rfl

theorem read_first_error (characters : ∀ c ∈ key, isCharacter c = true) (opens : Opens text)
    {error : ReadError} (fails : ∀ fuel, readValue (fuel + 1) text = .error error) :
    read (.scalar '\x7b' :: (printString key ++ (": " : Text) ++ text)) = .error error := by
  have isOpening := opens_entry key text
  have skipped := isOpening.skipSpace (show Blank [] from nofun) []
  have refused (fuel : Nat) :=
    readFields_key characters opens (show Blank [] from nofun) (readValue (fuel + 1)) fuel []
  obtain ⟨c, more, front, -, -, notClosed⟩ := isOpening
  simp only [List.nil_append, List.append_nil, fails, front] at refused skipped ⊢
  have failed : readValue (more.length + 3) (.scalar '\x7b' :: c :: more) = .error error := by
    rw [readValue, skipped]
    split
    · next same => exact absurd (List.cons.inj same).1 notClosed
    · rw [refused]
      rfl
  rw [read]
  change (readValue (more.length + 3) (.scalar '\x7b' :: c :: more) >>= _) = _
  rw [failed]
  rfl

private theorem fieldsReadAs_last (characters : ∀ c ∈ key, isCharacter c = true)
    (item : ReadsAs text value) (spaces : Blank after) :
    FieldsReadAs (printString key ++ (": " : Text) ++ text ++ after) [(key, value)] := by
  have opens := (opens_entry key text).append after
  refine ⟨opens, ?_⟩
  intro inner fuel lead before rest enoughInner enough blanks distinct
  obtain ⟨fuel, rfl⟩ := opens.exists_fuel enough
  simp only [List.length_append] at enoughInner
  have closed : skipSpace (after ++ .scalar '\x7d' :: rest) = .scalar '\x7d' :: rest :=
    spaces.skipSpace rfl
  have read := item.reads inner (after ++ .scalar '\x7d' :: rest) (by omega) (spaces.ends (by decide))
  rw [List.append_assoc, List.append_assoc, readFields_key characters (item.opens.append _) blanks, read]
  simp only [Except.bind, closed, put_front distinct]

private theorem fieldsReadAs_cons (characters : ∀ c ∈ key, isCharacter c = true)
    (item : ReadsAs text value) (spaces : Blank blank) (others : FieldsReadAs more fields) :
    FieldsReadAs (printString key ++ (": " : Text) ++ text ++ .scalar ',' :: blank ++ more)
      ((key, value) :: fields) := by
  have opens := ((opens_entry key text).append (.scalar ',' :: blank)).append more
  refine ⟨opens, ?_⟩
  intro inner fuel lead before rest enoughInner enough blanks distinct
  obtain ⟨fuel, rfl⟩ := opens.exists_fuel enough
  simp only [List.length_append, List.length_cons] at enoughInner enough
  have ends : Ends (.scalar ',' :: (blank ++ (more ++ .scalar '\x7d' :: rest))) :=
    Blank.ends (show Blank [] from nofun) (by decide)
  have comma (t : Text) : skipSpace (.scalar ',' :: t) = .scalar ',' :: t := rfl
  have set : put key value before = before ++ [(key, value)] := put_front distinct
  have split : printString key ++ (": " : Text) ++ text ++ .scalar ',' :: blank ++ more ++
      .scalar '\x7d' :: rest = printString key ++ (": " : Text) ++
        (text ++ .scalar ',' :: (blank ++ (more ++ .scalar '\x7d' :: rest))) := by
    simp only [List.append_assoc, List.cons_append]
  have read := item.reads inner _ (by omega) ends
  rw [List.append_cons] at distinct
  rw [split, readFields_key characters (item.opens.append _) blanks, read]
  simp only [Except.bind, comma, set, List.append_cons before _ fields]
  exact others.reads inner fuel blank _ rest (by omega) (by omega) spaces distinct

private theorem readsAs_object (all : FieldsReadAs text fields) (spaces : Blank before)
    (distinct : (fields.map Prod.fst).Nodup) :
    ReadsAs (.scalar '\x7b' :: before ++ text ++ [.scalar '\x7d']) (.obj fields) := by
  have isOpening : Opens (.scalar '\x7b' :: before ++ text ++ [.scalar '\x7d']) :=
    ⟨.scalar '\x7b', before ++ text ++ [.scalar '\x7d'], rfl, by decide⟩
  refine ⟨isOpening, ?_⟩
  intro fuel rest enough _
  obtain ⟨fuel, rfl⟩ := isOpening.exists_fuel enough
  simp only [List.length_append, List.length_cons, List.length_nil] at enough
  have read := all.reads fuel fuel [] [] rest (by omega) (by omega) nofun distinct
  have skipped := all.opens.skipSpace spaces (.scalar '\x7d' :: rest)
  have split : .scalar '\x7b' :: before ++ text ++ [.scalar '\x7d'] ++ rest =
      .scalar '\x7b' :: (before ++ (text ++ .scalar '\x7d' :: rest)) := by
    simp only [List.cons_append, List.append_assoc, List.nil_append]
  rw [split, readValue, skipped]
  split
  · next same =>
    obtain ⟨c, tail, front, -, -, notClosed⟩ := all.opens
    rw [front] at same
    exact absurd (List.cons.inj same).1 notClosed
  · rw [← List.nil_append (text ++ _), read]
    rfl

end Objects

/-- The marks and blanks around the parts of an array or object: after the opening mark, after each
comma, and before the closing mark. -/
structure Layout where
  before : Text
  between : Text
  after : Text

def Format.layout (format : Format) (level : Nat) : Layout :=
  match format.indent with
  | none => ⟨[], [.scalar ' '], []⟩
  | some width =>
    let line (n : Nat) : Text := .scalar '\n' :: List.replicate (n * width.toNat) (.scalar ' ')
    ⟨line (level + 1), line (level + 1), line level⟩

section Layouts

variable (format : Format) (level : Nat)

private theorem layout_blank : Blank (format.layout level).before ∧
    Blank (format.layout level).between ∧ Blank (format.layout level).after := by
  have line (n : Nat) : Blank (.scalar '\n' :: List.replicate n (.scalar ' ')) := by
    intro c member
    rcases List.mem_cons.mp member with rfl | space
    · rfl
    · rw [List.eq_of_mem_replicate space]
      rfl
  unfold Format.layout
  split
  · exact ⟨nofun, blank_space, nofun⟩
  · exact ⟨line _, line _, line _⟩

private theorem wrap_eq (opening closing : CodePoint) {items : List Text} (nonempty : items ≠ []) :
    wrap format level opening closing items =
      opening :: (format.layout level).before ++
        (Text.join (.scalar ',' :: (format.layout level).between) items ++
          (format.layout level).after) ++ [closing] := by
  obtain ⟨indent, sorted⟩ := format
  rw [wrap, if_neg (by simpa using nonempty)]
  cases indent with
  | none =>
    change _ = opening :: (Text.join (", " : Text) items ++ []) ++ [closing]
    rw [List.append_nil]
    rfl
  | some width =>
    simp only [Format.layout, List.append_assoc, List.cons_append]

end Layouts

section Printed

variable (indent : Option Int)

private theorem readsAs_emptyArray : ReadsAs [.scalar '[', .scalar ']'] (.arr []) := by
  have opens : Opens [.scalar '[', .scalar ']'] := ⟨.scalar '[', [.scalar ']'], rfl, by decide⟩
  refine ⟨opens, ?_⟩
  intro fuel rest enough _
  obtain ⟨fuel, rfl⟩ := opens.exists_fuel enough
  rfl

private theorem readsAs_emptyObject : ReadsAs [.scalar '\x7b', .scalar '\x7d'] (.obj []) := by
  have opens : Opens [.scalar '\x7b', .scalar '\x7d'] :=
    ⟨.scalar '\x7b', [.scalar '\x7d'], rfl, by decide⟩
  refine ⟨opens, ?_⟩
  intro fuel rest enough _
  obtain ⟨fuel, rfl⟩ := opens.exists_fuel enough
  rfl

mutual

private theorem readsAs_print (level : Nat) : ∀ value : Json, value.Readable isCharacter →
    ReadsAs (value.print { indent } level) value
  | null, _ => readsAs_null
  | bool true, _ => readsAs_bool true
  | bool false, _ => readsAs_bool false
  | int i, readable => readsAs_int readable.number
  | float _, readable => nomatch readable.regular
  | str s, readable => readsAs_string readable.text
  | arr [], _ => readsAs_emptyArray
  | arr (item :: rest), readable => by
    obtain ⟨before, between, after⟩ := layout_blank { indent } level
    have nonempty : printItems { indent } (level + 1) (item :: rest) ≠ [] := List.cons_ne_nil _ _
    have spelled := itemsReadAs_print (level + 1) (item :: rest) (List.cons_ne_nil _ _) readable.item
      between after
    rw [print, wrap_eq _ _ _ _ nonempty]
    exact readsAs_array spelled before
  | obj [], _ => readsAs_emptyObject
  | obj (field :: rest), readable => by
    obtain ⟨before, between, after⟩ := layout_blank { indent } level
    have nonempty : entryTexts indent (level + 1) (field :: rest) ≠ [] := List.cons_ne_nil _ _
    have spelled := fieldsReadAs_print (level + 1) (field :: rest) (List.cons_ne_nil _ _) readable.key
      readable.field between after
    change ReadsAs (wrap { indent } level _ _ (entryTexts indent (level + 1) (field :: rest))) _
    rw [wrap_eq _ _ _ _ nonempty]
    exact readsAs_object spelled before readable.distinct
termination_by structural value => value

private theorem itemsReadAs_print (level : Nat) {between after : Text} : ∀ items :
    List Json, items ≠ [] →
    (∀ item ∈ items, item.Readable isCharacter) → Blank between → Blank after →
    ItemsReadAs (Text.join (.scalar ',' :: between) (printItems { indent } level items) ++ after) items
  | [], nonempty, _, _, _ => absurd rfl nonempty
  | [item], _, readable, _, spaces => by
    have read := readsAs_print level item (readable item (List.mem_cons_self ..))
    exact itemsReadAs_last read spaces
  | item :: next :: rest, _, readable, blanks, spaces => by
    have read := readsAs_print level item (readable item (List.mem_cons_self ..))
    have readRest := itemsReadAs_print level (next :: rest) (List.cons_ne_nil _ _)
      (fun other member => readable other (List.mem_cons_of_mem item member)) blanks spaces
    have whole := itemsReadAs_cons read blanks readRest
    rw [← List.append_assoc] at whole
    exact whole
termination_by structural items => items

private theorem fieldsReadAs_print (level : Nat) {between after : Text} : ∀ fields :
    List (Text × Json), fields ≠ [] → (∀ field ∈ fields, ∀ c ∈ field.1, isCharacter c = true) →
    (∀ field ∈ fields, field.2.Readable isCharacter) → Blank between → Blank after →
    FieldsReadAs (Text.join (.scalar ',' :: between) (entryTexts indent level fields) ++ after) fields
  | [], nonempty, _, _, _, _ => absurd rfl nonempty
  | [(key, value)], _, characters, readable, _, spaces => by
    have read := readsAs_print level value (readable _ (List.mem_cons_self ..))
    exact fieldsReadAs_last (characters _ (List.mem_cons_self ..)) read spaces
  | (key, value) :: next :: rest, _, characters, readable, blanks, spaces => by
    have read := readsAs_print level value (readable _ (List.mem_cons_self ..))
    have readRest := fieldsReadAs_print level (next :: rest) (List.cons_ne_nil _ _)
      (fun other member => characters other (List.mem_cons_of_mem _ member))
      (fun other member => readable other (List.mem_cons_of_mem _ member)) blanks spaces
    have whole := fieldsReadAs_cons (characters _ (List.mem_cons_self ..)) read blanks readRest
    rw [← List.append_assoc] at whole
    exact whole
termination_by structural fields => fields

end

/-- A readable value without halves of pairs is what its whole text spells. -/
theorem read_print {value : Json} (readable : value.Readable isCharacter) :
    read (value.print { indent } 0) = .ok value := by
  obtain ⟨opens, reads⟩ := readsAs_print indent 0 value readable
  have whole := reads (value.print { indent } 0).length.succ [] (Nat.le_succ _) nofun
  have skipped := opens.skipSpace (show Blank [] from nofun) []
  rw [List.append_nil] at whole skipped
  rw [List.nil_append] at skipped
  rw [read, skipped, whole]
  rfl

end Printed

end PugPrinter.Json
