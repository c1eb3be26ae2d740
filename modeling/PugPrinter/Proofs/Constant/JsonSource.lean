import PugPrinter.Document.Load
import PugPrinter.Proofs.Constant.Parsing
import PugPrinter.Proofs.Json.Printed

/-!
JSON values as constant expressions. A value is written as source and read again: its text splits into
the tokens of a phrase that has the value. The main statement is that a value without doubles, with
distinct keys and with code points of the first plane only comes back from its source as it was.
-/

set_option autoImplicit false

namespace PugPrinter.Constant

namespace Token

def Reads (t : Text) (tokens : List Token) : Prop :=
  ∀ fuel, t.length ≤ fuel → readAll? fuel t = some tokens

/-- Nothing that goes on in a name or a number stands at the front of a text. -/
def Ends (t : Text) : Prop :=
  ∀ c ∈ t.head?, continuesName c = false ∧ c ≠ '.'

theorem reads_nil : Reads [] [] := by
  intro fuel _
  cases fuel <;> rfl

section Reads

variable {c : CodePoint} {t rest after : Text} {token : Token} {tokens : List Token}

private theorem Reads.blank (blank : Text.isBlank c = true) (reads : Reads rest tokens) :
    Reads (c :: rest) tokens := by
  intro fuel enough
  have skipped : (c :: rest).dropWhile Text.isBlank = rest.dropWhile Text.isBlank :=
    List.dropWhile_cons_of_pos blank
  have read := reads fuel (by rw [List.length_cons] at enough; omega)
  cases fuel with
  | zero => rw [readAll?, skipped]; exact read
  | succ fuel => rw [readAll?, skipped]; exact read

theorem Reads.next (solid : Text.isBlank c = false) (first : next? (c :: rest) = some (token, after))
    (shorter : after.length ≤ rest.length) (reads : Reads after tokens) :
    Reads (c :: rest) (token :: tokens) := by
  intro fuel enough
  rw [List.length_cons] at enough
  cases fuel with
  | zero => omega
  | succ fuel =>
    have kept : (c :: rest).dropWhile Text.isBlank = c :: rest :=
      List.dropWhile_cons_of_neg (by rw [solid]; exact Bool.false_ne_true)
    rw [readAll?, kept]
    simp only [first, Option.bind_eq_bind, Option.bind_some, reads fuel (by omega), pure]

def marks : List (Char × Symbol) :=
  [('[', .openBracket), (']', .closeBracket), ('\x7b', .openBrace), ('\x7d', .closeBrace),
    (',', .comma), (':', .colon), ('-', .minus)]

theorem Reads.mark {c : Char} {s : Symbol} (mark : (c, s) ∈ marks) (reads : Reads rest tokens) :
    Reads (c :: rest) (.symbol s :: tokens) := by
  simp only [marks, List.mem_cons, Prod.mk.injEq, List.not_mem_nil, or_false] at mark
  rcases mark with ⟨rfl, rfl⟩ | ⟨rfl, rfl⟩ | ⟨rfl, rfl⟩ | ⟨rfl, rfl⟩ | ⟨rfl, rfl⟩ | ⟨rfl, rfl⟩ |
    ⟨rfl, rfl⟩
  all_goals exact reads.next rfl rfl (Nat.le_refl _)

private theorem number?_eq_none (notDigit : Text.isDigit c = false) (notPoint : c ≠ '.') :
    number? (c :: rest) = none := by
  have notZero : c ≠ '0' := by
    rintro rfl
    cases notDigit
  have noRow : Numeral.digits (c :: rest) = ([], c :: rest) := by
    rw [Numeral.digits, List.takeWhile_cons_of_neg, List.dropWhile_cons_of_neg]
    all_goals simp [notDigit]
  have notBased : Numeral.based? (c :: rest) = none := by
    unfold Numeral.based?
    split
    · next same => exact absurd (List.cons.inj same).1 notZero
    · rfl
  have notDecimal : Numeral.mantissa? (c :: rest) = none := by
    simp only [Numeral.mantissa?, noRow]
    split
    · next same => exact absurd (List.cons.inj same).1 notPoint
    · rfl
  rw [number?, notBased, Numeral.decimal?, notDecimal]
  rfl

private theorem isBlank_of_continuesName (goesOn : continuesName c = true) :
    Text.isBlank c = false := by
  have low : ∀ n ≤ 32, continuesName (.scalar (Char.ofNat n)) = false := by decide
  cases c with
  | surrogate index => rfl
  | scalar char =>
    rw [← Bool.not_eq_true]
    intro blank
    simp only [Text.isBlank, CodePoint.holds, Bool.or_eq_true, beq_iff_eq, Bool.and_eq_true,
      decide_eq_true_eq] at blank
    have small : char.toNat ≤ 32 := by
      rcases blank with rfl | ⟨-, atMost⟩
      · decide
      · omega
    have stops := low char.toNat small
    rw [Char.ofNat_toNat, goesOn] at stops
    cases stops

def initials : List Char := ['n', 't', 'f']

private theorem Reads.word {c : Char} {name : Text} (initial : c ∈ initials)
    (goesOn : ∀ c ∈ name, continuesName c = true) (ends : Ends rest) (reads : Reads rest tokens) :
    Reads (.scalar c :: name ++ rest) (.name (.scalar c :: name) :: tokens) := by
  have taken : (name ++ rest).takeWhile continuesName = name :=
    Text.takeWhile_row goesOn fun c isHead => (ends c isHead).1
  have left : (name ++ rest).dropWhile continuesName = rest :=
    Text.dropWhile_row goesOn fun c isHead => (ends c isHead).1
  have shorter : rest.length ≤ (name ++ rest).length := by
    rw [List.length_append]
    omega
  have first : next? (.scalar c :: (name ++ rest)) = some (.name (.scalar c :: name), rest) := by
    simp only [initials, List.mem_cons, List.not_mem_nil, or_false] at initial
    rcases initial with rfl | rfl | rfl
    all_goals
      unfold next?
      rw [number?_eq_none rfl (by decide)]
      change some (Token.name (_ :: (name ++ rest).takeWhile continuesName),
        (name ++ rest).dropWhile continuesName) = _
      rw [taken, left]
  have goOn : initials.all (fun c => continuesName (.scalar c)) = true := rfl
  have solid := isBlank_of_continuesName (List.all_eq_true.mp goOn c initial)
  exact reads.next solid first shorter

private theorem continuesName_of_isDigit (digit : Text.isDigit c = true) :
    continuesName c = true := by
  cases c with
  | surrogate index => cases digit
  | scalar char =>
    have alphanumeric : char.isAlphanum = true := by
      rw [Char.isAlphanum, show char.isDigit = true from digit, Bool.or_true]
    simp [continuesName, Text.isWord, CodePoint.holds, alphanumeric]

private theorem Ends.not_digit (ends : Ends rest) : ∀ c ∈ rest.head?, Text.isDigit c = false := by
  intro c isHead
  rw [← Bool.not_eq_true]
  intro digit
  exact absurd (continuesName_of_isDigit digit) (by simp [(ends c isHead).1])

private theorem Ends.based? (ends : Ends rest) (n : Nat) :
    Numeral.based? (Text.ofNat n ++ rest) = none := by
  unfold Numeral.based?
  split
  · next mark tail same =>
    cases digits : Text.ofNat n with
    | nil => exact absurd digits (Text.ofNat_ne_nil n)
    | cons c more =>
      rw [digits, List.cons_append] at same
      obtain ⟨rfl, after⟩ := List.cons.inj same
      rw [(Text.eq_zero_of_ofNat n digits).2, List.nil_append] at after
      have stops : continuesName mark = false := (ends mark (by rw [after]; rfl)).1
      have noBase : Numeral.base? mark = none := by
        unfold Numeral.base?
        simp only [Bool.or_eq_true, beq_iff_eq]
        split
        · next letter => rcases letter with rfl | rfl <;> cases stops
        split
        · next letter => rcases letter with rfl | rfl <;> cases stops
        split
        · next letter => rcases letter with rfl | rfl <;> cases stops
        · rfl
      rw [noBase]
      rfl
  · rfl

private theorem Ends.exponent (ends : Ends rest) : Numeral.exponent rest = (none, rest) := by
  unfold Numeral.exponent
  split
  · next mark tail =>
    have stops : continuesName mark = false := (ends mark rfl).1
    split
    · next letter =>
      simp only [Bool.or_eq_true, beq_iff_eq] at letter
      rcases letter with rfl | rfl <;> cases stops
    · rfl
  · rfl

private theorem number?_ofNat {n : Nat} (short : (Text.ofNat n).length ≤ Number.digitLimit)
    (ends : Ends rest) : number? (Text.ofNat n ++ rest) = some (some (.int n), rest) := by
  have digits := Text.isDigit_of_mem_ofNat n
  have row : Numeral.digits (Text.ofNat n ++ rest) = (Text.ofNat n, rest) := by
    rw [Numeral.digits, Text.takeWhile_row digits ends.not_digit,
      Text.dropWhile_row digits ends.not_digit]
  have mantissa : Numeral.mantissa? (Text.ofNat n ++ rest) = some (⟨Text.ofNat n, none⟩, rest) := by
    simp only [Numeral.mantissa?, row]
    split
    · next tail => exact absurd rfl (ends '.' rfl).2
    · rw [if_neg]
      rw [List.isEmpty_iff]
      exact Text.ofNat_ne_nil n
  simp only [number?, ends.based? n, Numeral.decimal?, mantissa, Option.bind_eq_bind, Option.bind_some,
    ends.exponent, Option.isNone_none, Bool.and_self, if_pos, short, Text.natOfDigits_ofNat]
  rfl

private theorem Reads.number {n : Nat} (short : (Text.ofNat n).length ≤ Number.digitLimit)
    (ends : Ends rest) (reads : Reads rest tokens) :
    Reads (Text.ofNat n ++ rest) (.literal (.num (.int n)) :: tokens) := by
  have number := number?_ofNat short ends
  have digits := Text.isDigit_of_mem_ofNat n
  cases text : Text.ofNat n with
  | nil => exact absurd text (Text.ofNat_ne_nil n)
  | cons c more =>
    rw [text, List.cons_append] at number
    have digit : Text.isDigit c = true := digits c (by rw [text]; exact List.mem_cons_self ..)
    have solid := isBlank_of_continuesName (continuesName_of_isDigit digit)
    have first : next? (c :: (more ++ rest)) = some (.literal (.num (.int n)), rest) := by
      unfold next?
      rw [number]
      rfl
    have shorter : rest.length ≤ (more ++ rest).length := by
      rw [List.length_append]
      omega
    exact reads.next solid first shorter

end Reads

theorem next?_quoted (q : Quote) (t : Text) :
    next? (q.mark :: t) = ofBody? (quotedBody? q.mark t) := by
  have noNumber : number? (q.mark :: t) = none := by
    cases q
    · exact number?_eq_none rfl (by decide)
    · exact number?_eq_none rfl (by decide)
  unfold next?
  rw [noNumber]
  cases q <;> rfl

def Skips (mark : CodePoint) (text : Text) : Prop :=
  ∀ t, quotedBody? mark (text ++ t) =
    (quotedBody? mark t).map fun found => (text ++ found.1, found.2)

section Skips

variable {mark : CodePoint}

private theorem skips_nil : Skips mark [] := by
  intro t
  exact Option.map_id'.symm

theorem Skips.append {text more : Text} (skips : Skips mark text) (after : Skips mark more) :
    Skips mark (text ++ more) := by
  intro t
  rw [List.append_assoc, skips, after, Option.map_map]
  simp only [Function.comp_def, List.append_assoc]

private theorem skips_flatMap {α : Type} {spelled : α → Text} {items : List α}
    (each : ∀ item ∈ items, Skips mark (spelled item)) : Skips mark (items.flatMap spelled) := by
  induction items with
  | nil => exact skips_nil
  | cons item items ih =>
    rw [List.forall_mem_cons] at each
    exact each.1.append (ih each.2)

theorem skips_escape (c : CodePoint) : Skips mark ['\\', c] :=
  fun _ => rfl

theorem skips_plain {c : CodePoint} (notMark : c ≠ mark) (notBackslash : c ≠ '\\')
    (notBreak : c ≠ '\n') : Skips mark [c] := by
  intro t
  rw [List.singleton_append, quotedBody?]
  · rw [if_neg (by simpa using notMark), if_neg (by simpa using notBreak)]
    rfl
  · exact fun isBackslash _ => notBackslash isBackslash
  · exact fun _ _ isBackslash _ => notBackslash isBackslash

private theorem skips_hexDigit (q : Quote) {c : CodePoint} (digit : Text.isHexDigit c = true) :
    Skips q.mark [c] := by
  apply skips_plain
  · rintro rfl
    cases q <;> cases digit
  · rintro rfl
    cases digit
  · rintro rfl
    cases digit

theorem skips_hexDigits (q : Quote) {row : Text} (digits : row.all Text.isHexDigit = true) :
    Skips q.mark row := by
  rw [← List.flatMap_singleton' row]
  exact skips_flatMap fun c member => skips_hexDigit q (List.all_eq_true.mp digits c member)

end Skips

private def Passes (text : Text) : Prop :=
  ∀ t, quotedBody? '"' (text ++ t) =
    (quotedBody? '"' t).map fun found => (text ++ found.1, found.2)

section Strings

private theorem passes_unit {code : Nat} (unit : code < 0x10000) :
    Passes (Json.unitEscape code) := by
  obtain ⟨a, b, c, d, isHex, digits, -⟩ := Text.hex_four unit
  rw [Json.unitEscape, isHex]
  exact (skips_escape 'u').append (skips_hexDigits .double digits)

private theorem passes_printPoint (c : CodePoint) : Passes (Json.printPoint c) := by
  have ways := Json.printed c
  generalize Json.printPoint c = text at ways
  cases ways with
  | letter escape => exact skips_escape _
  | plain low high notQuote notBackslash =>
    refine skips_plain notQuote notBackslash ?_
    rintro rfl
    exact absurd low (by decide)
  | unit unit => exact passes_unit unit
  | pair past =>
    have bounded := c.code_lt
    exact Skips.append (passes_unit (by omega)) (passes_unit (by omega))

private theorem passes_flatMap (s : Text) : Passes (s.flatMap Json.printPoint) :=
  skips_flatMap fun c _ => passes_printPoint c

theorem unescape?_escape {text t after : Text} (escape : escape? t = some (text, after))
    (fuel : Nat) : unescape? (fuel + 1) ('\\' :: t) = (unescape? fuel after).map (text ++ ·) := by
  rw [unescape?, escape]
  change (unescape? fuel after).bind (fun rest => some (text ++ rest)) = _
  cases unescape? fuel after <;> rfl

private theorem escape?_unit {c : CodePoint} (unit : c.code < 0x10000) (t : Text) :
    escape? ('u' :: (Text.hex 4 c.code ++ t)) = some ([c], t) := by
  obtain ⟨a, b, d, e, isHex, digits, spelled⟩ := Text.hex_four unit
  have unbraced : bracedCode? (a :: b :: d :: e :: t) = none := by
    unfold bracedCode?
    split
    · next same =>
      rw [(List.cons.inj same).1] at digits
      cases digits
    · rfl
  have fixed : fixedCode? 4 (a :: b :: d :: e :: t) = some (c.code, t) := by
    change (if ([a, b, d, e].length == 4 && [a, b, d, e].all Text.isHexDigit) = true then
      some (Text.natOfDigits 16 [a, b, d, e], t) else none) = _
    rw [digits, spelled]
    rfl
  rw [isHex]
  change escape? (CodePoint.scalar 'u' :: a :: b :: d :: e :: t) = _
  simp only [escape?, unbraced, fixed, Option.none_or, CodePoint.ofCode?_code, Option.map_some]

private theorem unescape?_printPoint {c : CodePoint} (unit : c.code < 0x10000) (fuel : Nat)
    (t : Text) :
    unescape? (fuel + 1) (Json.printPoint c ++ t) = (unescape? fuel t).map (c :: ·) := by
  have ways := Json.printed c
  generalize Json.printPoint c = text at ways
  cases ways with
  | letter escape =>
    refine @unescape?_escape [_] _ t ?_ fuel
    simp only [Json.letterEscapes, List.mem_cons, Prod.mk.injEq, List.not_mem_nil, or_false] at escape
    rcases escape with ⟨rfl, rfl⟩ | ⟨rfl, rfl⟩ | ⟨rfl, rfl⟩ | ⟨rfl, rfl⟩ | ⟨rfl, rfl⟩ | ⟨rfl, rfl⟩ |
      ⟨rfl, rfl⟩
    all_goals rfl
  | plain low high notQuote notBackslash =>
    rw [List.singleton_append, unescape?]
    · cases unescape? fuel t <;> rfl
    · exact notBackslash
  | unit _ => exact unescape?_escape (escape?_unit unit t) fuel
  | pair past => omega

private theorem unescape?_flatMap {s : Text} (units : ∀ c ∈ s, c.code < 0x10000) {fuel : Nat}
    (enough : s.length ≤ fuel) : unescape? fuel (s.flatMap Json.printPoint) = some s := by
  induction s generalizing fuel with
  | nil => cases fuel <;> rfl
  | cons c s ih =>
    rw [List.length_cons] at enough
    obtain ⟨fuel, rfl⟩ : ∃ n, fuel = n + 1 := ⟨fuel - 1, by omega⟩
    rw [List.flatMap_cons, unescape?_printPoint (units c (List.mem_cons_self ..)),
      ih (fun d member => units d (List.mem_cons_of_mem c member)) (by omega)]
    rfl

private theorem length_le_flatMap (s : Text) : s.length ≤ (s.flatMap Json.printPoint).length := by
  induction s with
  | nil => exact Nat.le_refl _
  | cons c s ih =>
    have positive := List.length_pos_iff.mpr (Json.printPoint_ne_nil c)
    rw [List.flatMap_cons, List.length_append, List.length_cons]
    omega

private theorem Reads.string {s rest : Text} {tokens : List Token}
    (units : ∀ c ∈ s, c.code < 0x10000) (reads : Reads rest tokens) :
    Reads (Json.printString s ++ rest) (.literal (.str s) :: tokens) := by
  have body : quotedBody? '"' (s.flatMap Json.printPoint ++ .scalar '"' :: rest) =
      some (s.flatMap Json.printPoint, rest) := by
    rw [passes_flatMap s]
    change some (_ ++ [], _) = _
    rw [List.append_nil]
  have first : next? ('"' :: (s.flatMap Json.printPoint ++ .scalar '"' :: rest)) =
      some (.literal (.str s), rest) := by
    have literal : next? ('"' :: (s.flatMap Json.printPoint ++ .scalar '"' :: rest)) =
        ofBody? (quotedBody? '"' (s.flatMap Json.printPoint ++ .scalar '"' :: rest)) :=
      next?_quoted .double _
    rw [literal, ofBody?, body]
    simp only [Option.bind_eq_bind, Option.bind_some, unescape?_flatMap units (length_le_flatMap s),
      pure]
  rw [Json.printString_append]
  refine reads.next rfl first ?_
  simp only [List.length_append, List.length_cons]
  omega

end Strings

end Token

open Token

private def SpellsPhrase (text : Text) (height : Nat) (value : Value) : Prop :=
  ∃ p : Phrase .conditional, p.height = height ∧ p.value? = some value ∧
    ∀ rest more, Ends rest → Reads rest more → Reads (text ++ rest) (p.tokens ++ more)

private def SpellsItems (text : Text) (height : Nat) (values : List Value) : Prop :=
  ∃ items : Items, items.height = height ∧ items.values? = some values ∧
    ∀ rest more, Reads rest more → Reads (text ++ .scalar ']' :: rest) (items.tokens ++ more)

/-- A text that spells fields up to the closing brace; set after others, they come behind them. -/
private def SpellsFields (text : Text) (height : Nat) (entries : List (Text × Value)) : Prop :=
  ∃ fields : Fields, fields.height = height ∧
    (∀ before, (before ++ entries).map Prod.fst |>.Nodup → fields.values? before = some (before ++ entries)) ∧
    ∀ rest more, Reads rest more → Reads (text ++ .scalar '\x7d' :: rest) (fields.tokens ++ more)

section Phrases

variable {text more : Text} {height least : Nat} {value : Value}

private theorem ends_mark {c : CodePoint}
    (mark : c ∈ marks.map fun entry => CodePoint.scalar entry.1)
    (rest : Text) : Ends (c :: rest) := by
  have stops : ∀ c ∈ marks.map (fun entry => CodePoint.scalar entry.1),
      continuesName c = false ∧ c ≠ '.' := by
    decide
  rintro _ ⟨⟩
  exact stops c mark

private theorem ends_separator (rest : Text) : Ends ((", " : Text) ++ rest) :=
  ends_mark (c := .scalar ',') (by decide) _

private theorem spellsPhrase_primary (p : Phrase .primary) (isValue : p.value? = some value)
    (reads : ∀ rest more, Ends rest → Reads rest more → Reads (text ++ rest) (p.tokens ++ more)) :
    SpellsPhrase text (p.height + 10) value := by
  refine ⟨Phrase.loosened (.step (by decide) p), rfl, ?_, ?_⟩
  · simp only [Phrase.loosened, Phrase.loosenedPower, Phrase.value?]
    exact isValue
  · simp only [Phrase.loosened, Phrase.loosenedPower, Phrase.tokens]
    exact reads

private theorem spellsPhrase_keyword (word : Keyword) (isJson : word ∈ [.null, .true, .false]) :
    SpellsPhrase word.spelling 11 word.value := by
  refine spellsPhrase_primary (.keyword word) rfl ?_
  intro rest more ends reads
  simp only [List.mem_cons, List.not_mem_nil, or_false] at isJson
  rcases isJson with rfl | rfl | rfl
  all_goals exact reads.word (by decide) (by decide) ends

private theorem spellsPhrase_int {i : Int}
    (short : (Text.ofNat i.natAbs).length ≤ Number.digitLimit) :
    SpellsPhrase (Text.ofInt i) (if i < 0 then 12 else 11) (.num (.int i)) := by
  cases i with
  | ofNat n =>
    refine spellsPhrase_primary (.literal (.num (.int n))) rfl ?_
    intro rest more ends reads
    exact reads.number short ends
  | negSucc n =>
    refine ⟨Phrase.loosened (.applied .neg (.step (by decide) (.literal (.num (.int (n + 1 : Nat)))))),
      (if_pos (Int.negSucc_lt_zero n)).symm, rfl, ?_⟩
    intro rest more ends reads
    exact (reads.number short ends).mark (by decide)

private theorem spellsPhrase_string {s : Text} (units : ∀ c ∈ s, c.code < 0x10000) :
    SpellsPhrase (Json.printString s) 11 (.str s) := by
  refine spellsPhrase_primary (.literal (.str s)) rfl ?_
  intro rest more _ reads
  exact reads.string units

private theorem spellsPhrase_array {values : List Value} (items : SpellsItems text height values) :
    SpellsPhrase (Text.between '[' ']' text) (height + 11) (.arr values) := by
  obtain ⟨items, rfl, isValues, spelled⟩ := items
  refine spellsPhrase_primary (.array items) (by rw [Phrase.value?, isValues]; rfl) ?_
  intro rest more _ reads
  rw [Text.between, List.cons_append, List.cons_append, List.append_assoc, Phrase.tokens]
  exact (spelled rest more reads).mark (by decide)

private theorem spellsPhrase_object {entries : List (Text × Value)}
    (fields : SpellsFields text height entries) (distinct : (entries.map Prod.fst).Nodup) :
    SpellsPhrase (Text.between '\x7b' '\x7d' text) (height + 11) (.obj entries) := by
  obtain ⟨fields, rfl, isEntries, spelled⟩ := fields
  have value : (Phrase.object fields).value? = some (.obj entries) := by
    rw [Phrase.value?, isEntries [] distinct]
    rfl
  refine spellsPhrase_primary (.object fields) value ?_
  intro rest more _ reads
  rw [Text.between, List.cons_append, List.cons_append, List.append_assoc, Phrase.tokens]
  exact (spelled rest more reads).mark (by decide)

private theorem spellsItems_nil : SpellsItems [] 0 [] :=
  ⟨.closed, rfl, rfl, fun _ _ reads => reads.mark (by decide)⟩

private theorem spellsItems_last (item : SpellsPhrase text height value) :
    SpellsItems text height [value] := by
  obtain ⟨p, rfl, isValue, spelled⟩ := item
  refine ⟨.last p, rfl, by rw [Items.values?, isValue]; rfl, ?_⟩
  intro rest more reads
  have closed : Reads (.scalar ']' :: rest) (.symbol .closeBracket :: more) := reads.mark (by decide)
  rw [Items.tokens, List.append_assoc]
  exact spelled _ _ (ends_mark (by decide) rest) closed

private theorem Token.Reads.separated {rest : Text} {tokens : List Token}
    (reads : Reads rest tokens) :
    Reads ((", " : Text) ++ rest) (.symbol .comma :: tokens) := by
  have blank : Reads (.scalar ' ' :: rest) tokens := reads.blank rfl
  exact blank.mark (by decide)

private theorem spellsItems_cons {values : List Value} (item : SpellsPhrase text height value)
    (items : SpellsItems more least values) :
    SpellsItems (text ++ (", " : Text) ++ more) (max height least) (value :: values) := by
  obtain ⟨p, rfl, isValue, spelled⟩ := item
  obtain ⟨items, rfl, isValues, spelledItems⟩ := items
  refine ⟨.item p items, rfl, by rw [Items.values?, isValue, isValues]; rfl, ?_⟩
  intro rest tokens reads
  have separated := (spelledItems rest tokens reads).separated
  rw [Items.tokens, List.append_assoc, List.append_assoc, List.append_assoc, List.cons_append]
  exact spelled _ _ (ends_separator _) separated

private theorem Token.Reads.key {key rest : Text} {tokens : List Token}
    (units : ∀ c ∈ key, c.code < 0x10000) (reads : Reads rest tokens) :
    Reads (Json.printString key ++ (": " : Text) ++ rest)
      (.literal (.str key) :: .symbol .colon :: tokens) := by
  have blank : Reads (.scalar ' ' :: rest) tokens := reads.blank rfl
  have colon : Reads ((": " : Text) ++ rest) (.symbol .colon :: tokens) := blank.mark (by decide)
  rw [List.append_assoc]
  exact colon.string units

private theorem putField_new {name : Text} {before : List (Text × Value)}
    (new : name ∉ before.map Prod.fst) : putField name value before = before ++ [(name, value)] := by
  induction before with
  | nil => rfl
  | cons field before ih =>
    rw [List.map_cons, List.mem_cons, not_or] at new
    have other : (field.1 == name) = false := beq_false_of_ne (Ne.symm new.1)
    rw [putField, other, ih new.2]
    rfl

private theorem putField_front {name : Text} {before entries : List (Text × Value)}
    (distinct : ((before ++ (name, value) :: entries).map Prod.fst).Nodup) :
    putField name value before = before ++ [(name, value)] := by
  apply putField_new
  rw [List.map_append, List.nodup_append] at distinct
  intro member
  exact distinct.2.2 name member name (List.mem_cons_self ..) rfl

private theorem spellsFields_nil : SpellsFields [] 0 [] := by
  refine ⟨.closed, rfl, fun before _ => ?_, fun _ _ reads => reads.mark (by decide)⟩
  rw [Fields.values?, List.append_nil]

private theorem spellsFields_last {key : Text} (units : ∀ c ∈ key, c.code < 0x10000)
    (item : SpellsPhrase text height value) :
    SpellsFields (Json.printString key ++ (": " : Text) ++ text) height [(key, value)] := by
  obtain ⟨p, rfl, isValue, spelled⟩ := item
  refine ⟨.last (.literal (.str key)) p, rfl, ?_, ?_⟩
  · intro before distinct
    rw [← putField_front distinct, Fields.values?, isValue]
    rfl
  · intro rest more reads
    have closed : Reads (.scalar '\x7d' :: rest) (.symbol .closeBrace :: more) := reads.mark (by decide)
    have whole := (spelled _ _ (ends_mark (by decide) rest) closed).key units
    simpa only [Fields.tokens, Key.token, List.append_assoc, List.cons_append, List.nil_append]
      using whole

private theorem spellsFields_cons {key : Text} {entries : List (Text × Value)}
    (units : ∀ c ∈ key, c.code < 0x10000) (item : SpellsPhrase text height value)
    (fields : SpellsFields more least entries) :
    SpellsFields (Json.printString key ++ (": " : Text) ++ text ++ (", " : Text) ++ more)
      (max height least) ((key, value) :: entries) := by
  obtain ⟨p, rfl, isValue, spelled⟩ := item
  obtain ⟨fields, rfl, isEntries, spelledFields⟩ := fields
  refine ⟨.field (.literal (.str key)) p fields, rfl, ?_, ?_⟩
  · intro before distinct
    have set : putField key value before = before ++ [(key, value)] := putField_front distinct
    rw [List.append_cons] at distinct ⊢
    rw [← isEntries _ distinct, ← set, Fields.values?, isValue]
    rfl
  · intro rest tokens reads
    have separated := (spelledFields rest tokens reads).separated
    have whole := (spelled _ _ (ends_separator _) separated).key units
    simpa only [Fields.tokens, Key.token, List.append_assoc, List.cons_append] using whole

end Phrases

mutual

/-- A JSON value as a constant: arrays and objects keep their order. -/
def Value.ofJson : Json → Value
  | .null => .null
  | .bool b => .bool b
  | .int i => .num (.int i)
  | .float f => .num (.normal f)
  | .str s => .str s
  | .arr items => .arr (Value.ofItems items)
  | .obj fields => .obj (Value.ofFields fields)
termination_by structural value => value

def Value.ofItems : List Json → List Value
  | [] => []
  | item :: rest => Value.ofJson item :: Value.ofItems rest
termination_by structural items => items

def Value.ofFields : List (Text × Json) → List (Text × Value)
  | [] => []
  | (key, value) :: rest => (key, Value.ofJson value) :: Value.ofFields rest
termination_by structural fields => fields

end

mutual

/-- How many steps of the grammar the source of a value nests: eleven down to the tightest level, one
more below a sign, and below brackets and braces those of what stands inside. -/
def jsonSteps : Json → Nat
  | .int i => if i < 0 then 12 else 11
  | .arr items => itemSteps items + 11
  | .obj fields => fieldSteps fields + 11
  | _ => 11
termination_by structural value => value

def itemSteps : List Json → Nat
  | [] => 0
  | item :: rest => max (jsonSteps item) (itemSteps rest)
termination_by structural items => items

def fieldSteps : List (Text × Json) → Nat
  | [] => 0
  | (_, value) :: rest => max (jsonSteps value) (fieldSteps rest)
termination_by structural fields => fields

end

private theorem fst_ofFields (fields : List (Text × Json)) :
    (Value.ofFields fields).map Prod.fst = fields.map Prod.fst := by
  induction fields with
  | nil => rfl
  | cons field rest ih => rw [Value.ofFields, List.map_cons, List.map_cons, ih]

/-- The code points of the first plane, each of which one escape can spell. -/
def isBasic (c : CodePoint) : Bool :=
  c.code < 0x10000

private theorem wrap_compact (level : Nat) (opening closing : CodePoint) (items : List Text) :
    Json.wrap {} level opening closing items =
      Text.between opening closing (Text.join (", " : Text) items) := by
  cases items <;> rfl

mutual

private theorem spellsPhrase_print (level : Nat) : ∀ value : Json, value.Readable isBasic →
    SpellsPhrase (value.print {} level) (jsonSteps value) (Value.ofJson value)
  | .null, _ => spellsPhrase_keyword .null (by decide)
  | .bool true, _ => spellsPhrase_keyword .true (by decide)
  | .bool false, _ => spellsPhrase_keyword .false (by decide)
  | .int i, readable => spellsPhrase_int readable.number
  | .float _, readable => nomatch readable.regular
  | .str s, readable => by
    exact spellsPhrase_string fun c member => of_decide_eq_true (readable.text c member)
  | .arr items, readable => by
    rw [Json.print, wrap_compact]
    exact spellsPhrase_array (spellsItems_print (level + 1) items readable.item)
  | .obj fields, readable => by
    rw [Json.print, wrap_compact]
    have keys (field : Text × Json) (member : field ∈ fields) (c : CodePoint) (among : c ∈ field.1) :
        c.code < 0x10000 :=
      of_decide_eq_true (readable.key field member c among)
    have spelled := spellsFields_print (level + 1) fields keys readable.field
    exact spellsPhrase_object spelled (by rw [fst_ofFields]; exact readable.distinct)
termination_by structural value => value

private theorem spellsItems_print (level : Nat) : ∀ items : List Json,
    (∀ item ∈ items, item.Readable isBasic) →
    SpellsItems (Text.join (", " : Text) (Json.printItems {} level items)) (itemSteps items)
      (Value.ofItems items)
  | [], _ => spellsItems_nil
  | [item], readable => by
    have spelled := spellsPhrase_print level item (readable item (List.mem_cons_self ..))
    rw [itemSteps, itemSteps, Nat.max_zero]
    exact spellsItems_last spelled
  | item :: next :: rest, readable => by
    have spelled := spellsPhrase_print level item (readable item (List.mem_cons_self ..))
    have spelledRest := spellsItems_print level (next :: rest) fun other member =>
      readable other (List.mem_cons_of_mem item member)
    exact spellsItems_cons spelled spelledRest
termination_by structural items => items

private theorem spellsFields_print (level : Nat) : ∀ fields : List (Text × Json),
    (∀ field ∈ fields, ∀ c ∈ field.1, c.code < 0x10000) →
    (∀ field ∈ fields, field.2.Readable isBasic) →
    SpellsFields (Text.join (", " : Text) (Json.entryTexts none level fields)) (fieldSteps fields)
      (Value.ofFields fields)
  | [], _, _ => spellsFields_nil
  | [(key, value)], units, readable => by
    have spelled := spellsPhrase_print level value (readable _ (List.mem_cons_self ..))
    rw [fieldSteps, fieldSteps, Nat.max_zero]
    exact spellsFields_last (units _ (List.mem_cons_self ..)) spelled
  | (key, value) :: next :: rest, units, readable => by
    have spelled := spellsPhrase_print level value (readable _ (List.mem_cons_self ..))
    have spelledRest := spellsFields_print level (next :: rest)
      (fun other member => units other (List.mem_cons_of_mem _ member))
      (fun other member => readable other (List.mem_cons_of_mem _ member))
    exact spellsFields_cons (units _ (List.mem_cons_self ..)) spelled spelledRest
termination_by structural fields => fields

end

/-- A text that reads as the tokens of a phrase within the limit has the value of the phrase. -/
theorem fold?_of_phrase {source : Text} {limit : Nat} (p : Phrase .conditional)
    (reads : Reads source p.tokens) (low : p.height ≤ limit) : fold? source limit = p.value? := by
  have tokens : tokenize? source = some p.tokens := reads _ (Nat.le_refl _)
  have parsed : Grammar.parse? p.tokens limit = some p.expr :=
    Grammar.parse?_eq_some_iff.mpr ⟨p, rfl, rfl, low⟩
  rw [fold?, tokens, Option.bind_eq_bind, Option.bind_some, parsed, Option.bind_eq_bind,
    Option.bind_some, p.eval_expr]

/-- A value that is no text comes back from its source, unless it is nested more deeply than the limit:
null, truth values, whole numbers, strings, arrays and objects with all their fields in order. -/
theorem fold?_expressionSource {value : Json} {limit : Nat} (notText : ∀ s, value ≠ .str s)
    (regular : value.isRegular = true) (numbers : value.hasShortNumbers = true)
    (texts : value.hasTexts isBasic = true) (shallow : jsonSteps value ≤ limit) :
    fold? (Document.expressionSource value) limit = some (Value.ofJson value) := by
  obtain ⟨p, height, isValue, spelled⟩ := spellsPhrase_print 0 value ⟨regular, numbers, texts⟩
  have source : Document.expressionSource value = value.print {} 0 := by
    unfold Document.expressionSource
    split
    · next s => exact absurd rfl (notText s)
    · rfl
  have reads : Reads (value.print {} 0) p.tokens := by
    have whole := spelled [] [] nofun reads_nil
    rwa [List.append_nil, List.append_nil] at whole
  rw [source, fold?_of_phrase p reads (by omega)]
  exact isValue

/-- A value with escapes in keys and strings, a negative number, and an object below an array. -/
def sampleJson : Json :=
  .obj [("a\n\"", .arr [.int (-12), .null, .obj [("\u00e9", .bool true)], .arr []]), ("b", .str "\\")]

theorem fold?_expressionSource_sample :
    Document.expressionSource sampleJson =
      ("\x7b\"a\\n\\\"\": [-12, null, \x7b\"\\u00e9\": true\x7d, []], \"b\": \"\\\\\"\x7d" : Text) ∧
    fold? (Document.expressionSource sampleJson) =
      some (.obj [("a\n\"", .arr [.num (.int (-12)), .null, .obj [("\u00e9", .bool true)], .arr []]),
        ("b", .str "\\")]) :=
  ⟨by decide +kernel, fold?_expressionSource nofun (by decide +kernel) (by decide +kernel) (by decide +kernel)
    (by decide)⟩

end PugPrinter.Constant
