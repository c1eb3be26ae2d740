import Mathlib.Data.List.Induction
import Mathlib.Data.Nat.Digits.Defs
import PugPrinter.Proofs.Quotation

/-!
String literals of every spelling. The scan for the closing mark and the reading of the body split a
literal at the same places, so it stands for what its parts stand for. There is one exception: a
backslash before a carriage return and a line feed is read as one continuation of the line, but the
scan takes only the carriage return along, and stops at the line feed.
-/

set_option autoImplicit false

namespace PugPrinter.Constant

/-- A hexadecimal digit as it is written: its value, and whether a letter is a capital one. -/
structure HexDigit where
  value : Fin 16
  capital : Bool

namespace HexDigit

def small : List Char :=
  ['0', '1', '2', '3', '4', '5', '6', '7', '8', '9', 'a', 'b', 'c', 'd', 'e', 'f']

def capitals : List Char :=
  ['0', '1', '2', '3', '4', '5', '6', '7', '8', '9', 'A', 'B', 'C', 'D', 'E', 'F']

def point (d : HexDigit) : CodePoint :=
  .scalar (if d.capital then capitals.get d.value else small.get d.value)

private theorem isHexDigit_point (d : HexDigit) : Text.isHexDigit d.point = true := by
  obtain ⟨value, capital⟩ := d
  revert value capital
  decide

private theorem digitValue_point (d : HexDigit) : Text.digitValue d.point = d.value := by
  obtain ⟨value, capital⟩ := d
  revert value capital
  decide

private theorem all_isHexDigit (digits : List HexDigit) :
    (digits.map point).all Text.isHexDigit = true := by
  rw [List.all_map, List.all_eq_true]
  exact fun d _ => d.isHexDigit_point

def number (digits : List HexDigit) : Nat :=
  Nat.ofDigits 16 (digits.reverse.map fun d => d.value.val)

private theorem natOfDigits_points (digits : List HexDigit) :
    Text.natOfDigits 16 (digits.map point) = number digits := by
  induction digits using List.reverseRecOn with
  | nil => rfl
  | append_singleton digits d ih =>
    rw [List.map_append, List.map_singleton, Text.natOfDigits_append_digit, ih, digitValue_point,
      number, number, List.reverse_append, List.reverse_singleton, List.singleton_append,
      List.map_cons, Nat.ofDigits_cons]
    omega

end HexDigit

/-- The ways to spell a code point by its number: two digits, four digits, or any row in braces. -/
inductive NumberedEscape where
  | byte (first second : HexDigit)
  | unit (first second third fourth : HexDigit)
  | braced (first : HexDigit) (more : List HexDigit)

namespace NumberedEscape

def digits : NumberedEscape → List HexDigit
  | byte first second => [first, second]
  | unit first second third fourth => [first, second, third, fourth]
  | braced first more => first :: more

def spelled : NumberedEscape → Text
  | byte first second => 'x' :: [first, second].map HexDigit.point
  | unit first second third fourth => 'u' :: [first, second, third, fourth].map HexDigit.point
  | braced first more => 'u' :: Text.between '{' '}' ((first :: more).map HexDigit.point)

end NumberedEscape

def lineTerminators : List CodePoint :=
  ['\n', '\r', '\u2028', '\u2029']

def controlLetters : List (CodePoint × CodePoint) :=
  [('b', '\x08'), ('t', '\x09'), ('n', '\x0a'), ('v', '\x0b'), ('f', '\x0c'), ('r', '\x0d')]

inductive LiteralPart (mark : CodePoint) where
  /-- A code point that stands for itself. -/
  | plain (c : CodePoint) (free : c ≠ mark ∧ c ≠ '\\' ∧ c ≠ '\n')
  /-- A code point after a backslash, which spells no number and ends no line. -/
  | single (c : CodePoint)
    (free : c ≠ 'u' ∧ c ≠ 'x' ∧ Text.isDigit c = false ∧ c ∉ lineTerminators)
  /-- The zero after a backslash. -/
  | null
  /-- A code point by its number. -/
  | numbered (escape : NumberedEscape) (c : CodePoint)
    (spells : c.code = HexDigit.number escape.digits)
  /-- The end of a line after a backslash. -/
  | continued (c : CodePoint) (ends : c ∈ lineTerminators)
  /-- A carriage return and a line feed after a backslash. -/
  | continuedTwice

namespace LiteralPart

variable {mark : CodePoint}

def spelled : LiteralPart mark → Text
  | plain c _ => [c]
  | single c _ => ['\\', c]
  | null => ['\\', '0']
  | numbered escape _ _ => '\\' :: escape.spelled
  | continued c _ => ['\\', c]
  | continuedTwice => ['\\', '\r', '\n']

def value : LiteralPart mark → Text
  | plain c _ => [c]
  | single c _ => [(controlLetters.lookup c).getD c]
  | null => [.scalar '\x00']
  | numbered _ c _ => [c]
  | continued _ _ => []
  | continuedTwice => []

def isContinuedTwice : LiteralPart mark → Bool
  | continuedTwice => true
  | _ => false

end LiteralPart

namespace Token

private theorem fixedCode?_points (digits : List HexDigit) (t : Text) :
    fixedCode? digits.length (digits.map HexDigit.point ++ t) = some (HexDigit.number digits, t) := by
  have width : (digits.map HexDigit.point).length = digits.length := List.length_map _
  have row : (digits.map HexDigit.point ++ t).take digits.length = digits.map HexDigit.point :=
    List.take_left' width
  have rest : (digits.map HexDigit.point ++ t).drop digits.length = t := List.drop_left' width
  have all : (digits.map HexDigit.point).all Text.isHexDigit = true := HexDigit.all_isHexDigit digits
  simp only [fixedCode?, row, rest, width, all, beq_self_eq_true, Bool.and_self, if_true,
    HexDigit.natOfDigits_points]

private theorem bracedCode?_points {digits : List HexDigit} (filled : digits ≠ []) (t : Text) :
    bracedCode? (Text.between '{' '}' (digits.map HexDigit.point) ++ t) =
      some (HexDigit.number digits, t) := by
  have belongs := List.all_eq_true.mp (HexDigit.all_isHexDigit digits)
  have ends : ∀ c ∈ (CodePoint.scalar '}' :: t).head?, Text.isHexDigit c = false := by
    rintro _ ⟨⟩
    rfl
  have row := Text.takeWhile_row belongs ends
  have rest := Text.dropWhile_row belongs ends
  have given : (digits.map HexDigit.point).isEmpty = false := by simpa using filled
  rw [Text.between, List.cons_append, List.cons_append, List.append_assoc, List.singleton_append]
  simp only [bracedCode?, row, rest, given, HexDigit.natOfDigits_points, Bool.false_eq_true, if_false]

end Token

namespace NumberedEscape

open Token

private theorem skips (escape : NumberedEscape) (q : Quote) :
    Skips q.mark ('\\' :: escape.spelled : Text) := by
  have digits (row : List HexDigit) : Skips q.mark (row.map HexDigit.point) :=
    skips_hexDigits q (HexDigit.all_isHexDigit row)
  cases escape with
  | byte first second => exact (skips_escape 'x').append (digits [first, second])
  | unit first second third fourth =>
    exact (skips_escape 'u').append (digits [first, second, third, fourth])
  | braced first more =>
    have brace {c : CodePoint} (isBrace : c = '{' ∨ c = '}') : Skips q.mark [c] := by
      rcases isBrace with rfl | rfl
      all_goals cases q <;> exact skips_plain (by decide) (by decide) (by decide)
    exact ((skips_escape 'u').append (brace (.inl rfl))).append
      ((digits (first :: more)).append (brace (.inr rfl)))

private theorem escape?_spelled {escape : NumberedEscape} {c : CodePoint}
    (spells : c.code = HexDigit.number escape.digits) (t : Text) :
    escape? (escape.spelled ++ t) = some ([c], t) := by
  have point : CodePoint.ofCode? (HexDigit.number escape.digits) = some c := by
    rw [← spells, CodePoint.ofCode?_code]
  have stands : (CodePoint.ofCode? (HexDigit.number escape.digits)).map (fun c => ([c], t)) =
      some ([c], t) := congrArg (Option.map _) point
  cases escape with
  | byte first second =>
    have fixed : fixedCode? 2 ([first, second].map HexDigit.point ++ t) = _ :=
      fixedCode?_points [first, second] t
    simp only [spelled, List.cons_append, escape?, fixed]
    exact stands
  | unit first second third fourth =>
    have fixed : fixedCode? 4 ([first, second, third, fourth].map HexDigit.point ++ t) = _ :=
      fixedCode?_points [first, second, third, fourth] t
    have unbraced : bracedCode? ([first, second, third, fourth].map HexDigit.point ++ t) = none := by
      have digit := first.isHexDigit_point
      unfold bracedCode?
      split
      · next same =>
        rw [(List.cons.inj same).1] at digit
        cases digit
      · rfl
    simp only [spelled, List.cons_append, escape?, unbraced, fixed, Option.none_or]
    exact stands
  | braced first more =>
    have braced := bracedCode?_points (List.cons_ne_nil first more) t
    simp only [spelled, List.cons_append, escape?, braced, Option.some_or]
    exact stands

end NumberedEscape

namespace LiteralPart

open Token

private theorem isLineEnd_iff (c : CodePoint) : isLineEnd c = true ↔ c ∈ lineTerminators := by
  simp [isLineEnd, lineTerminators, or_assoc]

private theorem simpleEscape_eq {c : CodePoint} (notDigit : Text.isDigit c = false) :
    simpleEscape c = (controlLetters.lookup c).getD c := by
  have notZero : c ≠ '0' := by
    rintro rfl
    cases notDigit
  by_cases letter : c ∈ controlLetters.map Prod.fst
  · simp only [controlLetters, List.map_cons, List.map_nil, List.mem_cons, List.not_mem_nil,
      or_false] at letter
    rcases letter with rfl | rfl | rfl | rfl | rfl | rfl
    all_goals rfl
  · have unlisted : controlLetters.lookup c = none := by
      rw [List.lookup_eq_none_iff]
      intro entry member
      simp only [List.mem_map, not_exists, not_and] at letter
      simpa using Ne.symm (letter entry member)
    simp only [controlLetters, List.map_cons, List.map_nil, List.mem_cons, List.not_mem_nil,
      or_false, not_or] at letter
    simp [simpleEscape, letter, notZero, unlisted]

private theorem escape?_single {c : CodePoint} (notUnit : c ≠ 'u') (notByte : c ≠ 'x') {t : Text}
    (noFeed : ∀ d ∈ t.head?, d ≠ '\n') :
    escape? (c :: t) = some (if isLineEnd c then [] else [simpleEscape c], t) := by
  rw [escape?]
  · exact notUnit
  · exact notByte
  · rintro rest - rfl
    exact noFeed _ rfl rfl

variable (q : Quote)

private theorem quotedBody?_spelled (part : LiteralPart q.mark) (t : Text) :
    quotedBody? q.mark (part.spelled ++ t) =
      if part.isContinuedTwice then none
      else (quotedBody? q.mark t).map fun found => (part.spelled ++ found.1, found.2) := by
  -- The scan for the closing mark passes over every part except a line that is continued after a
  -- carriage return and a line feed, where it stops.
  cases part with
  | plain c free => exact skips_plain free.1 free.2.1 free.2.2 t
  | single c free => exact skips_escape c t
  | null => exact skips_escape '0' t
  | numbered escape c spells => exact escape.skips q t
  | continued c ends => exact skips_escape c t
  | continuedTwice => cases q <;> rfl

private theorem quotedBody?_parts (parts : List (LiteralPart q.mark)) (after : Text) :
    quotedBody? q.mark (parts.flatMap spelled ++ q.mark :: after) =
      if parts.any isContinuedTwice then none else some (parts.flatMap spelled, after) := by
  induction parts with
  | nil => cases q <;> rfl
  | cons part parts ih =>
    rw [List.flatMap_cons, List.append_assoc, quotedBody?_spelled, ih, List.any_cons]
    cases part.isContinuedTwice with
    | true => rfl
    | false =>
      simp only [Bool.false_eq_true, if_false, Bool.false_or]
      split <;> rfl

variable {q}

private theorem unescape?_spelled (part : LiteralPart q.mark) {t : Text}
    (noFeed : ∀ c ∈ t.head?, c ≠ '\n') (fuel : Nat) :
    unescape? (fuel + 1) (part.spelled ++ t) = (unescape? fuel t).map (part.value ++ ·) := by
  -- What a part is read as, where no line feed comes next: after a carriage return this would be
  -- one line end more.
  cases part with
  | plain c free =>
    change unescape? (fuel + 1) (c :: t) = _
    rw [unescape?]
    · cases unescape? fuel t <;> rfl
    · exact free.2.1
  | single c free =>
    have ordinary : isLineEnd c = false := by
      rw [← Bool.not_eq_true, isLineEnd_iff]
      exact free.2.2.2
    have stands : escape? (c :: t) = some ([(controlLetters.lookup c).getD c], t) := by
      rw [escape?_single free.1 free.2.1 noFeed, ordinary, simpleEscape_eq free.2.2.1]
      rfl
    exact unescape?_escape stands fuel
  | null => exact unescape?_escape rfl fuel
  | numbered escape c spells => exact unescape?_escape (NumberedEscape.escape?_spelled spells t) fuel
  | continued c ends =>
    have ending : isLineEnd c = true := (isLineEnd_iff c).mpr ends
    have stands : escape? (c :: t) = some ([], t) := by
      rw [escape?_single (by rintro rfl; cases ending) (by rintro rfl; cases ending) noFeed, ending]
      rfl
    exact unescape?_escape stands fuel
  | continuedTwice => exact unescape?_escape rfl fuel

private theorem head?_spelled (parts : List (LiteralPart q.mark)) :
    ∀ c ∈ (parts.flatMap spelled).head?, c ≠ '\n' := by
  cases parts with
  | nil => exact nofun
  | cons part parts =>
    rintro c first rfl
    cases part with
    | plain c free => exact free.2.2 (Option.some.inj first)
    | _ => cases first

private theorem unescape?_parts (parts : List (LiteralPart q.mark)) {fuel : Nat}
    (enough : parts.length ≤ fuel) :
    unescape? fuel (parts.flatMap spelled) = some (parts.flatMap value) := by
  induction parts generalizing fuel with
  | nil => cases fuel <;> rfl
  | cons part parts ih =>
    rw [List.length_cons] at enough
    obtain ⟨fuel, rfl⟩ : ∃ n, fuel = n + 1 := ⟨fuel - 1, by omega⟩
    rw [List.flatMap_cons, unescape?_spelled part (head?_spelled parts), ih (by omega)]
    rfl

private theorem length_le_spelled (parts : List (LiteralPart q.mark)) :
    parts.length ≤ (parts.flatMap spelled).length := by
  have filled (part : LiteralPart q.mark) : 1 ≤ part.spelled.length := by
    cases part <;> simp [spelled]
  induction parts with
  | nil => exact Nat.le_refl _
  | cons part parts ih =>
    have first := filled part
    rw [List.flatMap_cons, List.length_append, List.length_cons]
    omega

end LiteralPart

open LiteralPart

/-- A string literal in either mark, made of any parts, stands for what its parts stand for, unless a
line is continued in it after a carriage return and a line feed; then it is no constant. -/
theorem fold?_literalParts (q : Quote) (parts : List (LiteralPart q.mark)) :
    fold? (Text.enclose [q.mark] (parts.flatMap spelled)) =
      if parts.any isContinuedTwice then none else some (.str (parts.flatMap value)) := by
  have scanned := quotedBody?_parts q parts []
  split
  · next broken =>
    rw [if_pos broken] at scanned
    rw [fold?, Token.tokenize?_unclosed q scanned]
    rfl
  · next whole =>
    rw [if_neg whole] at scanned
    exact Token.fold?_of_string
      (Token.tokenize?_enclosed q scanned (unescape?_parts parts (length_le_spelled parts)))

/-- Two letters with a line that is continued between them, as it ends on some systems. -/
def continuedSample : List (LiteralPart (Quote.mark .single)) :=
  [.plain 'a' (by decide), .continuedTwice, .plain 'b' (by decide)]

/-- Not every literal stands for what its parts stand for. -/
theorem not_all_literals_fold :
    ¬ (∀ (q : Quote) (parts : List (LiteralPart q.mark)),
      fold? (Text.enclose [q.mark] (parts.flatMap spelled)) =
        some (.str (parts.flatMap value))) ∧
    Text.enclose [Quote.mark .single] (continuedSample.flatMap spelled) = "'a\\\r\nb'" ∧
    continuedSample.flatMap value = "ab" ∧
    fold? "'a\\\r\nb'" = none := by
  have none : fold? "'a\\\r\nb'" = none := by rfl
  refine ⟨fun all => ?_, by decide, by decide, none⟩
  have folded := all .single continuedSample
  rw [show Text.enclose [Quote.mark .single] (continuedSample.flatMap spelled) = "'a\\\r\nb'" from
    by decide, none] at folded
  cases folded

end PugPrinter.Constant
