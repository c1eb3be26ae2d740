import Mathlib.Data.List.Basic
import PugPrinter.Attribute.Render
import PugPrinter.Proofs.Constant.JsonSource

/-!
Quoted texts. Whatever mark a text is quoted in, a backslash stands before each of its marks, and taking
these away gives the text back. A text whose backslashes were doubled before reads as a string literal
that stands for it: the name of an attribute comes back from its written form, unless a line feed ends
the literal too early.
-/

set_option autoImplicit false

namespace PugPrinter

namespace Text

private theorem replaceFrom_singleton (old : CodePoint) (new t : Text) :
    replaceFrom [old] new 0 t = t.flatMap fun c => if c = old then new else [c] := by
  induction t with
  | nil => rfl
  | cons c t ih =>
    have front : startsWith (c :: t) [old] = (old == c) := by
      simp [startsWith, List.isPrefixOf]
    rw [replaceFrom, front, List.flatMap_cons]
    by_cases same : c = old
    · subst same
      simp only [beq_self_eq_true, if_true, List.length_singleton]
      rw [ih]
    · have apart : (old == c) = false := by simpa using Ne.symm same
      simp only [apart, same, Bool.false_eq_true, if_false]
      rw [ih]
      rfl

theorem escapeMark_singleton (mark : CodePoint) (t : Text) :
    escapeMark [mark] t = t.flatMap fun c => if c = mark then [.scalar '\\', mark] else [c] :=
  replaceFrom_singleton mark _ t

private theorem occursIn_singleton (mark : CodePoint) (t : Text) :
    occursIn [mark] t = true ↔ mark ∈ t := by
  induction t with
  | nil => simp [occursIn]
  | cons c t ih => simp [occursIn, startsWith, List.isPrefixOf, ih]

private theorem escapeMark_of_not_mem {mark : CodePoint} {t : Text} (absent : mark ∉ t) :
    escapeMark [mark] t = t := by
  rw [escapeMark_singleton]
  calc t.flatMap (fun c => if c = mark then [.scalar '\\', mark] else [c])
      = t.flatMap (fun c => [c]) := List.flatMap_congr fun c member => by
        rw [if_neg]
        rintro rfl
        exact absent member
    _ = t := List.flatMap_singleton' t

private theorem otherMark_mark (preferred : Quote) :
    ∃ other : Quote, otherMark [preferred.mark] = [other.mark] := by
  cases preferred
  · exact ⟨.double, rfl⟩
  · exact ⟨.single, rfl⟩

private theorem exists_quote_eq (preferred : Quote) (t : Text) :
    ∃ q : Quote, quote [preferred.mark] t = enclose [q.mark] (escapeMark [q.mark] t) ∧
      (q.mark ∉ t ∨ q = preferred ∧ ∀ either : Quote, either.mark ∈ t) := by
  obtain ⟨other, isOther⟩ := otherMark_mark preferred
  unfold quote
  simp only [isOther, Bool.and_eq_true, Bool.not_eq_true', ← Bool.not_eq_true, occursIn_singleton]
  split
  · rename_i onlyPreferred
    exact ⟨other, by rw [escapeMark_of_not_mem onlyPreferred.2], .inl onlyPreferred.2⟩
  · rename_i notOnlyPreferred
    refine ⟨preferred, rfl, ?_⟩
    by_cases holdsPreferred : preferred.mark ∈ t
    · have holdsOther : other.mark ∈ t :=
        Decidable.not_not.mp fun absent => notOnlyPreferred ⟨holdsPreferred, absent⟩
      refine .inr ⟨rfl, fun either => ?_⟩
      cases preferred <;> cases other <;> cases either <;> first | assumption | cases isOther
    · exact .inl holdsPreferred

theorem quote_eq_enclose (preferred : Quote) (t : Text) :
    ∃ q : Quote, quote [preferred.mark] t = enclose [q.mark] (escapeMark [q.mark] t) :=
  (exists_quote_eq preferred t).imp fun _ => And.left

private theorem not_startsWith_escapeMark {mark : CodePoint} (apart : mark ≠ .scalar '\\')
    (t : Text) :
    startsWith (escapeMark [mark] t) [mark] = false := by
  rw [escapeMark_singleton]
  cases t with
  | nil => rfl
  | cons c t =>
    by_cases isMark : c = mark
    · simp [startsWith, List.isPrefixOf, isMark, apart]
    · simp [startsWith, List.isPrefixOf, isMark, Ne.symm isMark]

/-- Taking the backslash before each mark away again, from left to right, gives the text back. A
backslash of the text itself never stands right before a mark, even where it did so in the text. -/
private theorem replaceAll_escapeMark {mark : CodePoint} (apart : mark ≠ .scalar '\\') (t : Text) :
    replaceAll [.scalar '\\', mark] [mark] (escapeMark [mark] t) = t := by
  have whole (t : Text) :
      replaceAll [.scalar '\\', mark] [mark] t = replaceFrom [.scalar '\\', mark] [mark] 0 t := rfl
  rw [whole]
  induction t with
  | nil => rfl
  | cons c t ih =>
    have escaped : escapeMark [mark] (c :: t) =
        (if c = mark then [.scalar '\\', mark] else [c]) ++ escapeMark [mark] t := by
      rw [escapeMark_singleton, escapeMark_singleton, List.flatMap_cons]
    rw [escaped]
    by_cases isMark : c = mark
    · have found : startsWith (.scalar '\\' :: mark :: escapeMark [mark] t) [.scalar '\\', mark] :=
        by simp [startsWith, List.isPrefixOf]
      rw [if_pos isMark, List.cons_append, List.singleton_append, replaceFrom, if_pos found]
      exact congrArg₂ List.cons isMark.symm ih
    · have passed : startsWith (c :: escapeMark [mark] t) [.scalar '\\', mark] = false := by
        have next := not_startsWith_escapeMark apart t
        rw [startsWith] at next ⊢
        simp [List.isPrefixOf, next]
      rw [if_neg isMark, List.singleton_append, replaceFrom, if_neg (by simp [passed])]
      exact congrArg (List.cons c) ih

private theorem length_escapeMark (mark : CodePoint) (t : Text) :
    (escapeMark [mark] t).length = t.length + t.count mark := by
  rw [escapeMark_singleton]
  induction t with
  | nil => rfl
  | cons c t ih =>
    rw [List.flatMap_cons, List.length_append, ih]
    by_cases isMark : c = mark
    · simp [isMark]
      omega
    · simp [isMark]
      omega

/-- A quoted text starts and ends with one and the same mark. With the backslash before each such mark
taken away, what stands between gives the text back; and it is the text as it was, unless both marks
occur in the text: then each preferred one has got one backslash, and nothing else has changed. -/
theorem quote_readsBack (preferred : Quote) (t : Text) :
    ∃ (q : Quote) (inner : Text),
      quote [preferred.mark] t = q.mark :: (inner ++ [q.mark]) ∧
      replaceAll [.scalar '\\', q.mark] [q.mark] inner = t ∧
      (inner = t ∧ ¬ (Quote.single.mark ∈ t ∧ Quote.double.mark ∈ t) ∨
        (Quote.single.mark ∈ t ∧ Quote.double.mark ∈ t) ∧ q = preferred ∧
          inner = t.flatMap (fun c => if c = q.mark then [.scalar '\\', c] else [c]) ∧
          inner.length = t.length + t.count q.mark) := by
  obtain ⟨q, quoted, chosen⟩ := exists_quote_eq preferred t
  have apart : q.mark ≠ .scalar '\\' := by cases q <;> decide
  refine ⟨q, escapeMark [q.mark] t, quoted, replaceAll_escapeMark apart t, ?_⟩
  rcases chosen with absent | ⟨isPreferred, holdsBoth⟩
  · refine .inl ⟨escapeMark_of_not_mem absent, fun both => absent ?_⟩
    cases q
    · exact both.1
    · exact both.2
  · have longer := length_escapeMark q.mark t
    refine .inr ⟨⟨holdsBoth .single, holdsBoth .double⟩, isPreferred, ?_, longer⟩
    rw [escapeMark_singleton]
    refine List.flatMap_congr fun c _ => ?_
    by_cases isMark : c = q.mark
    · rw [if_pos isMark, if_pos isMark, isMark]
    · rw [if_neg isMark, if_neg isMark]

end Text

namespace Constant.Token

section Literal

variable (q : Quote) {body value : Text}

/-- A string literal that its scan takes to the end is one token. -/
theorem tokenize?_enclosed (closes : quotedBody? q.mark (body ++ [q.mark]) = some (body, []))
    (stands : unescape? body.length body = some value) :
    tokenize? (Text.enclose [q.mark] body) = some [.literal (.str value)] := by
  have solid : Text.isBlank q.mark = false := by cases q <;> rfl
  have first : next? (q.mark :: (body ++ [q.mark])) = some (.literal (.str value), []) := by
    rw [next?_quoted, closes]
    simp only [ofBody?, Option.bind_eq_bind, Option.bind_some, stands, pure]
  exact Reads.next solid first (Nat.zero_le _) reads_nil _ (Nat.le_refl _)

theorem tokenize?_unclosed (stuck : quotedBody? q.mark (body ++ [q.mark]) = none) :
    tokenize? (Text.enclose [q.mark] body) = none := by
  have solid : Text.isBlank q.mark = false := by cases q <;> rfl
  have whole : Text.enclose [q.mark] body = q.mark :: (body ++ [q.mark]) := rfl
  have first : next? (q.mark :: (body ++ [q.mark])) = none := by
    rw [next?_quoted, stuck]
    rfl
  have kept : (q.mark :: (body ++ [q.mark])).dropWhile Text.isBlank =
      q.mark :: (body ++ [q.mark]) :=
    List.dropWhile_cons_of_neg (by rw [solid]; exact Bool.false_ne_true)
  rw [whole, tokenize?, List.length_cons, readAll?, kept]
  simp only [first, Option.bind_eq_bind, Option.bind_none]

theorem fold?_of_string {source : Text} (tokens : tokenize? source = some [.literal (.str value)]) :
    fold? source = some (.str value) := by
  have parsed : Grammar.parse? [.literal (.str value)] = some (.literal (.str value)) := rfl
  rw [fold?, tokens]
  simp [parsed, Expr.eval, Literal.value]

end Literal

def quotedPoint (mark c : CodePoint) : Text :=
  if c = '\\' ∨ c = mark then [.scalar '\\', c] else [c]

def quotedName (mark : CodePoint) (name : Text) : Text :=
  name.flatMap (quotedPoint mark)

private theorem quotedName_cons (mark c : CodePoint) (name : Text) :
    quotedName mark (c :: name) = quotedPoint mark c ++ quotedName mark name :=
  List.flatMap_cons

private theorem escapeMark_doubleBackslashes (q : Quote) (name : Text) :
    Text.escapeMark [q.mark] (Text.doubleBackslashes name) = quotedName q.mark name := by
  have apart : CodePoint.scalar '\\' ≠ q.mark := by cases q <;> decide
  rw [Text.escapeMark_singleton, Text.doubleBackslashes, List.flatMap_assoc, quotedName]
  refine List.flatMap_congr fun c _ => ?_
  by_cases backslash : c = CodePoint.scalar '\\'
  · simp [backslash, quotedPoint, apart]
  · by_cases isMark : c = q.mark
    · simp [isMark, quotedPoint, apart.symm]
    · simp [backslash, isMark, quotedPoint]

section Body

variable (q : Quote) {c : CodePoint}

private theorem escape?_of_escaped (escaped : c = CodePoint.scalar '\\' ∨ c = q.mark) (t : Text) :
    escape? (c :: t) = some ([c], t) ∧ CodePoint.scalar '\n' ≠ c := by
  rcases escaped with rfl | rfl
  · exact ⟨rfl, by decide⟩
  · cases q
    · exact ⟨rfl, by decide⟩
    · exact ⟨rfl, by decide⟩

private theorem quotedBody?_quotedName (name after : Text) :
    quotedBody? q.mark (quotedName q.mark name ++ q.mark :: after) =
      if CodePoint.scalar '\n' ∈ name then none else some (quotedName q.mark name, after) := by
  induction name with
  | nil => cases q <;> rfl
  | cons c name ih =>
    rw [quotedName_cons, List.append_assoc]
    by_cases escaped : c = CodePoint.scalar '\\' ∨ c = q.mark
    · have goesOn : CodePoint.scalar '\n' ∈ c :: name ↔ CodePoint.scalar '\n' ∈ name := by
        simp [(escape?_of_escaped q escaped []).2]
      have passed : quotedBody? q.mark
          (.scalar '\\' :: c :: (quotedName q.mark name ++ q.mark :: after)) =
          (quotedBody? q.mark (quotedName q.mark name ++ q.mark :: after)).map
            fun found => (.scalar '\\' :: c :: found.1, found.2) := rfl
      rw [quotedPoint, if_pos escaped, List.cons_append, List.singleton_append, passed, ih]
      simp only [goesOn]
      split <;> rfl
    · obtain ⟨notBackslash, notMark⟩ := not_or.mp escaped
      have apart : (c == q.mark) = false := by simpa using notMark
      rw [quotedPoint, if_neg escaped, List.singleton_append, quotedBody?, apart]
      · by_cases feed : c = CodePoint.scalar '\n'
        · simp [feed]
        · have goesOn : CodePoint.scalar '\n' ∈ c :: name ↔ CodePoint.scalar '\n' ∈ name := by
            simp [Ne.symm feed]
          have notFeed : (c == CodePoint.scalar '\n') = false := by simpa using feed
          simp only [notFeed, Bool.false_eq_true, if_false, ih, goesOn]
          split <;> rfl
      · exact fun isBackslash _ => notBackslash isBackslash
      · exact fun _ _ isBackslash _ => notBackslash isBackslash

private theorem unescape?_quotedName {name : Text} {fuel : Nat} (enough : name.length ≤ fuel) :
    unescape? fuel (quotedName q.mark name) = some name := by
  -- The body of the literal stands for the name: what is escaped in it is a backslash or a mark,
  -- and what looks like any other escape comes after a backslash that is escaped itself.
  induction name generalizing fuel with
  | nil => cases fuel <;> rfl
  | cons c name ih =>
    rw [List.length_cons] at enough
    obtain ⟨fuel, rfl⟩ : ∃ n, fuel = n + 1 := ⟨fuel - 1, by omega⟩
    have rest := ih (show name.length ≤ fuel by omega)
    rw [quotedName_cons]
    by_cases escaped : c = CodePoint.scalar '\\' ∨ c = q.mark
    · have stands := (escape?_of_escaped q escaped (quotedName q.mark name)).1
      rw [quotedPoint, if_pos escaped, List.cons_append, List.singleton_append,
        unescape?_escape stands, rest]
      rfl
    · rw [quotedPoint, if_neg escaped, List.singleton_append, unescape?]
      · rw [rest]
        rfl
      · exact (not_or.mp escaped).1

private theorem length_le_quotedName (mark : CodePoint) (name : Text) :
    name.length ≤ (quotedName mark name).length := by
  induction name with
  | nil => exact Nat.le_refl _
  | cons c name ih =>
    have positive : 1 ≤ (quotedPoint mark c).length := by
      unfold quotedPoint
      split
      · exact Nat.le_succ 1
      · exact Nat.le_refl 1
    rw [quotedName_cons, List.length_append, List.length_cons]
    omega

theorem tokenize?_quotedName (name : Text) :
    tokenize? (Text.enclose [q.mark] (quotedName q.mark name)) =
      if CodePoint.scalar '\n' ∈ name then none else some [.literal (.str name)] := by
  have scanned := quotedBody?_quotedName q name []
  split
  · next feed =>
    rw [if_pos feed] at scanned
    exact tokenize?_unclosed q scanned
  · next noFeed =>
    rw [if_neg noFeed] at scanned
    exact tokenize?_enclosed q scanned (unescape?_quotedName q (length_le_quotedName q.mark name))

end Body

end Constant.Token

/-- A name in quotes, as it is written in the list of attributes, is a constant that stands for the
name itself when there is no line feed in it, and is no constant otherwise. -/
theorem fold?_quote_doubleBackslashes (preferred : Quote) (name : Text) :
    (Constant.fold? (Text.quote [preferred.mark] (Text.doubleBackslashes name)) = some (.str name) ↔
      CodePoint.scalar '\n' ∉ name) ∧
    (Constant.fold? (Text.quote [preferred.mark] (Text.doubleBackslashes name)) = none ↔
      CodePoint.scalar '\n' ∈ name) := by
  obtain ⟨q, quoted⟩ := Text.quote_eq_enclose preferred (Text.doubleBackslashes name)
  have tokens := Constant.Token.tokenize?_quotedName q name
  have parsed : Constant.Grammar.parse? [.literal (.str name)] = some (.literal (.str name)) := rfl
  rw [quoted, Constant.Token.escapeMark_doubleBackslashes, Constant.fold?, tokens]
  by_cases feed : CodePoint.scalar '\n' ∈ name
  · simp [feed]
  · simp [feed, parsed, Constant.Expr.eval, Constant.Literal.value]

end PugPrinter
