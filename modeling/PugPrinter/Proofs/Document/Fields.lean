import PugPrinter.Document.Dump

/-!
Entries of an object, seen through the value that they give to a key. A key that stands more than
once has its last value, and so has a field that several keys stand for; readers of fields, of slots
and of sequences all come down to this value.
-/

set_option autoImplicit false

namespace PugPrinter

def Json.given? : Json → Option Json
  | null => none
  | value => some value

namespace Document

def valueAt (fits : Text → Bool) (entries : List (Text × Json)) : Option Json :=
  (entries.reverse.find? fun entry => fits entry.1).map Prod.snd

theorem valueAt_append (fits : Text → Bool) (first second : List (Text × Json)) :
    valueAt fits (first ++ second) = (valueAt fits second).or (valueAt fits first) := by
  unfold valueAt
  rw [List.reverse_append, List.find?_append]
  cases second.reverse.find? fun entry => fits entry.1 <;> rfl

theorem valueAt_singleton (fits : Text → Bool) (key : Text) (value : Json) :
    valueAt fits [(key, value)] = if fits key then some value else none := by
  cases fitting : fits key <;> simp [valueAt, fitting]

theorem valueAt_cons (fits : Text → Bool) (key : Text) (value : Json)
    (rest : List (Text × Json)) :
    valueAt fits ((key, value) :: rest) =
      (valueAt fits rest).or (if fits key then some value else none) := by
  rw [← valueAt_singleton, ← valueAt_append]
  rfl

private theorem isOverridden_eq (fits : Text → Bool) (rest : List (Text × Json)) :
    isOverridden fits rest = (valueAt fits rest).isSome := by
  induction rest with
  | nil => rfl
  | cons entry rest ih =>
    obtain ⟨key, value⟩ := entry
    rw [valueAt_cons]
    unfold isOverridden at ih ⊢
    rw [List.any_cons, ih]
    cases fits key <;> cases valueAt fits rest <;> rfl

theorem present?_eq (key : Text) (fields : List (Text × Json)) :
    Json.present? key fields = (valueAt (· == key) fields).bind Json.given? := by
  unfold Json.present? Json.lookup? valueAt
  cases (fields.reverse.find? fun field => field.1 == key).map Prod.snd with
  | none => rfl
  | some value => cases value <;> rfl

theorem field?_eq (name : Text) (entries : List (Text × Json)) :
    field? name entries = (valueAt (keyOf name) entries).bind Json.given? := by
  unfold field?
  rw [present?_eq]
  congr 1
  unfold valueAt
  rw [← List.map_reverse, List.find?_map, Option.map_map, Function.comp_def, Function.comp_def]
  rfl

def loadChild (owner : Subject) : Option Json → Except Fault (Option Node)
  | none | some .null => return none
  | some (.obj fields) => some <$> loadBelow owner (.obj fields)
  | some value => return some (.stray value)

theorem loadSlot_cons (owner : Subject) (fits : Text → Bool) (key : Text) (value : Json)
    (rest : List (Text × Json)) :
    loadSlot owner fits ((key, value) :: rest) =
      if fits key && !isOverridden fits rest then loadChild owner (some value)
      else loadSlot owner fits rest := by
  cases value <;> rfl

theorem loadSlot_eq (owner : Subject) (fits : Text → Bool) (entries : List (Text × Json)) :
    loadSlot owner fits entries = loadChild owner (valueAt fits entries) := by
  induction entries with
  | nil => rfl
  | cons entry rest ih =>
    obtain ⟨key, value⟩ := entry
    rw [loadSlot_cons, valueAt_cons, isOverridden_eq, ih]
    cases fits key <;> cases valueAt fits rest <;> rfl

def loadNodes (owner : Subject) : Option Json → Except Fault (Loose (List Node))
  | none | some .null => return .of []
  | some (.arr items) => .of <$> loadItems owner items
  | some (.obj _) => throw .unsupportedShape
  | some value => return .odd value

theorem loadSequence_cons (owner : Subject) (key : Text) (value : Json)
    (rest : List (Text × Json)) :
    loadSequence owner ((key, value) :: rest) =
      if keyOf "nodes" key && !isOverridden (keyOf "nodes") rest then loadNodes owner (some value)
      else loadSequence owner rest := by
  cases value <;> rfl

theorem loadSequence_eq (owner : Subject) (entries : List (Text × Json)) :
    loadSequence owner entries = loadNodes owner (valueAt (keyOf "nodes") entries) := by
  induction entries with
  | nil => rfl
  | cons entry rest ih =>
    obtain ⟨key, value⟩ := entry
    rw [loadSequence_cons, valueAt_cons, isOverridden_eq, ih]
    cases keyOf "nodes" key <;> cases valueAt (keyOf "nodes") rest <;> rfl

theorem valueAt_eq_none {fits : Text → Bool} {entries : List (Text × Json)}
    (none : ∀ entry ∈ entries, fits entry.1 = false) : valueAt fits entries = .none := by
  unfold valueAt
  rw [List.find?_eq_none.mpr]
  · rfl
  · intro entry member
    rw [none entry (List.mem_reverse.mp member)]
    exact Bool.false_ne_true

theorem valueAt_filter {fits : Text → Bool} {owns : Text × Json → Bool}
    {entries : List (Text × Json)}
    (owned : ∀ entry ∈ entries, fits entry.1 = true → owns entry = true) :
    valueAt fits (entries.filter owns) = valueAt fits entries := by
  induction entries with
  | nil => rfl
  | cons entry rest ih =>
    obtain ⟨key, value⟩ := entry
    have later := ih fun other member => owned other (List.mem_cons_of_mem _ member)
    rw [List.filter_cons, valueAt_cons]
    by_cases own : owns (key, value) = true
    · rw [if_pos own, valueAt_cons, later]
    · have differs : fits key = false := by
        rw [← Bool.not_eq_true]
        intro fitting
        exact own (owned (key, value) (List.mem_cons_self ..) fitting)
      rw [if_neg own, later, differs]
      simp

theorem valueAt_congr {fits others : Text → Bool} {entries : List (Text × Json)}
    (agree : ∀ entry ∈ entries, fits entry.1 = others entry.1) :
    valueAt fits entries = valueAt others entries := by
  induction entries with
  | nil => rfl
  | cons entry rest ih =>
    obtain ⟨key, value⟩ := entry
    have now : fits key = others key := agree (key, value) (List.mem_cons_self ..)
    rw [valueAt_cons, valueAt_cons, now,
      ih fun other member => agree other (List.mem_cons_of_mem _ member)]

theorem lookup?_eq (key : Text) (fields : List (Text × Json)) :
    Json.lookup? key fields = valueAt (· == key) fields := rfl

theorem hasKey_eq (key : Text) (fields : List (Text × Json)) :
    hasKey key fields = (Json.lookup? key fields).isSome :=
  isOverridden_eq (· == key) fields

theorem valueAt_put_other {fits : Text → Bool} {key : Text} (differs : fits key = false)
    (value : Json) (entries : List (Text × Json)) :
    valueAt fits (Json.put key value entries) = valueAt fits entries := by
  induction entries with
  | nil => simp [Json.put, valueAt, differs]
  | cons entry rest ih =>
    obtain ⟨other, old⟩ := entry
    rw [Json.put]
    by_cases same : other = key
    · subst same
      rw [if_pos (beq_self_eq_true _), valueAt_cons, valueAt_cons, differs]
      rfl
    · rw [if_neg (by simpa using same), valueAt_cons, valueAt_cons, ih]

private theorem fits_of_valueAt_eq_none {fits : Text → Bool} {entries : List (Text × Json)}
    (none : valueAt fits entries = .none) : ∀ entry ∈ entries, fits entry.1 = false := by
  intro entry member
  have absent := List.find?_eq_none.mp (Option.map_eq_none_iff.mp none)
  exact Bool.eq_false_iff.mpr (absent entry (List.mem_reverse.mpr member))

theorem mem_of_mem_put {key : Text} {value : Json} {entries : List (Text × Json)}
    {entry : Text × Json} (member : entry ∈ Json.put key value entries) :
    entry = (key, value) ∨ entry ∈ entries := by
  induction entries with
  | nil => exact .inl (List.mem_singleton.mp member)
  | cons first rest ih =>
    rw [Json.put] at member
    split at member
    · rcases List.mem_cons.mp member with isFirst | later
      · exact .inl isFirst
      · exact .inr (List.mem_cons_of_mem _ later)
    · rcases List.mem_cons.mp member with rfl | later
      · exact .inr (List.mem_cons_self ..)
      · rcases ih later with isSet | old
        · exact .inl isSet
        · exact .inr (List.mem_cons_of_mem _ old)

theorem mem_of_valueAt {fits : Text → Bool} {entries : List (Text × Json)} {value : Json}
    (found : valueAt fits entries = some value) :
    ∃ key, (key, value) ∈ entries ∧ fits key = true := by
  obtain ⟨⟨key, _⟩, isFound, rfl⟩ := Option.map_eq_some_iff.mp found
  have fitting : fits key = true := by simpa using List.find?_some isFound
  exact ⟨key, List.mem_reverse.mp (List.mem_of_find?_eq_some isFound), fitting⟩

theorem valueAt_put {fits : Text → Bool} {key : Text} (fitting : fits key = true) {value : Json}
    {entries : List (Text × Json)}
    (same : ∀ entry ∈ entries, fits entry.1 = true → entry.2 = value) :
    valueAt fits (Json.put key value entries) = some value := by
  induction entries with
  | nil => simp [Json.put, valueAt, fitting]
  | cons entry rest ih =>
    obtain ⟨other, old⟩ := entry
    have later := fun entry member => same entry (List.mem_cons_of_mem _ member)
    rw [Json.put]
    by_cases isKey : other = key
    · rw [if_pos (by simpa using isKey), valueAt_cons, fitting, if_pos rfl]
      cases found : valueAt fits rest with
      | none => rfl
      | some last =>
        obtain ⟨lastKey, member, lastFits⟩ := mem_of_valueAt found
        have isValue : last = value := later (lastKey, last) member lastFits
        rw [isValue]
        rfl
    · rw [if_neg (by simpa using isKey), valueAt_cons, ih later]
      rfl

theorem valueAt_put_new {fits : Text → Bool} {key : Text} (fitting : fits key = true)
    {entries : List (Text × Json)} (absent : valueAt fits entries = none) (value : Json) :
    valueAt fits (Json.put key value entries) = some value := by
  apply valueAt_put fitting
  intro entry member fits'
  rw [fits_of_valueAt_eq_none absent entry member] at fits'
  cases fits'

theorem mem_of_mem_written {fields : List (Text × Json)} {field : Text × Json}
    (member : field ∈ written fields) : field ∈ fields :=
  (List.mem_filter.mp member).1

theorem written_cons (field : Text × Json) (fields : List (Text × Json)) :
    written (field :: fields) =
      (if field.2.isNull then [] else [field]) ++ written fields := by
  unfold written
  rw [List.filter_cons]
  cases field.2.isNull <;> rfl

end Document

end PugPrinter
