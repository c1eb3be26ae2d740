import PugPrinter.Proofs.Document.Spelling

/-!
Trees read from JSON, however they are written. A reader looks at the entries under some keys; they
are those of one place, so what it finds is what may stand there. The forms that only the other
dialect has are brought to the usual fields first, and each kind of node is then read from its
places alone.
-/

set_option autoImplicit false

namespace PugPrinter.Document

theorem ofString_inj {s t : String} : Text.ofString s = Text.ofString t ↔ s = t := by
  unfold Text.ofString Text.ofChars
  rw [List.map_inj_right fun _ _ same => CodePoint.scalar.inj same, String.toList_inj]

theorem fieldName_keys :
    fieldName "nodes" = "nodes" ∧ fieldName "yield" = "yield_" ∧ fieldName "name" = "name" ∧
    fieldName "mode" = "mode" ∧ fieldName "block" = "block" ∧ fieldName "attrs" = "attrs" ∧
    fieldName "attributeBlocks" = "attribute_blocks" ∧
    fieldName "selfClosing" = "self_closing" ∧ fieldName "buffer" = "buffer" ∧
    fieldName "code" = "code" ∧ fieldName "call" = "call" ∧ fieldName "args" = "args" ∧
    fieldName "val" = "val" ∧ fieldName "isHtml" = "is_html" ∧ fieldName "escape" = "escape" ∧
    fieldName "expr" = "expr" ∧ fieldName "test" = "test" ∧
    fieldName "consequent" = "consequent" ∧ fieldName "alternate" = "alternate" ∧
    fieldName "obj" = "obj" ∧ fieldName "key" = "key" ∧
    fieldName "alternative" = "alternative" ∧ fieldName "path" = "path" ∧
    fieldName "file" = "file" ∧ fieldName "filter" = "filter" ∧ fieldName "filters" = "filters" ∧
    fieldName "escaped" = "escaped" ∧ fieldName "mustEscape" = "must_escape" ∧
    fieldName "type" = "type" ∧ fieldName "line" = "line" ∧ fieldName "column" = "column" ∧
    fieldName "filename" = "filename" := by
  decide +kernel

namespace Place

/-- The key and the other names of a place, without its values. -/
def spot (p : Place) : Text × List Text :=
  (p.key, p.aliases)

theorem mem_keys_of_owns {p : Place} {entry : Text × Json} (owned : p.owns entry = true) :
    entry.1 ∈ p.keys := by
  simpa [owns] using owned

theorem owns_of_mem_keys {p : Place} {entry : Text × Json} (member : entry.1 ∈ p.keys) :
    p.owns entry = true := by
  simpa [owns] using member

private theorem Takes.cases {p : Place} {fields : List (Text × Json)}
    (takes : p.Takes (fields.filter p.owns)) :
    (fields.filter p.owns = [] ∧ p.mayLack) ∨
      ∃ key value, fields.filter p.owns = [(key, value)] ∧ key ∈ p.keys ∧ p.value value := by
  match entries : fields.filter p.owns with
  | [] =>
    rw [entries] at takes
    exact .inl ⟨rfl, takes⟩
  | [(key, value)] =>
    have owned : (key, value) ∈ fields.filter p.owns := by rw [entries]; exact List.mem_singleton_self _
    rw [entries] at takes
    exact .inr ⟨key, value, rfl, mem_keys_of_owns (List.mem_filter.mp owned).2, takes⟩
  | _ :: _ :: _ =>
    rw [entries] at takes
    exact takes.elim

private theorem Takes.alias_cases {p : Place} {other : Text} {fields : List (Text × Json)}
    (same : fieldName p.key = p.key)
    (takes : (p.alsoAs other).Takes (fields.filter (p.alsoAs other).owns)) :
    (fields.filter (p.alsoAs other).owns = [] ∧ p.mayLack) ∨
      ∃ value, p.value value ∧ (fields.filter (p.alsoAs other).owns = [(p.key, value)] ∨
        fields.filter (p.alsoAs other).owns = [(other, value)]) := by
  rcases takes.cases with ⟨none, lacks⟩ | ⟨key, value, one, isKey, fitting⟩
  · exact .inl ⟨none, lacks⟩
  · have either : key = p.key ∨ key = other := by simpa [keys, alsoAs, same] using isKey
    refine .inr ⟨value, fitting, ?_⟩
    rcases either with rfl | rfl
    · exact .inl one
    · exact .inr one

end Place

namespace Fills

variable {isExtra : Text → Bool} {places : List Place} {fields : List (Text × Json)} {p : Place}
  {fits : Text → Bool}

private theorem valueAt_eq (filled : Fills isExtra places fields)
    (apart : ∀ q ∈ places, ∀ key ∈ q.keys, fits key = true → key ∈ p.keys)
    (kept : ∀ key, fits key = true → isExtra key = false) :
    valueAt fits fields = valueAt fits (fields.filter p.owns) := by
  symm
  apply valueAt_filter
  intro entry member fitting
  rcases filled.others entry member with ⟨q, among, owned⟩ | extra
  · exact Place.owns_of_mem_keys (apart q among entry.1 (Place.mem_keys_of_owns owned) fitting)
  · rw [kept entry.1 fitting] at extra
    cases extra

private theorem holds (filled : Fills isExtra places fields) (member : p ∈ places)
    (own : ∀ key ∈ p.keys, fits key = true)
    (apart : ∀ q ∈ places, ∀ key ∈ q.keys, fits key = true → key ∈ p.keys)
    (kept : ∀ key, fits key = true → isExtra key = false) : p.Holds (valueAt fits fields) := by
  rw [filled.valueAt_eq apart kept]
  rcases (filled.takes p member).cases with ⟨none, lacks⟩ | ⟨key, value, one, isKey, fitting⟩
  · rw [none]
    exact lacks
  · rw [one, valueAt_singleton, own key isKey, if_pos rfl]
    exact fitting

theorem value_of_fits (filled : Fills isExtra places fields) (member : p ∈ places)
    (apart : ∀ q ∈ places, ∀ key ∈ q.keys, fits key = true → key ∈ p.keys)
    (kept : ∀ key, fits key = true → isExtra key = false) :
    ∀ entry ∈ fields, fits entry.1 = true → p.value entry.2 := by
  intro entry among fitting
  have owned : p.owns entry = true := by
    rcases filled.others entry among with ⟨q, isPlace, owned⟩ | extra
    · exact Place.owns_of_mem_keys (apart q isPlace entry.1 (Place.mem_keys_of_owns owned) fitting)
    · rw [kept entry.1 fitting] at extra
      cases extra
  have own : entry ∈ fields.filter p.owns := List.mem_filter.mpr ⟨among, owned⟩
  rcases (filled.takes p member).cases with ⟨none, _⟩ | ⟨key, value, one, _, isValue⟩
  · rw [none] at own
    cases own
  · rw [one, List.mem_singleton] at own
    rw [own]
    exact isValue

theorem lacks (filled : Fills isExtra places fields)
    (apart : ∀ q ∈ places, ∀ key ∈ q.keys, fits key = false)
    (kept : ∀ key, fits key = true → isExtra key = false) : valueAt fits fields = none := by
  apply valueAt_eq_none
  intro entry member
  rcases filled.others entry member with ⟨q, among, owned⟩ | extra
  · exact apart q among entry.1 (Place.mem_keys_of_owns owned)
  · rw [← Bool.not_eq_true]
    intro fitting
    rw [kept entry.1 fitting] at extra
    cases extra

end Fills

def spotKeys (spot : Text × List Text) : List Text :=
  spot.1 :: fieldName spot.1 :: spot.2

def Apart (spots : List (Text × List Text)) : Prop :=
  ∀ own ∈ spots, fieldName (fieldName own.1) = fieldName own.1 ∧
    ∀ other ∈ spots, ∀ key ∈ spotKeys other, fieldName key = fieldName own.1 → key ∈ spotKeys own

instance (spots : List (Text × List Text)) : Decidable (Apart spots) :=
  inferInstanceAs (Decidable (∀ own ∈ spots, _ ∧ _))

def kindSpots : Kind → List (Text × List Text)
  | .code => [("val", []), ("buffer", []), ("escape", ["mustEscape"]), ("block", [])]
  | .each => [("val", []), ("obj", []), ("block", []), ("key", []), ("alternative", ["alternate"])]
  | kind => kind.keys.map fun key => (key, [])

def headingSpots : List (Text × List Text) :=
  headingKeys.map fun key => (key, [])

theorem kindSpots_keys (kind : Kind) : (kindSpots kind).map Prod.fst = kind.keys := by
  cases kind <;> rfl

theorem kindSpots_apart : ∀ kind ∈ Kind.all, Apart (headingSpots ++ kindSpots kind) := by
  decide +kernel

def FoundIn (entries : List (Text × Json)) (p : Place) : Prop :=
  p.Holds (valueAt (keyOf (fieldName p.key)) entries)

namespace Fills

variable {isExtra : Text → Bool} {places : List Place} {fields : List (Text × Json)} {p : Place}
  {kind : Kind}

theorem field_kept {name : Text} (declared : name ∈ kind.keys.map fieldName) :
    ∀ key, keyOf name key = true → isExtraKey kind key = false := by
  intro key fitting
  have isField : fieldName key = name := beq_iff_eq.mp fitting
  have among : (kind.keys.map fieldName).contains (fieldName key) = true := by
    rw [isField, List.contains_iff_mem]
    exact declared
  simp only [isExtraKey, among, Bool.not_true, Bool.and_false]

theorem field_apart (apart : Apart (places.map Place.spot)) (member : p ∈ places) :
    ∀ q ∈ places, ∀ key ∈ q.keys, keyOf (fieldName p.key) key = true → key ∈ p.keys := by
  intro q among key isKey fitting
  exact (apart p.spot (List.mem_map_of_mem member)).2 q.spot (List.mem_map_of_mem among) key isKey
    (beq_iff_eq.mp fitting)

theorem foundIn (filled : Fills (isExtraKey kind) places fields)
    (apart : Apart (places.map Place.spot)) (member : p ∈ places) (plain : p.aliases = [])
    (declared : p.key ∈ kind.keys) : FoundIn fields p := by
  apply filled.holds member _ (field_apart apart member)
    (field_kept (List.mem_map_of_mem declared))
  intro key isKey
  have either : key = p.key ∨ key = fieldName p.key := by simpa [Place.keys, plain] using isKey
  rcases either with rfl | rfl
  · exact beq_self_eq_true _
  · exact beq_iff_eq.mpr (apart p.spot (List.mem_map_of_mem member)).1

theorem field_eq_lookup? {key : Text} (filled : Fills (isExtraKey kind) places fields)
    (apart : Apart (places.map Place.spot)) (member : p ∈ places) (isKey : p.key = key)
    (declared : key ∈ kind.keys) (same : fieldName key = key)
    (others : ∀ other ∈ p.aliases, fieldName other ≠ key) :
    valueAt (keyOf key) fields = Json.lookup? key fields := by
  subst isKey
  have ownKeys := field_apart apart member
  have kept := field_kept (List.mem_map_of_mem (f := fieldName) declared)
  rw [same] at ownKeys kept
  rw [lookup?_eq]
  apply valueAt_congr
  intro entry among
  by_cases isOwn : entry.1 = p.key
  · rw [isOwn]
    simp only [keyOf, same, beq_self_eq_true]
  · rw [beq_false_of_ne isOwn, ← Bool.not_eq_true]
    intro fitting
    rcases filled.others entry among with ⟨q, isPlace, owned⟩ | extra
    · have isKey := ownKeys q isPlace entry.1 (Place.mem_keys_of_owns owned) fitting
      have either : entry.1 ∈ p.aliases := by simpa [Place.keys, same, isOwn] using isKey
      exact others entry.1 either (beq_iff_eq.mp fitting)
    · rw [kept entry.1 fitting] at extra
      cases extra

private theorem exact_eq {key : Text} (filled : Fills isExtra places fields) (isKey : key ∈ p.keys)
    (kept : isExtra key = false) :
    valueAt (· == key) fields = valueAt (· == key) (fields.filter p.owns) := by
  apply filled.valueAt_eq
  · intro q _ other _ fitting
    rw [beq_iff_eq] at fitting
    rw [fitting]
    exact isKey
  · intro other fitting
    rw [beq_iff_eq] at fitting
    rw [fitting, kept]

theorem exact_found (filled : Fills isExtra places fields) (member : p ∈ places)
    (plain : p.aliases = []) (same : fieldName p.key = p.key) (kept : isExtra p.key = false) :
    p.Holds (valueAt (· == p.key) fields) := by
  rw [filled.exact_eq (List.mem_cons_self ..) kept]
  rcases (filled.takes p member).cases with ⟨none, lacks⟩ | ⟨key, value, one, isKey, fitting⟩
  · rw [none]
    exact lacks
  · have isOwn : (key == p.key) = true := by simpa [Place.keys, plain, same] using isKey
    rw [one, valueAt_singleton, isOwn, if_pos rfl]
    exact fitting

end Fills

private theorem headingPlaces_exact (kind : Kind) (typeName : Text) (loc : Location) :
    ∀ p ∈ headingPlaces typeName loc,
      p.aliases = [] ∧ fieldName p.key = p.key ∧ isExtraKey kind p.key = false := by
  have closed : ∀ key ∈ headingKeys, fieldName key = key := by simp [headingKeys, fieldName_keys]
  intro p member
  have isHeading : p.key ∈ headingKeys :=
    List.mem_map_of_mem (f := Place.key) member
  have plain : p.aliases = [] := by
    have all : (headingPlaces typeName loc).map Place.aliases = [[], [], [], []] := rfl
    have among := List.mem_map_of_mem (f := Place.aliases) member
    rw [all] at among
    simpa using among
  refine ⟨plain, closed p.key isHeading, ?_⟩
  have kept : (headingKeys ++ dialectKeys).contains p.key = true := by
    rw [List.contains_iff_mem]
    exact List.mem_append_left _ isHeading
  simp only [isExtraKey, kept, Bool.not_true, Bool.false_and]

private theorem Place.Holds.given {key : Text} {value : Json} {found : Option Json}
    (holds : (Place.field key value .null).Holds found) : found.bind Json.given? = value.given? := by
  cases found with
  | none =>
    have isNull : value = .null := holds
    rw [isNull]
    rfl
  | some other =>
    have same : other = value := holds
    rw [same]
    rfl

theorem Fills.headed {kind : Kind} {typeName : Text} {loc : Location} {own : List Place}
    {fields : List (Text × Json)}
    (filled : Fills (isExtraKey kind) (headingPlaces typeName loc ++ own) fields) (parent : Subject) :
    readType parent fields = .ok typeName ∧ readLocation fields = loc := by
  have found : ∀ p ∈ headingPlaces typeName loc, p.Holds (valueAt (· == p.key) fields) := by
    intro p member
    obtain ⟨plain, same, kept⟩ := headingPlaces_exact kind typeName loc p member
    exact filled.exact_found (List.mem_append_left _ member) plain same kept
  simp only [headingPlaces, List.forall_mem_cons] at found
  obtain ⟨typed, line, column, filename, _⟩ := found
  have present {key : Text} {value : Json}
      (holds : (Place.field key value .null).Holds (valueAt (· == key) fields)) :
      Json.present? key fields = value.given? := by
    rw [present?_eq]
    exact holds.given
  constructor
  · simp only [readType, present typed, Json.given?, typeText]
    rfl
  · simp only [readLocation, present column, present filename]
    rw [present?_eq]
    have holds : (linePlace loc).Holds (valueAt (· == ("line" : Text)) fields) := line
    cases found : valueAt (· == ("line" : Text)) fields with
    | none =>
      rw [found] at holds
      obtain ⟨noLine, noColumn⟩ : loc.line = 0 ∧ loc.column = none := holds
      rcases loc with ⟨_, _, _ | _⟩ <;> subst noLine noColumn <;> rfl
    | some value =>
      rw [found] at holds
      have isLine : value = .int loc.line := holds
      rw [isLine]
      rcases loc with ⟨_, _ | _, _ | _⟩ <;> rfl

/-- A value that is not null and is read as what it was written for. -/
structure ReadsBack {α : Type} (read : Json → Except Fault α) (value : Json) (a : α) : Prop where
  given : value.given? = some value
  read : read value = .ok a

section Reading

variable {α : Type} {read : Json → Except Fault α} {value missing : Json} {a : α} {key name : Text}
  {entries fields : List (Text × Json)}

private theorem required_of
    (found : (Place.field key value .null).Holds (valueAt (keyOf name) entries))
    (back : ReadsBack read value a) (owner : Subject) :
    required owner name read entries = .ok a := by
  unfold required
  rw [field?_eq, found.given, back.given]
  exact back.read

private theorem defaulted_of
    (found : (Place.field key value missing).Holds (valueAt (keyOf name) entries))
    (back : ReadsBack read value a) {absent : α} (same : value = missing → a = absent) :
    defaulted absent name read entries = .ok a := by
  unfold defaulted
  rw [field?_eq]
  cases isFound : valueAt (keyOf name) entries with
  | none =>
    rw [isFound] at found
    rw [same found]
    rfl
  | some other =>
    rw [isFound] at found
    have isValue : other = value := found
    rw [isValue, Option.bind_some, back.given]
    exact back.read

private theorem text_readsBack {field : Loose Text} (proper : field.isProper = true) :
    ReadsBack readText field.textJson field := by
  obtain ⟨text, rfl⟩ := Loose.isProper_iff.mp proper
  exact ⟨rfl, rfl⟩

private theorem flag_readsBack {field : Loose Bool} (proper : field.isProper = true) :
    ReadsBack readFlag field.flagJson field := by
  obtain ⟨flag, rfl⟩ := Loose.isProper_iff.mp proper
  exact ⟨rfl, rfl⟩

private theorem text_defaulted {field : Loose Text} {usual : Text}
    (found : (Place.field key field.textJson (.str usual)).Holds (valueAt (keyOf name) entries))
    (proper : field.isProper = true) : defaulted (.of usual) name readText entries = .ok field := by
  apply defaulted_of found (text_readsBack proper)
  obtain ⟨text, rfl⟩ := Loose.isProper_iff.mp proper
  intro same
  injection same with same
  rw [same]

private theorem flag_defaulted {field : Loose Bool} {usual : Bool}
    (found : (Place.field key field.flagJson (.bool usual)).Holds (valueAt (keyOf name) entries))
    (proper : field.isProper = true) : defaulted (.of usual) name readFlag entries = .ok field := by
  apply defaulted_of found (flag_readsBack proper)
  obtain ⟨flag, rfl⟩ := Loose.isProper_iff.mp proper
  intro same
  injection same with same
  rw [same]

private theorem optional_of {field : Loose Text}
    (found : (Place.field key field.textJson .null).Holds (valueAt (keyOf name) entries))
    (proper : field.isProperOrMissing = true) : optional name readText entries = .ok field := by
  rcases Loose.isProperOrMissing_iff.mp proper with ⟨text, rfl⟩ | rfl
  · apply defaulted_of found (text_readsBack rfl)
    intro isNull
    cases isNull
  · unfold optional defaulted
    rw [field?_eq, found.given]
    rfl

private theorem mapM_of {β : Type} {item : Json → Except Fault β} {spells : β → Json → Prop}
    {items : List β} {written : List Json} (back : ∀ b ∈ items, ∀ json, spells b json → item json = .ok b)
    (all : List.Forall₂ spells items written) : written.mapM item = .ok items := by
  induction all with
  | nil => rfl
  | cons spelled all ih =>
    have later := ih fun b member => back b (List.mem_cons_of_mem _ member)
    rw [List.mapM_cons, back _ (List.mem_cons_self ..) _ spelled, later]
    rfl

private theorem list_defaulted {β : Type} {item : Json → Except Fault β} {spells : β → Json → Prop}
    {items : List β} {p : Place} (isList : p.value = SpellsList spells (.of items))
    (lacks : p.mayLack → items = []) (found : p.Holds (valueAt (keyOf name) entries))
    (back : ∀ b ∈ items, ∀ json, spells b json → item json = .ok b) :
    defaulted (.of []) name (readList item) entries = .ok (.of items) := by
  unfold defaulted
  rw [field?_eq]
  cases isFound : valueAt (keyOf name) entries with
  | none =>
    rw [isFound] at found
    rw [lacks found]
    rfl
  | some json =>
    rw [isFound] at found
    have spelled : p.value json := found
    rw [isList] at spelled
    obtain ⟨written, rfl, all⟩ := spelled
    show Loose.of <$> written.mapM item = _
    rw [mapM_of back all]
    rfl

private theorem Place.Holds.eq_some {found : Option Json}
    (holds : (Place.field key value .null).Holds found) (given : value.given? = some value) :
    found = some value := by
  cases found with
  | none =>
    have isNull : value = .null := holds
    rw [isNull] at given
    cases given
  | some other => exact congrArg some holds

theorem Fills.lookup?_of {isExtra : Text → Bool} {places : List Place}
    (filled : Fills isExtra places fields) (member : Place.field key value .null ∈ places)
    (given : value.given? = some value) (same : fieldName key = key) (kept : isExtra key = false) :
    Json.lookup? key fields = some value :=
  (filled.exact_found member rfl same kept).eq_some given

theorem Fills.lookup?_getD {isExtra : Text → Bool} {places : List Place} {β : Type}
    {absent : Json} (filled : Fills isExtra places fields) (view : Json → β)
    (member : Place.field key value missing ∈ places) (same : fieldName key = key)
    (kept : isExtra key = false) (usual : value = missing → view absent = view value) :
    view ((Json.lookup? key fields).getD absent) = view value := by
  have holds : (Place.field key value missing).Holds (valueAt (· == key) fields) :=
    filled.exact_found member rfl same kept
  rw [lookup?_eq]
  cases found : valueAt (· == key) fields with
  | none =>
    rw [found] at holds
    exact usual holds
  | some other =>
    rw [found] at holds
    exact congrArg view holds

theorem Fills.alias_lookups {isExtra : Text → Bool} {places : List Place} {p : Place}
    {other : Text} (filled : Fills isExtra places fields) (member : p.alsoAs other ∈ places)
    (isKey : p.key = key) (same : fieldName key = key) (differs : key ≠ other)
    (kept : isExtra key = false) (keptOther : isExtra other = false) :
    (p.mayLack ∧ Json.lookup? key fields = none ∧ Json.lookup? other fields = none) ∨
      ∃ value, p.value value ∧
        ((Json.lookup? key fields = some value ∧ Json.lookup? other fields = none) ∨
          (Json.lookup? key fields = none ∧ Json.lookup? other fields = some value)) := by
  subst isKey
  have isOwn : p.key ∈ (p.alsoAs other).keys := List.mem_cons_self ..
  have isOther : other ∈ (p.alsoAs other).keys := by simp [Place.keys, Place.alsoAs]
  have own := filled.exact_eq isOwn kept
  have others := filled.exact_eq isOther keptOther
  rw [lookup?_eq, lookup?_eq, own, others]
  rcases (filled.takes _ member).alias_cases same with
    ⟨none, lacks⟩ | ⟨value, isValue, one | one⟩
  · rw [none]
    exact .inl ⟨lacks, rfl, rfl⟩
  · have apart : (p.key == other) = false := beq_false_of_ne differs
    refine .inr ⟨value, isValue, .inl ?_⟩
    rw [one, valueAt_singleton, valueAt_singleton, apart]
    exact ⟨if_pos (beq_self_eq_true _), rfl⟩
  · have apart : (other == p.key) = false := beq_false_of_ne differs.symm
    refine .inr ⟨value, isValue, .inr ?_⟩
    rw [one, valueAt_singleton, valueAt_singleton, apart]
    exact ⟨rfl, if_pos (beq_self_eq_true _)⟩

private theorem attribute_of {attr : Attribute} {json : Json}
    (spelled : SpellsAttribute (.of attr) json) :
    readAttribute json = .ok (.of attr) := by
  cases json with
  | obj fields =>
    have filled : Fills (fun key => !attributeKeys.contains key) (attributePlaces attr) fields :=
      spelled
    have kept : ∀ key ∈ attributeKeys, (!attributeKeys.contains key) = false := by
      intro key member
      rw [Bool.not_eq_false', List.contains_iff_mem]
      exact member
    have nameFound := filled.lookup?_of (List.mem_cons_self ..) rfl (by simp only [fieldName_keys])
      (kept "name" (by simp [attributeKeys]))
    have valFound : expressionSource ((Json.lookup? "val" fields).getD (.bool true)) = attr.val :=
      filled.lookup?_getD expressionSource (List.mem_cons_of_mem _ (List.mem_cons_self ..))
        (by simp only [fieldName_keys]) (kept "val" (by simp [attributeKeys])) fun isTrue => by
          rw [isTrue]
          rfl
    have flagFound : (((Json.lookup? "escaped" fields).or (Json.lookup? "mustEscape" fields)).getD
        (.bool true)).truthy = attr.escaped := by
      have member : (Place.field "escaped" (.bool attr.escaped) (.bool true)).alsoAs "mustEscape" ∈
          attributePlaces attr := by simp [attributePlaces]
      rcases filled.alias_lookups member (rfl : _ = ("escaped" : Text))
        (by simp only [fieldName_keys]) (by simp [ofString_inj])
        (kept "escaped" (by simp [attributeKeys])) (kept "mustEscape" (by simp [attributeKeys])) with
        ⟨lacks, none, noOther⟩ | ⟨value, isValue, ⟨own, noOther⟩ | ⟨none, other⟩⟩
      · have usual : Json.bool attr.escaped = .bool true := lacks
        rw [none, noOther]
        injection usual with usual
        exact usual.symm
      · have isFlag : value = .bool attr.escaped := isValue
        rw [own, noOther, isFlag]
        rfl
      · have isFlag : value = .bool attr.escaped := isValue
        rw [none, other, isFlag]
        rfl
    simp only [readAttribute, nameFound, valFound, flagFound]
    rfl
  | _ => exact spelled.elim

private theorem attributeBlock_of {expr : Text} {json : Json}
    (spelled : SpellsAttributeBlock (.of expr) json) : readAttributeBlock json = .ok (.of expr) := by
  rcases spelled with rfl | spelled
  · rfl
  · cases json with
    | obj fields =>
      have filled : Fills (fun key => key != "val") _ fields := spelled
      have valFound := filled.lookup?_of (List.mem_cons_self ..) rfl
        (by simp only [fieldName_keys]) (by simp)
      simp only [readAttributeBlock, valFound]
      rfl
    | _ => exact spelled.elim

private theorem attributes_of {attrs : Attributes} (proper : attrs.isProperList = true)
    (found : (attributesPlace attrs).Holds (valueAt (keyOf name) entries)) :
    defaulted (.of []) name (readList readAttribute) entries = .ok attrs := by
  obtain ⟨items, rfl⟩ := Loose.isProperList_iff.mp proper
  apply list_defaulted rfl (fun lacks => by injection lacks) found
  intro item member json spelled
  obtain ⟨attr, _, rfl⟩ := List.mem_map.mp member
  exact attribute_of spelled

private theorem attributeBlocks_of {blocks : AttributeBlocks} (proper : blocks.isProperList = true)
    (found : (attributeBlocksPlace blocks).Holds (valueAt (keyOf name) entries)) :
    defaulted (.of []) name (readList readAttributeBlock) entries = .ok blocks := by
  obtain ⟨items, rfl⟩ := Loose.isProperList_iff.mp proper
  apply list_defaulted rfl (fun lacks => by injection lacks) found
  intro item member json spelled
  obtain ⟨expr, _, rfl⟩ := List.mem_map.mp member
  exact attributeBlock_of spelled

def slotPlace (key : Text) (child : Option Node) : Place :=
  { key, value := SpellsSlot child, mayLack := child = none }

private theorem slot_of {child : Option Node} {fits : Text → Bool}
    (found : (slotPlace key child).Holds (valueAt fits fields))
    (back : ∀ owner json, SpellsSlot child json → loadChild owner (some json) = .ok child)
    (owner : Subject) : loadSlot owner fits fields = .ok child := by
  rw [loadSlot_eq]
  cases isFound : valueAt fits fields with
  | none =>
    rw [isFound] at found
    have isNone : child = none := found
    rw [isNone]
    rfl
  | some json =>
    rw [isFound] at found
    exact back owner json found

def nodesPlace (nodes : List Node) : Place :=
  { key := "nodes"
    value := fun json => ∃ items, json = .arr items ∧ SpellsNodes nodes items
    mayLack := nodes = [] }

theorem sequence_of {nodes : List Node}
    (found : (nodesPlace nodes).Holds (valueAt (keyOf "nodes") fields))
    (back : ∀ owner items, SpellsNodes nodes items → loadItems owner items = .ok nodes)
    (owner : Subject) : loadSequence owner fields = .ok (.of nodes) := by
  rw [loadSequence_eq]
  cases isFound : valueAt (keyOf "nodes") fields with
  | none =>
    rw [isFound] at found
    have isNil : nodes = [] := found
    rw [isNil]
    rfl
  | some json =>
    rw [isFound] at found
    obtain ⟨items, rfl, spelled⟩ := found
    show Loose.of <$> loadItems owner items = _
    rw [back owner items spelled]
    rfl

private theorem filled {child : Option Node} {fits : Node → Bool}
    (accepted : child.any fits = true) :
    child.isSome = true := by
  cases child with
  | none => cases accepted
  | some n => rfl

private theorem needed_eq {child : Option Node} (filled : child.isSome = true) (owner : Subject)
    (name : Text) : needed owner name child = .ok child := by
  cases child with
  | none => cases filled
  | some n => rfl

end Reading

theorem ok_bind {α β : Type} (a : α) (next : α → Except Fault β) :
    ((Except.ok a : Except Fault α) >>= next) = next a := rfl

/-- An object whose type stands for a kind, with the fields that its own ones are read from. -/
structure ReadsAs (parent : Subject) (fields : List (Text × Json)) (loc : Location)
    (shape : Shape) : Prop where
  typed : ∃ typeName, readType parent fields = .ok typeName ∧
    Document.shape parent typeName fields = .ok shape
  location : readLocation fields = loc

section Keys

theorem field_key (key : Text) (value missing : Json) :
    (Place.field key value missing).key = key := rfl

theorem alsoAs_key (p : Place) (other : Text) : (p.alsoAs other).key = p.key := rfl

theorem alsoAs_holds (p : Place) (other : Text) (found : Option Json) :
    (p.alsoAs other).Holds found ↔ p.Holds found := by
  cases found <;> rfl

theorem attributesPlace_key (attrs : Attributes) :
    (attributesPlace attrs).key = "attrs" := rfl

theorem attributeBlocksPlace_key (blocks : AttributeBlocks) :
    (attributeBlocksPlace blocks).key = "attributeBlocks" := rfl

theorem slotPlace_key (key : Text) (child : Option Node) :
    (slotPlace key child).key = key := rfl

theorem nodesPlace_key (nodes : List Node) : (nodesPlace nodes).key = "nodes" := rfl

end Keys

section Kinds

variable {parent : Subject} {fields entries : List (Text × Json)} {loc : Location}

theorem loadBelow_leaf {head : Leaf} (formed : head.wellFormed = true)
    (reads : ReadsAs parent fields loc { kind := head.kind, entries })
    (found : ∀ p ∈ leafPlaces head, FoundIn entries p) :
    loadBelow parent (.obj fields) = .ok (.leaf loc head) := by
  obtain ⟨⟨typeName, typed, shaped⟩, located⟩ := reads
  rw [loadBelow]
  simp only [typed, shaped, located, ok_bind]
  cases head with
  | mixinBlock => rfl
  | text val isHtml =>
    simp only [Leaf.wellFormed, Bool.and_eq_true] at formed
    simp only [leafPlaces, List.forall_mem_cons, FoundIn, field_key, fieldName_keys] at found
    obtain ⟨valFound, htmlFound, _⟩ := found
    simp only [Leaf.kind, required_of valFound (text_readsBack formed.1),
      flag_defaulted htmlFound formed.2, ok_bind]
    rfl
  | comment val buffer =>
    simp only [Leaf.wellFormed, Bool.and_eq_true] at formed
    simp only [leafPlaces, List.forall_mem_cons, FoundIn, field_key, fieldName_keys] at found
    obtain ⟨valFound, bufferFound, _⟩ := found
    simp only [Leaf.kind, required_of valFound (text_readsBack formed.1),
      flag_defaulted bufferFound formed.2, ok_bind]
    rfl
  | doctype val =>
    simp only [leafPlaces, List.forall_mem_cons, FoundIn, field_key, fieldName_keys] at found
    simp only [Leaf.kind, optional_of found.1 formed, ok_bind]
    rfl
  | fileReference path =>
    simp only [leafPlaces, List.forall_mem_cons, FoundIn, field_key, fieldName_keys] at found
    simp only [Leaf.kind, required_of found.1 (text_readsBack formed), ok_bind]
    rfl
  | bare => cases formed

theorem loadBelow_block {kind : BlockKind} {yields : Loose Bool} {nodes : List Node} {empty : Bool}
    (formed : kind.wellFormed = true) (flag : yields.isProper = true)
    (reads : ReadsAs parent fields loc { kind := kind.kind, entries, empty })
    (found : ∀ p ∈ blockPlaces kind yields (nodesPlace nodes), FoundIn entries p)
    (plain : empty = true → kind = .plain)
    (nodesRead : ∀ owner,
      (if empty then .ok (.of []) else loadSequence owner fields) = .ok (.of nodes)) :
    loadBelow parent (.obj fields) = .ok (.block loc kind yields nodes) := by
  obtain ⟨⟨typeName, typed, shaped⟩, located⟩ := reads
  rw [loadBelow]
  simp only [typed, shaped, located, ok_bind]
  cases kind with
  | plain =>
    simp only [blockPlaces, List.forall_mem_cons, FoundIn, field_key, fieldName_keys] at found
    obtain ⟨_, yieldsFound, _⟩ := found
    cases empty with
    | true =>
      have isNil : nodes = [] := by
        have read := nodesRead {}
        simp only [if_true, Except.ok.injEq, Loose.of.injEq] at read
        exact read.symm
      simp only [BlockKind.kind, flag_defaulted yieldsFound flag, ok_bind, isNil]
      rfl
    | false =>
      simp only [Bool.false_eq_true, if_false] at nodesRead
      simp only [BlockKind.kind, nodesRead, flag_defaulted yieldsFound flag, ok_bind]
      rfl
  | named name mode =>
    have notEmpty : empty = false := by
      rw [← Bool.not_eq_true]
      intro isEmpty
      cases plain isEmpty
    simp only [notEmpty, Bool.false_eq_true, if_false] at nodesRead
    simp only [BlockKind.wellFormed, Bool.and_eq_true] at formed
    simp only [blockPlaces, List.forall_mem_cons, FoundIn, field_key, fieldName_keys] at found
    obtain ⟨_, yieldsFound, nameFound, modeFound, _⟩ := found
    simp only [BlockKind.kind, nodesRead, flag_defaulted yieldsFound flag,
      text_defaulted nameFound formed.1,
      text_defaulted modeFound (Loose.isProper_of_isMode formed.2), ok_bind]
    rfl

theorem loadBelow_stem {head : Stem} {child : Option Node} (formed : head.wellFormed = true)
    (accepted : head.accepts child = true)
    (reads : ReadsAs parent fields loc { kind := head.kind, entries })
    (found : ∀ p ∈ stemPlaces head (slotPlace head.slot child), FoundIn entries p)
    (childFound : FoundIn fields (slotPlace head.slot child))
    (back : ∀ owner json, SpellsSlot child json → loadChild owner (some json) = .ok child) :
    loadBelow parent (.obj fields) = .ok (.stem loc head child) := by
  obtain ⟨⟨typeName, typed, shaped⟩, located⟩ := reads
  rw [loadBelow]
  simp only [typed, shaped, located, ok_bind]
  cases head with
  | mixin m =>
    simp only [Stem.wellFormed, MixinHead.wellFormed, Bool.and_eq_true] at formed
    obtain ⟨⟨⟨⟨name, call⟩, args⟩, attrs⟩, blocks⟩ := formed
    simp only [stemPlaces, List.forall_mem_cons, FoundIn, field_key, attributesPlace_key,
      attributeBlocksPlace_key, fieldName_keys] at found
    obtain ⟨nameFound, callFound, argsFound, attrsFound, blocksFound, _⟩ := found
    simp only [FoundIn, slotPlace_key, Stem.slot, fieldName_keys] at childFound
    simp only [Stem.kind, required_of nameFound (text_readsBack name),
      required_of callFound (flag_readsBack call), optional_of argsFound args,
      attributes_of attrs attrsFound, attributeBlocks_of blocks blocksFound,
      slot_of childFound back, ok_bind]
    rfl
  | code code =>
    simp only [Stem.wellFormed, CodeHead.wellFormed, Bool.and_eq_true] at formed
    obtain ⟨⟨val, buffer⟩, escape⟩ := formed
    simp only [stemPlaces, List.forall_mem_cons, FoundIn, field_key, alsoAs_key, alsoAs_holds,
      fieldName_keys] at found
    obtain ⟨valFound, bufferFound, escapeFound, _⟩ := found
    simp only [FoundIn, slotPlace_key, Stem.slot, fieldName_keys] at childFound
    simp only [Stem.kind, required_of valFound (text_readsBack val),
      flag_defaulted bufferFound buffer, flag_defaulted escapeFound escape,
      slot_of childFound back, ok_bind]
    rfl
  | blockComment val buffer =>
    simp only [Stem.wellFormed, Bool.and_eq_true] at formed
    simp only [stemPlaces, List.forall_mem_cons, FoundIn, field_key, fieldName_keys] at found
    obtain ⟨valFound, _, bufferFound, _⟩ := found
    simp only [FoundIn, slotPlace_key, Stem.slot, fieldName_keys] at childFound
    simp only [Stem.kind, required_of valFound (text_readsBack formed.1),
      slot_of childFound back, needed_eq (filled accepted), flag_defaulted bufferFound formed.2,
      ok_bind]
    rfl
  | caseOf expr =>
    simp only [stemPlaces, List.forall_mem_cons, FoundIn, field_key, fieldName_keys] at found
    simp only [FoundIn, slotPlace_key, Stem.slot, fieldName_keys] at childFound
    simp only [Stem.kind, required_of found.1 (text_readsBack formed), slot_of childFound back,
      needed_eq (filled accepted), ok_bind]
    rfl
  | when expr =>
    simp only [stemPlaces, List.forall_mem_cons, FoundIn, field_key, fieldName_keys] at found
    simp only [FoundIn, slotPlace_key, Stem.slot, fieldName_keys] at childFound
    simp only [Stem.kind, required_of found.1 (text_readsBack formed), slot_of childFound back,
      ok_bind]
    rfl
  | whileLoop test =>
    simp only [stemPlaces, List.forall_mem_cons, FoundIn, field_key, fieldName_keys] at found
    simp only [FoundIn, slotPlace_key, Stem.slot, fieldName_keys] at childFound
    simp only [Stem.kind, required_of found.1 (text_readsBack formed), slot_of childFound back,
      needed_eq (filled accepted), ok_bind]
    rfl
  | extending =>
    simp only [FoundIn, slotPlace_key, Stem.slot, fieldName_keys] at childFound
    simp only [Stem.kind, slot_of childFound back, needed_eq (filled accepted), ok_bind]
    rfl
  | filter name attrs =>
    simp only [Stem.wellFormed, Bool.and_eq_true] at formed
    simp only [stemPlaces, List.forall_mem_cons, FoundIn, field_key, attributesPlace_key,
      fieldName_keys] at found
    obtain ⟨nameFound, _, attrsFound, _⟩ := found
    simp only [FoundIn, slotPlace_key, Stem.slot, fieldName_keys] at childFound
    simp only [Stem.kind, required_of nameFound (text_readsBack formed.1), slot_of childFound back,
      needed_eq (filled accepted), attributes_of formed.2 attrsFound, ok_bind]
    rfl

def secondFits (head : Fork) (fields : List (Text × Json)) : Text → Bool :=
  match head with
  | .each _ _ _ => alternativeKey fields
  | head => keyOf (fieldName head.secondSlot)

theorem loadBelow_fork {head : Fork} {first second : Option Node} (formed : head.wellFormed = true)
    (accepted : head.acceptsFirst first = true)
    (reads : ReadsAs parent fields loc { kind := head.kind, entries })
    (found : ∀ p ∈ forkPlaces head (slotPlace head.firstSlot first)
      (slotPlace head.secondSlot second), p.aliases = [] → FoundIn entries p)
    (firstFound : FoundIn fields (slotPlace head.firstSlot first))
    (secondFound : (slotPlace head.secondSlot second).Holds
      (valueAt (secondFits head fields) fields))
    (firstBack : ∀ owner json, SpellsSlot first json → loadChild owner (some json) = .ok first)
    (secondBack : ∀ owner json, SpellsSlot second json → loadChild owner (some json) = .ok second) :
    loadBelow parent (.obj fields) = .ok (.fork loc head first second) := by
  obtain ⟨⟨typeName, typed, shaped⟩, located⟩ := reads
  rw [loadBelow]
  simp only [typed, shaped, located, ok_bind]
  cases head with
  | tag tag =>
    simp only [Fork.wellFormed, TagHead.wellFormed, Bool.and_eq_true] at formed
    obtain ⟨⟨⟨⟨name, attrs⟩, blocks⟩, closing⟩, interpolated⟩ := formed
    simp only [forkPlaces, tagPlaces, List.forall_mem_cons, FoundIn, field_key, attributesPlace_key,
      attributeBlocksPlace_key, fieldName_keys] at found
    obtain ⟨nameFound, _, attrsFound, blocksFound, closingFound, interpolatedFound, _⟩ := found
    simp only [FoundIn, slotPlace_key, Fork.firstSlot, fieldName_keys] at firstFound
    simp only [secondFits, Fork.secondSlot, fieldName_keys] at secondFound
    simp only [Fork.kind, required_of (nameFound rfl) (text_readsBack name),
      slot_of firstFound firstBack, needed_eq (filled accepted),
      attributes_of attrs (attrsFound rfl), attributeBlocks_of blocks (blocksFound rfl),
      flag_defaulted (closingFound rfl) closing,
      flag_defaulted (interpolatedFound rfl) interpolated, slot_of secondFound secondBack, ok_bind]
    rfl
  | conditional test =>
    simp only [forkPlaces, List.forall_mem_cons, FoundIn, field_key, fieldName_keys] at found
    simp only [FoundIn, slotPlace_key, Fork.firstSlot, fieldName_keys] at firstFound
    simp only [secondFits, Fork.secondSlot, fieldName_keys] at secondFound
    simp only [Fork.kind, required_of (found.1 rfl) (text_readsBack formed),
      slot_of firstFound firstBack, needed_eq (filled accepted), slot_of secondFound secondBack,
      ok_bind]
    rfl
  | each val obj key =>
    simp only [Fork.wellFormed, Bool.and_eq_true] at formed
    simp only [forkPlaces, List.forall_mem_cons, FoundIn, field_key, fieldName_keys] at found
    obtain ⟨valFound, objFound, _, keyFound, _⟩ := found
    simp only [FoundIn, slotPlace_key, Fork.firstSlot, fieldName_keys] at firstFound
    simp only [secondFits] at secondFound
    simp only [Fork.kind, required_of (valFound rfl) (text_readsBack formed.1.1),
      required_of (objFound rfl) (text_readsBack formed.1.2), slot_of firstFound firstBack,
      needed_eq (filled accepted), optional_of (keyFound rfl) formed.2,
      slot_of secondFound secondBack, ok_bind]
    rfl
  | inclusion filter attrs =>
    simp only [Fork.wellFormed, Bool.and_eq_true] at formed
    simp only [forkPlaces, List.forall_mem_cons, FoundIn, field_key, attributesPlace_key,
      fieldName_keys] at found
    obtain ⟨_, filterFound, attrsFound, _⟩ := found
    simp only [FoundIn, slotPlace_key, Fork.firstSlot, fieldName_keys] at firstFound
    simp only [secondFits, Fork.secondSlot, fieldName_keys] at secondFound
    simp only [Fork.kind, slot_of firstFound firstBack, needed_eq (filled accepted),
      optional_of (filterFound rfl) formed.1, attributes_of formed.2 (attrsFound rfl),
      slot_of secondFound secondBack, ok_bind]
    rfl

end Kinds

end PugPrinter.Document
