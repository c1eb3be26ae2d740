import PugPrinter.Proofs.Document.Reading

/-!
Both dialects are read as the same trees. A type that only one dialect has is brought to the usual
fields: some of them are set, and readers of the others see what they saw before.
-/

set_option autoImplicit false

namespace PugPrinter.Document

theorem mem_all (kind : Kind) : kind ≠ .bare → kind ∈ Kind.all := by
  cases kind <;> decide

theorem ofName?_name : ∀ kind ∈ Kind.all, Kind.ofName? kind.name = some kind ∧
    kind.name ≠ "YieldBlock" ∧ kind.name ≠ "InterpolatedTag" ∧ kind.name ≠ "RawInclude" := by
  decide +kernel

theorem shape_name {kind : Kind} (concrete : kind ∈ Kind.all) (notCode : kind ≠ .code)
    (parent : Subject) (fields : List (Text × Json)) :
    shape parent kind.name fields = .ok { kind, entries := fields } := by
  obtain ⟨named, notYield, notInterpolated, notRaw⟩ := ofName?_name kind concrete
  unfold shape
  rw [if_neg (by simpa using notYield), if_neg (by simpa using notInterpolated),
    if_neg (by simpa using notRaw), named]
  cases kind with
  | code => exact absurd rfl notCode
  | _ => rfl

private theorem SpellsForm.cases {kind : Kind} {loc : Location} {forms : List (Text × List Place)}
    {json : Json} (spelled : SpellsForm kind loc forms json) :
    ∃ form ∈ forms, ∃ fields, json = .obj fields ∧
      Fills (isExtraKey kind) (headingPlaces form.1 loc ++ form.2) fields := by
  obtain ⟨form, member, isObject⟩ := spelled
  cases json with
  | obj fields => exact ⟨form, member, fields, rfl, isObject⟩
  | _ => exact isObject.elim

section Forms

variable {kind : Kind} {typeName : Text} {loc : Location} {own : List Place}
  {fields : List (Text × Json)}

private theorem Fills.readsAs
    (filled : Fills (isExtraKey kind) (headingPlaces typeName loc ++ own) fields)
    {parent : Subject} {shape : Shape}
    (shaped : Document.shape parent typeName fields = .ok shape) :
    ReadsAs parent fields loc shape :=
  ⟨⟨typeName, (filled.headed parent).1, shaped⟩, (filled.headed parent).2⟩

theorem headingPlaces_spots (typeName : Text) (loc : Location) (own : List Place) :
    (headingPlaces typeName loc ++ own).map Place.spot = headingSpots ++ own.map Place.spot := by
  rw [List.map_append]
  rfl

private theorem Fills.usual
    (filled : Fills (isExtraKey kind) (headingPlaces typeName loc ++ own) fields)
    (concrete : kind ∈ Kind.all) (spots : own.map Place.spot = kindSpots kind) :
    ∀ p ∈ own, p.aliases = [] → FoundIn fields p := by
  intro p member plain
  apply filled.foundIn _ (List.mem_append_right _ member) plain
  · rw [← kindSpots_keys, ← spots, List.map_map]
    exact List.mem_map_of_mem (f := Prod.fst ∘ Place.spot) member
  · rw [headingPlaces_spots, spots]
    exact kindSpots_apart kind concrete

theorem leafPlaces_spots (head : Leaf) : (leafPlaces head).map Place.spot = kindSpots head.kind := by
  cases head <;> rfl

theorem blockPlaces_spots (kind : BlockKind) (yields : Loose Bool) (nodes : List Node) :
    (blockPlaces kind yields (nodesPlace nodes)).map Place.spot = kindSpots kind.kind := by
  cases kind <;> rfl

theorem stemPlaces_spots (head : Stem) (child : Option Node) :
    (stemPlaces head (slotPlace head.slot child)).map Place.spot = kindSpots head.kind := by
  cases head <;> rfl

theorem forkPlaces_spots (head : Fork) (first second : Option Node) :
    (forkPlaces head (slotPlace head.firstSlot first) (slotPlace head.secondSlot second)).map
      Place.spot = kindSpots head.kind := by
  cases head <;> rfl

end Forms

theorem keyOf_eq_true {name key : Text} (same : fieldName key = name) : keyOf name key = true :=
  beq_iff_eq.mpr same

theorem keyOf_eq_false {name key : Text} (differs : fieldName key ≠ name) :
    keyOf name key = false :=
  beq_false_of_ne differs

private theorem FoundIn.put {fields : List (Text × Json)} {p : Place} (found : FoundIn fields p)
    {key : Text} (differs : fieldName key ≠ fieldName p.key) (value : Json) :
    FoundIn (Json.put key value fields) p := by
  unfold FoundIn at found ⊢
  rw [valueAt_put_other (keyOf_eq_false differs)]
  exact found

private theorem foundIn_put_new {fields : List (Text × Json)} {p : Place} {name : Text}
    {value : Json} (isName : fieldName p.key = name) (isValue : p.value value)
    (absent : valueAt (keyOf name) fields = none) : FoundIn (Json.put p.key value fields) p := by
  unfold FoundIn
  rw [isName, valueAt_put_new (keyOf_eq_true isName) absent]
  exact isValue

def codeEntries (fields : List (Text × Json)) : List (Text × Json) :=
  match Json.lookup? "mustEscape" fields with
  | some flag => if hasKey "escape" fields then fields else Json.put "escape" flag fields
  | none => fields

theorem shape_code (parent : Subject) (fields : List (Text × Json)) :
    shape parent Kind.code.name fields =
      .ok { kind := .code, entries := codeEntries fields } := by
  obtain ⟨named, notYield, notInterpolated, notRaw⟩ :=
    ofName?_name .code (mem_all .code Kind.noConfusion)
  unfold shape codeEntries
  rw [if_neg (by simpa using notYield), if_neg (by simpa using notInterpolated),
    if_neg (by simpa using notRaw), named]
  cases Json.lookup? "mustEscape" fields <;> rfl

section Code

variable {typeName : Text} {loc : Location} {code : CodeHead} {child : Option Node}
  {fields : List (Text × Json)}
  (filled : Fills (isExtraKey .code) (headingPlaces typeName loc ++
    stemPlaces (.code code) (slotPlace "block" child)) fields)
include filled

private theorem flag_found : (Place.field "escape" code.escape.flagJson (.bool true)).Holds
    (valueAt (keyOf "escape") (codeEntries fields)) := by
  have isPlace : (Place.field "escape" code.escape.flagJson (.bool true)).alsoAs "mustEscape" ∈
      headingPlaces typeName loc ++ stemPlaces (.code code) (slotPlace "block" child) :=
    List.mem_append_right _ (by simp [stemPlaces])
  have same : fieldName "escape" = "escape" := by simp only [fieldName_keys]
  have differs : fieldName "mustEscape" ≠ "escape" := by simp [fieldName_keys, ofString_inj]
  have declared : ("escape" : Text) ∈ Kind.code.keys := by simp [Kind.keys]
  have apart : Apart ((headingPlaces typeName loc ++
      stemPlaces (.code code) (slotPlace "block" child)).map Place.spot) := by
    rw [headingPlaces_spots]
    exact kindSpots_apart .code (mem_all .code Kind.noConfusion)
  have seen : valueAt (keyOf "escape") fields = Json.lookup? "escape" fields := by
    apply filled.field_eq_lookup? apart isPlace rfl declared same
    intro other among
    rw [List.mem_singleton.mp among]
    exact differs
  unfold codeEntries
  have kept : isExtraKey .code "escape" = false := by simp [isExtraKey, Kind.keys]
  have keptOther : isExtraKey .code "mustEscape" = false := by simp [isExtraKey, dialectKeys]
  rcases filled.alias_lookups isPlace (rfl : _ = ("escape" : Text)) same (by simp [ofString_inj])
    kept keptOther with
    ⟨lacks, none, noOther⟩ | ⟨value, isValue, ⟨own, noOther⟩ | ⟨none, other⟩⟩
  · rw [noOther, seen, none]
    exact lacks
  · rw [noOther, seen, own]
    exact isValue
  · have set := valueAt_put_new (keyOf_eq_true same) (seen.trans none) value
    simp only [other, hasKey_eq, none, Option.isSome_none, Bool.false_eq_true, if_false]
    rw [set]
    exact isValue

private theorem code_found :
    ∀ p ∈ stemPlaces (.code code) (slotPlace "block" child), FoundIn (codeEntries fields) p := by
  have same : fieldName "escape" = "escape" := by simp only [fieldName_keys]
  have plain := filled.usual (mem_all .code Kind.noConfusion) (stemPlaces_spots (.code code) child)
  have kept : ∀ p ∈ stemPlaces (.code code) (slotPlace "block" child), p.aliases = [] →
      FoundIn (codeEntries fields) p := by
    have apart : ∀ spot ∈ kindSpots .code, spot.2 = [] →
        fieldName "escape" ≠ fieldName spot.1 := by
      simp [kindSpots, fieldName_keys, ofString_inj]
    intro p member isPlain
    have isSpot : p.spot ∈ kindSpots .code := List.mem_map_of_mem (f := Place.spot) member
    have found := plain p member isPlain
    unfold codeEntries
    cases Json.lookup? "mustEscape" fields with
    | none => exact found
    | some value =>
      simp only
      split
      · exact found
      · exact found.put (apart p.spot isSpot isPlain) value
  simp only [stemPlaces, List.forall_mem_cons] at kept ⊢
  refine ⟨kept.1 rfl, kept.2.1 rfl, ?_, kept.2.2.2.1 rfl, List.forall_mem_nil _⟩
  simp only [FoundIn, alsoAs_key, field_key, same, alsoAs_holds]
  exact flag_found filled

end Code

section Each

private theorem alternative_found {typeName : Text} {loc : Location} {val obj key : Loose Text}
    {first second : Option Node} {fields : List (Text × Json)}
    (filled : Fills (isExtraKey .each) (headingPlaces typeName loc ++
      forkPlaces (.each val obj key) (slotPlace "block" first) (slotPlace "alternative" second))
      fields) :
    (slotPlace "alternative" second).Holds (valueAt (alternativeKey fields) fields) := by
  have isPlace : (slotPlace "alternative" second).alsoAs "alternate" ∈
      headingPlaces typeName loc ++ forkPlaces (.each val obj key) (slotPlace "block" first)
        (slotPlace "alternative" second) :=
    List.mem_append_right _ (by simp [forkPlaces])
  have same : fieldName "alternative" = "alternative" := by simp only [fieldName_keys]
  have differs : fieldName "alternate" ≠ "alternative" := by simp [fieldName_keys, ofString_inj]
  have declared : ("alternative" : Text) ∈ Kind.each.keys := by simp [Kind.keys]
  have apart : Apart ((headingPlaces typeName loc ++ forkPlaces (.each val obj key)
      (slotPlace "block" first) (slotPlace "alternative" second)).map Place.spot) := by
    rw [headingPlaces_spots]
    exact kindSpots_apart .each (mem_all .each Kind.noConfusion)
  have seen : valueAt (keyOf "alternative") fields = Json.lookup? "alternative" fields := by
    apply filled.field_eq_lookup? apart isPlace rfl declared same
    intro other among
    rw [List.mem_singleton.mp among]
    exact differs
  have usual (absent : Json.lookup? "alternate" fields = none) :
      alternativeKey fields = keyOf "alternative" := by
    funext key
    simp only [alternativeKey, hasKey_eq, absent, Option.isSome_none, Bool.false_and,
      Bool.false_eq_true, if_false]
    rfl
  have kept : isExtraKey .each "alternative" = false := by simp [isExtraKey, Kind.keys]
  have keptOther : isExtraKey .each "alternate" = false := by simp [isExtraKey, dialectKeys]
  -- The alias counts only where the proper name is not given.
  rcases filled.alias_lookups isPlace (rfl : _ = ("alternative" : Text)) same
    (by simp [ofString_inj]) kept keptOther with
    ⟨lacks, none, noOther⟩ | ⟨value, isValue, ⟨own, noOther⟩ | ⟨none, other⟩⟩
  · rw [usual noOther, seen, none]
    exact lacks
  · rw [usual noOther, seen, own]
    exact isValue
  · have renamed : alternativeKey fields = (· == ("alternate" : Text)) := by
      funext key
      simp only [alternativeKey, hasKey_eq, other, none, Option.isSome_some, Option.isSome_none,
        Bool.not_false, Bool.and_self, if_true]
    rw [renamed, ← lookup?_eq, other]
    exact isValue

end Each

section Renamed

variable {kind : Kind} {typeName : Text} {loc : Location} {own : List Place}
  {fields : List (Text × Json)} {spots : List (Text × List Text)}
  (filled : Fills (isExtraKey kind) (headingPlaces typeName loc ++ own) fields)
  (isSpots : own.map Place.spot = spots)
include filled isSpots

private theorem Fills.shared (apart : Apart (headingSpots ++ spots))
    (plain : ∀ spot ∈ spots, spot.2 = []) :
    ∀ p ∈ own, p.key ∈ kind.keys → FoundIn fields p := by
  intro p member declared
  have isSpot : p.spot ∈ spots := by
    rw [← isSpots]
    exact List.mem_map_of_mem member
  apply filled.foundIn _ (List.mem_append_right _ member) (plain p.spot isSpot) declared
  rw [headingPlaces_spots, isSpots]
  exact apart

private theorem Fills.field_lacks {name : Text} (apart : Apart (headingSpots ++ spots))
    (plain : ∀ spot ∈ spots, spot.2 = []) (declared : name ∈ kind.keys.map fieldName)
    (absent : ∀ spot ∈ headingSpots ++ spots, fieldName spot.1 ≠ name) :
    valueAt (keyOf name) fields = none := by
  apply filled.lacks _ (field_kept declared)
  intro q member key isKey
  have isSpot : q.spot ∈ headingSpots ++ spots := by
    rw [← isSpots, ← headingPlaces_spots typeName loc]
    exact List.mem_map_of_mem member
  have noAlias : q.aliases = [] := by
    rcases List.mem_append.mp isSpot with heading | own
    · obtain ⟨_, _, same⟩ := List.mem_map.mp heading
      exact (congrArg Prod.snd same).symm
    · exact plain q.spot own
  have either : key = q.key ∨ key = fieldName q.key := by simpa [Place.keys, noAlias] using isKey
  apply keyOf_eq_false
  rcases either with rfl | rfl
  · exact absent q.spot isSpot
  · have again : fieldName (fieldName q.key) = fieldName q.key := (apart q.spot isSpot).1
    rw [again]
    exact absent q.spot isSpot

private theorem Fills.already_set {key : Text} (member : setPlace key ∈ own)
    (declared : key ∈ kind.keys) (apart : Apart (headingSpots ++ spots)) :
    ∀ entry ∈ fields, keyOf (fieldName key) entry.1 = true → entry.2 = .bool true := by
  have isPlace := List.mem_append_right (headingPlaces typeName loc) member
  have separate : Apart ((headingPlaces typeName loc ++ own).map Place.spot) := by
    rw [headingPlaces_spots, isSpots]
    exact apart
  exact filled.value_of_fits isPlace (field_apart separate isPlace)
    (field_kept (List.mem_map_of_mem declared))

end Renamed

section Interpolated

private def interpolatedSpots : List (Text × List Text) :=
  [("expr", []), ("block", []), ("attrs", []), ("attributeBlocks", []), ("selfClosing", []),
    ("buffer", []), ("code", [])]

private theorem interpolatedSpots_apart : Apart (headingSpots ++ interpolatedSpots) := by
  decide +kernel

variable {loc : Location} {fields : List (Text × Json)}

theorem shape_interpolated (parent : Subject) {name : Json}
    (found : (Json.lookup? "expr" fields).getD (.str []) = name) :
    shape parent "InterpolatedTag" fields = .ok
      { kind := .tag, entries := Json.put "buffer" (.bool true) (Json.put "name" name fields) } := by
  unfold shape
  rw [if_neg (by simp [ofString_inj]), if_pos (beq_self_eq_true _), found]
  rfl

variable {tag : TagHead} {first second : Option Node}
  (filled : Fills (isExtraKey .tag) (headingPlaces "InterpolatedTag" loc ++
    tagPlaces tag (.field "expr" tag.name.textJson (.str []))
      (slotPlace "block" first) (setPlace "buffer") (slotPlace "code" second)) fields)
include filled

private theorem expr_found : (Json.lookup? "expr" fields).getD (.str []) = tag.name.textJson := by
  have member : Place.field "expr" tag.name.textJson (.str []) ∈
      headingPlaces "InterpolatedTag" loc ++ tagPlaces tag
        (.field "expr" tag.name.textJson (.str []))
        (slotPlace "block" first) (setPlace "buffer") (slotPlace "code" second) :=
    List.mem_append_right _ (List.mem_cons_self ..)
  have same : fieldName "expr" = "expr" := by simp only [fieldName_keys]
  have kept : isExtraKey .tag "expr" = false := by simp [isExtraKey, dialectKeys]
  exact filled.lookup?_getD id member same kept Eq.symm

private theorem interpolated_found (isSet : tag.interpolated = .of true) :
    ∀ p ∈ forkPlaces (.tag tag) (slotPlace "block" first) (slotPlace "code" second),
      FoundIn (Json.put "buffer" (.bool true) (Json.put "name" tag.name.textJson fields)) p := by
  have plain : ∀ spot ∈ interpolatedSpots, spot.2 = [] := by decide
  have shared := filled.shared (rfl : _ = interpolatedSpots) interpolatedSpots_apart plain
  have differs : ∀ key ∈ [("block" : Text), "attrs", "attributeBlocks", "selfClosing", "code"],
      fieldName "name" ≠ fieldName key ∧ fieldName "buffer" ≠ fieldName key ∧
        key ∈ Kind.tag.keys := by simp [fieldName_keys, ofString_inj, Kind.keys]
  have kept : ∀ p ∈ tagPlaces tag (.field "expr" tag.name.textJson (.str []))
        (slotPlace "block" first) (setPlace "buffer") (slotPlace "code" second),
      p.key ∈ [("block" : Text), "attrs", "attributeBlocks", "selfClosing", "code"] →
      FoundIn (Json.put "buffer" (.bool true) (Json.put "name" tag.name.textJson fields)) p := by
    intro p member other
    obtain ⟨notName, notBuffer, declared⟩ := differs p.key other
    exact ((shared p member declared).put notName _).put notBuffer _
  have nameFound : FoundIn (Json.put "buffer" (.bool true) (Json.put "name" tag.name.textJson fields))
      (.field "name" tag.name.textJson .null) := by
    have isName : fieldName "name" = "name" := by simp only [fieldName_keys]
    have apart : fieldName "buffer" ≠ fieldName "name" := by
      simp [fieldName_keys, ofString_inj]
    have absent : valueAt (keyOf "name") fields = none :=
      filled.field_lacks (rfl : _ = interpolatedSpots) interpolatedSpots_apart plain
        (by simp [Kind.keys, fieldName_keys])
        (by simp [headingSpots, headingKeys, interpolatedSpots, fieldName_keys, ofString_inj])
    have set : FoundIn (Json.put "name" tag.name.textJson fields)
        (.field "name" tag.name.textJson .null) := foundIn_put_new isName rfl absent
    exact set.put apart _
  have bufferFound : FoundIn (Json.put "buffer" (.bool true)
      (Json.put "name" tag.name.textJson fields))
      (.field "buffer" tag.interpolated.flagJson (.bool false)) := by
    have member : setPlace "buffer" ∈ tagPlaces tag (.field "expr" tag.name.textJson (.str []))
        (slotPlace "block" first) (setPlace "buffer") (slotPlace "code" second) := by
      simp [tagPlaces]
    have notName : fieldName "name" ≠ fieldName "buffer" := by
      simp [fieldName_keys, ofString_inj]
    have already := filled.already_set (rfl : _ = interpolatedSpots) member (by simp [Kind.keys])
      interpolatedSpots_apart
    unfold FoundIn
    rw [field_key, valueAt_put (keyOf_eq_true rfl), isSet]
    · rfl
    · intro entry among fitting
      rcases mem_of_mem_put among with rfl | old
      · rw [keyOf_eq_false notName] at fitting
        cases fitting
      · exact already entry old fitting
  simp only [tagPlaces, List.forall_mem_cons, slotPlace_key, attributesPlace_key,
    attributeBlocksPlace_key, field_key] at kept
  obtain ⟨_, firstFound, attrsFound, blocksFound, closingFound, _, secondFound, _⟩ := kept
  simp only [forkPlaces, tagPlaces, List.forall_mem_cons]
  exact ⟨nameFound, firstFound (by simp), attrsFound (by simp), blocksFound (by simp),
    closingFound (by simp), bufferFound, secondFound (by simp), List.forall_mem_nil _⟩

end Interpolated

section RawInclude

private def filteredSpots : List (Text × List Text) :=
  [("file", []), ("filters", []), ("block", [])]

private theorem filteredSpots_apart : Apart (headingSpots ++ filteredSpots) := by
  decide +kernel

private def unfilteredSpots : List (Text × List Text) :=
  ("filters", []) :: kindSpots .inclusion

private theorem unfilteredSpots_apart : Apart (headingSpots ++ unfilteredSpots) := by
  decide +kernel

private theorem shape_raw (parent : Subject) {fields entries : List (Text × Json)}
    (own : inclusionEntries "RawInclude" fields = .ok entries) :
    shape parent "RawInclude" fields = .ok { kind := .inclusion, entries } := by
  unfold shape
  rw [if_neg (by simp [ofString_inj]), if_neg (by simp [ofString_inj]),
    if_pos (beq_self_eq_true _), own]
  rfl

variable {loc : Location} {fields : List (Text × Json)} {first second : Option Node}

private theorem filter_read {name : Text} {attrs : Attributes}
    (filled : Fills (isExtraKey .inclusion) (headingPlaces "RawInclude" loc ++
      [slotPlace "file" first, filterPlace name attrs, slotPlace "block" second]) fields) :
    ∃ given, (attributesPlace attrs).value given ∧ inclusionEntries "RawInclude" fields =
      .ok (Json.put "attrs" given (Json.put "filter" (.str name) fields)) := by
  have same : fieldName "filters" = "filters" := by simp only [fieldName_keys]
  have kept : isExtraKey .inclusion "filters" = false := by simp [isExtraKey, dialectKeys]
  have member : filterPlace name attrs ∈ headingPlaces "RawInclude" loc ++
      [slotPlace "file" first, filterPlace name attrs, slotPlace "block" second] := by simp
  have holds : (filterPlace name attrs).Holds (Json.lookup? "filters" fields) :=
    filled.exact_found member rfl same kept
  cases found : Json.lookup? "filters" fields with
  | none =>
    rw [found] at holds
    exact holds.elim
  | some value =>
    rw [found] at holds
    obtain ⟨filter, rfl, isObject⟩ := holds
    cases filter with
    | obj inner =>
      have innerFilled : Fills (fun key => !filterKeys.contains key)
          [.field "name" (.str name) .null, attributesPlace attrs] inner := isObject
      have nameFound : Json.lookup? "name" inner = some (.str name) :=
        innerFilled.lookup?_of (List.mem_cons_self ..) rfl (by simp only [fieldName_keys])
          (by simp [filterKeys])
      have attrsSame : fieldName "attrs" = "attrs" := by simp only [fieldName_keys]
      have attrsKept : (!filterKeys.contains "attrs") = false := by simp [filterKeys]
      have attrsFound : (attributesPlace attrs).Holds (Json.lookup? "attrs" inner) :=
        innerFilled.exact_found (List.mem_cons_of_mem _ (List.mem_cons_self ..)) rfl attrsSame
          attrsKept
      refine ⟨(Json.lookup? "attrs" inner).getD (.arr []), ?_, ?_⟩
      · cases attrsFound' : Json.lookup? "attrs" inner with
        | none =>
          rw [attrsFound'] at attrsFound
          have isEmpty : attrs = .of [] := attrsFound
          rw [isEmpty]
          exact ⟨[], rfl, .nil⟩
        | some given =>
          rw [attrsFound'] at attrsFound
          exact attrsFound
      · unfold inclusionEntries
        rw [found]
        simp only [Option.getD_some, Json.items?, nameFound]
        rfl
    | _ => exact isObject.elim

private theorem filtered_found {name : Text} {attrs : Attributes}
    (filled : Fills (isExtraKey .inclusion) (headingPlaces "RawInclude" loc ++
      [slotPlace "file" first, filterPlace name attrs, slotPlace "block" second]) fields)
    {given : Json} (isGiven : (attributesPlace attrs).value given) :
    ∀ p ∈ forkPlaces (.inclusion (.of name) attrs) (slotPlace "file" first)
        (slotPlace "block" second),
      FoundIn (Json.put "attrs" given (Json.put "filter" (.str name) fields)) p := by
  have plain : ∀ spot ∈ filteredSpots, spot.2 = [] := by decide
  have shared := filled.shared (rfl : _ = filteredSpots) filteredSpots_apart plain
  have differs : ∀ key ∈ [("file" : Text), "block"], fieldName "filter" ≠ fieldName key ∧
      fieldName "attrs" ≠ fieldName key ∧ key ∈ Kind.inclusion.keys := by
    simp [fieldName_keys, ofString_inj, Kind.keys]
  have kept : ∀ p ∈ [slotPlace "file" first, filterPlace name attrs, slotPlace "block" second],
      p.key ∈ [("file" : Text), "block"] →
      FoundIn (Json.put "attrs" given (Json.put "filter" (.str name) fields)) p := by
    intro p member other
    obtain ⟨notFilter, notAttrs, declared⟩ := differs p.key other
    exact ((shared p member declared).put notFilter _).put notAttrs _
  have lacks : ∀ key ∈ [("filter" : Text), "attrs"], valueAt (keyOf key) fields = none := by
    have declared : ∀ key ∈ [("filter" : Text), "attrs"],
        key ∈ Kind.inclusion.keys.map fieldName := by simp [Kind.keys, fieldName_keys]
    have absent : ∀ key ∈ [("filter" : Text), "attrs"], ∀ spot ∈ headingSpots ++ filteredSpots,
        fieldName spot.1 ≠ key := by
      simp [headingSpots, headingKeys, filteredSpots, fieldName_keys, ofString_inj]
    intro key member
    exact filled.field_lacks (rfl : _ = filteredSpots) filteredSpots_apart plain
      (declared key member) (absent key member)
  have isFilter : fieldName "filter" = "filter" := by simp only [fieldName_keys]
  have isAttrs : fieldName "attrs" = "attrs" := by simp only [fieldName_keys]
  have apart : fieldName "attrs" ≠ fieldName "filter" := by
    simp [fieldName_keys, ofString_inj]
  have filterFound : FoundIn (Json.put "attrs" given (Json.put "filter" (.str name) fields))
      (.field "filter" (.str name) .null) := by
    have set : FoundIn (Json.put "filter" (.str name) fields)
        (.field "filter" (.str name) .null) :=
      foundIn_put_new isFilter rfl (lacks "filter" (by simp))
    exact set.put apart _
  have attrsFound : FoundIn (Json.put "attrs" given (Json.put "filter" (.str name) fields))
      (attributesPlace attrs) := by
    have absent : valueAt (keyOf "attrs") (Json.put "filter" (.str name) fields) = none := by
      rw [valueAt_put_other (keyOf_eq_false (by simp [fieldName_keys, ofString_inj]))]
      exact lacks "attrs" (by simp)
    exact foundIn_put_new isAttrs isGiven absent
  simp only [List.forall_mem_cons, slotPlace_key] at kept
  obtain ⟨fileFound, _, blockFound, _⟩ := kept
  simp only [forkPlaces, List.forall_mem_cons]
  exact ⟨fileFound (by simp), filterFound, attrsFound, blockFound (by simp), List.forall_mem_nil _⟩

private theorem unfiltered_read
    (filled : Fills (isExtraKey .inclusion) (headingPlaces "RawInclude" loc ++ noFiltersPlace ::
      forkPlaces (.inclusion .missing (.of [])) (slotPlace "file" first) (slotPlace "block" second))
      fields) :
    inclusionEntries "RawInclude" fields = .ok fields := by
  have same : fieldName "filters" = "filters" := by simp only [fieldName_keys]
  have kept : isExtraKey .inclusion "filters" = false := by simp [isExtraKey, dialectKeys]
  have member : noFiltersPlace ∈ headingPlaces "RawInclude" loc ++ noFiltersPlace ::
      forkPlaces (.inclusion .missing (.of [])) (slotPlace "file" first)
        (slotPlace "block" second) := by simp
  have holds : noFiltersPlace.Holds (Json.lookup? "filters" fields) :=
    filled.exact_found member rfl same kept
  unfold inclusionEntries
  cases found : Json.lookup? "filters" fields with
  | none => rfl
  | some value =>
    rw [found] at holds
    rcases holds with rfl | rfl <;> rfl

end RawInclude

section YieldBlock

variable {loc : Location} {fields : List (Text × Json)}

theorem shape_yield (parent : Subject) (fields : List (Text × Json)) :
    shape parent "YieldBlock" fields = .ok
      { kind := .block
        entries := Json.put "yield" (.bool true) fields
        empty := clearsNodes fields } := by
  unfold shape
  rw [if_pos (beq_self_eq_true _)]
  rfl

private theorem yield_nodes_found
    (filled : Fills (isExtraKey .block) (headingPlaces "YieldBlock" loc ++
      [nodesPlace [], setPlace "yield"]) fields) : FoundIn fields (nodesPlace []) :=
  filled.shared (rfl : _ = kindSpots .block)
    (kindSpots_apart .block (mem_all .block Kind.noConfusion)) (by decide) _
    (List.mem_cons_self ..) (by simp [Kind.keys, nodesPlace_key])

private theorem yield_found (filled : Fills (isExtraKey .block) (headingPlaces "YieldBlock" loc ++
      [nodesPlace [], setPlace "yield"]) fields) :
    ∀ p ∈ blockPlaces .plain (.of true) (nodesPlace []),
      FoundIn (Json.put "yield" (.bool true) fields) p := by
  have apart : Apart (headingSpots ++ kindSpots .block) :=
    kindSpots_apart .block (mem_all .block Kind.noConfusion)
  have member : setPlace "yield" ∈ [nodesPlace [], setPlace "yield"] := by simp
  have already := filled.already_set (rfl : _ = kindSpots .block) member (by simp [Kind.keys]) apart
  have nodesFound := yield_nodes_found filled
  have notNodes : fieldName "yield" ≠ fieldName "nodes" := by
    simp [fieldName_keys, ofString_inj]
  have yieldFound : FoundIn (Json.put "yield" (.bool true) fields)
      (.field "yield" (.bool true) (.bool false)) := by
    unfold FoundIn
    rw [field_key, valueAt_put (keyOf_eq_true rfl) already]
    rfl
  simp only [blockPlaces, List.forall_mem_cons]
  exact ⟨nodesFound.put notNodes _, yieldFound, List.forall_mem_nil _⟩

end YieldBlock

section Kinds

variable {loc : Location} {json : Json}

private theorem aliases_eq_nil {kind : Kind} {own : List Place}
    (spots : own.map Place.spot = kindSpots kind) (notCode : kind ≠ .code)
    (notEach : kind ≠ .each) : ∀ p ∈ own, p.aliases = [] := by
  have plain : ∀ spot ∈ kindSpots kind, spot.2 = [] := by
    cases kind with
    | code => exact absurd rfl notCode
    | each => exact absurd rfl notEach
    | _ => decide
  intro p member
  have isSpot : p.spot ∈ kindSpots kind := by
    rw [← spots]
    exact List.mem_map_of_mem member
  exact plain p.spot isSpot

private theorem load_leaf {head : Leaf} (formed : head.wellFormed = true)
    (spelled : Spells (.leaf loc head) json) (parent : Subject) :
    loadBelow parent json = .ok (.leaf loc head) := by
  rw [Spells] at spelled
  obtain ⟨form, member, fields, rfl, filled⟩ := spelled.cases
  rw [List.mem_singleton.mp member] at filled
  have spots := leafPlaces_spots head
  have concrete : head.kind ∈ Kind.all := by
    apply mem_all
    intro isBare
    cases head with
    | bare => cases formed
    | _ => cases isBare
  have notCode : head.kind ≠ .code := by cases head <;> exact Kind.noConfusion
  have notEach : head.kind ≠ .each := by cases head <;> exact Kind.noConfusion
  apply loadBelow_leaf formed (filled.readsAs (shape_name concrete notCode parent fields))
  intro p among
  exact filled.usual concrete spots p among (aliases_eq_nil spots notCode notEach p among)

private theorem load_block {kind : BlockKind} {yields : Loose Bool} {nodes : List Node}
    (formed : kind.wellFormed = true) (flag : yields.isProper = true)
    (spelled : Spells (.block loc kind yields nodes) json)
    (back : ∀ owner items, SpellsNodes nodes items → loadItems owner items = .ok nodes)
    (parent : Subject) : loadBelow parent json = .ok (.block loc kind yields nodes) := by
  rw [Spells] at spelled
  obtain ⟨form, member, fields, rfl, filled⟩ := spelled.cases
  rcases List.mem_cons.mp member with rfl | dialect
  · have spots := blockPlaces_spots kind yields nodes
    have concrete : kind.kind ∈ Kind.all := by
      apply mem_all
      cases kind <;> exact Kind.noConfusion
    have notCode : kind.kind ≠ .code := by cases kind <;> exact Kind.noConfusion
    have notEach : kind.kind ≠ .each := by cases kind <;> exact Kind.noConfusion
    have found : ∀ p ∈ blockPlaces kind yields (nodesPlace nodes), FoundIn fields p := by
      intro p among
      exact filled.usual concrete spots p among (aliases_eq_nil spots notCode notEach p among)
    have nodesFound : FoundIn fields (nodesPlace nodes) := found _ (List.mem_cons_self ..)
    simp only [FoundIn, nodesPlace_key, fieldName_keys] at nodesFound
    exact loadBelow_block formed flag (filled.readsAs (shape_name concrete notCode parent fields))
      found (fun isSet => Bool.noConfusion isSet) fun owner => sequence_of nodesFound back owner
  · split at dialect
    · next isEmpty =>
      obtain rfl := List.isEmpty_iff.mp isEmpty
      rw [List.mem_singleton.mp dialect] at filled
      have nodesFound := yield_nodes_found filled
      simp only [FoundIn, nodesPlace_key, fieldName_keys] at nodesFound
      apply loadBelow_block formed flag (filled.readsAs (shape_yield parent fields))
        (yield_found filled) fun _ => rfl
      intro owner
      split
      · rfl
      · exact sequence_of nodesFound back owner
    · cases dialect

private theorem load_stem {head : Stem} {child : Option Node} (formed : head.wellFormed = true)
    (accepted : head.accepts child = true) (spelled : Spells (.stem loc head child) json)
    (back : ∀ owner json, SpellsSlot child json → loadChild owner (some json) = .ok child)
    (parent : Subject) : loadBelow parent json = .ok (.stem loc head child) := by
  rw [Spells] at spelled
  obtain ⟨form, member, fields, rfl, filled⟩ := spelled.cases
  rw [List.mem_singleton.mp member] at filled
  have spots := stemPlaces_spots head child
  have concrete : head.kind ∈ Kind.all := by
    apply mem_all
    cases head <;> exact Kind.noConfusion
  have childFound : FoundIn fields (slotPlace head.slot child) := by
    apply filled.usual concrete spots _ _ rfl
    cases head <;> simp [stemPlaces, slotPlace]
  by_cases isCode : head.kind = .code
  · cases head with
    | code code =>
      exact loadBelow_stem formed accepted (filled.readsAs (shape_code parent fields))
        (code_found filled) childFound back
    | _ => cases isCode
  · have notEach : head.kind ≠ .each := by cases head <;> exact Kind.noConfusion
    apply loadBelow_stem formed accepted
      (filled.readsAs (shape_name concrete isCode parent fields)) _ childFound back
    intro p among
    exact filled.usual concrete spots p among (aliases_eq_nil spots isCode notEach p among)

private theorem load_fork_usual {head : Fork} {first second : Option Node}
    {fields : List (Text × Json)} (formed : head.wellFormed = true)
    (accepted : head.acceptsFirst first = true)
    (filled : Fills (isExtraKey head.kind) (headingPlaces head.kind.name loc ++ forkPlaces head
      (slotPlace head.firstSlot first) (slotPlace head.secondSlot second)) fields)
    (firstBack : ∀ owner json, SpellsSlot first json → loadChild owner (some json) = .ok first)
    (secondBack : ∀ owner json, SpellsSlot second json → loadChild owner (some json) = .ok second)
    (parent : Subject) : loadBelow parent (.obj fields) = .ok (.fork loc head first second) := by
  have concrete : head.kind ∈ Kind.all := by
    apply mem_all
    cases head <;> exact Kind.noConfusion
  have notCode : head.kind ≠ .code := by cases head <;> exact Kind.noConfusion
  have found := filled.usual concrete (forkPlaces_spots head first second)
  have firstFound : FoundIn fields (slotPlace head.firstSlot first) := by
    apply found _ _ rfl
    cases head <;> simp [forkPlaces, tagPlaces]
  have secondFound : (slotPlace head.secondSlot second).Holds
      (valueAt (secondFits head fields) fields) := by
    cases head with
    | each val obj key => exact alternative_found filled
    | _ =>
      apply found _ _ rfl
      simp [forkPlaces, tagPlaces]
  exact loadBelow_fork formed accepted
    (filled.readsAs (shape_name concrete notCode parent fields)) found firstFound secondFound
    firstBack secondBack

section Dialect

variable {first second : Option Node} {fields : List (Text × Json)}
  (firstBack : ∀ owner json, SpellsSlot first json → loadChild owner (some json) = .ok first)
  (secondBack : ∀ owner json, SpellsSlot second json → loadChild owner (some json) = .ok second)
include firstBack secondBack

private theorem load_interpolated {tag : TagHead} (formed : tag.wellFormed = true)
    (accepted : (Fork.tag tag).acceptsFirst first = true) (isSet : tag.interpolated = .of true)
    (filled : Fills (isExtraKey .tag) (headingPlaces "InterpolatedTag" loc ++
      tagPlaces tag (.field "expr" tag.name.textJson (.str []))
        (slotPlace "block" first) (setPlace "buffer") (slotPlace "code" second)) fields)
    (parent : Subject) : loadBelow parent (.obj fields) = .ok (.fork loc (.tag tag) first second) := by
  have plain : ∀ spot ∈ interpolatedSpots, spot.2 = [] := by decide
  have shared := filled.shared (rfl : _ = interpolatedSpots) interpolatedSpots_apart plain
  have firstFound : FoundIn fields (slotPlace "block" first) :=
    shared _ (by simp [tagPlaces]) (by simp [Kind.keys, slotPlace_key])
  have secondFound : FoundIn fields (slotPlace "code" second) :=
    shared _ (by simp [tagPlaces]) (by simp [Kind.keys, slotPlace_key])
  exact loadBelow_fork formed accepted
    (filled.readsAs (shape_interpolated parent (expr_found filled)))
    (fun p among _ => interpolated_found filled isSet p among) firstFound secondFound
    firstBack secondBack

private theorem load_filtered {name : Text} {attrs : Attributes}
    (formed : attrs.isProperList = true)
    (accepted : (Fork.inclusion (.of name) attrs).acceptsFirst first = true)
    (filled : Fills (isExtraKey .inclusion) (headingPlaces "RawInclude" loc ++
      [slotPlace "file" first, filterPlace name attrs, slotPlace "block" second]) fields)
    (parent : Subject) :
    loadBelow parent (.obj fields) = .ok (.fork loc (.inclusion (.of name) attrs) first second) := by
  have plain : ∀ spot ∈ filteredSpots, spot.2 = [] := by decide
  have shared := filled.shared (rfl : _ = filteredSpots) filteredSpots_apart plain
  have firstFound : FoundIn fields (slotPlace "file" first) :=
    shared _ (by simp) (by simp [Kind.keys, slotPlace_key])
  have secondFound : FoundIn fields (slotPlace "block" second) :=
    shared _ (by simp) (by simp [Kind.keys, slotPlace_key])
  obtain ⟨given, isGiven, read⟩ := filter_read filled
  exact loadBelow_fork formed accepted (filled.readsAs (shape_raw parent read))
    (fun p among _ => filtered_found filled isGiven p among) firstFound secondFound
    firstBack secondBack

private theorem load_unfiltered
    (accepted : (Fork.inclusion .missing (.of [])).acceptsFirst first = true)
    (filled : Fills (isExtraKey .inclusion) (headingPlaces "RawInclude" loc ++ noFiltersPlace ::
      forkPlaces (.inclusion .missing (.of [])) (slotPlace "file" first) (slotPlace "block" second))
      fields) (parent : Subject) :
    loadBelow parent (.obj fields) =
      .ok (.fork loc (.inclusion .missing (.of [])) first second) := by
  have plain : ∀ spot ∈ unfilteredSpots, spot.2 = [] := by decide
  have shared := filled.shared (rfl : _ = unfilteredSpots) unfilteredSpots_apart plain
  have found : ∀ p ∈ forkPlaces (.inclusion .missing (.of [])) (slotPlace "file" first)
      (slotPlace "block" second), FoundIn fields p := by
    intro p among
    apply shared p (List.mem_cons_of_mem _ among)
    have isSpot : p.spot ∈ kindSpots .inclusion := List.mem_map_of_mem (f := Place.spot) among
    exact List.mem_map_of_mem (f := Prod.fst) isSpot
  have firstFound : FoundIn fields (slotPlace "file" first) := found _ (by simp [forkPlaces])
  have secondFound : FoundIn fields (slotPlace "block" second) := found _ (by simp [forkPlaces])
  exact loadBelow_fork rfl accepted
    (filled.readsAs (shape_raw parent (unfiltered_read filled)))
    (fun p among _ => found p among) firstFound secondFound firstBack secondBack

private theorem load_fork {head : Fork} {json : Json} (formed : head.wellFormed = true)
    (accepted : head.acceptsFirst first = true) (spelled : Spells (.fork loc head first second) json)
    (parent : Subject) : loadBelow parent json = .ok (.fork loc head first second) := by
  rw [Spells] at spelled
  obtain ⟨form, member, fields, rfl, filled⟩ := spelled.cases
  cases head with
  | tag tag =>
    rcases List.mem_cons.mp member with rfl | dialect
    · exact load_fork_usual formed accepted filled firstBack secondBack parent
    · split at dialect
      case h_1 isSet =>
        rw [List.mem_singleton.mp dialect] at filled
        exact load_interpolated firstBack secondBack formed accepted isSet filled parent
      case h_2 => cases dialect
  | conditional test =>
    rw [List.mem_singleton.mp member] at filled
    exact load_fork_usual formed accepted filled firstBack secondBack parent
  | each val obj key =>
    rw [List.mem_singleton.mp member] at filled
    exact load_fork_usual formed accepted filled firstBack secondBack parent
  | inclusion filter attrs =>
    rcases List.mem_cons.mp member with rfl | dialect
    · exact load_fork_usual formed accepted filled firstBack secondBack parent
    · split at dialect
      case h_1 name attrs =>
        rw [List.mem_singleton.mp dialect] at filled
        exact load_filtered firstBack secondBack formed accepted filled parent
      case h_2 =>
        rw [List.mem_singleton.mp dialect] at filled
        exact load_unfiltered firstBack secondBack accepted filled parent
      case h_3 => cases dialect

end Dialect

end Kinds

mutual

/-- A well-formed node is read back from whatever it may be written as, below any parent. -/
theorem loadBelow_of_spelled (parent : Subject) : ∀ (n : Node) (json : Json),
    n.wellFormed = true → Spells n json → loadBelow parent json = .ok n
  | .leaf loc head, json, formed, spelled => by
    rw [Node.wellFormed] at formed
    exact load_leaf formed spelled parent
  | .block loc kind yields nodes, json, formed, spelled => by
    simp only [Node.wellFormed, Bool.and_eq_true] at formed
    exact load_block formed.1.1 formed.1.2 spelled
      (fun owner items => loadItems_of_spelled owner nodes items formed.2) parent
  | .oddBlock _ _ _ _, _, formed, _ => by cases formed
  | .stem loc head child, json, formed, spelled => by
    simp only [Node.wellFormed, Bool.and_eq_true] at formed
    exact load_stem formed.1.1 formed.1.2 spelled
      (fun owner json => loadChild_of_spelled owner child json formed.2) parent
  | .fork loc head first second, json, formed, spelled => by
    simp only [Node.wellFormed, Bool.and_eq_true] at formed
    obtain ⟨⟨⟨⟨headFormed, accepted⟩, _⟩, firstFormed⟩, secondFormed⟩ := formed
    exact load_fork (fun owner json => loadChild_of_spelled owner first json firstFormed)
      (fun owner json => loadChild_of_spelled owner second json secondFormed) headFormed accepted
      spelled parent
  | .stray _, _, formed, _ => by cases formed
termination_by structural n => n

private theorem loadItems_of_spelled (owner : Subject) : ∀ (nodes : List Node) (items : List Json),
    Node.wellFormedNodes nodes = true → SpellsNodes nodes items → loadItems owner items = .ok nodes
  | [], [], _, _ => rfl
  | [], _ :: _, _, spelled => spelled.elim
  | _ :: _, [], _, spelled => spelled.elim
  | n :: rest, item :: items, formed, spelled => by
    simp only [Node.wellFormedNodes, Bool.and_eq_true] at formed
    rw [SpellsNodes] at spelled
    have node := loadBelow_of_spelled owner n item formed.1 spelled.1
    have later := loadItems_of_spelled owner rest items formed.2 spelled.2
    cases item with
    | obj fields =>
      rw [loadItems]
      simp only [node, later, ok_bind]
      rfl
    | _ => cases node
termination_by structural nodes => nodes

private theorem loadChild_of_spelled (owner : Subject) : ∀ (child : Option Node) (json : Json),
    Node.wellFormedSlot child = true → SpellsSlot child json →
      loadChild owner (some json) = .ok child
  | none, json, _, spelled => by
    rw [SpellsSlot] at spelled
    rw [spelled]
    rfl
  | some n, json, formed, spelled => by
    rw [Node.wellFormedSlot] at formed
    rw [SpellsSlot] at spelled
    have node := loadBelow_of_spelled owner n json formed spelled
    cases json with
    | obj fields =>
      show some <$> loadBelow owner (.obj fields) = _
      rw [node]
      rfl
    | _ => cases node
termination_by structural child => child

end

/-- A well-formed tree is read from JSON as the same tree, however the JSON is written. -/
theorem load_of_spelled {tree : Node} {json : Json} (formed : tree.wellFormed = true)
    (spelled : Spells tree json) : load json = .ok tree :=
  loadBelow_of_spelled {} tree json formed spelled

/-- A tag whose name is an expression, with an attribute, an attribute block, code in its line and an
empty block that yields. -/
def dialectTree : Node :=
  .fork { line := 1 }
    (.tag { name := .of "x"
            attrs := .of [.of { name := "a", val := "1", escaped := false }]
            attributeBlocks := .of [.of "b"]
            interpolated := .of true })
    (some (.block { line := 2 } .plain (.of true) []))
    (some (.stem { line := 1 }
      (.code { val := .of "y", buffer := .of true, escape := .of false }) none))

/-- The same tree as the other dialect writes it, with a key in snake_case, a field that holds null,
and one that no reader knows. -/
def dialectJson : Json :=
  .obj [("expr", .str "x"), ("type", .str "InterpolatedTag"), ("line", .int 1), ("column", .null),
    ("attrs", .arr [.obj [("mustEscape", .bool false), ("val", .str "1"), ("name", .str "a"),
      ("line", .int 1)]]),
    ("attribute_blocks", .arr [.obj [("val", .str "b")]]),
    ("code", .obj [("val", .str "y"), ("mustEscape", .bool false), ("buffer", .bool true),
      ("type", .str "Code"), ("line", .int 1)]),
    ("block", .obj [("type", .str "YieldBlock"), ("line", .int 2), ("mode", .str "replace")])]

private theorem dialectTree_spelled : Spells dialectTree dialectJson := by
  have yields : Spells (.block { line := 2 } .plain (.of true) [])
      (.obj [("type", .str "YieldBlock"), ("line", .int 2), ("mode", .str "replace")]) := by
    rw [Spells]
    refine ⟨("YieldBlock", _), List.mem_cons_of_mem _ (List.mem_singleton_self _), ?_, ?_⟩ <;>
      simp [headingPlaces, linePlace, setPlace, Place.field, Place.Takes, Place.owns, Place.keys,
        List.filter, fieldName_keys, ofString_inj, isExtraKey, headingKeys, dialectKeys, Kind.keys,
        BlockKind.kind]
  have code : Spells (.stem { line := 1 }
        (.code { val := .of "y", buffer := .of true, escape := .of false }) none)
      (.obj [("val", .str "y"), ("mustEscape", .bool false), ("buffer", .bool true),
        ("type", .str "Code"), ("line", .int 1)]) := by
    rw [Spells]
    refine ⟨("Code", _), List.mem_singleton_self _, ?_, ?_⟩ <;>
      simp [headingPlaces, linePlace, stemPlaces, Stem.slot, Place.field, Place.alsoAs, Place.Takes,
        Place.owns, Place.keys, List.filter, fieldName_keys, ofString_inj, Loose.textJson,
        Loose.flagJson, Loose.toJson]
  have attrs : SpellsList SpellsAttribute (.of [.of { name := "a", val := "1", escaped := false }])
      (.arr [.obj [("mustEscape", .bool false), ("val", .str "1"), ("name", .str "a"),
        ("line", .int 1)]]) := by
    refine ⟨_, rfl, .cons ⟨?_, ?_⟩ .nil⟩ <;>
      simp [attributePlaces, attributeKeys, Place.field, Place.alsoAs, Place.Takes, Place.owns,
        Place.keys, List.filter, fieldName_keys, ofString_inj]
  have blocks : SpellsList SpellsAttributeBlock (.of [.of "b"])
      (.arr [.obj [("val", .str "b")]]) := by
    refine ⟨_, rfl, .cons (.inr ⟨?_, ?_⟩) .nil⟩ <;>
      simp [Place.field, Place.Takes, Place.owns, Place.keys, List.filter, fieldName_keys]
  rw [dialectTree, Spells]
  refine ⟨("InterpolatedTag", _), List.mem_cons_of_mem _ (List.mem_singleton_self _), ?_, ?_⟩
  · simpa [headingPlaces, linePlace, tagPlaces, setPlace, attributesPlace, attributeBlocksPlace,
      Fork.firstSlot, Fork.secondSlot, Place.field, Place.Takes, Place.owns, Place.keys, List.filter,
      fieldName_keys, ofString_inj, Loose.textJson, Loose.flagJson, Loose.toJson, SpellsSlot]
      using ⟨yields, attrs, blocks, code⟩
  · simp [headingPlaces, linePlace, tagPlaces, setPlace, attributesPlace, attributeBlocksPlace,
      Fork.firstSlot, Fork.secondSlot, Place.field, Place.owns, Place.keys, fieldName_keys,
      ofString_inj]

theorem load_of_spelled_sample : dialectTree.wellFormed = true ∧ Spells dialectTree dialectJson ∧
    load dialectJson = .ok dialectTree :=
  ⟨by decide, dialectTree_spelled, load_of_spelled (by decide) dialectTree_spelled⟩

end PugPrinter.Document
