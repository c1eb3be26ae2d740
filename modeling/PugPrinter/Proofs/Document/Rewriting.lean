import PugPrinter.Proofs.Document.Offences

/-!
What a loader takes for the type and the fields of an object. It goes its own ways about rewriting
the other dialect: the nodes of a placeholder and the alternative of a loop are looked for under
other keys rather than put under the usual ones. What it finds is what the rewritten fields have.
-/

set_option autoImplicit false

namespace PugPrinter

namespace Document

section Shapes

variable {fits : Text → Bool} {key : Text} {value : Json} {entries : List (Text × Json)}

private theorem eq_of_mem_put (distinct : (entries.map Prod.fst).Nodup) {other : Json}
    (member : (key, other) ∈ Json.put key value entries) : other = value := by
  induction entries with
  | nil => exact (Prod.mk.inj (List.mem_singleton.mp member)).2
  | cons first rest ih =>
    rw [List.map_cons, List.nodup_cons] at distinct
    rw [Json.put] at member
    split at member
    · next same =>
      rcases List.mem_cons.mp member with isFirst | later
      · exact (Prod.mk.inj isFirst).2
      · rw [beq_iff_eq.mp same] at distinct
        exact absurd (List.mem_map_of_mem (f := Prod.fst) later) distinct.1
    · next differs =>
      rcases List.mem_cons.mp member with isFirst | later
      · rw [← isFirst] at differs
        exact absurd (beq_self_eq_true key) differs
      · exact ih distinct.2 later

private theorem valueAt_put_last (distinct : (entries.map Prod.fst).Nodup)
    (last : lastKey? fits (Json.put key value entries) = some key) :
    valueAt fits (Json.put key value entries) = some value := by
  obtain ⟨⟨same, other⟩, isLast, rfl⟩ := Option.map_eq_some_iff.mp last
  have member := List.mem_reverse.mp (List.mem_of_find?_eq_some isLast)
  unfold valueAt
  rw [isLast, eq_of_mem_put distinct member]
  rfl

private theorem lastKey?_cons (entry : Text × Json) (rest : List (Text × Json)) :
    lastKey? fits (entry :: rest) =
      (lastKey? fits rest).or (if fits entry.1 then some entry.1 else none) := by
  unfold lastKey?
  rw [List.reverse_cons, List.find?_append]
  cases rest.reverse.find? fun entry => fits entry.1 with
  | some last => rfl
  | none => cases fitting : fits entry.1 <;> simp [fitting]

private theorem lastKey?_isSome : (lastKey? fits entries).isSome =
    (valueAt fits entries).isSome := by
  unfold lastKey? valueAt
  rw [Option.isSome_map, Option.isSome_map]

private theorem valueAt_put_hidden
    (hidden : lastKey? fits (Json.put key value entries) ≠ some key) :
    valueAt fits (Json.put key value entries) = valueAt fits entries := by
  by_cases fitting : fits key = true
  · induction entries with
    | nil => exact absurd (by simp [Json.put, lastKey?, fitting]) hidden
    | cons first rest ih =>
      rw [Json.put] at hidden ⊢
      split
      · next same =>
        rw [if_pos same, lastKey?_cons, if_pos fitting] at hidden
        rw [valueAt_cons, valueAt_cons]
        cases later : valueAt fits rest with
        | some last => rfl
        | none =>
          have noKey : lastKey? fits rest = none := by
            rw [← Option.isNone_iff_eq_none, ← Option.not_isSome, lastKey?_isSome, later]
            rfl
          rw [noKey] at hidden
          exact absurd rfl hidden
      · next differs =>
        rw [if_neg differs, lastKey?_cons] at hidden
        rw [valueAt_cons, valueAt_cons, ih]
        intro last
        rw [last] at hidden
        exact hidden rfl
  · exact valueAt_put_other (by simpa using fitting) value entries

private theorem valueAt_put_put {other : Text} (differs : fits other = false) (apart : key ≠ other)
    (old : Json) :
    valueAt fits (Json.put key value (Json.put other old entries)) =
      valueAt fits (Json.put key value entries) := by
  induction entries with
  | nil => simp [Json.put, valueAt_cons, Ne.symm apart, differs]
  | cons first rest ih =>
    obtain ⟨name, before⟩ := first
    by_cases isOther : name = other
    · subst isOther
      simp [Json.put, valueAt_cons, Ne.symm apart, differs]
    · by_cases isKey : name = key
      · subst isKey
        simp [Json.put, valueAt_cons, apart, valueAt_put_other differs]
      · simp [Json.put, valueAt_cons, isKey, isOther, ih]

variable {typeName : Text} {kind : Kind} {fields : List (Text × Json)}

theorem mem_all_of_kindOf? (known : kindOf? typeName = some kind) : kind ∈ Kind.all := by
  unfold kindOf? at known
  split at known
  · exact mem_all kind (by cases known; exact Kind.noConfusion)
  split at known
  · exact mem_all kind (by cases known; exact Kind.noConfusion)
  split at known
  · exact mem_all kind (by cases known; exact Kind.noConfusion)
  · exact List.mem_of_find?_eq_some known

theorem name_of_ofName? (named : Kind.ofName? typeName = some kind) : typeName = kind.name := by
  have same := List.find?_some named
  exact (beq_iff_eq.mp same).symm

theorem rewritten_name (concrete : kind ∈ Kind.all) (fields : List (Text × Json)) :
    rewritten kind.name fields =
      match kind with
      | .code => copied "mustEscape" "escape" fields
      | .each => copied "alternate" "alternative" fields
      | _ => fields := by
  obtain ⟨named, notYield, notInterpolated, notRaw⟩ := ofName?_name kind concrete
  have named_eq {other : Kind} (isOther : other ∈ Kind.all) (same : kind.name = other.name) :
      kind = other := by
    rw [same, (ofName?_name other isOther).1] at named
    exact (Option.some.inj named).symm
  unfold rewritten
  rw [if_neg notYield, if_neg notInterpolated, if_neg notRaw]
  split
  · next isCode => cases named_eq (mem_all .code Kind.noConfusion) isCode; rfl
  · next notCode =>
    split
    · next isEach => cases named_eq (mem_all .each Kind.noConfusion) isEach; rfl
    · next notEach =>
      cases kind with
      | code => exact absurd rfl notCode
      | each => exact absurd rfl notEach
      | _ => rfl

private theorem valueAt_copied {source target : Text} (differs : fits target = false) :
    valueAt fits (copied source target fields) = valueAt fits fields := by
  unfold copied
  split
  · split
    · rfl
    · exact valueAt_put_other differs _ _
  · rfl

private theorem valueAt_withFilter (noAttrs : fits "attrs" = false)
    (noFilter : fits "filter" = false) :
    valueAt fits (withFilter fields) = valueAt fits fields := by
  unfold withFilter
  split
  · rw [valueAt_put_other noAttrs, valueAt_put_other noFilter]
  · rfl

def setKeys : List Text :=
  ["yield", "name", "buffer", "filter", "attrs", "escape", "alternative"]

theorem valueAt_rewritten (untouched : ∀ key ∈ setKeys, fits key = false)
    (noNodes : typeName = ("YieldBlock" : Text) → fits "nodes" = false) :
    valueAt fits (rewritten typeName fields) = valueAt fits fields := by
  simp only [setKeys, List.forall_mem_cons] at untouched
  obtain ⟨noYield, noName, noBuffer, noFilter, noAttrs, noEscape, noAlternative, -⟩ := untouched
  unfold rewritten
  split
  · next isYield => rw [valueAt_put_other noYield, valueAt_put_other (noNodes isYield)]
  split
  · rw [valueAt_put_other noBuffer, valueAt_put_other noName]
  split
  · exact valueAt_withFilter noAttrs noFilter
  split
  · exact valueAt_copied noEscape
  split
  · exact valueAt_copied noAlternative
  · rfl

theorem inclusionEntries_eq (natural : ∀ value, Json.present? "filters" fields = some value →
      Content.attributes.admits value = true) :
    inclusionEntries typeName fields =
      if 1 < (filters fields).length then
        .error (.tree (.invalidFilterChain ⟨some typeName, some (readLocation fields)⟩))
      else .ok (withFilter fields) := by
  unfold inclusionEntries withFilter filters
  unfold Json.present? at natural
  cases found : Json.lookup? "filters" fields with
  | none => rfl
  | some value =>
    rw [found] at natural
    cases value with
    | null => rfl
    | arr items =>
      match items with
      | [] => rfl
      | [.obj filter] => rfl
      | _ :: _ :: _ => simp [Json.items?]; rfl
      | [.null] => cases natural _ rfl
      | [.bool _] => cases natural _ rfl
      | [.int _] => cases natural _ rfl
      | [.float _] => cases natural _ rfl
      | [.str _] => cases natural _ rfl
      | [.arr _] => cases natural _ rfl
    | _ => cases natural _ rfl

/-- What the loader takes for the fields of an object agrees with the rewritten ones. -/
structure Shape.Agrees (shape : Shape) (fields entries : List (Text × Json)) : Prop where
  others : ∀ name : Text, name ≠ "nodes" → name ≠ "alternative" →
    valueAt (keyOf name) shape.entries = valueAt (keyOf name) entries
  cleared : shape.empty = true →
    shape.kind = .block ∧ valueAt (keyOf "nodes") entries = some (.arr [])
  sequence : shape.empty = false →
    valueAt (keyOf "nodes") fields = valueAt (keyOf "nodes") entries

private theorem keyOf_ne {key name other : Text} (isKey : fieldName key = other)
    (differs : name ≠ other) :
    keyOf name key = false :=
  keyOf_eq_false fun same => differs (same.symm.trans isKey)

private theorem nodes_untouched : ∀ key ∈ setKeys, keyOf "nodes" key = false := by
  decide +kernel

theorem Shape.Agrees.plain {entries : List (Text × Json)} (notYield : typeName ≠ "YieldBlock")
    (others : ∀ name : Text, name ≠ "nodes" → name ≠ "alternative" →
      valueAt (keyOf name) entries = valueAt (keyOf name) (rewritten typeName fields)) :
    Shape.Agrees { kind, entries } fields (rewritten typeName fields) where
  others := others
  cleared := nofun
  sequence := fun _ =>
    (valueAt_rewritten nodes_untouched fun isYield => absurd isYield notYield).symm

theorem agrees_yield (distinct : (fields.map Prod.fst).Nodup) :
    Shape.Agrees
      { kind := .block, entries := Json.put "yield" (.bool true) fields
        empty := clearsNodes fields }
      fields (rewritten "YieldBlock" fields) := by
  have isNodes : fieldName "nodes" = "nodes" := by simp only [fieldName_keys]
  have isYield : fieldName "yield" = "yield_" := by simp only [fieldName_keys]
  have noYield : keyOf "nodes" "yield" = false :=
    keyOf_ne isYield (by simp [ofString_inj])
  have rewrites : rewritten "YieldBlock" fields =
      Json.put "yield" (.bool true) (Json.put "nodes" (.arr []) fields) := if_pos rfl
  rw [rewrites]
  refine ⟨fun name notNodes _ => ?_, fun clears => ⟨rfl, ?_⟩, fun keeps => ?_⟩
  · exact (valueAt_put_put (keyOf_ne isNodes notNodes) (by simp [ofString_inj]) _).symm
  · rw [valueAt_put_other noYield]
    exact valueAt_put_last distinct (beq_iff_eq.mp clears)
  · rw [valueAt_put_other noYield]
    exact (valueAt_put_hidden (beq_eq_false_iff_ne.mp keeps)).symm

theorem agrees_name (concrete : kind ∈ Kind.all) {entries : List (Text × Json)}
    (own : entries = if kind = .code then copied "mustEscape" "escape" fields else fields) :
    Shape.Agrees { kind, entries } fields (rewritten kind.name fields) := by
  obtain ⟨-, notYield, -, -⟩ := ofName?_name kind concrete
  apply Shape.Agrees.plain notYield
  intro name _ notAlternative
  have isAlternative : fieldName "alternative" = "alternative" := by simp only [fieldName_keys]
  have same : valueAt (keyOf name) (copied "alternate" "alternative" fields) =
      valueAt (keyOf name) fields :=
    valueAt_copied (keyOf_ne isAlternative notAlternative)
  rw [own, rewritten_name concrete]
  cases kind with
  | each => exact same.symm
  | _ => rfl

theorem kindOf?_raw : kindOf? "RawInclude" = some .inclusion := by
  decide +kernel

theorem shape_raw_eq (parent : Subject) (fields : List (Text × Json)) :
    shape parent "RawInclude" fields = inclusionEntries "RawInclude" fields >>= fun entries =>
      .ok { kind := .inclusion, entries } := by
  unfold shape
  rw [if_neg (by simp [ofString_inj]), if_neg (by simp [ofString_inj]),
    if_pos (beq_self_eq_true _)]
  rfl

private theorem put_of_absent {key : Text} {fields : List (Text × Json)}
    (absent : hasKey key fields = false) (value : Json) :
    Json.put key value fields = fields ++ [(key, value)] := by
  induction fields with
  | nil => rfl
  | cons first rest ih =>
    unfold hasKey at absent ih
    rw [List.any_cons, Bool.or_eq_false_iff] at absent
    rw [Json.put, absent.1, ih absent.2]
    rfl

theorem valueAt_alternative (fields : List (Text × Json)) :
    valueAt (alternativeKey fields) fields =
      valueAt (keyOf "alternative") (copied "alternate" "alternative" fields) := by
  have isAlternative : fieldName "alternative" = "alternative" := by simp only [fieldName_keys]
  unfold copied
  cases other : Json.lookup? "alternate" fields with
  | none =>
    apply valueAt_congr
    intro entry _
    unfold alternativeKey
    rw [hasKey_eq "alternate", other]
    rfl
  | some value =>
    cases usual : hasKey "alternative" fields with
    | true =>
      apply valueAt_congr
      intro entry _
      unfold alternativeKey
      rw [usual, Bool.not_true, Bool.and_false]
      rfl
    | false =>
      have renamed : alternativeKey fields = (· == ("alternate" : Text)) := by
        funext key
        unfold alternativeKey
        rw [hasKey_eq "alternate", other, usual]
        rfl
      rw [renamed, ← lookup?_eq, other]
      dsimp only
      rw [if_neg Bool.false_ne_true, put_of_absent usual, valueAt_append, valueAt_singleton,
        keyOf_eq_true isAlternative]
      rfl

theorem name_of_each (known : kindOf? typeName = some .each) : typeName = Kind.each.name := by
  unfold kindOf? at known
  split at known
  · cases known
  split at known
  · cases known
  split at known
  · cases known
  · exact name_of_ofName? known

end Shapes

section Types

variable {fields : List (Text × Json)}

private theorem present?_ne_null (key : Text) (fields : List (Text × Json)) :
    Json.present? key fields ≠ some .null := by
  rw [present?_eq]
  cases valueAt (· == key) fields with
  | none => nofun
  | some value => cases value <;> nofun

theorem readType_typed {typeName : Text} (typed : typeName? fields = some typeName)
    (parent : Subject) : readType parent fields = .ok typeName := by
  unfold typeName? at typed
  unfold readType
  cases found : Json.present? "type" fields with
  | none => rw [found] at typed; cases typed
  | some value =>
    rw [found] at typed
    have isName : typeText value = some typeName := typed
    simp only [isName]
    rfl

theorem readType_untyped (natural : Natural fields) (untyped : typeName? fields = none)
    (parent : Subject) :
    readType parent fields = .error (.tree (.missingNode parent (some ("type" : Text)))) := by
  unfold typeName? at untyped
  unfold readType
  cases found : Json.present? "type" fields with
  | none => rfl
  | some value =>
    have scalar := natural.type value found
    rw [found] at untyped
    cases value with
    | null => exact absurd found (present?_ne_null "type" fields)
    | bool flag => cases flag <;> cases untyped
    | arr _ => cases scalar
    | obj _ => cases scalar
    | _ => cases untyped

end Types

end Document

end PugPrinter
