import PugPrinter.Proofs.Document.Rewriting

/-!
Which trees are loaded. A loader goes through the declared fields one by one and stops at the first
one that it cannot read, so it succeeds just where nothing is wrong with any object of the tree, and
otherwise fails with the fault of the offence that a depth-first walk meets first.
-/

set_option autoImplicit false

namespace PugPrinter

namespace Document

section Blaming

variable {α β : Type}

def Blames (step : Except Fault α) : List Report → Prop
  | [] => ∃ a, step = .ok a
  | report :: _ => step = .error report.fault

private theorem Blames.ok (a : α) : Blames (.ok a) [] :=
  ⟨a, rfl⟩

private theorem Blames.bind {step : Except Fault α} {next : α → Except Fault β}
    {first later : List Report} (now : Blames step first)
    (after : ∀ a, step = .ok a → Blames (next a) later) :
    Blames (step >>= next) (first ++ later) := by
  cases first with
  | nil =>
    obtain ⟨a, isOk⟩ := now
    have rest := after a isOk
    rw [isOk, ok_bind]
    exact rest
  | cons report others =>
    have failed : step = .error report.fault := now
    rw [failed]
    rfl

private theorem Blames.map {step : Except Fault α} {reports : List Report}
    (now : Blames step reports) (f : α → β) : Blames (f <$> step) reports := by
  cases reports with
  | nil =>
    obtain ⟨a, isOk⟩ := now
    exact ⟨f a, by rw [isOk]; rfl⟩
  | cons report others =>
    have failed : step = .error report.fault := now
    change f <$> step = _
    rw [failed]
    rfl

private theorem Blames.last {step : Except Fault α} {next : α → Except Fault β}
    {reports : List Report} (now : Blames step reports)
    (after : ∀ a, step = .ok a → Blames (next a) []) :
    Blames (step >>= next) reports := by
  have both := now.bind after
  rwa [List.append_nil] at both

end Blaming

section Items

variable {α : Type}

private theorem Blames.mapM {item : Json → Except Fault α} {reports : Json → List Report}
    {items : List Json} (each : ∀ value ∈ items, Blames (item value) (reports value)) :
    Blames (items.mapM item) (items.flatMap reports) := by
  induction items with
  | nil => exact .ok []
  | cons value rest ih =>
    obtain ⟨now, later⟩ := List.forall_mem_cons.mp each
    rw [List.mapM_cons, List.flatMap_cons]
    exact now.bind fun _ _ => (ih later).last fun _ _ => .ok _

def itemReports (key : Text) (report : Report) (item : Json) : List Report :=
  ((object? item).toList.filter fun fields => !hasKey key fields).map fun _ => report

private theorem blames_readList {key : Text} {report : Report} {read : Json → Except Fault α}
    {items : List Json} (each : ∀ item ∈ items, Blames (read item) (itemReports key report item)) :
    Blames (readList read (.arr items)) ((lacking key (.arr items)).map fun _ => report) := by
  have item_by_item : (lacking key (.arr items)).map (fun _ => report) =
      items.flatMap (itemReports key report) := by
    simp only [lacking, objects, List.filterMap_eq_flatMap_toList, List.filter_flatMap,
      List.map_flatMap]
    rfl
  rw [item_by_item]
  exact (Blames.mapM each).map Loose.of

private theorem blames_attribute (site : Site) {item : Json} (isObject : isObject item = true) :
    Blames (readAttribute item) (itemReports "name" ⟨site, .namelessAttribute⟩ item) := by
  cases item with
  | obj fields =>
    unfold itemReports readAttribute
    simp only [object?, Option.toList_some, List.filter_cons, hasKey_eq]
    cases Json.lookup? "name" fields with
    | none => rfl
    | some value => cases value <;> exact ⟨_, rfl⟩
  | _ => cases isObject

private theorem blames_attributeBlock (site : Site) (item : Json) :
    Blames (readAttributeBlock item) (itemReports "val" ⟨site, .valuelessBlock⟩ item) := by
  cases item with
  | obj fields =>
    unfold itemReports readAttributeBlock
    simp only [object?, Option.toList_some, List.filter_cons, hasKey_eq]
    cases Json.lookup? "val" fields with
    | none => rfl
    | some value => exact .ok _
  | _ => exact .ok _

end Items

section Shapes

variable {typeName : Text} {kind : Kind}

private theorem typeOffences_known (known : kindOf? typeName = some kind)
    (notRaw : typeName ≠ "RawInclude") (fields : List (Text × Json)) :
    typeOffences typeName fields = [] :=
  typeOffences_eq_nil_iff.mpr ⟨⟨kind, known⟩, fun isRaw => absurd isRaw notRaw⟩

private theorem blames_shape (site : Site) (natural : Natural site.fields)
    (typed : typeName? site.fields = some typeName) :
    Blames (shape site.parent typeName site.fields)
      ((typeOffences typeName site.fields).map (Report.mk site)) ∧
    ∀ own, shape site.parent typeName site.fields = .ok own →
      kindOf? typeName = some own.kind ∧
        own.Agrees site.fields (rewritten typeName site.fields) := by
  -- A type is refused for the first thing that is wrong with it, and otherwise stands for its kind,
  -- with the fields that rewriting gives it.
  -- A type that is known gives one shape, and then both parts are about that shape.
  have fits {kind : Kind} {own : Shape} (notRaw : typeName ≠ "RawInclude")
      (known : kindOf? typeName = some kind)
      (shaped : shape site.parent typeName site.fields = .ok own) (isKind : own.kind = kind)
      (agrees : own.Agrees site.fields (rewritten typeName site.fields)) :
      Blames (shape site.parent typeName site.fields)
        ((typeOffences typeName site.fields).map (Report.mk site)) ∧
      ∀ own, shape site.parent typeName site.fields = .ok own →
        kindOf? typeName = some own.kind ∧
          own.Agrees site.fields (rewritten typeName site.fields) := by
    rw [typeOffences_known known notRaw, shaped]
    refine ⟨.ok own, fun other same => ?_⟩
    cases same
    rw [isKind]
    exact ⟨known, agrees⟩
  by_cases isYield : typeName = "YieldBlock"
  · subst isYield
    exact fits (by simp [ofString_inj]) (if_pos rfl) (shape_yield ..) rfl
      (agrees_yield natural.distinct)
  by_cases isInterpolated : typeName = "InterpolatedTag"
  · subst isInterpolated
    have known : kindOf? "InterpolatedTag" = some .tag := by decide +kernel
    refine fits (by simp [ofString_inj]) known (shape_interpolated _ rfl) rfl ?_
    apply Shape.Agrees.plain isYield
    intro name _ _
    unfold rewritten
    rw [if_neg isYield, if_pos rfl]
  by_cases isRaw : typeName = "RawInclude"
  · subst isRaw
    have unknown : (kindOf? "RawInclude").isNone = false := by rw [kindOf?_raw]; rfl
    rw [shape_raw_eq, inclusionEntries_eq (natural.filters typed)]
    unfold typeOffences
    rw [unknown]
    by_cases many : 1 < (filters site.fields).length
    · rw [if_pos many, if_pos ⟨rfl, many⟩]
      exact ⟨rfl, nofun⟩
    · rw [if_neg many, if_neg fun both => many both.2]
      refine ⟨.ok _, fun own same => ?_⟩
      cases same
      refine ⟨kindOf?_raw, .plain isYield fun name _ _ => ?_⟩
      unfold rewritten
      rw [if_neg isYield, if_neg isInterpolated, if_pos rfl]
  have plain : kindOf? typeName = Kind.ofName? typeName := by
    unfold kindOf?
    rw [if_neg isYield, if_neg isInterpolated, if_neg isRaw]
  cases named : Kind.ofName? typeName with
  | none =>
    have refused : shape site.parent typeName site.fields = .error
        (.tree (.unsupportedType ⟨some typeName, some (readLocation site.fields)⟩
          site.parent)) := by
      unfold shape
      rw [if_neg (by simpa using isYield), if_neg (by simpa using isInterpolated),
        if_neg (by simpa using isRaw), named]
      rfl
    unfold typeOffences
    rw [refused, if_neg fun both => isRaw both.1, plain, named]
    exact ⟨rfl, nofun⟩
  | some kind =>
    have concrete : kind ∈ Kind.all := List.mem_of_find?_eq_some named
    have isName := name_of_ofName? named
    subst isName
    by_cases isCode : kind = .code
    · subst isCode
      exact fits isRaw (plain.trans named) (shape_code ..) rfl (agrees_name concrete rfl)
    · exact fits isRaw (plain.trans named) (shape_name concrete isCode ..) rfl
        (agrees_name concrete (if_neg isCode).symm)

end Shapes

section Fields

variable {site : Site} {own : Shape} {entries : List (Text × Json)} {field : Declared}

/-- A field of the right make, which the loader finds where the rewritten fields have it, and with
nodes that are loaded as they should be. -/
structure Ready (site : Site) (own : Shape) (entries : List (Text × Json)) (field : Declared) :
    Prop where
  admitted : ∀ value, field.value? entries = some value → field.content.admits value = true
  nodes : ∀ node ∈ field.nodes entries,
    Blames (loadBelow (site.owner own.kind) (.obj node)) (offences (site.inner own.kind node))
  found : field.content ≠ .child → field.content ≠ .children →
    field? field.name own.entries = field.value? entries
  slot : field.content = .child → field.name ≠ "alternative" →
    valueAt (keyOf field.name) site.fields = valueAt (keyOf field.name) entries

private theorem objects_of_scalar {value : Json} (scalar : Content.scalar.admits value = true) :
    objects value = [] := by
  cases value with
  | arr _ => cases scalar
  | obj _ => cases scalar
  | _ => rfl

private theorem offences_plain (notAttributes : field.content ≠ .attributes)
    (notBlocks : field.content ≠ .attributeBlocks) :
    (field.offences own.kind entries).map (Report.mk site) =
      if field.required = true ∧ field.value? entries = none then
        [⟨site, .missing own.kind field.name⟩]
      else [] := by
  unfold Declared.offences
  cases field.value? entries with
  | none => cases field.required <;> rfl
  | some value =>
    have isThere : ¬ (field.required = true ∧ some value = none) := nofun
    rw [if_neg isThere]
    cases isContent : field.content with
    | attributes => exact absurd isContent notAttributes
    | attributeBlocks => exact absurd isContent notBlocks
    | _ => rfl

private theorem fieldReports_scalar (ready : Ready site own entries field)
    (isScalar : field.content = .scalar) :
    fieldReports site own.kind entries field =
      if field.required = true ∧ field.value? entries = none then
        [⟨site, .missing own.kind field.name⟩]
      else [] := by
  have noNodes : field.nodes entries = [] := by
    unfold Declared.nodes
    split
    · cases found : field.value? entries with
      | none => rfl
      | some value =>
        have scalar := ready.admitted value found
        rw [isScalar] at scalar
        exact objects_of_scalar scalar
    · rfl
  unfold fieldReports
  rw [noNodes, List.flatMap_nil, List.append_nil]
  exact offences_plain (by rw [isScalar]; nofun) (by rw [isScalar]; nofun)

def TakesScalars {α : Type} (read : Json → Except Fault α) : Prop :=
  ∀ value, Content.scalar.admits value = true → ∃ a, read value = .ok a

private theorem readText_takes : TakesScalars readText := by
  intro value scalar
  cases value with
  | obj _ => cases scalar
  | _ => exact ⟨_, rfl⟩

private theorem readFlag_takes : TakesScalars readFlag := by
  intro value scalar
  cases value with
  | obj _ => cases scalar
  | _ => exact ⟨_, rfl⟩

section Scalars

variable {α : Type} {read : Json → Except Fault α}

private theorem Ready.required (ready : Ready site own entries field)
    (isScalar : field.content = .scalar) (isRequired : field.required = true)
    (takes : TakesScalars read) :
    Blames (required (site.owner own.kind) field.name read own.entries)
      (fieldReports site own.kind entries field) := by
  rw [fieldReports_scalar ready isScalar]
  unfold Document.required
  rw [ready.found (by rw [isScalar]; nofun) (by rw [isScalar]; nofun)]
  cases isValue : field.value? entries with
  | none =>
    rw [if_pos ⟨isRequired, rfl⟩]
    rfl
  | some value =>
    rw [if_neg nofun]
    have scalar := ready.admitted value isValue
    rw [isScalar] at scalar
    exact takes value scalar

private theorem Ready.defaulted (ready : Ready site own entries field)
    (isScalar : field.content = .scalar) (notRequired : field.required = false)
    (takes : TakesScalars read) (missing : α) :
    Blames (defaulted missing field.name read own.entries) (fieldReports site own.kind entries field) := by
  rw [fieldReports_scalar ready isScalar, notRequired, if_neg nofun]
  unfold Document.defaulted
  rw [ready.found (by rw [isScalar]; nofun) (by rw [isScalar]; nofun)]
  cases isValue : field.value? entries with
  | none => exact .ok missing
  | some value =>
    have scalar := ready.admitted value isValue
    rw [isScalar] at scalar
    exact takes value scalar

end Scalars

private theorem Ready.list {α : Type} {read : Json → Except Fault α} (key : Text)
    (offence : Offence) (ready : Ready site own entries field)
    (notRequired : field.required = false)
    (holdsNone : field.content.holdsNodes = false)
    (offends : ∀ value, field.value? entries = some value →
      field.offences own.kind entries = (lacking key value).map fun _ => offence)
    (isArray : ∀ value, field.content.admits value = true → ∃ items, value = .arr items ∧
      ∀ item ∈ items, Blames (read item) (itemReports key ⟨site, offence⟩ item)) :
    Blames (Document.defaulted (.of []) field.name (readList read) own.entries)
      (fieldReports site own.kind entries field) := by
  have noNodes : field.nodes entries = [] := by
    unfold Declared.nodes
    rw [holdsNone, if_neg Bool.false_ne_true]
  have found : field? field.name own.entries = field.value? entries := by
    apply ready.found
    · intro isChild
      rw [isChild] at holdsNone
      cases holdsNone
    · intro isChildren
      rw [isChildren] at holdsNone
      cases holdsNone
  unfold fieldReports Document.defaulted
  rw [noNodes, List.flatMap_nil, List.append_nil, found]
  cases isValue : field.value? entries with
  | none =>
    unfold Declared.offences
    rw [isValue, notRequired]
    exact .ok _
  | some value =>
    obtain ⟨items, rfl, each⟩ := isArray value (ready.admitted value isValue)
    rw [offends _ isValue, List.map_map]
    exact blames_readList each

private theorem Ready.attributes (ready : Ready site own entries field)
    (isContent : field.content = .attributes) (notRequired : field.required = false) :
    Blames (Document.defaulted (.of []) field.name (readList readAttribute) own.entries)
      (fieldReports site own.kind entries field) := by
  refine ready.list "name" .namelessAttribute notRequired (by rw [isContent]; rfl)
    (fun value isValue => ?_) fun value admits => ?_
  · unfold Declared.offences
    rw [isValue, isContent]
  · rw [isContent] at admits
    cases value with
    | arr items =>
      exact ⟨items, rfl, fun item member =>
        blames_attribute site (List.all_eq_true.mp admits item member)⟩
    | _ => cases admits

private theorem Ready.attributeBlocks (ready : Ready site own entries field)
    (isContent : field.content = .attributeBlocks) (notRequired : field.required = false) :
    Blames (Document.defaulted (.of []) field.name (readList readAttributeBlock) own.entries)
      (fieldReports site own.kind entries field) := by
  refine ready.list "val" .valuelessBlock notRequired (by rw [isContent]; rfl)
    (fun value isValue => ?_) fun value admits => ?_
  · unfold Declared.offences
    rw [isValue, isContent]
  · rw [isContent] at admits
    cases value with
    | arr items => exact ⟨items, rfl, fun item _ => blames_attributeBlock site item⟩
    | _ => cases admits

section Nodes

variable {fits : Text → Bool}

private theorem given_eq_none {value : Option Json} (absent : value.bind Json.given? = none) :
    value = none ∨ value = some .null := by
  cases value with
  | none => exact .inl rfl
  | some json => cases json <;> first | exact .inr rfl | cases absent

private theorem Ready.child (ready : Ready site own entries field)
    (isChild : field.content = .child)
    (found : valueAt fits site.fields = valueAt (keyOf field.name) entries) :
    Blames (loadSlot (site.owner own.kind) fits site.fields)
      ((field.nodes entries).flatMap fun node => offences (site.inner own.kind node)) ∧
    ∀ child, loadSlot (site.owner own.kind) fits site.fields = .ok child →
      (child = none ↔ field.value? entries = none) := by
  have nodes : field.nodes entries = (field.value? entries).elim [] objects := by
    unfold Declared.nodes
    rw [isChild]
    rfl
  have inside := ready.nodes
  rw [loadSlot_eq, found]
  rw [nodes] at inside ⊢
  cases isValue : field.value? entries with
  | none =>
    rcases given_eq_none isValue with absent | isNull
    · rw [absent]
      exact ⟨.ok none, fun child same => by cases same; simp⟩
    · rw [isNull]
      exact ⟨.ok none, fun child same => by cases same; simp⟩
  | some value =>
    have admits := ready.admitted value isValue
    rw [isChild] at admits
    rw [isValue] at inside
    rw [field.valueAt_of_value? isValue]
    cases value with
    | obj fields =>
      have loaded := inside fields (List.mem_cons_self ..)
      refine ⟨?_, fun child same => ?_⟩
      · rw [Option.elim_some, objects, List.flatMap_singleton]
        exact loaded.map some
      · change some <$> loadBelow (site.owner own.kind) (.obj fields) = .ok child at same
        cases isNode : loadBelow (site.owner own.kind) (.obj fields) with
        | error fault => rw [isNode] at same; cases same
        | ok node => rw [isNode] at same; cases same; simp
    | arr items => cases admits
    | null =>
      have isNull := field.valueAt_of_value? isValue
      unfold Declared.value? at isValue
      rw [isNull] at isValue
      cases isValue
    | _ => exact ⟨.ok _, fun child same => by cases same; simp⟩

private theorem Ready.optionalSlot (ready : Ready site own entries field)
    (isChild : field.content = .child) (notRequired : field.required = false)
    (found : valueAt fits site.fields = valueAt (keyOf field.name) entries) :
    Blames (loadSlot (site.owner own.kind) fits site.fields)
      (fieldReports site own.kind entries field) := by
  unfold fieldReports
  rw [offences_plain (by rw [isChild]; nofun) (by rw [isChild]; nofun), notRequired,
    if_neg nofun, List.nil_append]
  exact (ready.child isChild found).1

private theorem Ready.neededSlot {β : Type} {next : Option Node → Except Fault β}
    {later : List Report} (ready : Ready site own entries field)
    (isChild : field.content = .child) (isRequired : field.required = true)
    (found : valueAt fits site.fields = valueAt (keyOf field.name) entries)
    (after : ∀ child, Blames (next child) later) :
    Blames (loadSlot (site.owner own.kind) fits site.fields >>= fun child =>
      needed (site.owner own.kind) field.name child >>= next)
      (fieldReports site own.kind entries field ++ later) := by
  obtain ⟨loaded, filled⟩ := ready.child isChild found
  unfold fieldReports
  rw [offences_plain (by rw [isChild]; nofun) (by rw [isChild]; nofun), isRequired]
  cases isValue : field.value? entries with
  | none =>
    have noNodes : field.nodes entries = [] := by
      unfold Declared.nodes
      rw [isValue]
      split <;> rfl
    rw [noNodes] at loaded ⊢
    obtain ⟨child, isOk⟩ := loaded
    rw [isOk, ok_bind, (filled child isOk).mpr isValue, if_pos ⟨rfl, rfl⟩]
    rfl
  | some value =>
    rw [if_neg nofun, List.nil_append]
    apply loaded.bind
    intro child isOk
    cases child with
    | none => rw [(filled none isOk).mp rfl] at isValue; cases isValue
    | some node => exact after (some node)

private theorem blames_loadItems (owner : Subject) {reports : List (Text × Json) → List Report}
    {items : List Json} (each : ∀ node ∈ items.filterMap object?,
      Blames (loadBelow owner (.obj node)) (reports node)) :
    Blames (loadItems owner items) ((items.filterMap object?).flatMap reports) := by
  induction items with
  | nil => exact .ok []
  | cons item rest ih =>
    have rest_reports (others : ∀ node ∈ rest.filterMap object?,
        Blames (loadBelow owner (.obj node)) (reports node)) (node : Node) :
        Blames (loadItems owner rest >>= fun nodes => .ok (node :: nodes))
          ((rest.filterMap object?).flatMap reports) :=
      (ih others).last fun _ _ => .ok _
    cases item with
    | obj fields =>
      rw [List.filterMap_cons_some (rfl : object? (.obj fields) = some fields)] at each ⊢
      obtain ⟨now, later⟩ := List.forall_mem_cons.mp each
      rw [List.flatMap_cons]
      exact now.bind fun node _ => rest_reports later node
    | _ => exact rest_reports each _

private theorem Ready.sequence (ready : Ready site own entries field)
    (isChildren : field.content = .children) (isNodes : field.name = "nodes")
    (notRequired : field.required = false)
    (found : valueAt (keyOf "nodes") site.fields = valueAt (keyOf "nodes") entries) :
    Blames (loadSequence (site.owner own.kind) site.fields)
      (fieldReports site own.kind entries field) := by
  have nodes : field.nodes entries = (field.value? entries).elim [] objects := by
    unfold Declared.nodes
    rw [isChildren]
    rfl
  have inside := ready.nodes
  unfold fieldReports
  rw [offences_plain (by rw [isChildren]; nofun) (by rw [isChildren]; nofun), notRequired,
    if_neg nofun, List.nil_append, loadSequence_eq, found, ← isNodes]
  rw [nodes] at inside ⊢
  cases isValue : field.value? entries with
  | none =>
    rcases given_eq_none isValue with absent | isNull
    · rw [absent]
      exact .ok _
    · rw [isNull]
      exact .ok _
  | some value =>
    have admits := ready.admitted value isValue
    rw [isChildren] at admits
    rw [isValue] at inside
    rw [field.valueAt_of_value? isValue]
    cases value with
    | arr items => exact (blames_loadItems (site.owner own.kind) inside).map Loose.of
    | obj fields => cases admits
    | _ => exact .ok _

end Nodes

end Fields

section Kinds

variable {site : Site} {own : Shape} {typeName : Text} {entries : List (Text × Json)}

private theorem nodes_cleared {field : Declared} {kind : Kind}
    (isChildren : field.content = .children)
    (isEmpty : valueAt (keyOf field.name) entries = some (.arr [])) :
    fieldReports site kind entries field = [] := by
  have found : field.value? entries = some (.arr []) := by
    unfold Declared.value?
    rw [isEmpty]
    rfl
  unfold fieldReports Declared.offences Declared.nodes
  rw [found, isChildren]
  rfl

private theorem blames_own (typed : readType site.parent site.fields = .ok typeName)
    (shaped : shape site.parent typeName site.fields = .ok own)
    (known : kindOf? typeName = some own.kind)
    (agrees : own.Agrees site.fields (rewritten typeName site.fields))
    (ready : ∀ field ∈ own.kind.declared, Ready site own (rewritten typeName site.fields) field) :
    Blames (loadBelow site.parent (.obj site.fields))
      (own.kind.declared.flatMap
        (fieldReports site own.kind (rewritten typeName site.fields))) := by
  rw [loadBelow]
  simp only [typed, shaped, ok_bind]
  obtain ⟨kind, ownEntries, empty⟩ := own
  cases kind <;>
    simp only [Kind.declared, List.forall_mem_cons, List.flatMap_cons, List.flatMap_nil] at ready ⊢
  case block =>
    obtain ⟨nodes, yields, -⟩ := ready
    cases isEmpty : empty with
    | true =>
      -- Rewriting takes the nodes of a placeholder away, so that nothing can be wrong with them.
      rw [nodes_cleared rfl (agrees.cleared isEmpty).2, if_pos rfl, List.nil_append]
      exact (yields.defaulted rfl rfl readFlag_takes _).bind fun _ _ => .ok _
    | false =>
      rw [if_neg Bool.false_ne_true]
      exact (nodes.sequence rfl rfl rfl (agrees.sequence isEmpty)).bind fun _ _ =>
        (yields.defaulted rfl rfl readFlag_takes _).bind fun _ _ => .ok _
  case namedBlock =>
    obtain ⟨nodes, yields, name, mode, -⟩ := ready
    have notEmpty : empty = false := by
      rw [← Bool.not_eq_true]
      intro isEmpty
      cases (agrees.cleared isEmpty).1
    exact (nodes.sequence rfl rfl rfl (agrees.sequence notEmpty)).bind fun _ _ =>
      (yields.defaulted rfl rfl readFlag_takes _).bind fun _ _ =>
      (name.defaulted rfl rfl readText_takes _).bind fun _ _ =>
      (mode.defaulted rfl rfl readText_takes _).bind fun _ _ => .ok _
  case tag =>
    obtain ⟨name, block, attrs, blocks, selfClosing, buffer, code, -⟩ := ready
    exact (name.required rfl rfl readText_takes).bind fun _ _ =>
      block.neededSlot rfl rfl (block.slot rfl (by decide +kernel)) fun _ =>
      (attrs.attributes rfl rfl).bind fun _ _ =>
      (blocks.attributeBlocks rfl rfl).bind fun _ _ =>
      (selfClosing.defaulted rfl rfl readFlag_takes _).bind fun _ _ =>
      (buffer.defaulted rfl rfl readFlag_takes _).bind fun _ _ =>
      (code.optionalSlot rfl rfl (code.slot rfl (by decide +kernel))).bind fun _ _ => .ok _
  case mixin =>
    obtain ⟨name, call, args, attrs, blocks, block, -⟩ := ready
    exact (name.required rfl rfl readText_takes).bind fun _ _ =>
      (call.required rfl rfl readFlag_takes).bind fun _ _ =>
      (args.defaulted rfl rfl readText_takes _).bind fun _ _ =>
      (attrs.attributes rfl rfl).bind fun _ _ =>
      (blocks.attributeBlocks rfl rfl).bind fun _ _ =>
      (block.optionalSlot rfl rfl (block.slot rfl (by decide +kernel))).bind fun _ _ => .ok _
  case mixinBlock =>
    exact .ok _
  case text =>
    obtain ⟨val, isHtml, -⟩ := ready
    exact (val.required rfl rfl readText_takes).bind fun _ _ =>
      (isHtml.defaulted rfl rfl readFlag_takes _).bind fun _ _ => .ok _
  case code =>
    obtain ⟨val, buffer, escape, block, -⟩ := ready
    exact (val.required rfl rfl readText_takes).bind fun _ _ =>
      (buffer.defaulted rfl rfl readFlag_takes _).bind fun _ _ =>
      (escape.defaulted rfl rfl readFlag_takes _).bind fun _ _ =>
      (block.optionalSlot rfl rfl (block.slot rfl (by decide +kernel))).bind fun _ _ => .ok _
  case comment =>
    obtain ⟨val, buffer, -⟩ := ready
    exact (val.required rfl rfl readText_takes).bind fun _ _ =>
      (buffer.defaulted rfl rfl readFlag_takes _).bind fun _ _ => .ok _
  case blockComment =>
    obtain ⟨val, block, buffer, -⟩ := ready
    exact (val.required rfl rfl readText_takes).bind fun _ _ =>
      block.neededSlot rfl rfl (block.slot rfl (by decide +kernel)) fun _ =>
      (buffer.defaulted rfl rfl readFlag_takes _).bind fun _ _ => .ok _
  case caseOf =>
    obtain ⟨expr, block, -⟩ := ready
    exact (expr.required rfl rfl readText_takes).bind fun _ _ =>
      block.neededSlot rfl rfl (block.slot rfl (by decide +kernel)) fun _ => .ok _
  case when =>
    obtain ⟨expr, block, -⟩ := ready
    exact (expr.required rfl rfl readText_takes).bind fun _ _ =>
      (block.optionalSlot rfl rfl (block.slot rfl (by decide +kernel))).bind fun _ _ => .ok _
  case conditional =>
    obtain ⟨test, consequent, alternate, -⟩ := ready
    exact (test.required rfl rfl readText_takes).bind fun _ _ =>
      consequent.neededSlot rfl rfl (consequent.slot rfl (by decide +kernel)) fun _ =>
      (alternate.optionalSlot rfl rfl (alternate.slot rfl (by decide +kernel))).bind fun _ _ => .ok _
  case whileLoop =>
    obtain ⟨test, block, -⟩ := ready
    exact (test.required rfl rfl readText_takes).bind fun _ _ =>
      block.neededSlot rfl rfl (block.slot rfl (by decide +kernel)) fun _ => .ok _
  case each =>
    obtain ⟨val, obj, block, key, alternative, -⟩ := ready
    have alternativeFound : valueAt (alternativeKey site.fields) site.fields =
        valueAt (keyOf "alternative") (rewritten typeName site.fields) := by
      rw [name_of_each known, rewritten_name (mem_all .each Kind.noConfusion)]
      exact valueAt_alternative site.fields
    exact (val.required rfl rfl readText_takes).bind fun _ _ =>
      (obj.required rfl rfl readText_takes).bind fun _ _ =>
      block.neededSlot rfl rfl (block.slot rfl (by decide +kernel)) fun _ =>
      (key.defaulted rfl rfl readText_takes _).bind fun _ _ =>
      (alternative.optionalSlot rfl rfl alternativeFound).bind fun _ _ => .ok _
  case doctype =>
    obtain ⟨val, -⟩ := ready
    exact (val.defaulted rfl rfl readText_takes _).bind fun _ _ => .ok _
  case fileReference =>
    obtain ⟨path, -⟩ := ready
    exact (path.required rfl rfl readText_takes).bind fun _ _ => .ok _
  case extending =>
    obtain ⟨file, -⟩ := ready
    exact file.neededSlot rfl rfl (file.slot rfl (by decide +kernel)) fun _ => .ok _
  case inclusion =>
    obtain ⟨file, filter, attrs, block, -⟩ := ready
    exact file.neededSlot rfl rfl (file.slot rfl (by decide +kernel)) fun _ =>
      (filter.defaulted rfl rfl readText_takes _).bind fun _ _ =>
      (attrs.attributes rfl rfl).bind fun _ _ =>
      (block.optionalSlot rfl rfl (block.slot rfl (by decide +kernel))).bind fun _ _ => .ok _
  case filter =>
    obtain ⟨name, block, attrs, -⟩ := ready
    exact (name.required rfl rfl readText_takes).bind fun _ _ =>
      block.neededSlot rfl rfl (block.slot rfl (by decide +kernel)) fun _ =>
      (attrs.attributes rfl rfl).bind fun _ _ => .ok _
  case bare =>
    have notProduced : Kind.bare ∉ Kind.all := by decide
    exact absurd (mem_all_of_kindOf? known) notProduced

private theorem declared_others : ∀ kind : Kind, ∀ field ∈ kind.declared, field.content ≠ .child →
    field.content ≠ .children → field.name ≠ "nodes" ∧ field.name ≠ "alternative" := by
  intro kind
  cases kind <;> decide +kernel

private theorem declared_slots : ∀ kind : Kind, ∀ field ∈ kind.declared, field.content = .child →
    field.name ≠ "alternative" →
      (∀ key ∈ setKeys, keyOf field.name key = false) ∧ keyOf field.name "nodes" = false := by
  intro kind
  cases kind <;> decide +kernel

private theorem ready_of_declared (natural : Natural site.fields)
    (typed : typeName? site.fields = some typeName) (known : kindOf? typeName = some own.kind)
    (agrees : own.Agrees site.fields (rewritten typeName site.fields))
    (below : ∀ inner, Inside site inner →
      Blames (loadBelow inner.parent (.obj inner.fields)) (offences inner)) :
    ∀ field ∈ own.kind.declared, Ready site own (rewritten typeName site.fields) field := by
  intro field declared
  refine ⟨natural.declared typeName own.kind typed known field declared, fun node isNode => ?_,
    fun notChild notChildren => ?_, fun isChild notAlternative => ?_⟩
  · exact below _ (.node typed known declared isNode)
  · obtain ⟨notNodes, notAlternative⟩ :=
      declared_others own.kind field declared notChild notChildren
    rw [field?_eq, agrees.others field.name notNodes notAlternative]
    rfl
  · obtain ⟨untouched, noNodes⟩ := declared_slots own.kind field declared isChild notAlternative
    exact (valueAt_rewritten untouched fun _ => noNodes).symm

end Kinds

private theorem Inside.sizeOf_lt {outer inner : Site} (inside : Inside outer inner) :
    sizeOf inner.fields < sizeOf outer.fields := by
  cases inside with
  | node _ _ _ isNode => exact sizeOf_of_mem_nodes isNode

/-- An object is loaded unless something is wrong, and the first offence decides the fault. -/
theorem blames_loadBelow (site : Site)
    (natural : ∀ inner, Reachable site inner → Natural inner.fields) :
    Blames (loadBelow site.parent (.obj site.fields)) (offences site) := by
  have here := natural site .refl
  cases typed : typeName? site.fields with
  | none =>
    rw [offences_untyped typed, loadBelow, readType_untyped here typed]
    rfl
  | some typeName =>
    have below : ∀ inner, Inside site inner →
        Blames (loadBelow inner.parent (.obj inner.fields)) (offences inner) := by
      intro inner inside
      have smaller := inside.sizeOf_lt
      exact blames_loadBelow inner fun deeper reached => natural deeper (.head inside reached)
    have read := readType_typed typed site.parent
    obtain ⟨shapes, fits⟩ := blames_shape site here typed
    rw [offences_typed typed]
    cases shaped : shape site.parent typeName site.fields with
    | error fault =>
      have failed : loadBelow site.parent (.obj site.fields) = .error fault := by
        rw [loadBelow, read, ok_bind, shaped]
        rfl
      rw [shaped] at shapes
      cases ofType : (typeOffences typeName site.fields).map (Report.mk site) with
      | nil =>
        rw [ofType] at shapes
        obtain ⟨own, isOk⟩ := shapes
        cases isOk
      | cons report others =>
        rw [ofType] at shapes
        exact failed.trans (congrArg _ (Except.error.inj shapes))
    | ok own =>
      obtain ⟨known, agrees⟩ := fits own shaped
      have noOffence : (typeOffences typeName site.fields).map (Report.mk site) = [] := by
        rw [shaped] at shapes
        cases ofType : (typeOffences typeName site.fields).map (Report.mk site) with
        | nil => rfl
        | cons report others => rw [ofType] at shapes; cases shapes
      rw [noOffence, known]
      exact blames_own read shaped known agrees
        (ready_of_declared here typed known agrees below)
termination_by sizeOf site.fields

def namelessTag : List (Text × Json) :=
  [("type", .str "Tag"), ("line", .int 3)]

def namelessBlock : List (Text × Json) :=
  [("type", .str "Block"), ("line", .int 1), ("nodes", .arr [.obj namelessTag])]

theorem natural_of_typed {fields : List (Text × Json)} {typeName : Text} {kind : Kind}
    (typed : typeName? fields = some typeName) (known : kindOf? typeName = some kind)
    (isText : Json.present? "type" fields = some (.str typeName))
    (notRaw : typeName ≠ "RawInclude") (distinct : (fields.map Prod.fst).Nodup)
    (admitted : (kind.declared.all fun field =>
      (field.value? (rewritten typeName fields)).all field.content.admits) = true) :
    Natural fields where
  distinct := distinct
  type := by
    intro value found
    rw [isText] at found
    cases found
    rfl
  filters := by
    intro isRaw
    rw [typed] at isRaw
    exact absurd (Option.some.inj isRaw) notRaw
  declared := by
    intro other otherKind isTyped isKnown field declared value found
    rw [typed] at isTyped
    cases isTyped
    rw [known] at isKnown
    cases isKnown
    have fits := List.all_eq_true.mp admitted field declared
    rw [found] at fits
    exact fits

theorem Inside.of_typed {outer inner : Site} {typeName : Text} {kind : Kind}
    (inside : Inside outer inner) (typed : typeName? outer.fields = some typeName)
    (known : kindOf? typeName = some kind) :
    inner ∈ kind.declared.flatMap fun field =>
      (field.nodes (rewritten typeName outer.fields)).map (outer.inner kind) := by
  cases inside with
  | node isTyped isKnown declared isNode =>
    rw [typed] at isTyped
    cases isTyped
    rw [known] at isKnown
    cases isKnown
    exact List.mem_flatMap.mpr ⟨_, declared, List.mem_map_of_mem isNode⟩

private theorem natural_namelessBlock : ∀ inner, Reachable { fields := namelessBlock } inner →
    Natural inner.fields := by
  have blockTyped : typeName? namelessBlock = some ("Block" : Text) := by rfl
  have blockKnown : kindOf? "Block" = some .block := by rfl
  have tagTyped : typeName? namelessTag = some ("Tag" : Text) := by rfl
  have tagKnown : kindOf? "Tag" = some .tag := by rfl
  intro inner reached
  rcases reached.cases_head with isRoot | ⟨middle, inside, further⟩
  · rw [← isRoot]
    exact natural_of_typed blockTyped blockKnown rfl (by decide) (by decide +kernel)
      (by decide +kernel)
  · have isTag : middle = Site.inner { fields := namelessBlock } .block namelessTag :=
      List.mem_singleton.mp (inside.of_typed blockTyped blockKnown)
    subst isTag
    rcases further.cases_head with isTag | ⟨deeper, below, _⟩
    · rw [← isTag]
      exact natural_of_typed tagTyped tagKnown rfl (by decide) (by decide +kernel)
        (by decide +kernel)
    · cases below.of_typed tagTyped tagKnown

end Document

end PugPrinter
