import Mathlib.Logic.Relation
import PugPrinter.Proofs.Document.Dialects

/-!
What a loader may find wrong with the objects of a tree. The kinds of nodes declare their fields;
the objects at these fields, and at theirs in turn, are the ones that a tree is made of, and each of
them can lack a type, have one that is not known, chain filters, miss a field, or hold an attribute
without a name or an attribute block without a value. The offences stand in the order in which a
walk meets them that goes through the fields as they are declared.
-/

set_option autoImplicit false

namespace PugPrinter

namespace Document

inductive Content where
  /-- A text or a flag. -/
  | scalar
  | child
  | children
  | attributes
  | attributeBlocks
  deriving DecidableEq

def Content.holdsNodes : Content → Bool
  | .attributes => false
  | .attributeBlocks => false
  | _ => true

/-- A field that a kind of node declares. A field that has to be there is one word, so that its
name is also its key. -/
structure Declared where
  name : Text
  content : Content
  required : Bool

namespace Declared

def need (name : Text) (content : Content) : Declared :=
  { name, content, required := true }

def may (name : Text) (content : Content) : Declared :=
  { name, content, required := false }

end Declared

end Document

open Document.Declared in
def Kind.declared : Kind → List Document.Declared
  | block => [may "nodes" .children, may "yield_" .scalar]
  | namedBlock =>
    [may "nodes" .children, may "yield_" .scalar, may "name" .scalar, may "mode" .scalar]
  | tag =>
    [need "name" .scalar, need "block" .child, may "attrs" .attributes,
      may "attribute_blocks" .attributeBlocks, may "self_closing" .scalar, may "buffer" .scalar,
      may "code" .child]
  | mixin =>
    [need "name" .scalar, need "call" .scalar, may "args" .scalar, may "attrs" .attributes,
      may "attribute_blocks" .attributeBlocks, may "block" .child]
  | mixinBlock => []
  | text => [need "val" .scalar, may "is_html" .scalar]
  | code => [need "val" .scalar, may "buffer" .scalar, may "escape" .scalar, may "block" .child]
  | comment => [need "val" .scalar, may "buffer" .scalar]
  | blockComment => [need "val" .scalar, need "block" .child, may "buffer" .scalar]
  | caseOf => [need "expr" .scalar, need "block" .child]
  | when => [need "expr" .scalar, may "block" .child]
  | conditional => [need "test" .scalar, need "consequent" .child, may "alternate" .child]
  | whileLoop => [need "test" .scalar, need "block" .child]
  | each =>
    [need "val" .scalar, need "obj" .scalar, need "block" .child, may "key" .scalar,
      may "alternative" .child]
  | doctype => [may "val" .scalar]
  | fileReference => [need "path" .scalar]
  | extending => [need "file" .child]
  | inclusion =>
    [need "file" .child, may "filter" .scalar, may "attrs" .attributes, may "block" .child]
  | filter => [need "name" .scalar, need "block" .child, may "attrs" .attributes]
  | bare => []

namespace Document

section Rewriting

def typeName? (fields : List (Text × Json)) : Option Text :=
  (Json.present? "type" fields).bind typeText

def kindOf? (typeName : Text) : Option Kind :=
  if typeName = ("YieldBlock" : Text) then some .block
  else if typeName = ("InterpolatedTag" : Text) then some .tag
  else if typeName = ("RawInclude" : Text) then some .inclusion
  else Kind.ofName? typeName

def filters (fields : List (Text × Json)) : List Json :=
  match Json.lookup? "filters" fields with
  | some (.arr items) => items
  | _ => []

def copied (source target : Text) (fields : List (Text × Json)) : List (Text × Json) :=
  match Json.lookup? source fields with
  | some value => if hasKey target fields then fields else Json.put target value fields
  | none => fields

def withFilter (fields : List (Text × Json)) : List (Text × Json) :=
  match filters fields with
  | .obj filter :: _ =>
    Json.put "attrs" ((Json.lookup? "attrs" filter).getD (.arr []))
      (Json.put "filter" ((Json.lookup? "name" filter).getD .null) fields)
  | _ => fields

def rewritten (typeName : Text) (fields : List (Text × Json)) : List (Text × Json) :=
  if typeName = ("YieldBlock" : Text) then
    Json.put "yield" (.bool true) (Json.put "nodes" (.arr []) fields)
  else if typeName = ("InterpolatedTag" : Text) then
    Json.put "buffer" (.bool true)
      (Json.put "name" ((Json.lookup? "expr" fields).getD (.str [])) fields)
  else if typeName = ("RawInclude" : Text) then withFilter fields
  else if typeName = Kind.code.name then copied "mustEscape" "escape" fields
  else if typeName = Kind.each.name then copied "alternate" "alternative" fields
  else fields

end Rewriting

section Exploring

def object? : Json → Option (List (Text × Json))
  | .obj fields => some fields
  | _ => none

def objects : Json → List (List (Text × Json))
  | .obj fields => [fields]
  | .arr items => items.filterMap object?
  | _ => []

namespace Declared

/-- The value of a field that is there and not null. -/
def value? (field : Declared) (entries : List (Text × Json)) : Option Json :=
  (valueAt (keyOf field.name) entries).bind Json.given?

def nodes (field : Declared) (entries : List (Text × Json)) : List (List (Text × Json)) :=
  if field.content.holdsNodes then (field.value? entries).elim [] objects else []

end Declared

private theorem sizeOf_of_mem_objects {value : Json} {inner : List (Text × Json)}
    (member : inner ∈ objects value) : sizeOf inner < sizeOf value := by
  cases value with
  | obj fields =>
    rw [List.mem_singleton.mp member, Json.obj.sizeOf_spec]
    omega
  | arr items =>
    obtain ⟨item, among, isObject⟩ := List.mem_filterMap.mp member
    cases item with
    | obj fields =>
      have smaller := List.sizeOf_lt_of_mem among
      cases isObject
      rw [Json.obj.sizeOf_spec] at smaller
      rw [Json.arr.sizeOf_spec]
      omega
    | _ => cases isObject
  | _ => cases member

private theorem sizeOf_of_mem {fields : List (Text × Json)} {entry : Text × Json}
    (member : entry ∈ fields) : sizeOf entry.2 < sizeOf fields := by
  have smaller := List.sizeOf_lt_of_mem member
  obtain ⟨key, value⟩ := entry
  rw [Prod.mk.sizeOf_spec] at smaller
  simp only
  omega

private def Within (size : Nat) (value : Json) : Prop :=
  ∀ inner ∈ objects value, sizeOf inner < size

private theorem within_of_mem {fields : List (Text × Json)} {entry : Text × Json}
    (member : entry ∈ fields) : Within (sizeOf fields) entry.2 := by
  intro inner among
  have inside := sizeOf_of_mem_objects among
  have outside := sizeOf_of_mem member
  omega

private theorem within_lookup? {fields : List (Text × Json)} {key : Text} {usual : Json}
    (small : objects usual = []) :
    Within (sizeOf fields) ((Json.lookup? key fields).getD usual) := by
  cases found : Json.lookup? key fields with
  | none =>
    intro inner among
    rw [Option.getD_none, small] at among
    cases among
  | some value =>
    rw [lookup?_eq] at found
    obtain ⟨other, member, -⟩ := mem_of_valueAt found
    exact within_of_mem member

private theorem within_put {size : Nat} {key : Text} {value : Json} {entries : List (Text × Json)}
    (old : ∀ entry ∈ entries, Within size entry.2) (new : Within size value) :
    ∀ entry ∈ Json.put key value entries, Within size entry.2 := by
  intro entry member
  rcases mem_of_mem_put member with rfl | before
  · exact new
  · exact old entry before

private theorem within_copied (source target : Text) (fields : List (Text × Json)) :
    ∀ entry ∈ copied source target fields, Within (sizeOf fields) entry.2 := by
  unfold copied
  cases found : Json.lookup? source fields with
  | none => exact fun _ => within_of_mem
  | some value =>
    dsimp only
    split
    · exact fun _ => within_of_mem
    · apply within_put fun _ => within_of_mem
      have small : Within (sizeOf fields) ((Json.lookup? source fields).getD .null) :=
        within_lookup? rfl
      rwa [found] at small

private theorem within_withFilter (fields : List (Text × Json)) :
    ∀ entry ∈ withFilter fields, Within (sizeOf fields) entry.2 := by
  unfold withFilter
  split
  · next filter rest found =>
    have smaller : sizeOf filter < sizeOf fields := by
      unfold filters at found
      split at found
      · next items isArray =>
        rw [lookup?_eq] at isArray
        obtain ⟨key, member, -⟩ := mem_of_valueAt isArray
        apply within_of_mem member
        rw [found]
        exact List.mem_cons_self ..
      · cases found
    have inFilter (key : Text) (usual : Json) (small : objects usual = []) :
        Within (sizeOf fields) ((Json.lookup? key filter).getD usual) := by
      intro inner among
      have inside : sizeOf inner < sizeOf filter := within_lookup? small inner among
      omega
    exact within_put (within_put (fun _ => within_of_mem) (inFilter "name" .null rfl))
      (inFilter "attrs" (.arr []) rfl)
  · exact fun _ => within_of_mem

private theorem within_rewritten (typeName : Text) (fields : List (Text × Json)) :
    ∀ entry ∈ rewritten typeName fields, Within (sizeOf fields) entry.2 := by
  unfold rewritten
  split
  · exact within_put (within_put (fun _ => within_of_mem) nofun) nofun
  split
  · exact within_put (within_put (fun _ => within_of_mem) (within_lookup? rfl)) nofun
  split
  · exact within_withFilter fields
  split
  · exact within_copied _ _ _
  split
  · exact within_copied _ _ _
  · exact fun _ => within_of_mem

theorem Declared.valueAt_of_value? {field : Declared} {entries : List (Text × Json)} {value : Json}
    (found : field.value? entries = some value) :
    valueAt (keyOf field.name) entries = some value := by
  unfold Declared.value? at found
  cases at? : valueAt (keyOf field.name) entries with
  | none =>
    rw [at?] at found
    cases found
  | some other =>
    rw [at?] at found
    cases other <;> cases found <;> rfl

theorem sizeOf_of_mem_nodes {field : Declared} {typeName : Text}
    {fields inner : List (Text × Json)} (member : inner ∈ field.nodes (rewritten typeName fields)) :
    sizeOf inner < sizeOf fields := by
  unfold Declared.nodes at member
  split at member
  · cases found : field.value? (rewritten typeName fields) with
    | none =>
      rw [found] at member
      cases member
    | some value =>
      rw [found] at member
      obtain ⟨key, among, -⟩ := mem_of_valueAt (field.valueAt_of_value? found)
      exact within_rewritten typeName fields _ among inner member
  · cases member

end Exploring

section Offending

structure Site where
  fields : List (Text × Json)
  parent : Subject := {}

inductive Offence where
  | untyped
  | unknownType (typeName : Text)
  | filterChain (typeName : Text)
  | missing (kind : Kind) (field : Text)
  | namelessAttribute
  | valuelessBlock

structure Report where
  site : Site
  offence : Offence

namespace Report

/-- What a report is about: the object, under the name of its type or of the kind that this stands
for. Where the type is missing, it is the object around. -/
def subject (report : Report) : Subject :=
  let place := some (readLocation report.site.fields)
  match report.offence with
  | .untyped => report.site.parent
  | .unknownType typeName => ⟨some typeName, place⟩
  | .filterChain typeName => ⟨some typeName, place⟩
  | .missing kind _ => ⟨some kind.name, place⟩
  | .namelessAttribute => {}
  | .valuelessBlock => {}

def fault (report : Report) : Fault :=
  match report.offence with
  | .untyped => .tree (.missingNode report.subject (some ("type" : Text)))
  | .unknownType _ => .tree (.unsupportedType report.subject report.site.parent)
  | .filterChain _ => .tree (.invalidFilterChain report.subject)
  | .missing _ field => .tree (.missingNode report.subject (some field))
  | .namelessAttribute => .unsupportedShape
  | .valuelessBlock => .unsupportedShape

end Report

def lacking (key : Text) (value : Json) : List (List (Text × Json)) :=
  (objects value).filter fun item => !hasKey key item

def Declared.offences (kind : Kind) (entries : List (Text × Json)) (field : Declared) :
    List Offence :=
  match field.value? entries, field.content with
  | none, _ => if field.required then [.missing kind field.name] else []
  | some value, .attributes => (lacking "name" value).map fun _ => .namelessAttribute
  | some value, .attributeBlocks => (lacking "val" value).map fun _ => .valuelessBlock
  | some _, _ => []

def typeOffences (typeName : Text) (fields : List (Text × Json)) : List Offence :=
  (if typeName = ("RawInclude" : Text) ∧ 1 < (filters fields).length then [.filterChain typeName]
    else []) ++
  if (kindOf? typeName).isNone then [.unknownType typeName] else []

namespace Site

def owner (site : Site) (kind : Kind) : Subject :=
  ⟨some kind.name, some (readLocation site.fields)⟩

def inner (outer : Site) (kind : Kind) (fields : List (Text × Json)) : Site :=
  { fields, parent := outer.owner kind }

end Site

/-- The offences in an object and the nodes inside it, depth first and in the order of the declared
fields. -/
def offences (site : Site) : List Report :=
  match typeName? site.fields with
  | none => [⟨site, .untyped⟩]
  | some typeName =>
    let entries := rewritten typeName site.fields
    (typeOffences typeName site.fields).map (Report.mk site) ++
      (kindOf? typeName).elim [] fun kind => kind.declared.flatMap fun field =>
        (field.offences kind entries).map (Report.mk site) ++
          (field.nodes entries).attach.flatMap fun node => offences (site.inner kind node.1)
termination_by sizeOf site.fields
decreasing_by exact sizeOf_of_mem_nodes node.2

def fieldReports (site : Site) (kind : Kind) (entries : List (Text × Json)) (field : Declared) :
    List Report :=
  (field.offences kind entries).map (Report.mk site) ++
    (field.nodes entries).flatMap fun node => offences (site.inner kind node)

theorem offences_untyped {site : Site} (untyped : typeName? site.fields = none) :
    offences site = [⟨site, .untyped⟩] := by
  rw [offences, untyped]

theorem offences_typed {site : Site} {typeName : Text}
    (typed : typeName? site.fields = some typeName) :
    offences site = (typeOffences typeName site.fields).map (Report.mk site) ++
      (kindOf? typeName).elim [] fun kind =>
        kind.declared.flatMap (fieldReports site kind (rewritten typeName site.fields)) := by
  rw [offences, typed]
  unfold fieldReports
  simp only [List.flatMap_subtype, List.unattach_attach]

end Offending

section Soundness

/-- A field that is in order: it is there if it has to be, attributes have names, and attribute
blocks that are objects have values. -/
structure Declared.Sound (entries : List (Text × Json)) (field : Declared) : Prop where
  given : field.required = true → field.value? entries ≠ none
  named : field.content = .attributes → ∀ value, field.value? entries = some value →
    ∀ item ∈ objects value, hasKey "name" item = true
  valued : field.content = .attributeBlocks → ∀ value, field.value? entries = some value →
    ∀ item ∈ objects value, hasKey "val" item = true

/-- An object that is in order: its type is known, a raw inclusion has one filter at most, and all
declared fields are in order. -/
def Sound (fields : List (Text × Json)) : Prop :=
  ∃ typeName kind, typeName? fields = some typeName ∧ kindOf? typeName = some kind ∧
    (typeName = ("RawInclude" : Text) → (filters fields).length ≤ 1) ∧
    ∀ field ∈ kind.declared, field.Sound (rewritten typeName fields)

inductive Inside : Site → Site → Prop where
  | node {outer : Site} {typeName : Text} {kind : Kind} {field : Declared}
      {fields : List (Text × Json)} (typed : typeName? outer.fields = some typeName)
      (known : kindOf? typeName = some kind) (declared : field ∈ kind.declared)
      (isNode : fields ∈ field.nodes (rewritten typeName outer.fields)) :
      Inside outer (outer.inner kind fields)

/-- A node inside another one, at any depth, or that node itself. -/
def Reachable : Site → Site → Prop :=
  Relation.ReflTransGen Inside

private theorem lacking_eq_nil_iff {key : Text} {value : Json} :
    lacking key value = [] ↔ ∀ item ∈ objects value, hasKey key item = true := by
  simp [lacking, List.filter_eq_nil_iff]

private theorem fieldOffences_eq_nil_iff {kind : Kind} {entries : List (Text × Json)}
    {field : Declared} :
    field.offences kind entries = [] ↔ field.Sound entries := by
  obtain ⟨name, content, isRequired⟩ := field
  unfold Declared.offences
  constructor
  · intro nothing
    cases found : Declared.value? ⟨name, content, isRequired⟩ entries with
    | none =>
      rw [found] at nothing
      refine ⟨fun needed => ?_, fun _ _ isThere => ?_, fun _ _ isThere => ?_⟩
      · simp only at needed
        rw [needed] at nothing
        cases nothing
      · rw [found] at isThere
        cases isThere
      · rw [found] at isThere
        cases isThere
    | some value =>
      rw [found] at nothing
      refine ⟨fun _ absent => ?_, fun isContent other isThere => ?_,
        fun isContent other isThere => ?_⟩
      · rw [found] at absent
        cases absent
      · rw [found] at isThere
        cases isThere
        cases isContent
        exact lacking_eq_nil_iff.mp (List.map_eq_nil_iff.mp nothing)
      · rw [found] at isThere
        cases isThere
        cases isContent
        exact lacking_eq_nil_iff.mp (List.map_eq_nil_iff.mp nothing)
  · intro sound
    cases found : Declared.value? ⟨name, content, isRequired⟩ entries with
    | none =>
      cases isRequired with
      | true => exact absurd found (sound.given rfl)
      | false => rfl
    | some value =>
      cases content with
      | attributes =>
        exact List.map_eq_nil_iff.mpr (lacking_eq_nil_iff.mpr (sound.named rfl value found))
      | attributeBlocks =>
        exact List.map_eq_nil_iff.mpr (lacking_eq_nil_iff.mpr (sound.valued rfl value found))
      | _ => rfl

theorem typeOffences_eq_nil_iff {typeName : Text} {fields : List (Text × Json)} :
    typeOffences typeName fields = [] ↔
      (∃ kind, kindOf? typeName = some kind) ∧
        (typeName = ("RawInclude" : Text) → (filters fields).length ≤ 1) := by
  unfold typeOffences
  rw [List.append_eq_nil_iff, ite_eq_right_iff, ite_eq_right_iff, and_comm]
  apply and_congr
  · cases kindOf? typeName <;> simp
  · simp

theorem mem_offences (site : Site) : ∀ report ∈ offences site,
    Reachable site report.site ∧ ¬ Sound report.site.fields := by
  intro report member
  cases typed : typeName? site.fields with
  | none =>
    rw [offences_untyped typed] at member
    cases List.mem_singleton.mp member
    refine ⟨.refl, fun ⟨typeName, _, isTyped, _⟩ => ?_⟩
    rw [typed] at isTyped
    cases isTyped
  | some typeName =>
    have unsound_of {offence : Offence} {list : List Offence} (among : offence ∈ list)
        (clean : Sound site.fields → list = []) : ¬ Sound site.fields := by
      intro sound
      rw [clean sound] at among
      cases among
    rw [offences_typed typed] at member
    rcases List.mem_append.mp member with ofType | ofFields
    · obtain ⟨offence, among, rfl⟩ := List.mem_map.mp ofType
      refine ⟨.refl, unsound_of among ?_⟩
      rintro ⟨other, kind, isTyped, known, few, -⟩
      rw [typed] at isTyped
      cases isTyped
      exact typeOffences_eq_nil_iff.mpr ⟨⟨kind, known⟩, few⟩
    · cases known : kindOf? typeName with
      | none =>
        rw [known] at ofFields
        cases ofFields
      | some kind =>
        rw [known] at ofFields
        obtain ⟨field, declared, atField⟩ := List.mem_flatMap.mp ofFields
        rcases List.mem_append.mp atField with own | inner
        · obtain ⟨offence, among, rfl⟩ := List.mem_map.mp own
          refine ⟨.refl, unsound_of among ?_⟩
          rintro ⟨other, otherKind, isTyped, isKnown, -, allSound⟩
          rw [typed] at isTyped
          cases isTyped
          rw [known] at isKnown
          cases isKnown
          exact fieldOffences_eq_nil_iff.mpr (allSound field declared)
        · obtain ⟨node, isNode, deeper⟩ := List.mem_flatMap.mp inner
          obtain ⟨reached, unsound⟩ := mem_offences (site.inner kind node) report deeper
          exact ⟨.head (.node typed known declared isNode) reached, unsound⟩
termination_by sizeOf site.fields
decreasing_by exact sizeOf_of_mem_nodes isNode

private theorem sound_of_offences_eq_nil {site : Site} (nothing : offences site = []) :
    Sound site.fields ∧ ∀ inner, Inside site inner → offences inner = [] := by
  cases typed : typeName? site.fields with
  | none =>
    rw [offences_untyped typed] at nothing
    cases nothing
  | some typeName =>
    rw [offences_typed typed] at nothing
    obtain ⟨ofType, ofFields⟩ := List.append_eq_nil_iff.mp nothing
    obtain ⟨⟨kind, known⟩, few⟩ := typeOffences_eq_nil_iff.mp (List.map_eq_nil_iff.mp ofType)
    rw [known] at ofFields
    have atField := List.flatMap_eq_nil_iff.mp ofFields
    refine ⟨⟨typeName, kind, typed, known, few, fun field declared => ?_⟩, ?_⟩
    · have own := (List.append_eq_nil_iff.mp (atField field declared)).1
      exact fieldOffences_eq_nil_iff.mp (List.map_eq_nil_iff.mp own)
    · intro inner inside
      cases inside with
      | node isTyped isKnown declared isNode =>
        rw [typed] at isTyped
        cases isTyped
        rw [known] at isKnown
        cases isKnown
        have below := (List.append_eq_nil_iff.mp (atField _ declared)).2
        exact List.flatMap_eq_nil_iff.mp below _ isNode

/-- Nothing is found wrong just where all nodes that are reached are in order. -/
theorem offences_eq_nil_iff (site : Site) :
    offences site = [] ↔ ∀ inner, Reachable site inner → Sound inner.fields := by
  constructor
  · intro nothing inner reached
    refine (sound_of_offences_eq_nil ?_).1
    induction reached with
    | refl => exact nothing
    | tail _ inside ih => exact (sound_of_offences_eq_nil ih).2 _ inside
  · intro allSound
    apply List.eq_nil_iff_forall_not_mem.mpr
    intro report member
    obtain ⟨reached, unsound⟩ := mem_offences site report member
    exact unsound (allSound _ reached)

end Soundness

section Naturalness

def isObject (value : Json) : Bool :=
  (object? value).isSome

def Content.admits : Content → Json → Bool
  | .scalar, .arr _ => false
  | .scalar, .obj _ => false
  | .child, .arr _ => false
  | .children, .obj _ => false
  | .attributes, .arr items => items.all isObject
  | .attributes, _ => false
  | .attributeBlocks, .arr _ => true
  | .attributeBlocks, _ => false
  | _, _ => true

/-- An object with one value for each key, all of the right make: neither its type nor a text or flag
is an array or an object, filters and attributes are arrays of objects, attribute blocks are an
array, and nodes stand by themselves where there is one, and in an array where there are many. -/
structure Natural (fields : List (Text × Json)) : Prop where
  distinct : (fields.map Prod.fst).Nodup
  type : ∀ value, Json.present? "type" fields = some value → Content.scalar.admits value = true
  filters : typeName? fields = some ("RawInclude" : Text) → ∀ value,
    Json.present? "filters" fields = some value → Content.attributes.admits value = true
  declared : ∀ typeName kind, typeName? fields = some typeName → kindOf? typeName = some kind →
    ∀ field ∈ kind.declared, ∀ value,
      field.value? (rewritten typeName fields) = some value → field.content.admits value = true

end Naturalness

end Document

end PugPrinter
