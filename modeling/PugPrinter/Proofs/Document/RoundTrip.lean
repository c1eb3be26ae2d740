import PugPrinter.Proofs.Document.Dialects
import PugPrinter.Proofs.Json.Arranged

/-!
Trees written as JSON and read again. Each field of a node is written under the key of its place, and
a field that holds null is left out, where the place may stay empty; so what is written is one of the
ways to write the tree, in whatever order the fields of its objects are put. The main statement is
that a well-formed tree comes back as it was.
-/

set_option autoImplicit false

namespace PugPrinter

namespace Document

section Written

variable {order : List (Text × Json) → List (Text × Json)} (perm : ∀ fields, (order fields).Perm fields)

/-- A field whose value may stand at a place, or that is null where nothing has to stand. -/
structure Suits (order : List (Text × Json) → List (Text × Json)) (p : Place)
    (field : Text × Json) : Prop where
  key : p.key = field.1
  lacks : field.2 = .null → p.mayLack
  value : field.2 ≠ .null → p.value (field.2.arranged order)

def Distinct (spots : List (Text × List Text)) : Prop :=
  spots.Pairwise fun own other => other.1 ∉ spotKeys own ∧ own.1 ∉ spotKeys other

instance (spots : List (Text × List Text)) : Decidable (Distinct spots) :=
  inferInstanceAs (Decidable (spots.Pairwise _))

def entriesOf (order : List (Text × Json) → List (Text × Json)) (fields : List (Text × Json)) :
    List (Text × Json) :=
  Json.arrangedFields order (written fields)

private theorem entriesOf_cons (field : Text × Json) (fields : List (Text × Json)) :
    entriesOf order (field :: fields) =
      (if field.2.isNull then [] else [(field.1, field.2.arranged order)]) ++
        entriesOf order fields := by
  unfold entriesOf
  rw [written_cons]
  cases field.2.isNull <;> rfl

private theorem mem_entriesOf {places : List Place} {fields : List (Text × Json)}
    (suits : List.Forall₂ (Suits order) places fields) {entry : Text × Json}
    (member : entry ∈ entriesOf order fields) : ∃ p ∈ places, p.key = entry.1 := by
  induction suits with
  | nil => cases member
  | @cons p field _ _ first _ ih =>
    rw [entriesOf_cons] at member
    rcases List.mem_append.mp member with now | later
    · split at now
      · cases now
      · rw [List.mem_singleton.mp now]
        exact ⟨p, List.mem_cons_self .., first.key⟩
    · obtain ⟨q, among, isKey⟩ := ih later
      exact ⟨q, List.mem_cons_of_mem _ among, isKey⟩

private theorem not_owns {p : Place} {entry : Text × Json} (other : entry.1 ∉ p.keys) :
    p.owns entry = false := by
  rw [← Bool.not_eq_true]
  intro owned
  exact other (Place.mem_keys_of_owns owned)

private theorem takes_entriesOf {places : List Place} {fields : List (Text × Json)}
    (suits : List.Forall₂ (Suits order) places fields) (distinct : Distinct (places.map Place.spot)) :
    ∀ p ∈ places, p.Takes ((entriesOf order fields).filter p.owns) := by
  induction suits with
  | nil => nofun
  | @cons first field places fields firstSuits suits ih =>
    obtain ⟨apart, distinct⟩ := List.pairwise_cons.mp distinct
    intro p member
    rw [entriesOf_cons, List.filter_append]
    rcases List.mem_cons.mp member with rfl | later
    · have rest : (entriesOf order fields).filter p.owns = [] := by
        rw [List.filter_eq_nil_iff]
        intro entry among
        obtain ⟨q, isPlace, isKey⟩ := mem_entriesOf suits among
        have other := (apart q.spot (List.mem_map_of_mem isPlace)).1
        rw [not_owns (isKey ▸ other)]
        exact Bool.false_ne_true
      have owned : p.owns (field.1, field.2.arranged order) = true := by
        apply Place.owns_of_mem_keys
        rw [← firstSuits.key]
        exact List.mem_cons_self ..
      rw [rest, List.append_nil]
      cases isNull : field.2.isNull with
      | true =>
        apply firstSuits.lacks
        revert isNull
        cases field.2 <;> simp [Json.isNull]
      | false =>
        rw [if_neg Bool.false_ne_true, List.filter_cons, owned]
        apply firstSuits.value
        intro null
        rw [null] at isNull
        cases isNull
    · have other := (apart p.spot (List.mem_map_of_mem later)).2
      have notOwned : p.owns (field.1, field.2.arranged order) = false := by
        apply not_owns
        rw [← firstSuits.key]
        exact other
      have now : (if field.2.isNull then [] else [(field.1, field.2.arranged order)]).filter p.owns =
          [] := by
        split
        · rfl
        · rw [List.filter_cons, notOwned]
          rfl
      rw [now, List.nil_append]
      exact ih distinct p later

private theorem takes_of_perm {p : Place} {entries others : List (Text × Json)}
    (takes : p.Takes entries) (same : others.Perm entries) : p.Takes others := by
  match entries with
  | [] => rw [same.eq_nil]; exact takes
  | [(key, value)] => rw [List.perm_singleton.mp same]; exact takes
  | _ :: _ :: _ => exact takes.elim

include perm in
private theorem fills_written {isExtra : Text → Bool} {places : List Place}
    {fields : List (Text × Json)} (suits : List.Forall₂ (Suits order) places fields)
    (distinct : Distinct (places.map Place.spot)) :
    Fills isExtra places (order (entriesOf order fields)) := by
  constructor
  · intro p member
    exact takes_of_perm (takes_entriesOf suits distinct p member) ((perm _).filter p.owns)
  · intro entry member
    obtain ⟨p, isPlace, isKey⟩ := mem_entriesOf suits ((perm _).mem_iff.mp member)
    refine .inl ⟨p, isPlace, Place.owns_of_mem_keys ?_⟩
    rw [← isKey]
    exact List.mem_cons_self ..

theorem kindSpots_distinct : ∀ kind ∈ Kind.all, Distinct (headingSpots ++ kindSpots kind) := by
  decide +kernel

private theorem attributeSpots_distinct :
    Distinct [("name", []), ("val", []), ("escaped", ["mustEscape"])] := by
  decide +kernel

section Suits

variable {key other : Text}

private theorem suits_field {value missing : Json} (stable : value.arranged order = value)
    (given : value = .null → missing = .null) :
    Suits order (.field key value missing) (key, value) :=
  ⟨rfl, fun isNull => isNull.trans (given isNull).symm, fun _ => stable⟩

private theorem suits_text {field : Loose Text} (proper : field.isProper = true) (missing : Json) :
    Suits order (.field key field.textJson missing) (key, field.textJson) := by
  obtain ⟨text, rfl⟩ := Loose.isProper_iff.mp proper
  exact suits_field rfl nofun

private theorem suits_flag {field : Loose Bool} (proper : field.isProper = true) (missing : Json) :
    Suits order (.field key field.flagJson missing) (key, field.flagJson) := by
  obtain ⟨flag, rfl⟩ := Loose.isProper_iff.mp proper
  exact suits_field rfl nofun

private theorem suits_optional {field : Loose Text} (proper : field.isProperOrMissing = true) :
    Suits order (.field key field.textJson .null) (key, field.textJson) := by
  rcases Loose.isProperOrMissing_iff.mp proper with ⟨text, rfl⟩ | rfl
  · exact suits_field rfl nofun
  · exact suits_field rfl fun _ => rfl

private theorem Suits.alsoAs {p : Place} {field : Text × Json} (suits : Suits order p field)
    (other : Text) : Suits order (p.alsoAs other) field :=
  ⟨suits.key, suits.lacks, suits.value⟩

private theorem suits_heading (kind : Kind) (loc : Location) :
    List.Forall₂ (Suits order) (headingPlaces kind.name loc) (headingFields kind loc) := by
  obtain ⟨line, column, filename⟩ := loc
  have atLine : Suits order (linePlace ⟨line, column, filename⟩) ("line", .int line) :=
    ⟨rfl, nofun, fun _ => rfl⟩
  refine .cons (suits_field rfl nofun) (.cons atLine (.cons ?_ (.cons ?_ .nil)))
  · cases column with
    | none => exact suits_field rfl fun _ => rfl
    | some column => exact suits_field rfl nofun
  · cases filename with
    | none => exact suits_field rfl fun _ => rfl
    | some filename => exact suits_field rfl nofun

private theorem spellsList_arranged {α : Type} {spells : Loose α → Json → Prop} {write : α → Json}
    (each : ∀ a, spells (.of a) ((write a).arranged order)) (items : List α) :
    SpellsList spells (.of (items.map .of)) ((Json.arr (items.map write)).arranged order) := by
  refine ⟨_, rfl, ?_⟩
  rw [Json.arrangedItems_eq_map, List.map_map]
  induction items with
  | nil => exact .nil
  | cons a items ih => exact .cons (each a) ih

include perm in
private theorem suits_attributes {attrs : Attributes} (proper : attrs.isProperList = true) :
    Suits order (attributesPlace attrs) ("attrs", attributesJson attrs) := by
  obtain ⟨items, rfl⟩ := Loose.isProperList_iff.mp proper
  have each (attr : Attribute) : SpellsAttribute (.of attr) (attr.toJson.arranged order) := by
    have flag : Suits order (.field "escaped" (.bool attr.escaped) (.bool true))
        ("escaped", .bool attr.escaped) := suits_field rfl fun isNull => Json.noConfusion isNull
    have suits : List.Forall₂ (Suits order) (attributePlaces attr)
        [("name", .str attr.name), ("val", .str attr.val), ("escaped", .bool attr.escaped)] :=
      .cons (suits_field rfl fun isNull => Json.noConfusion isNull)
        (.cons (suits_field rfl fun isNull => Json.noConfusion isNull)
        (.cons (flag.alsoAs "mustEscape") .nil))
    exact fills_written perm suits attributeSpots_distinct
  have written : attributesJson (.of (items.map .of)) = .arr (items.map Attribute.toJson) := by
    simp only [attributesJson, Loose.toJson, List.map_map]
    rfl
  rw [written]
  exact ⟨rfl, fun isNull => Json.noConfusion isNull, fun _ => spellsList_arranged each items⟩

private theorem suits_attributeBlocks {blocks : AttributeBlocks}
    (proper : blocks.isProperList = true) :
    Suits order (attributeBlocksPlace blocks) ("attributeBlocks", attributeBlocksJson blocks) := by
  obtain ⟨items, rfl⟩ := Loose.isProperList_iff.mp proper
  have each (expr : Text) : SpellsAttributeBlock (.of expr) ((Json.str expr).arranged order) :=
    .inl rfl
  have written : attributeBlocksJson (.of (items.map .of)) = .arr (items.map .str) := by
    simp only [attributeBlocksJson, Loose.toJson, List.map_map]
    rfl
  rw [written]
  exact ⟨rfl, fun isNull => Json.noConfusion isNull, fun _ => spellsList_arranged each items⟩

end Suits

include perm

private theorem spellsForm_written {kind : Kind} (concrete : kind ∈ Kind.all) (loc : Location)
    {own : List Place} {fields : List (Text × Json)} (spots : own.map Place.spot = kindSpots kind)
    (suits : List.Forall₂ (Suits order) own fields) (others : List (Text × List Place)) :
    SpellsForm kind loc ((kind.name, own) :: others)
      ((Json.obj (written (headingFields kind loc ++ fields))).arranged order) := by
  refine ⟨_, List.mem_cons_self .., ?_⟩
  have all := List.rel_append (suits_heading kind loc) suits
  have distinct : Distinct ((headingPlaces kind.name loc ++ own).map Place.spot) := by
    rw [headingPlaces_spots, spots]
    exact kindSpots_distinct kind concrete
  exact fills_written perm all distinct

private theorem spells_leaf (loc : Location) {head : Leaf} (formed : head.wellFormed = true) :
    Spells (.leaf loc head) ((dump (.leaf loc head)).arranged order) := by
  have concrete : head.kind ∈ Kind.all := by
    apply mem_all
    intro isBare
    cases head with
    | bare => cases formed
    | _ => cases isBare
  rw [dump, Spells]
  apply spellsForm_written perm concrete loc (leafPlaces_spots head)
  cases head with
  | mixinBlock => exact .nil
  | text val isHtml =>
    simp only [Leaf.wellFormed, Bool.and_eq_true] at formed
    exact .cons (suits_text formed.1 _) (.cons (suits_flag formed.2 _) .nil)
  | comment val buffer =>
    simp only [Leaf.wellFormed, Bool.and_eq_true] at formed
    exact .cons (suits_text formed.1 _) (.cons (suits_flag formed.2 _) .nil)
  | doctype val => exact .cons (suits_optional formed) .nil
  | fileReference path => exact .cons (suits_text formed _) .nil
  | bare => exact .nil

private theorem spells_block (loc : Location) {kind : BlockKind} {yields : Loose Bool}
    {nodes : List Node} (formed : kind.wellFormed = true) (flag : yields.isProper = true)
    (spelled : SpellsNodes nodes (Json.arrangedItems order (dumpNodes nodes))) :
    Spells (.block loc kind yields nodes) ((dump (.block loc kind yields nodes)).arranged order) := by
  have concrete : kind.kind ∈ Kind.all := by
    apply mem_all
    cases kind <;> exact Kind.noConfusion
  have nodesSuit : Suits order (nodesPlace nodes) ("nodes", .arr (dumpNodes nodes)) :=
    ⟨rfl, nofun, fun _ => ⟨_, rfl, spelled⟩⟩
  rw [dump, Spells]
  apply spellsForm_written perm concrete loc (blockPlaces_spots kind yields nodes)
  cases kind with
  | plain => exact .cons nodesSuit (.cons (suits_flag flag _) .nil)
  | named name mode =>
    simp only [BlockKind.wellFormed, Bool.and_eq_true] at formed
    exact .cons nodesSuit (.cons (suits_flag flag _) (.cons (suits_text formed.1 _)
      (.cons (suits_text (Loose.isProper_of_isMode formed.2) _) .nil)))

private theorem spells_stem (loc : Location) {head : Stem} {child : Option Node}
    (formed : head.wellFormed = true)
    (slot : Suits order (slotPlace head.slot child) (head.slot, dumpSlot child)) :
    Spells (.stem loc head child) ((dump (.stem loc head child)).arranged order) := by
  have concrete : head.kind ∈ Kind.all := by
    apply mem_all
    cases head <;> exact Kind.noConfusion
  rw [dump, Spells]
  apply spellsForm_written perm concrete loc (stemPlaces_spots head child)
  cases head with
  | mixin m =>
    simp only [Stem.wellFormed, MixinHead.wellFormed, Bool.and_eq_true] at formed
    obtain ⟨⟨⟨⟨name, call⟩, args⟩, attrs⟩, blocks⟩ := formed
    exact .cons (suits_text name _) (.cons (suits_flag call _) (.cons (suits_optional args)
      (.cons (suits_attributes perm attrs) (.cons (suits_attributeBlocks blocks)
        (.cons slot .nil)))))
  | code code =>
    simp only [Stem.wellFormed, CodeHead.wellFormed, Bool.and_eq_true] at formed
    obtain ⟨⟨val, buffer⟩, escape⟩ := formed
    exact .cons (suits_text val _) (.cons (suits_flag buffer _)
      (.cons ((suits_flag escape _).alsoAs _) (.cons slot .nil)))
  | blockComment val buffer =>
    simp only [Stem.wellFormed, Bool.and_eq_true] at formed
    exact .cons (suits_text formed.1 _) (.cons slot (.cons (suits_flag formed.2 _) .nil))
  | caseOf expr => exact .cons (suits_text formed _) (.cons slot .nil)
  | when expr => exact .cons (suits_text formed _) (.cons slot .nil)
  | whileLoop test => exact .cons (suits_text formed _) (.cons slot .nil)
  | extending => exact .cons slot .nil
  | filter name attrs =>
    simp only [Stem.wellFormed, Bool.and_eq_true] at formed
    exact .cons (suits_text formed.1 _) (.cons slot (.cons (suits_attributes perm formed.2) .nil))

private theorem spells_fork (loc : Location) {head : Fork} {first second : Option Node}
    (formed : head.wellFormed = true)
    (firstSuits : Suits order (slotPlace head.firstSlot first) (head.firstSlot, dumpSlot first))
    (secondSuits : Suits order (slotPlace head.secondSlot second)
      (head.secondSlot, dumpSlot second)) :
    Spells (.fork loc head first second) ((dump (.fork loc head first second)).arranged order) := by
  have concrete : head.kind ∈ Kind.all := by
    apply mem_all
    cases head <;> exact Kind.noConfusion
  rw [dump, Spells]
  have spots := forkPlaces_spots head first second
  cases head with
  | tag tag =>
    simp only [Fork.wellFormed, TagHead.wellFormed, Bool.and_eq_true] at formed
    obtain ⟨⟨⟨⟨name, attrs⟩, blocks⟩, closing⟩, interpolated⟩ := formed
    apply spellsForm_written perm concrete loc spots
    exact .cons (suits_text name _) (.cons firstSuits (.cons (suits_attributes perm attrs)
      (.cons (suits_attributeBlocks blocks) (.cons (suits_flag closing _)
        (.cons (suits_flag interpolated _) (.cons secondSuits .nil))))))
  | conditional test =>
    apply spellsForm_written perm concrete loc spots
    exact .cons (suits_text formed _) (.cons firstSuits (.cons secondSuits .nil))
  | each val obj key =>
    simp only [Fork.wellFormed, Bool.and_eq_true] at formed
    apply spellsForm_written perm concrete loc spots
    exact .cons (suits_text formed.1.1 _) (.cons (suits_text formed.1.2 _) (.cons firstSuits
      (.cons (suits_optional formed.2) (.cons (secondSuits.alsoAs _) .nil))))
  | inclusion filter attrs =>
    simp only [Fork.wellFormed, Bool.and_eq_true] at formed
    apply spellsForm_written perm concrete loc spots
    exact .cons firstSuits (.cons (suits_optional formed.1)
      (.cons (suits_attributes perm formed.2) (.cons secondSuits .nil)))

end Written

mutual

/-- What is written for a well-formed tree is one of the ways to write it, in any order. -/
theorem spells_dump {order : List (Text × Json) → List (Text × Json)}
    (perm : ∀ fields, (order fields).Perm fields) :
    ∀ n : Node, n.wellFormed = true → Spells n ((dump n).arranged order)
  | .leaf loc head, formed => by
    rw [Node.wellFormed] at formed
    exact spells_leaf perm loc formed
  | .block loc kind yields nodes, formed => by
    simp only [Node.wellFormed, Bool.and_eq_true] at formed
    exact spells_block perm loc formed.1.1 formed.1.2 (spells_dumpNodes perm nodes formed.2)
  | .oddBlock _ _ _ _, formed => by cases formed
  | .stem loc head child, formed => by
    simp only [Node.wellFormed, Bool.and_eq_true] at formed
    exact spells_stem perm loc formed.1.1 (spells_dumpSlot perm child formed.2 head.slot)
  | .fork loc head first second, formed => by
    simp only [Node.wellFormed, Bool.and_eq_true] at formed
    obtain ⟨⟨⟨⟨headFormed, _⟩, _⟩, firstFormed⟩, secondFormed⟩ := formed
    exact spells_fork perm loc headFormed (spells_dumpSlot perm first firstFormed head.firstSlot)
      (spells_dumpSlot perm second secondFormed head.secondSlot)
  | .stray _, formed => by cases formed
termination_by structural n => n

private theorem spells_dumpNodes {order : List (Text × Json) → List (Text × Json)}
    (perm : ∀ fields, (order fields).Perm fields) :
    ∀ nodes : List Node, Node.wellFormedNodes nodes = true →
      SpellsNodes nodes (Json.arrangedItems order (dumpNodes nodes))
  | [], _ => trivial
  | n :: rest, formed => by
    simp only [Node.wellFormedNodes, Bool.and_eq_true] at formed
    exact ⟨spells_dump perm n formed.1, spells_dumpNodes perm rest formed.2⟩
termination_by structural nodes => nodes

private theorem spells_dumpSlot {order : List (Text × Json) → List (Text × Json)}
    (perm : ∀ fields, (order fields).Perm fields) :
    ∀ child : Option Node, Node.wellFormedSlot child = true →
      ∀ key, Suits order (slotPlace key child) (key, dumpSlot child)
  | none, _, _ => ⟨rfl, fun _ => rfl, fun given => absurd rfl given⟩
  | some n, formed, key => by
    rw [Node.wellFormedSlot] at formed
    have spelled := spells_dump perm n formed
    refine ⟨rfl, ?_, fun _ => spelled⟩
    intro isNull
    have isDump : dump n = .null := isNull
    cases n with
    | oddBlock | stray => cases formed
    | _ => rw [dump] at isDump; cases isDump
termination_by structural child => child

end

private theorem loadBelow_dump (parent : Subject) (n : Node) (formed : n.wellFormed = true) :
    loadBelow parent (dump n) = .ok n := by
  have spelled : Spells n ((dump n).arranged id) :=
    spells_dump (fun fields => .refl fields) n formed
  rw [Json.arranged_id] at spelled
  exact loadBelow_of_spelled parent n (dump n) formed spelled

/-- A well-formed tree that is written as JSON is read back as it was. -/
theorem load_dump {tree : Node} (formed : tree.wellFormed = true) : load (dump tree) = .ok tree :=
  loadBelow_dump {} tree formed

/-- A loop with a key and an alternative, in a named block that is appended: its body is a tag with
an attribute, an attribute block and code in its line. -/
def sampleTree : Node :=
  .block { line := 1, filename := some "a.pug" } (.named (.of "list") (.of "append")) (.of false)
    [.fork { line := 2, column := some 3 } (.each (.of "item") (.of "items") (.of "i"))
      (some (.block { line := 3 } .plain (.of false)
        [.fork { line := 3 }
          (.tag { name := .of "li"
                  attrs := .of [.of { name := "class", val := "'a'", escaped := false }]
                  attributeBlocks := .of [.of "rest"]
                  selfClosing := .of false
                  interpolated := .of true })
          (some (.block { line := 3 } .plain (.of false) []))
          (some (.stem { line := 3 } (.code { val := .of "item", buffer := .of true }) none))]))
      (some (.block { line := 4 } .plain (.of true) []))]

theorem load_dump_sample : sampleTree.wellFormed = true ∧ load (dump sampleTree) = .ok sampleTree :=
  ⟨by decide, load_dump (by decide)⟩

end Document

end PugPrinter
