import PugPrinter.Proofs.Document.Fields

/-!
What stops the loading of an object, whatever its fields hold: an error of the tree, or a shape that
nothing is defined for.
-/

set_option autoImplicit false

namespace PugPrinter

def Fault.IsOfLoading : Fault → Prop
  | .tree _ => True
  | .unsupportedShape => True
  | _ => False

namespace Document

section Steps

variable {α β : Type}

def Loads (step : Except Fault α) : Prop :=
  ∀ fault, step = .error fault → fault.IsOfLoading

private theorem loads_ok (a : α) : Loads (.ok a) :=
  nofun

private theorem loads_error {fault : Fault} (isOfLoading : fault.IsOfLoading) :
    Loads (.error fault : Except Fault α) := by
  intro other same
  cases same
  exact isOfLoading

private theorem loads_unsupported : Loads (.error .unsupportedShape : Except Fault α) :=
  loads_error trivial

private theorem loads_refused (error : TreeError) : Loads (.error (.tree error) : Except Fault α) :=
  loads_error trivial

private theorem Loads.bind {step : Except Fault α} {next : α → Except Fault β} (first : Loads step)
    (later : ∀ a, Loads (next a)) : Loads (step >>= next) := by
  intro fault stopped
  cases ended : step with
  | error other =>
    rw [ended] at stopped
    cases stopped
    exact first _ ended
  | ok a =>
    rw [ended] at stopped
    exact later a fault stopped

private theorem Loads.map {step : Except Fault α} (first : Loads step) (f : α → β) :
    Loads (f <$> step) := by
  rw [map_eq_pure_bind]
  exact first.bind fun a => loads_ok (f a)

private theorem loads_mapM {item : Json → Except Fault α} (each : ∀ value, Loads (item value))
    (items : List Json) : Loads (items.mapM item) := by
  induction items with
  | nil => exact loads_ok []
  | cons value rest ih =>
    rw [List.mapM_cons]
    exact (each value).bind fun _ => ih.bind fun _ => loads_ok _

end Steps

section Readers

variable {α : Type} {read : Json → Except Fault α} {entries : List (Text × Json)}

private theorem loads_readText (value : Json) : Loads (readText value) := by
  cases value with
  | obj _ => exact loads_unsupported
  | _ => exact loads_ok _

private theorem loads_readFlag (value : Json) : Loads (readFlag value) := by
  cases value with
  | obj _ => exact loads_unsupported
  | _ => exact loads_ok _

private theorem loads_readAttribute (value : Json) : Loads (readAttribute value) := by
  cases value with
  | obj fields =>
    simp only [readAttribute]
    split
    · exact loads_ok _
    · exact loads_ok _
    · exact loads_unsupported
  | _ => exact loads_unsupported

private theorem loads_readAttributeBlock (value : Json) : Loads (readAttributeBlock value) := by
  cases value with
  | obj fields =>
    simp only [readAttributeBlock]
    split
    · exact loads_ok _
    · exact loads_unsupported
  | _ => exact loads_ok _

private theorem loads_readList (each : ∀ value, Loads (read value)) (value : Json) :
    Loads (readList read value) := by
  unfold readList
  split
  · exact (loads_mapM each _).map _
  · exact loads_unsupported

private theorem loads_required (each : ∀ value, Loads (read value)) (owner : Subject)
    (name : Text) :
    Loads (required owner name read entries) := by
  unfold required
  split
  · exact each _
  · exact loads_refused _

private theorem loads_defaulted (each : ∀ value, Loads (read value)) (missing : α) (name : Text) :
    Loads (defaulted missing name read entries) := by
  unfold defaulted
  split
  · exact each _
  · exact loads_ok _

private theorem loads_needed (owner : Subject) (name : Text) (child : Option Node) :
    Loads (needed owner name child) := by
  cases child with
  | none => exact loads_refused _
  | some n => exact loads_ok _

private theorem loads_readType (parent : Subject) (fields : List (Text × Json)) :
    Loads (readType parent fields) := by
  unfold readType
  split
  · exact loads_refused _
  · split
    · exact loads_ok _
    · exact loads_unsupported

private theorem loads_inclusionEntries (typeName : Text) (fields : List (Text × Json)) :
    Loads (inclusionEntries typeName fields) := by
  unfold inclusionEntries
  dsimp only
  split
  · exact loads_refused _
  · exact loads_ok _
  · split
    · exact loads_unsupported
    · exact loads_ok _

private theorem loads_shape (parent : Subject) (typeName : Text) (fields : List (Text × Json)) :
    Loads (shape parent typeName fields) := by
  unfold shape
  split
  · exact loads_ok _
  split
  · exact loads_ok _
  split
  · exact (loads_inclusionEntries typeName fields).bind fun _ => loads_ok _
  split
  · split
    · exact loads_ok _
    · exact loads_ok _
  · exact loads_ok _
  · exact loads_refused _

end Readers

mutual

/-- Loading a value below a parent. -/
theorem loads_loadBelow : ∀ (value : Json) (parent : Subject), Loads (loadBelow parent value)
  | .obj fields, parent => by
    have slot (owner : Subject) (fits : Text → Bool) := loads_loadSlot fields owner fits
    have sequence (owner : Subject) := loads_loadSequence fields owner
    rw [loadBelow]
    refine (loads_readType parent fields).bind fun typeName =>
      (loads_shape parent typeName fields).bind fun own => ?_
    dsimp only
    cases own.kind with
    | block =>
      dsimp only
      split
      · exact (loads_defaulted loads_readFlag _ _).bind fun _ => loads_ok _
      · exact (sequence _).bind fun _ =>
          (loads_defaulted loads_readFlag _ _).bind fun _ => loads_ok _
    | namedBlock =>
      exact (sequence _).bind fun _ =>
        (loads_defaulted loads_readFlag _ _).bind fun _ =>
        (loads_defaulted loads_readText _ _).bind fun _ =>
        (loads_defaulted loads_readText _ _).bind fun _ => loads_ok _
    | tag =>
      exact (loads_required loads_readText _ _).bind fun _ =>
        (slot _ _).bind fun child => (loads_needed _ _ child).bind fun _ =>
        (loads_defaulted (loads_readList loads_readAttribute) _ _).bind fun _ =>
        (loads_defaulted (loads_readList loads_readAttributeBlock) _ _).bind fun _ =>
        (loads_defaulted loads_readFlag _ _).bind fun _ =>
        (loads_defaulted loads_readFlag _ _).bind fun _ =>
        (slot _ _).bind fun _ => loads_ok _
    | mixin =>
      exact (loads_required loads_readText _ _).bind fun _ =>
        (loads_required loads_readFlag _ _).bind fun _ =>
        (loads_defaulted loads_readText _ _).bind fun _ =>
        (loads_defaulted (loads_readList loads_readAttribute) _ _).bind fun _ =>
        (loads_defaulted (loads_readList loads_readAttributeBlock) _ _).bind fun _ =>
        (slot _ _).bind fun _ => loads_ok _
    | mixinBlock => exact loads_ok _
    | text =>
      exact (loads_required loads_readText _ _).bind fun _ =>
        (loads_defaulted loads_readFlag _ _).bind fun _ => loads_ok _
    | code =>
      exact (loads_required loads_readText _ _).bind fun _ =>
        (loads_defaulted loads_readFlag _ _).bind fun _ =>
        (loads_defaulted loads_readFlag _ _).bind fun _ =>
        (slot _ _).bind fun _ => loads_ok _
    | comment =>
      exact (loads_required loads_readText _ _).bind fun _ =>
        (loads_defaulted loads_readFlag _ _).bind fun _ => loads_ok _
    | blockComment =>
      exact (loads_required loads_readText _ _).bind fun _ =>
        (slot _ _).bind fun child => (loads_needed _ _ child).bind fun _ =>
        (loads_defaulted loads_readFlag _ _).bind fun _ => loads_ok _
    | caseOf =>
      exact (loads_required loads_readText _ _).bind fun _ =>
        (slot _ _).bind fun child => (loads_needed _ _ child).bind fun _ => loads_ok _
    | when =>
      exact (loads_required loads_readText _ _).bind fun _ =>
        (slot _ _).bind fun _ => loads_ok _
    | conditional =>
      exact (loads_required loads_readText _ _).bind fun _ =>
        (slot _ _).bind fun child => (loads_needed _ _ child).bind fun _ =>
        (slot _ _).bind fun _ => loads_ok _
    | whileLoop =>
      exact (loads_required loads_readText _ _).bind fun _ =>
        (slot _ _).bind fun child => (loads_needed _ _ child).bind fun _ => loads_ok _
    | each =>
      exact (loads_required loads_readText _ _).bind fun _ =>
        (loads_required loads_readText _ _).bind fun _ =>
        (slot _ _).bind fun child => (loads_needed _ _ child).bind fun _ =>
        (loads_defaulted loads_readText _ _).bind fun _ =>
        (slot _ _).bind fun _ => loads_ok _
    | doctype =>
      exact (loads_defaulted loads_readText _ _).bind fun _ => loads_ok _
    | fileReference =>
      exact (loads_required loads_readText _ _).bind fun _ => loads_ok _
    | extending =>
      exact (slot _ _).bind fun child => (loads_needed _ _ child).bind fun _ => loads_ok _
    | inclusion =>
      exact (slot _ _).bind fun child => (loads_needed _ _ child).bind fun _ =>
        (loads_defaulted loads_readText _ _).bind fun _ =>
        (loads_defaulted (loads_readList loads_readAttribute) _ _).bind fun _ =>
        (slot _ _).bind fun _ => loads_ok _
    | filter =>
      exact (loads_required loads_readText _ _).bind fun _ =>
        (slot _ _).bind fun child => (loads_needed _ _ child).bind fun _ =>
        (loads_defaulted (loads_readList loads_readAttribute) _ _).bind fun _ => loads_ok _
    | bare => exact loads_unsupported
  | .null, _ => loads_unsupported
  | .bool _, _ => loads_unsupported
  | .int _, _ => loads_unsupported
  | .float _, _ => loads_unsupported
  | .str _, _ => loads_unsupported
  | .arr _, _ => loads_unsupported
termination_by structural value => value

private theorem loads_loadSlot : ∀ (entries : List (Text × Json)) (owner : Subject)
    (fits : Text → Bool), Loads (loadSlot owner fits entries)
  | [], _, _ => loads_ok _
  | (_, value) :: rest, owner, fits => by
    have later := loads_loadSlot rest owner fits
    have now := loads_loadBelow value owner
    rw [loadSlot_cons]
    split
    · cases value with
      | obj fields => exact now.map some
      | _ => exact loads_ok _
    · exact later
termination_by structural entries => entries

private theorem loads_loadSequence : ∀ (entries : List (Text × Json)) (owner : Subject),
    Loads (loadSequence owner entries)
  | [], _ => loads_ok _
  | (_, value) :: rest, owner => by
    have later := loads_loadSequence rest owner
    rw [loadSequence_cons]
    split
    · match value with
      | .arr items => exact (loads_loadItems items owner).map Loose.of
      | .obj _ => exact loads_unsupported
      | .null => exact loads_ok _
      | .bool _ => exact loads_ok _
      | .int _ => exact loads_ok _
      | .float _ => exact loads_ok _
      | .str _ => exact loads_ok _
    · exact later
termination_by structural entries => entries

private theorem loads_loadItems :
    ∀ (items : List Json) (owner : Subject), Loads (loadItems owner items)
  | [], _ => loads_ok _
  | item :: rest, owner => by
    have later := loads_loadItems rest owner
    have now := loads_loadBelow item owner
    cases item with
    | obj fields => exact now.bind fun _ => later.bind fun _ => loads_ok _
    | _ => exact later.bind fun _ => loads_ok _
termination_by structural items => items

end

end Document

end PugPrinter
