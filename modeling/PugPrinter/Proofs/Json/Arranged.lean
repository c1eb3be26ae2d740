import PugPrinter.Json.Printer

/-!
JSON values whose objects are put in order. Printing with sorted keys is printing the value whose
objects are sorted, so what holds of plain printing carries over.
-/

set_option autoImplicit false

namespace PugPrinter.Json

section Arranged

variable (order : List (Text × Json) → List (Text × Json))

mutual

def arranged : Json → Json
  | arr items => arr (arrangedItems items)
  | obj fields => obj (order (arrangedFields fields))
  | value => value
termination_by structural value => value

def arrangedItems : List Json → List Json
  | [] => []
  | item :: rest => arranged item :: arrangedItems rest
termination_by structural items => items

def arrangedFields : List (Text × Json) → List (Text × Json)
  | [] => []
  | (key, value) :: rest => (key, arranged value) :: arrangedFields rest
termination_by structural fields => fields

end

theorem arrangedItems_eq_map (items : List Json) :
    arrangedItems order items = items.map (arranged order) := by
  induction items with
  | nil => rfl
  | cons item rest ih => rw [arrangedItems, ih, List.map_cons]

theorem arrangedFields_eq_map (fields : List (Text × Json)) :
    arrangedFields order fields = fields.map fun field => (field.1, arranged order field.2) := by
  induction fields with
  | nil => rfl
  | cons field rest ih => rw [arrangedFields, ih, List.map_cons]

end Arranged

mutual

theorem arranged_id : ∀ value : Json, arranged id value = value
  | null => rfl
  | bool _ => rfl
  | int _ => rfl
  | float _ => rfl
  | str _ => rfl
  | arr items => by rw [arranged, arrangedItems_id items]
  | obj fields => by rw [arranged, arrangedFields_id fields, id]
termination_by structural value => value

private theorem arrangedItems_id : ∀ items : List Json, arrangedItems id items = items
  | [] => rfl
  | item :: rest => by rw [arrangedItems, arranged_id item, arrangedItems_id rest]
termination_by structural items => items

private theorem arrangedFields_id : ∀ fields : List (Text × Json), arrangedFields id fields = fields
  | [] => rfl
  | (key, value) :: rest => by rw [arrangedFields, arranged_id value, arrangedFields_id rest]
termination_by structural fields => fields

end

def byKey (fields : List (Text × Json)) : List (Text × Json) :=
  fields.mergeSort fun a b => Text.order a.1 b.1 != .gt

theorem byKey_perm (fields : List (Text × Json)) : (byKey fields).Perm fields :=
  List.mergeSort_perm ..

private theorem printFields_eq_map (format : Format) (level : Nat) (fields : List (Text × Json)) :
    printFields format level fields = fields.map fun field => (field.1, print format level field.2) := by
  induction fields with
  | nil => rfl
  | cons field rest ih => rw [printFields, ih, List.map_cons]

private theorem orderFields_map (indent : Option Int) (text : Json → Text)
    (fields : List (Text × Json)) :
    orderFields { indent, sorted := true } (fields.map fun field => (field.1, text field.2)) =
      (byKey fields).map fun field => (field.1, text field.2) := by
  unfold orderFields byKey
  rw [if_pos rfl]
  symm
  apply List.map_mergeSort
  intro a _ b _
  rfl

section Print

variable (indent : Option Int)

mutual

/-- Printing with sorted keys is printing a value that is sorted. -/
theorem print_sorted (level : Nat) : ∀ value : Json,
    print { indent, sorted := true } level value = print { indent } level (arranged byKey value)
  | null => rfl
  | bool true => rfl
  | bool false => rfl
  | int _ => rfl
  | float _ => rfl
  | str _ => rfl
  | arr items => by
    rw [print, arranged, print, printItems_sorted (level + 1) items]
    rfl
  | obj fields => by
    have kept (entries : List (Text × Text)) : orderFields { indent } entries = entries := if_neg nofun
    rw [print, arranged, print, printFields_sorted (level + 1) fields, printFields_eq_map,
      orderFields_map, kept, printFields_eq_map]
    rfl
termination_by structural value => value

private theorem printItems_sorted (level : Nat) : ∀ items : List Json,
    printItems { indent, sorted := true } level items =
      printItems { indent } level (arrangedItems byKey items)
  | [] => rfl
  | item :: rest => by
    rw [printItems, arrangedItems, printItems, print_sorted level item,
      printItems_sorted level rest]
termination_by structural items => items

private theorem printFields_sorted (level : Nat) : ∀ fields : List (Text × Json),
    printFields { indent, sorted := true } level fields =
      printFields { indent } level (arrangedFields byKey fields)
  | [] => rfl
  | (key, value) :: rest => by
    rw [printFields, arrangedFields, printFields, print_sorted level value,
      printFields_sorted level rest]
termination_by structural fields => fields

end

end Print

end PugPrinter.Json
