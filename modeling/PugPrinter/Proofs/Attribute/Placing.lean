import PugPrinter.Attribute.Render
import PugPrinter.Proofs.Runs

/-!
Where attributes go. Reading the value of an attribute and placing the attribute are two things: a value
is read in the same way wherever its attribute goes, and only reading can note something or stop. Once
all values can be read, an attribute goes by its own name and text, and by whether an id came before.
-/

set_option autoImplicit false

namespace PugPrinter.Attribute

open Constant.Grammar (nestingLimit)

def constant? (attr : Attribute) (limit : Nat := nestingLimit) : Option Text :=
  (shorthandText (Constant.fold? attr.val limit)).toOption.join

def isClass (attr : Attribute) (limit : Nat := nestingLimit) : Bool :=
  attr.name == ("class" : Text) && (attr.constant? limit).any isClassName

def isId (attr : Attribute) (limit : Nat := nestingLimit) : Bool :=
  attr.name == ("id" : Text) && (attr.constant? limit).any isIdName

def shorthand (attr : Attribute) (limit : Nat := nestingLimit) : Text :=
  (attr.constant? limit).getD []

def inBrackets (quote : Text) (attr : Attribute) (limit : Nat := nestingLimit) : Text :=
  listed quote attr (isConstantTrue (Constant.fold? attr.val limit))

/-- Whether the value of an attribute has a text if it needs one. -/
def isReadable (attr : Attribute) (limit : Nat := nestingLimit) : Bool :=
  (shorthandText (Constant.fold? attr.val limit)).isOk

section Places

variable {quote : Text} {limit : Nat} {attr : Attribute} {attrs : List Attribute}

theorem isClass_iff : attr.isClass limit = true ↔
    attr.name = "class" ∧ ∃ text, attr.constant? limit = some text ∧ isClassName text = true := by
  simp [isClass, Option.any_eq_true]

theorem isId_iff : attr.isId limit = true ↔
    attr.name = "id" ∧ ∃ text, attr.constant? limit = some text ∧ isIdName text = true := by
  simp [isId, Option.any_eq_true]

theorem not_isId_of_isClass (isClass : attr.isClass limit = true) : attr.isId limit = false := by
  simp only [Attribute.isClass, Bool.and_eq_true, beq_iff_eq] at isClass
  rw [isId, isClass.1]
  rfl

def placeOf (quote : Text) (limit : Nat) (idTaken : Bool) (attr : Attribute) : Placed :=
  if attr.isClass limit then .className (attr.shorthand limit)
  else if !idTaken && attr.isId limit then .id (attr.shorthand limit)
  else .listed (inBrackets quote attr limit)

private theorem place_eq (idTaken : Bool) :
    place quote idTaken attr (Constant.fold? attr.val limit) =
      (shorthandText (Constant.fold? attr.val limit)).map fun _ =>
        placeOf quote limit idTaken attr := by
  cases found : shorthandText (Constant.fold? attr.val limit) with
  | error fault =>
    rw [place, found]
    rfl
  | ok text =>
    have isConstant : attr.constant? limit = text := by simp [constant?, found, Except.toOption]
    cases text with
    | none =>
      rw [place, found]
      simp [Except.map, bind, Except.bind, pure, Except.pure, placeOf, isClass, isId, isConstant,
        inBrackets]
    | some text =>
      have placed : place quote idTaken attr (Constant.fold? attr.val limit) =
          if attr.name == ("class" : Text) && isClassName text then .ok (.className text)
          else if attr.name == ("id" : Text) && !idTaken && isIdName text then .ok (.id text)
          else .ok (.listed (inBrackets quote attr limit)) := by
        rw [place, found]
        rfl
      rw [placed, placeOf, isClass, isId, shorthand, isConstant]
      simp only [Option.any_some, Option.getD_some, Except.map, Bool.and_left_comm (!idTaken),
        Bool.and_assoc]
      split
      · rfl
      · split <;> rfl

def places (quote : Text) (limit : Nat) : Bool → List Attribute → List Placed
  | _, [] => []
  | idTaken, attr :: rest =>
    placeOf quote limit idTaken attr ::
      places quote limit (idTaken || (placeOf quote limit idTaken attr).isId) rest

theorem forall_mem_places {P : Placed → Prop} (idTaken : Bool)
    (each : ∀ attr ∈ attrs, ∀ idTaken, P (placeOf quote limit idTaken attr)) :
    ∀ p ∈ places quote limit idTaken attrs, P p := by
  induction attrs generalizing idTaken with
  | nil => exact nofun
  | cons attr rest ih =>
    rw [List.forall_mem_cons] at each
    rw [places, List.forall_mem_cons]
    exact ⟨each.1 idTaken, ih _ each.2⟩

end Places

section Reading

variable {quote : Text} {limit : Nat} {attr : Attribute} {attrs : List Attribute}

/-- Reads the value of an attribute. One that is not constant is noted. -/
def read (limit : Nat) (attr : Attribute) : Run Text Unit := do
  if (Constant.fold? attr.val limit).isNone then Run.put [attr.val]
  let _ ← Run.ofExcept (shorthandText (Constant.fold? attr.val limit))

def readAll (limit : Nat) : List Attribute → Run Text Unit
  | [] => .done ()
  | attr :: rest => do
    read limit attr
    readAll limit rest

/-- Placing attributes is reading them all: where they go does not matter for what is noted and for
what stops. -/
theorem placeAll_eq (idTaken : Bool) (attrs : List Attribute) :
    placeAll quote limit idTaken attrs =
      readAll limit attrs >>= fun _ => pure (places quote limit idTaken attrs) := by
  induction attrs generalizing idTaken with
  | nil => rfl
  | cons attr rest ih =>
    have placed : (Run.ofExcept (place quote idTaken attr (Constant.fold? attr.val limit)) >>=
        fun first => placeAll quote limit (idTaken || first.isId) rest >>=
          fun more => pure (first :: more) : Run Text (List Placed)) =
        Run.ofExcept (shorthandText (Constant.fold? attr.val limit)) >>= fun _ =>
          readAll limit rest >>= fun _ => pure (places quote limit idTaken (attr :: rest)) := by
      rw [place_eq, Run.ofExcept_map, Run.bind_assoc]
      congr
      funext _
      rw [Run.pure_bind, ih, Run.bind_assoc]
      rfl
    rw [placeAll, readAll, read]
    split
    · rw [placed]
      simp only [Run.bind_assoc, Run.pure_bind]
    · rw [placed]
      simp only [Run.bind_assoc, Run.pure_bind]

theorem eq_places {idTaken : Bool} {placed : List Placed}
    (ended : (placeAll quote limit idTaken attrs).result = .ok placed) :
    placed = places quote limit idTaken attrs := by
  rw [placeAll_eq] at ended
  obtain ⟨_, _, same⟩ := (Run.bind_result_eq_ok_iff _ _ _).mp ended
  cases same
  rfl

private theorem read_result_eq_ok_iff :
    (read limit attr).result = .ok () ↔ attr.isReadable limit = true := by
  rw [read, isReadable]
  cases shorthandText (Constant.fold? attr.val limit) <;>
    cases (Constant.fold? attr.val limit).isNone <;>
    simp [Run.bind_def, Run.andThen, Run.put, Run.ofExcept, Except.isOk, Except.toBool, pure, Run.done]

theorem readAll_result_eq_ok_iff :
    (readAll limit attrs).result = .ok () ↔ ∀ attr ∈ attrs, attr.isReadable limit = true := by
  induction attrs with
  | nil => exact ⟨nofun, fun _ => rfl⟩
  | cons attr rest ih =>
    rw [readAll, Run.bind_result_eq_ok_iff, List.forall_mem_cons, ← read_result_eq_ok_iff, ← ih]
    exact ⟨fun ⟨_, first, later⟩ => ⟨first, later⟩, fun ⟨first, later⟩ => ⟨(), first, later⟩⟩

theorem read_of_constant {text : Text} (isConstant : attr.constant? limit = some text) :
    read limit attr = .done () := by
  have found : shorthandText (Constant.fold? attr.val limit) = .ok (some text) := by
    unfold constant? at isConstant
    cases found : shorthandText (Constant.fold? attr.val limit) with
    | error fault =>
      rw [found] at isConstant
      cases isConstant
    | ok text? =>
      rw [found] at isConstant
      exact congrArg Except.ok isConstant
  cases folded : Constant.fold? attr.val limit with
  | none =>
    rw [folded] at found
    cases found
  | some value =>
    rw [read, found, folded]
    rfl

end Reading

end PugPrinter.Attribute
