import PugPrinter.Proofs.Emit.Faults
import PugPrinter.Proofs.Emit.TagHead
import PugPrinter.Proofs.Quotation

/-!
The canonical order of attributes. Each attribute of a list is written once: the first one that can be
an id behind a hash sign, those that can be classes behind dots, and all others in brackets. A list in
which the id and the classes come first, as plain strings, is written like the list that it was made
of, with the same notes on the way and the same fault if there is one.
-/

set_option autoImplicit false

namespace PugPrinter

namespace Attribute

open Constant.Grammar (nestingLimit)

/-- The attribute that is written behind the hash sign. -/
def idAttribute? (attrs : List Attribute) : Option Attribute :=
  attrs.find? (isId ·)

def classAttributes (attrs : List Attribute) : List Attribute :=
  attrs.filter (isClass ·)

def otherAttributes (attrs : List Attribute) : List Attribute :=
  (attrs.eraseP (isId ·)).filter fun attr => !attr.isClass

def compact (ids classes texts : List Text) : Text :=
  Text.marked '#' ids ++ Text.marked '.' classes ++
    (if texts.isEmpty then [] else Text.between '(' ')' (Text.join " " texts))

def written (quote : Text) (attrs : List Attribute) : Text :=
  compact ((idAttribute? attrs).toList.map (shorthand ·)) ((classAttributes attrs).map (shorthand ·))
    ((otherAttributes attrs).map (inBrackets quote ·))

/-- An attribute with the shorthand of another one as a plain string. -/
def plain (name : Text) (attr : Attribute) : Attribute :=
  { name, val := Text.enclose ['\''] attr.shorthand }

/-- The id and the classes as plain strings, and behind them the other attributes. -/
def canonical (attrs : List Attribute) : List Attribute :=
  (idAttribute? attrs).toList.map (plain "id") ++ (classAttributes attrs).map (plain "class") ++
    otherAttributes attrs

section Places

variable {quote : Text} {attr : Attribute}

private theorem parts_places (idTaken : Bool) (attrs : List Attribute) :
    ids (places quote nestingLimit idTaken attrs) =
        (if idTaken then [] else (idAttribute? attrs).toList.map (shorthand ·)) ∧
      classNames (places quote nestingLimit idTaken attrs) =
        (classAttributes attrs).map (shorthand ·) ∧
      listedTexts (places quote nestingLimit idTaken attrs) =
        ((if idTaken then attrs else attrs.eraseP (isId ·)).filter fun attr => !attr.isClass).map
          (inBrackets quote ·) := by
  -- The ids, the classes and the texts in brackets among placed attributes are those of the
  -- attributes that can go there. Once an id has been taken, others stay in brackets.
  induction attrs generalizing idTaken with
  | nil => cases idTaken <;> exact ⟨rfl, rfl, rfl⟩
  | cons attr rest ih =>
    simp only [idAttribute?, classAttributes, ids, classNames, listedTexts] at ih ⊢
    cases isClass : attr.isClass with
    | true =>
      have notId := not_isId_of_isClass isClass
      cases idTaken <;> simp [places, placeOf, Placed.isId, isClass, notId, ih]
    | false =>
      cases isId : attr.isId <;> cases idTaken <;>
        simp [places, placeOf, Placed.isId, isClass, isId, ih]

private theorem assemble_places (attrs : List Attribute) :
    assemble (places quote nestingLimit false attrs) = written quote attrs := by
  obtain ⟨isIds, isClasses, isListed⟩ := @parts_places quote false attrs
  rw [assemble, idPart_eq, classPart_eq, isIds, isClasses, isListed]
  rfl

end Places

section Reading

variable {quote : Text} {attr : Attribute} {attrs : List Attribute}

theorem renderAll_eq (attrs : List Attribute) :
    renderAll quote nestingLimit attrs =
      readAll nestingLimit attrs >>= fun _ => pure (written quote attrs) := by
  rw [renderAll, placeAll_eq, Run.bind_assoc, ← assemble_places]
  rfl

private theorem readAll_filter {p : Attribute → Bool}
    (settled : ∀ attr ∈ attrs, p attr = false → read nestingLimit attr = .done ()) :
    readAll nestingLimit (attrs.filter p) = readAll nestingLimit attrs := by
  induction attrs with
  | nil => rfl
  | cons attr rest ih =>
    rw [List.forall_mem_cons] at settled
    rw [List.filter_cons, readAll, ← ih settled.2]
    split
    · rfl
    · rw [settled.1 (by simpa using ‹¬ p attr = true›), show Run.done () = pure () from rfl, Run.pure_bind]

end Reading

section Plain

variable {attr : Attribute} {text : Text}

private theorem quotedName_of_isShorthand (points : ∀ c ∈ text, isShorthand c = true) :
    Constant.Token.quotedName '\'' text = text := by
  rw [Constant.Token.quotedName]
  calc text.flatMap (Constant.Token.quotedPoint '\'')
      = text.flatMap (fun c => [c]) := List.flatMap_congr fun c member => by
        rw [Constant.Token.quotedPoint, if_neg]
        rintro (rfl | rfl)
        · exact absurd (points _ member) (by decide)
        · exact absurd (points _ member) (by decide)
    _ = text := List.flatMap_singleton' text

private theorem constant?_plain (name : Text) (isConstant : attr.constant? = some text)
    (notEmpty : text ≠ []) (points : ∀ c ∈ text, isShorthand c = true) :
    (plain name attr).constant? = some text := by
  have noFeed : CodePoint.scalar '\n' ∉ text := fun member =>
    absurd (points _ member) (by decide)
  have tokens := Constant.Token.tokenize?_quotedName .single text
  rw [show Constant.Token.quotedName Quote.single.mark text = text from
    quotedName_of_isShorthand points, if_neg noFeed] at tokens
  have folded : Constant.fold? (plain name attr).val = some (.str text) := by
    rw [plain, shorthand, isConstant]
    exact Constant.Token.fold?_of_string tokens
  cases text with
  | nil => exact absurd rfl notEmpty
  | cons c rest =>
    rw [constant?, folded]
    rfl

private theorem isClass_plain (isClass : attr.isClass = true) :
    (plain "class" attr).isClass = true ∧ (plain "class" attr).shorthand = attr.shorthand := by
  obtain ⟨_, text, isConstant, isName⟩ := isClass_iff.mp isClass
  have notEmpty : text ≠ [] := by
    rintro rfl
    cases isName
  have same := constant?_plain "class" isConstant notEmpty (isShorthand_of_isClassName isName)
  exact ⟨isClass_iff.mpr ⟨rfl, text, same, isName⟩, by rw [shorthand, shorthand, same, isConstant]⟩

private theorem isId_plain (isId : attr.isId = true) :
    (plain "id" attr).isId = true ∧ (plain "id" attr).shorthand = attr.shorthand := by
  obtain ⟨_, text, isConstant, isName⟩ := isId_iff.mp isId
  obtain ⟨notEmpty, points⟩ := isIdName_iff.mp isName
  have same := constant?_plain "id" isConstant notEmpty points
  exact ⟨isId_iff.mpr ⟨rfl, text, same, isName⟩, by rw [shorthand, shorthand, same, isConstant]⟩

end Plain

section Canonical

variable {attrs : List Attribute}

private theorem isId_of_idAttribute? {attr : Attribute} (isFirst : idAttribute? attrs = some attr) :
    attr.isId = true :=
  List.find?_some (p := (isId ·)) isFirst

private theorem not_isClass_of_isId {attr : Attribute} (isId : attr.isId = true) :
    attr.isClass = false := by
  cases isClass : attr.isClass
  · rfl
  · rw [not_isId_of_isClass isClass] at isId
    cases isId

private theorem filter_eraseP {p q : Attribute → Bool}
    (apart : ∀ attr, p attr = true → q attr = false) (attrs : List Attribute) :
    (attrs.eraseP p).filter q = attrs.filter q := by
  induction attrs with
  | nil => rfl
  | cons attr rest ih =>
    rw [List.eraseP_cons]
    cases first : p attr
    · rw [cond_false, List.filter_cons, List.filter_cons, ih]
    · rw [cond_true, List.filter_cons, apart attr first]
      rfl

private theorem perm_find?_eraseP (p : Attribute → Bool) (attrs : List Attribute) :
    ((attrs.find? p).toList ++ attrs.eraseP p).Perm attrs := by
  induction attrs with
  | nil => exact .nil
  | cons attr rest ih =>
    rw [List.eraseP_cons, List.find?_cons]
    cases first : p attr
    · exact List.perm_middle.trans (ih.cons attr)
    · exact List.Perm.refl _

private theorem parts_perm (attrs : List Attribute) :
    ((idAttribute? attrs).toList ++ classAttributes attrs ++ otherAttributes attrs).Perm attrs := by
  have classes : (attrs.eraseP (isId ·)).filter (isClass ·) = classAttributes attrs :=
    filter_eraseP (fun _ => not_isClass_of_isId) attrs
  rw [List.append_assoc, ← classes]
  exact ((List.filter_append_perm (isClass ·) _).append_left _).trans
    (perm_find?_eraseP (isId ·) attrs)

private theorem not_isClass_of_mem_otherAttributes {attr : Attribute}
    (isOther : attr ∈ otherAttributes attrs) :
    attr.isClass = false := by
  simpa using (List.mem_filter.mp isOther).2

private theorem find?_canonical :
    idAttribute? (canonical attrs) = (idAttribute? attrs).map (plain "id") ∧
      (canonical attrs).eraseP (isId ·) =
        (classAttributes attrs).map (plain "class") ++ otherAttributes attrs := by
  cases isFirst : idAttribute? attrs with
  | some attr =>
    have isId := (isId_plain (isId_of_idAttribute? isFirst)).1
    rw [canonical, isFirst]
    exact ⟨List.find?_cons_of_pos isId, List.eraseP_cons_of_pos isId⟩
  | none =>
    have noId : ∀ attr ∈ canonical attrs, ¬ attr.isId = true := by
      intro attr member
      rw [canonical, isFirst, List.mem_append, List.mem_append, List.mem_map, List.mem_map] at member
      rcases member with (⟨_, isNone, _⟩ | ⟨given, isClass, rfl⟩) | isOther
      · cases isNone
      · rw [not_isId_of_isClass (isClass_plain (List.mem_filter.mp isClass).2).1]
        exact Bool.false_ne_true
      · exact List.find?_eq_none.mp isFirst attr (List.mem_of_mem_eraseP (List.mem_filter.mp isOther).1)
    refine ⟨List.find?_eq_none.mpr noId, ?_⟩
    rw [List.eraseP_of_forall_not noId, canonical, isFirst]
    rfl

private theorem otherAttributes_canonical :
    otherAttributes (canonical attrs) = otherAttributes attrs := by
  have classes : ∀ attr ∈ (classAttributes attrs).map (plain "class"), ¬ (!attr.isClass) = true := by
    intro attr member
    obtain ⟨given, isClass, rfl⟩ := List.mem_map.mp member
    simp [(isClass_plain (List.mem_filter.mp isClass).2).1]
  rw [otherAttributes, find?_canonical.2, List.filter_append, List.filter_eq_nil_iff.mpr classes,
    List.nil_append, otherAttributes, List.filter_filter]
  simp only [Bool.and_self]

private theorem classAttributes_canonical :
    classAttributes (canonical attrs) = (classAttributes attrs).map (plain "class") := by
  have ids : ∀ attr ∈ (idAttribute? attrs).toList.map (plain "id"), ¬ attr.isClass = true := by
    intro attr member
    obtain ⟨given, isFirst, rfl⟩ := List.mem_map.mp member
    have isId := (isId_plain (isId_of_idAttribute? (Option.mem_toList.mp isFirst))).1
    rw [not_isClass_of_isId isId]
    exact Bool.false_ne_true
  have classes : ∀ attr ∈ (classAttributes attrs).map (plain "class"), attr.isClass = true := by
    intro attr member
    obtain ⟨given, isClass, rfl⟩ := List.mem_map.mp member
    exact (isClass_plain (List.mem_filter.mp isClass).2).1
  have others : ∀ attr ∈ otherAttributes attrs, ¬ attr.isClass = true := by
    intro attr member
    rw [not_isClass_of_mem_otherAttributes member]
    exact Bool.false_ne_true
  rw [classAttributes, canonical, List.filter_append, List.filter_append,
    List.filter_eq_nil_iff.mpr ids, List.filter_eq_self.mpr classes, List.filter_eq_nil_iff.mpr others,
    List.nil_append, List.append_nil]

private theorem written_canonical (quote : Text) :
    written quote (canonical attrs) = written quote attrs := by
  have ids : ((idAttribute? attrs).map (plain "id")).toList.map (shorthand ·) =
      (idAttribute? attrs).toList.map (shorthand ·) := by
    cases isFirst : idAttribute? attrs with
    | none => rfl
    | some attr => exact congrArg (fun text => [text]) (isId_plain (isId_of_idAttribute? isFirst)).2
  have classes : ((classAttributes attrs).map (plain "class")).map (shorthand ·) =
      (classAttributes attrs).map (shorthand ·) := by
    rw [List.map_map]
    exact List.map_congr_left fun attr member => (isClass_plain (List.mem_filter.mp member).2).2
  rw [written, find?_canonical.1, classAttributes_canonical, otherAttributes_canonical, ids, classes]
  rfl

private theorem readAll_canonical :
    readAll nestingLimit (canonical attrs) = readAll nestingLimit attrs := by
  -- What can stand behind a hash sign or a dot does not show when the values are read, so reading
  -- goes by the others alone, and these keep their order.
  have settled (attr : Attribute) (short : (!attr.isId && !attr.isClass) = false) :
      read nestingLimit attr = .done () := by
    have either : attr.isId = true ∨ attr.isClass = true := by
      cases isId : attr.isId <;> simp_all
    rcases either with isId | isClass
    · obtain ⟨_, text, isConstant, _⟩ := isId_iff.mp isId
      exact read_of_constant isConstant
    · obtain ⟨_, text, isConstant, _⟩ := isClass_iff.mp isClass
      exact read_of_constant isConstant
  have byOthers (attrs : List Attribute) :
      readAll nestingLimit attrs =
        readAll nestingLimit ((otherAttributes attrs).filter fun attr => !attr.isId) := by
    rw [← @readAll_filter attrs (fun attr => !attr.isId && !attr.isClass) fun attr _ => settled attr,
      ← filter_eraseP (p := (isId ·)) (fun attr isId => by simp [isId]) attrs, otherAttributes,
      List.filter_filter]
  rw [byOthers, otherAttributes_canonical, ← byOthers]

private theorem inBrackets_of_true (quote : Text) {attr : Attribute}
    (constant : Constant.fold? attr.val = some (.bool true)) :
    inBrackets quote attr = writtenName quote attr.name := by
  rw [inBrackets, constant]
  rfl

private theorem inBrackets_of_not_true (quote : Text) {attr : Attribute}
    (other : Constant.fold? attr.val ≠ some (.bool true)) :
    inBrackets quote attr = writtenName quote attr.name ++
      (if attr.escaped then [] else ("!" : Text)) ++ ("=" : Text) ++ attr.val := by
  have notTrue : isConstantTrue (Constant.fold? attr.val) = false := by
    cases folded : Constant.fold? attr.val with
    | none => rfl
    | some value =>
      cases value with
      | bool b =>
        cases b with
        | false => rfl
        | true => exact absurd folded other
      | _ => rfl
  rw [inBrackets, notTrue, listed]
  cases attr.escaped <;> simp [Text.ofString, Text.ofChars]

/-- Each attribute is written once, classes and others in the order in which they come, if all values
can be read; an attribute in brackets is its name, and behind that its value unless this is constantly
true. A list in canonical order is written in the same way, with the same notes and faults. -/
theorem render_canonical (quote : Text) (attrs : List Attribute) :
    ((idAttribute? attrs).toList ++ classAttributes attrs ++ otherAttributes attrs).Perm attrs ∧
    (classAttributes attrs).Sublist attrs ∧ (otherAttributes attrs).Sublist attrs ∧
    (∀ text, (render quote (.of (attrs.map .of))).result = .ok text ↔
      attrs.all (isReadable ·) = true ∧ text = written quote attrs) ∧
    (∀ attr : Attribute,
      (Constant.fold? attr.val = some (.bool true) →
        inBrackets quote attr = writtenName quote attr.name) ∧
      (Constant.fold? attr.val ≠ some (.bool true) →
        inBrackets quote attr = writtenName quote attr.name ++
          (if attr.escaped then [] else ("!" : Text)) ++ ("=" : Text) ++ attr.val)) ∧
    render quote (.of ((canonical attrs).map .of)) = render quote (.of (attrs.map .of)) := by
  have rendered (attrs : List Attribute) : render quote (.of (attrs.map .of)) =
      readAll nestingLimit attrs >>= fun _ => pure (written quote attrs) := by
    rw [render, proper_map_of, firstOdd?_map_of, renderAll_eq, Run.bind_assoc]
    rfl
  refine ⟨parts_perm attrs, List.filter_sublist, List.filter_sublist.trans List.eraseP_sublist,
    fun text => ?_, fun attr => ⟨inBrackets_of_true quote, inBrackets_of_not_true quote⟩, ?_⟩
  · rw [rendered, Run.bind_result_eq_ok_iff, List.all_eq_true, ← readAll_result_eq_ok_iff]
    constructor
    · rintro ⟨_, ended, same⟩
      cases same
      exact ⟨ended, rfl⟩
    · rintro ⟨ended, rfl⟩
      exact ⟨(), ended, rfl⟩
  · rw [rendered, rendered, readAll_canonical, written_canonical]

/-- An id that is not constant stays behind the one that is. -/
example : canonical [{ name := "id", val := "x" }, { name := "class", val := "'b'" },
      { name := "id", val := "\"a\"" }] =
    [{ name := "id", val := "'a'" }, { name := "class", val := "'b'" },
      { name := "id", val := "x" }] := by rfl

end Canonical

end Attribute

end PugPrinter
