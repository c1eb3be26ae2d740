import PugPrinter.Emit
import PugPrinter.Proofs.Attribute.Placing
import PugPrinter.Proofs.Digits

/-!
Heads of tags can be read again. A head has no marks of its own between its parts: the name ends where
the first code point stands that no name has, and the id and the classes are taken off one mark at a
time. So two heads that look alike belong to tags with the same name, slash, id and classes; leaving
out the default name hides nothing, since nothing else starts with shorthand, and an interpolated name
starts like no other.
-/

set_option autoImplicit false

namespace PugPrinter

namespace Text

section Rows

variable {p : CodePoint → Bool}

private theorem row_unique {row other rest following : Text} (belongs : ∀ c ∈ row, p c = true)
    (belongsOther : ∀ c ∈ other, p c = true) (ends : ∀ c ∈ rest.head?, p c = false)
    (endsOther : ∀ c ∈ following.head?, p c = false) (same : row ++ rest = other ++ following) :
    row = other ∧ rest = following := by
  constructor
  · rw [← takeWhile_row belongs ends, same, takeWhile_row belongsOther endsOther]
  · rw [← dropWhile_row belongs ends, same, dropWhile_row belongsOther endsOther]

def marked (mark : CodePoint) (names : List Text) : Text :=
  names.flatMap (mark :: ·)

private theorem marked_cons (mark : CodePoint) (name : Text) (names : List Text) :
    marked mark (name :: names) = mark :: (name ++ marked mark names) := rfl

variable {mark : CodePoint}

private theorem head?_marked_append {names : List Text} {rest : Text} {c : CodePoint}
    (first : c ∈ (marked mark names ++ rest).head?) : c = mark ∨ names = [] ∧ c ∈ rest.head? := by
  cases names with
  | nil => exact .inr ⟨rfl, first⟩
  | cons name names =>
    left
    rw [marked_cons, List.cons_append, List.head?_cons, Option.mem_some] at first
    exact first.symm

private theorem marked_unique {names others : List Text} {rest following : Text}
    (outside : p mark = false) (belong : ∀ name ∈ names, ∀ c ∈ name, p c = true)
    (belongOthers : ∀ name ∈ others, ∀ c ∈ name, p c = true)
    (ends : ∀ c ∈ rest.head?, p c = false ∧ c ≠ mark)
    (endsOthers : ∀ c ∈ following.head?, p c = false ∧ c ≠ mark)
    (same : marked mark names ++ rest = marked mark others ++ following) :
    names = others ∧ rest = following := by
  induction names generalizing others with
  | nil =>
    cases others with
    | nil => exact ⟨rfl, same⟩
    | cons other others =>
      have isMark : mark ∈ rest.head? := by
        rw [show rest = marked mark (other :: others) ++ following from same]
        rfl
      exact absurd rfl (ends mark isMark).2
  | cons name names ih =>
    cases others with
    | nil =>
      have isMark : mark ∈ following.head? := by
        rw [show following = marked mark (name :: names) ++ rest from same.symm]
        rfl
      exact absurd rfl (endsOthers mark isMark).2
    | cons other others =>
      rw [List.forall_mem_cons] at belong belongOthers
      have stops (names : List Text) {rest : Text} (ends : ∀ c ∈ rest.head?, p c = false ∧ c ≠ mark) :
          ∀ c ∈ (marked mark names ++ rest).head?, p c = false := by
        intro c first
        rcases head?_marked_append first with rfl | ⟨_, later⟩
        · exact outside
        · exact (ends c later).1
      rw [marked_cons, marked_cons, List.cons_append, List.cons_append, List.append_assoc,
        List.append_assoc] at same
      obtain ⟨rfl, sameRest⟩ := row_unique belong.1 belongOthers.1 (stops names ends)
        (stops others endsOthers) (List.cons.inj same).2
      obtain ⟨rfl, sameEnd⟩ := ih belong.2 belongOthers.2 sameRest
      exact ⟨rfl, sameEnd⟩

end Rows

end Text

namespace Attribute

def ids (placed : List Placed) : List Text :=
  placed.filterMap fun
    | .id name => some name
    | _ => none

def classNames (placed : List Placed) : List Text :=
  placed.filterMap fun
    | .className name => some name
    | _ => none

theorem idPart_eq (placed : List Placed) : idPart placed = Text.marked '#' (ids placed) := by
  induction placed with
  | nil => rfl
  | cons p rest ih =>
    cases p with
    | id name => exact congrArg (CodePoint.scalar '#' :: name ++ ·) ih
    | className name | listed text => exact ih

theorem classPart_eq (placed : List Placed) :
    classPart placed = Text.marked '.' (classNames placed) := by
  induction placed with
  | nil => rfl
  | cons p rest ih =>
    cases p with
    | className name => exact congrArg (CodePoint.scalar '.' :: name ++ ·) ih
    | id name | listed text => exact ih

theorem isShorthand_of_isClassName {t : Text} (isName : isClassName t = true) :
    ∀ c ∈ t, isShorthand c = true := by
  have start : ∀ c, startsClass c = true → isShorthand c = true := by
    intro c starts
    cases c with
    | surrogate index => cases starts
    | scalar c =>
      simp only [startsClass, Text.isLetter, CodePoint.holds, Bool.or_eq_true] at starts
      rcases starts with letter | underscore
      · simp [isShorthand, Text.isWord, CodePoint.holds, Char.isAlphanum, letter]
      · rw [beq_iff_eq.mp underscore]
        rfl
  unfold isClassName at isName
  split at isName
  · simp only [Bool.and_eq_true, List.all_eq_true] at isName
    rw [List.forall_mem_cons, List.forall_mem_cons]
    exact ⟨rfl, start _ isName.1, isName.2⟩
  · simp only [Bool.and_eq_true, List.all_eq_true] at isName
    rw [List.forall_mem_cons]
    exact ⟨start _ isName.1, isName.2⟩
  · cases isName

theorem isIdName_iff {t : Text} :
    isIdName t = true ↔ t ≠ [] ∧ ∀ c ∈ t, isShorthand c = true := by
  simp [isIdName, List.all_eq_true]

/-- A placed attribute whose shorthand, if it has any, consists of the code points of shorthand. -/
def Placed.IsNamed : Placed → Prop
  | .id name => name ≠ [] ∧ ∀ c ∈ name, isShorthand c = true
  | .className name => ∀ c ∈ name, isShorthand c = true
  | .listed _ => True

theorem placeOf_isNamed (quote : Text) (limit : Nat) (idTaken : Bool) (attr : Attribute) :
    (placeOf quote limit idTaken attr).IsNamed := by
  unfold placeOf
  split
  · next isClass =>
    obtain ⟨_, text, isConstant, isName⟩ := isClass_iff.mp isClass
    rw [shorthand, isConstant]
    exact isShorthand_of_isClassName isName
  · split
    · next isId =>
      rw [Bool.and_eq_true] at isId
      obtain ⟨_, text, isConstant, isName⟩ := isId_iff.mp isId.2
      rw [shorthand, isConstant]
      exact isIdName_iff.mp isName
    · trivial

private theorem placeAll_isNamed {quote : Text} {limit : Nat} (attrs : List Attribute)
    {idTaken : Bool} {placed : List Placed}
    (ended : (placeAll quote limit idTaken attrs).result = .ok placed) :
    ∀ p ∈ placed, p.IsNamed := by
  rw [eq_places ended]
  exact forall_mem_places idTaken fun attr _ taken => placeOf_isNamed quote limit taken attr

def placedOf (quote : Text) : Attributes → List Placed
  | .of items =>
    (placeAll quote Constant.Grammar.nestingLimit false (proper items)).result.toOption.getD []
  | .odd _ => []

private theorem render_eq {quote : Text} {attrs : Attributes} {text : Text}
    (written : (render quote attrs).result = .ok text) :
    (∀ p ∈ placedOf quote attrs, p.IsNamed) ∧
      ∃ list : Text, (list = [] ∨ ∃ inner, list = .scalar '(' :: inner) ∧
        text = idPart (placedOf quote attrs) ++ classPart (placedOf quote attrs) ++ list := by
  cases attrs with
  | odd value =>
    have isNil : text = [] := by
      rw [render] at written
      split at written
      · cases written
        rfl
      · cases written
    exact ⟨nofun, [], .inl rfl, isNil⟩
  | of items =>
    rw [render] at written
    obtain ⟨all, rendered, ended⟩ := (Run.bind_result_eq_ok_iff _ _ _).mp written
    obtain ⟨placed, placedAll, assembled⟩ := (Run.bind_result_eq_ok_iff _ _ _).mp rendered
    have isPlaced : placedOf quote (.of items) = placed := by
      simp [placedOf, placedAll, Except.toOption]
    cases assembled
    have isText : text = assemble placed := by
      split at ended
      · cases ended
        rfl
      · obtain ⟨_, _, stopped⟩ := (Run.bind_result_eq_ok_iff _ _ _).mp ended
        cases stopped
    rw [isPlaced]
    refine ⟨placeAll_isNamed _ placedAll, _, ?_, isText⟩
    split
    · exact .inl rfl
    · exact .inr ⟨_, rfl⟩

private theorem renderBlocks_eq {blocks : AttributeBlocks} {text : Text}
    (written : renderBlocks blocks = .ok text) : text = [] ∨ ∃ inner, text = .scalar '&' :: inner := by
  have exprs (all : List Text) :
      renderExprs all = [] ∨ ∃ inner, renderExprs all = .scalar '&' :: inner := by
    cases all with
    | nil => exact .inl rfl
    | cons expr rest => exact .inr ⟨_, rfl⟩
  unfold renderBlocks at written
  split at written
  · cases written
    exact exprs _
  · split at written
    · cases written
      exact exprs _
    · cases written

end Attribute

def isTagNamePoint (c : CodePoint) : Bool :=
  c.holds fun c => c.isAlphanum || c == '_' || c == ':' || c == '-'

/-- Whether a tag has an expression for a name, or a name that is not empty and consists of the code
points of a plain one. -/
def TagHead.isPlain (tag : TagHead) : Bool :=
  tag.interpolated.isOn ||
    match tag.name with
    | .of name => !name.isEmpty && name.all isTagNamePoint
    | .odd _ => false

def TagHead.placed (style : Style) (tag : TagHead) : List Attribute.Placed :=
  Attribute.placedOf [style.quote.mark] tag.attrs

namespace Emit

open Attribute

private def shorthandWith (style : Style) (tag : TagHead) (rest : Text) : Text :=
  Text.marked '#' (ids (tag.placed style)) ++
    (Text.marked '.' (classNames (tag.placed style)) ++ rest)

/-- What can stand behind the shorthand of a tag: attributes in brackets, attribute blocks, or
nothing. -/
private def FollowsShorthand (rest : Text) : Prop :=
  ∀ c ∈ rest.head?, c = '(' ∨ c = '&'

private theorem tagHead_eq {style : Style} {tag : TagHead} {head : Text}
    (written : (tagHead style tag).result = .ok head) :
    (∀ p ∈ tag.placed style, p.IsNamed) ∧ ∃ name rest, tag.name = .of name ∧ FollowsShorthand rest ∧
      head = tagName tag name (shorthandWith style tag rest) ++ shorthandWith style tag rest := by
  obtain ⟨attrs, attrsWritten, ended⟩ := (Run.bind_result_eq_ok_iff _ _ _).mp written
  obtain ⟨blocks, blocksWritten, ended⟩ := (Run.bind_result_eq_ok_iff _ _ _).mp ended
  obtain ⟨named, list, isList, isText⟩ := render_eq attrsWritten
  refine ⟨named, ?_⟩
  have isShorthand : attrs ++ blocks = shorthandWith style tag (list ++ blocks) := by
    rw [isText, idPart_eq, classPart_eq]
    simp only [shorthandWith, TagHead.placed, List.append_assoc]
  have follows : FollowsShorthand (list ++ blocks) := by
    intro c first
    rcases isList with rfl | ⟨inner, rfl⟩
    · rcases renderBlocks_eq blocksWritten with rfl | ⟨inner, rfl⟩
      · cases first
      · exact .inr (Option.some.inj first).symm
    · exact .inl (Option.some.inj first).symm
  cases isName : tag.name with
  | odd value =>
    simp only [isName] at ended
    cases ended
  | of name =>
    simp only [isName] at ended
    cases ended
    exact ⟨name, _, rfl, follows, by rw [isShorthand]⟩

private theorem forall_mem_ids {placed : List Placed} (named : ∀ p ∈ placed, p.IsNamed) :
    ∀ name ∈ ids placed, name ≠ [] ∧ ∀ c ∈ name, Attribute.isShorthand c = true := by
  intro name member
  obtain ⟨p, isPlaced, isId⟩ := List.mem_filterMap.mp member
  cases p with
  | id other =>
    cases isId
    exact named _ isPlaced
  | className other | listed text => cases isId

private theorem forall_mem_classNames {placed : List Placed} (named : ∀ p ∈ placed, p.IsNamed) :
    ∀ name ∈ classNames placed, ∀ c ∈ name, Attribute.isShorthand c = true := by
  intro name member
  obtain ⟨p, isPlaced, isClass⟩ := List.mem_filterMap.mp member
  cases p with
  | className other =>
    cases isClass
    exact named _ isPlaced
  | id other | listed text => cases isClass

private theorem head?_shorthandWith {style : Style} {tag : TagHead} {rest : Text}
    (follows : FollowsShorthand rest) {c : CodePoint}
    (first : c ∈ (shorthandWith style tag rest).head?) :
    c = '#' ∧ ids (tag.placed style) ≠ [] ∨ c = '.' ∨ c = '(' ∨ c = '&' := by
  cases isIds : ids (tag.placed style) with
  | cons name names =>
    rw [shorthandWith, isIds, Text.marked_cons] at first
    exact .inl ⟨(Option.some.inj first).symm, nofun⟩
  | nil =>
    rw [shorthandWith, isIds] at first
    have behindIds : c ∈ (Text.marked '.' (classNames (tag.placed style)) ++ rest).head? := first
    rcases Text.head?_marked_append behindIds with rfl | ⟨_, later⟩
    · exact .inr (.inl rfl)
    · exact .inr (.inr (follows c later))

private theorem shorthandWith_unique {style style' : Style} {tag other : TagHead}
    {rest following : Text} (named : ∀ p ∈ tag.placed style, p.IsNamed)
    (named' : ∀ p ∈ other.placed style', p.IsNamed)
    (follows : FollowsShorthand rest) (follows' : FollowsShorthand following)
    (same : shorthandWith style tag rest = shorthandWith style' other following) :
    ids (tag.placed style) = ids (other.placed style') ∧
      classNames (tag.placed style) = classNames (other.placed style') := by
  have ends {rest : Text} (follows : FollowsShorthand rest) :
      ∀ c ∈ rest.head?, Attribute.isShorthand c = false ∧ c ≠ (CodePoint.scalar '.') := by
    intro c first
    rcases follows c first with rfl | rfl <;> decide
  have endsIds {classes : List Text} {rest : Text} (follows : FollowsShorthand rest) :
      ∀ c ∈ (Text.marked '.' classes ++ rest).head?,
        Attribute.isShorthand c = false ∧ c ≠ (CodePoint.scalar '#') := by
    intro c first
    rcases Text.head?_marked_append first with rfl | ⟨_, later⟩
    · decide
    · rcases follows c later with rfl | rfl <;> decide
  obtain ⟨sameIds, sameRest⟩ := Text.marked_unique (p := Attribute.isShorthand) (by decide)
    (fun name member => (forall_mem_ids named name member).2)
    (fun name member => (forall_mem_ids named' name member).2) (endsIds follows) (endsIds follows')
    same
  exact ⟨sameIds, (Text.marked_unique (p := Attribute.isShorthand) (by decide)
    (forall_mem_classNames named) (forall_mem_classNames named') (ends follows) (ends follows')
    sameRest).1⟩

/-- The name of a tag as far as it is written, where it is no expression. -/
def writtenName (tag : TagHead) (name attrs : Text) : Text :=
  if tag.selfClosing.isOn || name != defaultTag || !isShorthand attrs then name else []

def slash (tag : TagHead) : Text :=
  if tag.selfClosing.isOn then "/" else []

private theorem tagName_plain {tag : TagHead} (plain : tag.interpolated.isOn = false)
    (name attrs : Text) :
    tagName tag name attrs = writtenName tag name attrs ++ slash tag := by
  simp only [tagName, plain, writtenName, slash, Bool.false_eq_true, if_false]

private theorem writtenName_cases (tag : TagHead) (name attrs : Text) :
    writtenName tag name attrs = name ∨
      writtenName tag name attrs = [] ∧ name = defaultTag ∧ tag.selfClosing.isOn = false := by
  unfold writtenName
  split
  · exact .inl rfl
  · rename_i dropped
    refine .inr ⟨rfl, ?_⟩
    simp only [Bool.or_eq_true, not_or, bne_iff_ne, ne_eq, Classical.not_not, Bool.not_eq_true] at dropped
    exact ⟨dropped.1.2, dropped.1.1⟩

private theorem eq_of_isPlain {tag : TagHead} {name : Text} (plain : tag.isPlain = true)
    (noExpression : tag.interpolated.isOn = false) (isName : tag.name = .of name) :
    name ≠ [] ∧ ∀ c ∈ name, isTagNamePoint c = true := by
  simp only [TagHead.isPlain, noExpression, isName, Bool.false_or, Bool.and_eq_true,
    Bool.not_eq_true', List.all_eq_true] at plain
  refine ⟨?_, plain.2⟩
  intro isNil
  rw [isNil] at plain
  cases plain.1

private theorem head?_slash_append {style : Style} {tag : TagHead} {rest : Text}
    (follows : FollowsShorthand rest) :
    ∀ c ∈ (slash tag ++ shorthandWith style tag rest).head?, isTagNamePoint c = false := by
  -- Written names are followed by a slash, by shorthand or by attributes in brackets, none of which
  -- starts like a name.
  intro c first
  unfold slash at first
  split at first
  · rw [← Option.some.inj first]
    decide
  · rcases head?_shorthandWith follows first with ⟨rfl, _⟩ | rfl | rfl | rfl <;> decide

private theorem slash_notMem_head?_shorthandWith (style : Style) (tag : TagHead) {rest : Text}
    (follows : FollowsShorthand rest) : .scalar '/' ∉ (shorthandWith style tag rest).head? := by
  intro first
  rcases head?_shorthandWith follows first with ⟨isMark, _⟩ | isMark | isMark | isMark <;> cases isMark

private theorem shorthandWith_ne_expression {style : Style} {tag : TagHead} {rest : Text}
    (named : ∀ p ∈ tag.placed style, p.IsNamed) (follows : FollowsShorthand rest) (more : Text) :
    .scalar '#' :: .scalar '{' :: more ≠ shorthandWith style tag rest := by
  intro same
  have isFirst : .scalar '#' ∈ (shorthandWith style tag rest).head? := by
    rw [← same]
    rfl
  rcases head?_shorthandWith follows isFirst with ⟨_, filled⟩ | isDot | isBracket | isBlock
  · cases isIds : ids (tag.placed style) with
    | nil => exact filled isIds
    | cons id others =>
      obtain ⟨notNil, idPoints⟩ := forall_mem_ids named id (by rw [isIds]; exact List.mem_cons_self ..)
      rw [shorthandWith, isIds, Text.marked_cons] at same
      cases id with
      | nil => exact notNil rfl
      | cons c id =>
        have isPoint := idPoints c (List.mem_cons_self ..)
        rw [← (List.cons.inj (List.cons.inj same).2).1] at isPoint
        exact absurd isPoint (by decide)
  · cases isDot
  · cases isBracket
  · cases isBlock

private theorem tagHead_ne_of_expression {style : Style} {tag other : TagHead}
    {name name' rest following attrs : Text} (expression : tag.interpolated.isOn = true)
    (noExpression : other.interpolated.isOn = false) (plain : other.isPlain = true)
    (isName : other.name = .of name') (named : ∀ p ∈ other.placed style, p.IsNamed)
    (follows : FollowsShorthand following)
    (same : tagName tag name attrs ++ rest =
      tagName other name' (shorthandWith style other following) ++
        shorthandWith style other following) : False := by
  obtain ⟨notNil, points⟩ := eq_of_isPlain plain noExpression isName
  have start : ∃ more, tagName tag name attrs ++ rest = .scalar '#' :: .scalar '{' :: more := by
    simp only [tagName, expression, if_true]
    exact ⟨_, rfl⟩
  obtain ⟨more, isStart⟩ := start
  rw [isStart, tagName_plain noExpression] at same
  rcases writtenName_cases other name' (shorthandWith style other following) with
    kept | ⟨dropped, _, open'⟩
  · rw [kept] at same
    cases name' with
    | nil => exact notNil rfl
    | cons c name' =>
      have isMark := points c (List.mem_cons_self ..)
      rw [← (List.cons.inj same).1] at isMark
      exact absurd isMark (by decide)
  · have isSlash : slash other = [] := by simp only [slash, open', Bool.false_eq_true, if_false]
    rw [dropped, isSlash] at same
    exact shorthandWith_ne_expression named follows more same

private theorem isTagNamePoint_of_mem_writtenName {tag : TagHead} {name : Text}
    (points : ∀ c ∈ name, isTagNamePoint c = true) (attrs : Text) :
    ∀ c ∈ writtenName tag name attrs, isTagNamePoint c = true := by
  intro c member
  rcases writtenName_cases tag name attrs with kept | ⟨dropped, _, _⟩
  · exact points c (kept ▸ member)
  · rw [dropped] at member
    cases member

private theorem eq_of_writtenName_eq {tag other : TagHead} {name name' attrs attrs' : Text}
    (notNil : name ≠ []) (notNil' : name' ≠ [])
    (same : writtenName tag name attrs = writtenName other name' attrs') :
    name = name' := by
  rcases writtenName_cases tag name attrs with kept | ⟨dropped, isDefault, _⟩ <;>
    rcases writtenName_cases other name' attrs' with kept' | ⟨dropped', isDefault', _⟩
  · rw [← kept, same, kept']
  · exact absurd (kept.symm.trans (same.trans dropped')) notNil
  · exact absurd (kept'.symm.trans (same.symm.trans dropped)) notNil'
  · rw [isDefault, isDefault']

private theorem slash_unique {style style' : Style} {tag other : TagHead} {rest following : Text}
    (follows : FollowsShorthand rest) (follows' : FollowsShorthand following)
    (same : slash tag ++ shorthandWith style tag rest =
      slash other ++ shorthandWith style' other following) :
    tag.selfClosing.isOn = other.selfClosing.isOn ∧
      shorthandWith style tag rest = shorthandWith style' other following := by
  unfold slash at same
  cases closed : tag.selfClosing.isOn <;> cases closed' : other.selfClosing.isOn <;>
    simp only [closed, closed', Bool.false_eq_true, if_false, if_true] at same
  · exact ⟨rfl, same⟩
  · refine absurd ?_ (slash_notMem_head?_shorthandWith style tag follows)
    rw [show shorthandWith style tag rest = _ from same]
    rfl
  · refine absurd ?_ (slash_notMem_head?_shorthandWith style' other follows')
    rw [show shorthandWith style' other following = _ from same.symm]
    rfl
  · exact ⟨rfl, List.append_cancel_left same⟩

private theorem tagHead_parts_unique {style style' : Style} {tag other : TagHead}
    {name name' rest following : Text} (noExpression : tag.interpolated.isOn = false)
    (noExpression' : other.interpolated.isOn = false) (plain : tag.isPlain = true)
    (plain' : other.isPlain = true) (isName : tag.name = .of name) (isName' : other.name = .of name')
    (follows : FollowsShorthand rest) (follows' : FollowsShorthand following)
    (same : tagName tag name (shorthandWith style tag rest) ++ shorthandWith style tag rest =
      tagName other name' (shorthandWith style' other following) ++
        shorthandWith style' other following) :
    name = name' ∧ tag.selfClosing.isOn = other.selfClosing.isOn ∧
      shorthandWith style tag rest = shorthandWith style' other following := by
  obtain ⟨notNil, points⟩ := eq_of_isPlain plain noExpression isName
  obtain ⟨notNil', points'⟩ := eq_of_isPlain plain' noExpression' isName'
  rw [tagName_plain noExpression, tagName_plain noExpression', List.append_assoc,
    List.append_assoc] at same
  obtain ⟨sameName, sameRest⟩ := Text.row_unique (isTagNamePoint_of_mem_writtenName points _)
    (isTagNamePoint_of_mem_writtenName points' _) (head?_slash_append follows)
    (head?_slash_append follows') same
  exact ⟨eq_of_writtenName_eq notNil notNil' sameName, slash_unique follows follows' sameRest⟩

/-- Heads of tags with plain names are read in one way only: two that are the same have the same kind
of name, and unless it is an expression they have the same name, slash, ids and classes. -/
theorem tagHead_readable {style style' : Style} {tag other : TagHead} {head : Text}
    (plain : tag.isPlain = true) (plain' : other.isPlain = true)
    (written : (tagHead style tag).result = .ok head)
    (written' : (tagHead style' other).result = .ok head) :
    tag.interpolated.isOn = other.interpolated.isOn ∧
      (tag.interpolated.isOn = false →
        (∃ name, tag.name = .of name ∧ other.name = .of name) ∧
        tag.selfClosing.isOn = other.selfClosing.isOn ∧
        ids (tag.placed style) = ids (other.placed style') ∧
        classNames (tag.placed style) = classNames (other.placed style')) := by
  obtain ⟨named, name, rest, isName, follows, isHead⟩ := tagHead_eq written
  obtain ⟨named', name', following, isName', follows', isHead'⟩ := tagHead_eq written'
  have same := isHead.symm.trans isHead'
  cases expression : tag.interpolated.isOn <;> cases expression' : other.interpolated.isOn
  · obtain ⟨sameName, sameSlash, sameShorthand⟩ := tagHead_parts_unique expression expression' plain
      plain' isName isName' follows follows' same
    exact ⟨rfl, fun _ => ⟨⟨name, isName, sameName ▸ isName'⟩, sameSlash,
      shorthandWith_unique named named' follows follows' sameShorthand⟩⟩
  · exact (tagHead_ne_of_expression expression' expression plain isName named follows
      same.symm).elim
  · exact (tagHead_ne_of_expression expression expression' plain' isName' named' follows' same).elim
  · exact ⟨rfl, nofun⟩

/-- A tag of the default kind with an id, a class and another attribute. -/
def shorthandSample : TagHead :=
  { name := .of "div"
    attrs := .of [.of { name := "id", val := "'a'" }, .of { name := "class", val := "'b'" },
      .of { name := "title", val := "x" }] }

def reorderedSample : TagHead :=
  { name := .of "div"
    attrs := .of [.of { name := "class", val := "'b'" }, .of { name := "title", val := "x" },
      .of { name := "id", val := "'a'" }] }

theorem tagHead_readable_sample :
    shorthandSample.isPlain = true ∧ reorderedSample.isPlain = true ∧
    (tagHead {} shorthandSample).result = .ok "#a.b(title=x)" ∧
    (tagHead {} reorderedSample).result = .ok "#a.b(title=x)" ∧
    ids (shorthandSample.placed {}) = ids (reorderedSample.placed {}) ∧
    classNames (shorthandSample.placed {}) = classNames (reorderedSample.placed {}) := by
  have written : (tagHead {} shorthandSample).result = .ok "#a.b(title=x)" := by rfl
  have written' : (tagHead {} reorderedSample).result = .ok "#a.b(title=x)" := by rfl
  have readable := @tagHead_readable {} {} shorthandSample reorderedSample _ (by decide) (by decide)
    written written'
  exact ⟨by decide, by decide, written, written', (readable.2 (by decide)).2.2⟩

end Emit

end PugPrinter
