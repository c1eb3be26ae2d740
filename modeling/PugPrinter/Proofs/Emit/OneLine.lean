import PugPrinter.Proofs.Edit.NormalForm
import PugPrinter.Proofs.Emit.Depth
import PugPrinter.Proofs.Emit.TagHead
import PugPrinter.Proofs.Quotation
import PugPrinter.Proofs.Subtrees

/-!
Trees of one line. When no field of a tree other than the values of texts holds a line feed, printing
puts no line feed into the markup: the pieces of markup are words, operators and fields, the marks
around them are on one line, and shorthand never holds a blank. Line feeds come from the values of
texts, and with the lines that are started.
-/

set_option autoImplicit false

namespace PugPrinter

namespace Text

def isOneLine (t : Text) : Bool :=
  t.all fun c => c != '\n'

theorem isOneLine_iff {t : Text} : t.isOneLine = true ↔ CodePoint.scalar '\n' ∉ t := by
  rw [isOneLine, List.all_eq_true]
  constructor
  · intro holds mem
    simpa using holds _ mem
  · intro absent c mem
    refine bne_iff_ne.mpr fun same => ?_
    subst same
    exact absent mem

private theorem ne_lineFeed_of_mem {t : Text} (oneLine : t.isOneLine = true) {c : CodePoint}
    (mem : c ∈ t) :
    c ≠ CodePoint.scalar '\n' :=
  fun same => isOneLine_iff.mp oneLine (same ▸ mem)

@[simp] theorem isOneLine_nil : isOneLine [] = true := rfl

@[simp] theorem isOneLine_cons (c : CodePoint) (t : Text) :
    isOneLine (c :: t) = (c != CodePoint.scalar '\n' && isOneLine t) := rfl

@[simp] theorem isOneLine_append (t u : Text) :
    isOneLine (t ++ u) = (t.isOneLine && u.isOneLine) :=
  List.all_append

private theorem isOneLine_append_of {t u : Text} (first : t.isOneLine = true)
    (second : u.isOneLine = true) :
    (t ++ u).isOneLine = true := by
  rw [isOneLine_append, first, second]
  rfl

private theorem isOneLine_flatten {texts : List Text} (all : ∀ t ∈ texts, t.isOneLine = true) :
    isOneLine texts.flatten = true := by
  induction texts with
  | nil => rfl
  | cons t texts ih =>
    rw [List.forall_mem_cons] at all
    exact isOneLine_append_of all.1 (ih all.2)

private theorem isOneLine_flatMap {α : Type} {items : List α} {f : α → Text}
    (all : ∀ item ∈ items, (f item).isOneLine = true) : isOneLine (items.flatMap f) = true := by
  rw [List.flatMap]
  exact isOneLine_flatten (by simpa using all)

private theorem isOneLine_join {separator : Text} (between : separator.isOneLine = true)
    {texts : List Text} (all : ∀ t ∈ texts, t.isOneLine = true) :
    (join separator texts).isOneLine = true := by
  induction texts with
  | nil => rfl
  | cons t texts ih =>
    rw [List.forall_mem_cons] at all
    cases texts with
    | nil => exact all.1
    | cons u texts => simp [join, all.1, between, ih all.2]

private theorem isOneLine_between {opening closing : CodePoint} {t : Text}
    (start : opening ≠ .scalar '\n') (ending : closing ≠ .scalar '\n')
    (inner : t.isOneLine = true) :
    (between opening closing t).isOneLine = true := by
  simp [between, start, ending, inner]

private theorem isOneLine_quote (preferred : Quote) {t : Text} (oneLine : t.isOneLine = true) :
    (quote [preferred.mark] t).isOneLine = true := by
  obtain ⟨q, written⟩ := quote_eq_enclose preferred t
  have markLine : q.mark ≠ .scalar '\n' := by cases q <;> decide
  have escaped : (escapeMark [q.mark] t).isOneLine = true := by
    rw [escapeMark_singleton]
    refine isOneLine_flatMap fun c mem => ?_
    split <;> simp [markLine, ne_lineFeed_of_mem oneLine mem]
  simp [written, enclose, markLine, escaped]

private theorem isOneLine_doubleBackslashes {t : Text} (oneLine : t.isOneLine = true) :
    (doubleBackslashes t).isOneLine = true := by
  refine isOneLine_flatMap fun c mem => ?_
  split
  · rfl
  · simp [ne_lineFeed_of_mem oneLine mem]

end Text

namespace Attribute

/-- Whether the name and the value of an attribute hold no line feed. -/
def isOneLine (attr : Attribute) : Bool :=
  attr.name.isOneLine && attr.val.isOneLine

def areOneLine : Attributes → Bool
  | .of items => (proper items).all isOneLine
  | .odd _ => true

def blocksAreOneLine : AttributeBlocks → Bool
  | .of exprs => exprs.all fun expr => expr.shown.isOneLine
  | .odd value => (value.items?.getD []).all fun item => (Loose.ofText item).shown.isOneLine

def Placed.text : Placed → Text
  | .id name => name
  | .className name => name
  | .listed text => text

private theorem isOneLine_of_isShorthand {t : Text} (short : ∀ c ∈ t, isShorthand c = true) :
    t.isOneLine = true := by
  rw [Text.isOneLine_iff]
  intro mem
  exact absurd (short _ mem) (by decide)

private theorem isOneLine_listed (quote : Quote) {attr : Attribute}
    (oneLine : attr.isOneLine = true) (constantTrue : Bool) :
    (listed [quote.mark] attr constantTrue).isOneLine = true := by
  simp only [isOneLine, Bool.and_eq_true] at oneLine
  have name : (writtenName [quote.mark] attr.name).isOneLine = true := by
    unfold writtenName
    split
    · exact oneLine.1
    · exact Text.isOneLine_quote quote (Text.isOneLine_doubleBackslashes oneLine.1)
  unfold listed
  split
  · exact name
  · rw [Text.isOneLine_append, Text.isOneLine_append, name, oneLine.2]
    cases attr.escaped <;> rfl

private theorem isOneLine_placeOf {quote : Quote} {limit : Nat} {attr : Attribute}
    (oneLine : attr.isOneLine = true) (idTaken : Bool) :
    (placeOf [quote.mark] limit idTaken attr).text.isOneLine = true := by
  have named := placeOf_isNamed [quote.mark] limit idTaken attr
  revert named
  unfold placeOf
  split
  · exact isOneLine_of_isShorthand
  · split
    · exact fun named => isOneLine_of_isShorthand named.2
    · exact fun _ => isOneLine_listed quote oneLine _

private theorem isOneLine_placeAll {quote : Quote} {limit : Nat} {attrs : List Attribute}
    {idTaken : Bool} {placed : List Placed} (oneLine : ∀ attr ∈ attrs, attr.isOneLine = true)
    (ended : (placeAll [quote.mark] limit idTaken attrs).result = .ok placed) :
    ∀ p ∈ placed, p.text.isOneLine = true := by
  rw [eq_places ended]
  exact forall_mem_places idTaken fun attr member => isOneLine_placeOf (oneLine attr member)

private theorem isOneLine_assemble {placed : List Placed}
    (oneLine : ∀ p ∈ placed, p.text.isOneLine = true) :
    (assemble placed).isOneLine = true := by
  have ids : (idPart placed).isOneLine = true := by
    refine Text.isOneLine_flatMap fun p mem => ?_
    have own := oneLine p mem
    cases p <;> simp_all [Placed.text]
  have classes : (classPart placed).isOneLine = true := by
    refine Text.isOneLine_flatMap fun p mem => ?_
    have own := oneLine p mem
    cases p <;> simp_all [Placed.text]
  have lists : ∀ t ∈ listedTexts placed, t.isOneLine = true := by
    intro t mem
    obtain ⟨p, inPlaced, isText⟩ := List.mem_filterMap.mp mem
    cases p with
    | listed text =>
      cases isText
      exact oneLine _ inPlaced
    | id name => cases isText
    | className name => cases isText
  simp only [assemble, Text.isOneLine_append, ids, classes, Bool.true_and]
  split
  · rfl
  · exact Text.isOneLine_between (by decide) (by decide) (Text.isOneLine_join rfl lists)

private theorem isOneLine_render {quote : Quote} {attrs : Attributes} {text : Text}
    (oneLine : areOneLine attrs = true) (ended : (render [quote.mark] attrs).result = .ok text) :
    text.isOneLine = true := by
  cases attrs with
  | of items =>
    rw [areOneLine, List.all_eq_true] at oneLine
    obtain ⟨rendered, all, ended⟩ := (Run.bind_result_eq_ok_iff _ _ _).mp ended
    obtain ⟨placed, isPlaced, assembled⟩ := (Run.bind_result_eq_ok_iff _ _ _).mp all
    cases assembled
    split at ended
    · cases ended
      exact isOneLine_assemble (isOneLine_placeAll oneLine isPlaced)
    · obtain ⟨_, _, ended⟩ := (Run.bind_result_eq_ok_iff _ _ _).mp ended
      cases ended
  | odd value =>
    simp only [render] at ended
    split at ended
    · cases ended
      rfl
    · cases ended

private theorem isOneLine_renderExprs {exprs : List Text}
    (oneLine : ∀ expr ∈ exprs, expr.isOneLine = true) :
    (renderExprs exprs).isOneLine = true := by
  refine Text.isOneLine_flatMap fun expr mem => ?_
  exact Text.isOneLine_append_of (Text.isOneLine_append_of rfl (oneLine expr mem)) rfl

private theorem isOneLine_renderBlocks {blocks : AttributeBlocks} {text : Text}
    (oneLine : blocksAreOneLine blocks = true) (written : renderBlocks blocks = .ok text) :
    text.isOneLine = true := by
  cases blocks with
  | of exprs =>
    cases written
    rw [blocksAreOneLine, List.all_eq_true] at oneLine
    exact isOneLine_renderExprs (by simpa using oneLine)
  | odd value =>
    simp only [renderBlocks] at written
    split at written
    · rename_i items isItems
      cases written
      rw [blocksAreOneLine, isItems, Option.getD_some, List.all_eq_true] at oneLine
      exact isOneLine_renderExprs (by simpa using oneLine)
    · cases written

end Attribute

/-- Whether a head without children holds no line feed, other than in the value of a text. -/
def Leaf.isOneLine : Leaf → Bool
  | mixinBlock | bare => true
  | text _ _ => true
  | comment val _ => val.shown.isOneLine
  | doctype val => val.shown.isOneLine
  | fileReference path => path.shown.isOneLine

/-- Whether the name and the mode of a sequence hold no line feed. -/
def BlockKind.isOneLine : BlockKind → Bool
  | plain => true
  | named name mode => name.shown.isOneLine && mode.shown.isOneLine

/-- Whether the head of a mixin holds no line feed. -/
def MixinHead.isOneLine (head : MixinHead) : Bool :=
  head.name.shown.isOneLine && head.args.shown.isOneLine && Attribute.areOneLine head.attrs
    && Attribute.blocksAreOneLine head.attributeBlocks

/-- Whether a head with one slot holds no line feed. -/
def Stem.isOneLine : Stem → Bool
  | mixin head => head.isOneLine
  | code head => head.val.shown.isOneLine
  | blockComment val _ => val.shown.isOneLine
  | caseOf expr => expr.shown.isOneLine
  | when expr => expr.shown.isOneLine
  | whileLoop test => test.shown.isOneLine
  | extending => true
  | filter name attrs => name.shown.isOneLine && Attribute.areOneLine attrs

def TagHead.isOneLine (head : TagHead) : Bool :=
  head.name.shown.isOneLine && Attribute.areOneLine head.attrs
    && Attribute.blocksAreOneLine head.attributeBlocks

/-- Whether a head with two slots holds no line feed. -/
def Fork.isOneLine : Fork → Bool
  | tag head => head.isOneLine
  | conditional test => test.shown.isOneLine
  | each val obj key => val.shown.isOneLine && obj.shown.isOneLine && key.shown.isOneLine
  | inclusion filter attrs => filter.shown.isOneLine && Attribute.areOneLine attrs

mutual

/-- Whether no field of a tree holds a line feed, other than the values of texts. -/
def Node.isOneLine : Node → Bool
  | .leaf _ head => head.isOneLine
  | .block _ kind _ nodes => kind.isOneLine && areOneLine nodes
  | .oddBlock _ kind _ _ => kind.isOneLine
  | .stem _ head child => head.isOneLine && slotIsOneLine child
  | .fork _ head first second => head.isOneLine && slotIsOneLine first && slotIsOneLine second
  | .stray _ => true
termination_by structural node => node

def Node.areOneLine : List Node → Bool
  | [] => true
  | n :: rest => n.isOneLine && areOneLine rest
termination_by structural nodes => nodes

def Node.slotIsOneLine : Option Node → Bool
  | none => true
  | some n => n.isOneLine
termination_by structural child => child

end

namespace Node

private theorem areOneLine_append (first second : List Node) :
    areOneLine (first ++ second) = (areOneLine first && areOneLine second) := by
  induction first with
  | nil => rfl
  | cons n first ih => rw [List.cons_append, areOneLine, areOneLine, ih, Bool.and_assoc]

private theorem areOneLine_map_stray (values : List Json) :
    areOneLine (values.map .stray) = true := by
  induction values with
  | nil => rfl
  | cons value values ih => exact ih

private theorem areOneLine_spliced {n : Node} (oneLine : n.isOneLine = true) :
    areOneLine n.spliced = true := by
  unfold spliced
  split
  · cases n with
    | block loc kind yields nodes =>
      rw [isOneLine, Bool.and_eq_true] at oneLine
      exact oneLine.2
    | oddBlock loc kind yields value => exact areOneLine_map_stray _
    | _ => rfl
  · rw [areOneLine, oneLine]
    rfl

mutual

theorem isOneLine_normalForm :
    ∀ n : Node, n.isOneLine = true → n.normalForm.isOneLine = true
  | .leaf _ _, oneLine => oneLine
  | .oddBlock _ _ _ _, oneLine => oneLine
  | .stray _, oneLine => oneLine
  | .block loc kind yields nodes, oneLine => by
    simp only [isOneLine, Bool.and_eq_true] at oneLine
    simp only [normalForm, isOneLine, Bool.and_eq_true]
    exact ⟨oneLine.1, areOneLine_normalForms nodes oneLine.2⟩
  | .stem loc head child, oneLine => by
    simp only [isOneLine, Bool.and_eq_true] at oneLine
    simp only [normalForm, isOneLine, Bool.and_eq_true]
    exact ⟨oneLine.1, slotIsOneLine_normalSlot child oneLine.2⟩
  | .fork loc head first second, oneLine => by
    simp only [isOneLine, Bool.and_eq_true] at oneLine
    simp only [normalForm, isOneLine, Bool.and_eq_true]
    exact ⟨⟨oneLine.1.1, slotIsOneLine_normalSlot first oneLine.1.2⟩,
      slotIsOneLine_normalSlot second oneLine.2⟩
termination_by structural n => n

private theorem areOneLine_normalForms : ∀ nodes : List Node, areOneLine nodes = true →
    areOneLine ((normalForms nodes).flatMap spliced) = true
  | [], _ => rfl
  | n :: rest, oneLine => by
    simp only [areOneLine, Bool.and_eq_true] at oneLine
    rw [normalForms, List.flatMap_cons, areOneLine_append, Bool.and_eq_true]
    exact ⟨areOneLine_spliced (isOneLine_normalForm n oneLine.1),
      areOneLine_normalForms rest oneLine.2⟩
termination_by structural nodes => nodes

private theorem slotIsOneLine_normalSlot : ∀ child : Option Node, slotIsOneLine child = true →
    slotIsOneLine (normalSlot child) = true
  | none, _ => rfl
  | some n, oneLine => isOneLine_normalForm n oneLine
termination_by structural child => child

end

private theorem areOneLine_iff {nodes : List Node} :
    areOneLine nodes = true ↔ ∀ n ∈ nodes, n.isOneLine = true := by
  induction nodes with
  | nil => exact ⟨fun _ => nofun, fun _ => rfl⟩
  | cons n rest ih => rw [areOneLine, Bool.and_eq_true, ih, List.forall_mem_cons]

private theorem isOneLine_of_mem_children {n : Node} (oneLine : n.isOneLine = true) :
    ∀ c ∈ n.children, c.isOneLine = true := by
  cases n with
  | leaf | oddBlock | stray => nofun
  | block loc kind yields nodes =>
    simp only [isOneLine, Bool.and_eq_true] at oneLine
    exact areOneLine_iff.mp oneLine.2
  | stem loc head child =>
    simp only [isOneLine, Bool.and_eq_true] at oneLine
    rintro c member
    rw [Option.mem_toList.mp member] at oneLine
    exact oneLine.2
  | fork loc head first second =>
    simp only [isOneLine, Bool.and_eq_true] at oneLine
    rintro c member
    rcases List.mem_append.mp member with inFirst | inSecond
    · rw [Option.mem_toList.mp inFirst] at oneLine
      exact oneLine.1.2
    · rw [Option.mem_toList.mp inSecond] at oneLine
      exact oneLine.2

theorem isOneLine_of_mem_subtrees {n : Node} (oneLine : n.isOneLine = true) :
    ∀ m ∈ n.subtrees, m.isOneLine = true :=
  forall_subtrees_of_inherited (fun _ => isOneLine_of_mem_children) n oneLine

end Node

def Piece.isOneLine : Piece → Bool
  | .markup text => text.isOneLine
  | _ => true

namespace Emission

abbrev IsOneLine (emission : Emission) : Prop :=
  emission.Yields (fun piece => piece.isOneLine = true) fun _ => True

/-- Written words that hold no line feed, like all markup on the way to them. -/
private abbrev IsOneLineText (run : Run Piece Text) : Prop :=
  run.Yields (fun piece => piece.isOneLine = true) fun text => text.isOneLine = true

private theorem isOneLine_put {pieces : List Piece}
    (all : ∀ piece ∈ pieces, piece.isOneLine = true) :
    IsOneLine (Run.put pieces) :=
  ⟨all, fun _ _ => trivial⟩

private theorem isOneLine_nothing : IsOneLine nothing :=
  Run.yields_pure trivial

private theorem isOneLine_refuse (error : TreeError) : IsOneLine (refuse error) :=
  Run.yields_fail _

private theorem isOneLine_unsupported : IsOneLine unsupported :=
  Run.yields_fail _

private theorem isOneLine_append {text : Text} (oneLine : text.isOneLine = true) :
    IsOneLine (append text) :=
  isOneLine_put (by simpa [Piece.isOneLine] using oneLine)

private theorem isOneLine_newLine (depth : Int) {text : Text} (oneLine : text.isOneLine = true) :
    IsOneLine (newLine depth text) :=
  isOneLine_put (by simpa [Piece.isOneLine] using oneLine)

private theorem isOneLine_head (inline : Bool) (depth : Int) {text : Text}
    (oneLine : text.isOneLine = true) :
    IsOneLine (head inline depth text) :=
  .ite (fun _ => isOneLine_append oneLine) fun _ => isOneLine_newLine depth oneLine

private theorem isOneLine_bracketed {brackets : Bool} {inner : Emission}
    (oneLine : IsOneLine inner) :
    IsOneLine (bracketed brackets inner) :=
  .ite (fun _ => (isOneLine_append rfl).bind fun _ _ => oneLine.bind fun _ _ => isOneLine_append rfl)
    fun _ => oneLine

end Emission

open Emission

namespace Emit

variable {style : Style} {spot : Spot}

private theorem attributes_oneLine {attrs : Attributes}
    (oneLine : Attribute.areOneLine attrs = true) :
    IsOneLineText (attributes style attrs) := by
  refine ⟨fun piece mem => ?_, fun text ended => Attribute.isOneLine_render oneLine ended⟩
  obtain ⟨source, _, rfl⟩ := List.mem_map.mp mem
  rfl

private theorem attributeBlocks_oneLine {blocks : AttributeBlocks}
    (oneLine : Attribute.blocksAreOneLine blocks = true) : IsOneLineText (attributeBlocks blocks) :=
  Run.yields_ofExcept fun _ => Attribute.isOneLine_renderBlocks oneLine

private theorem tagName_oneLine (tag : TagHead) {name attrs : Text}
    (oneLine : name.isOneLine = true) :
    (tagName tag name attrs).isOneLine = true := by
  have slash : (if tag.selfClosing.isOn then ("/" : Text) else []).isOneLine = true := by
    split <;> rfl
  simp only [tagName, Text.isOneLine_append, slash, Bool.and_true]
  split
  · simpa using Text.isOneLine_between (by decide) (by decide) oneLine
  · split
    · exact oneLine
    · rfl

private theorem tagHead_oneLine {head : TagHead} (oneLine : head.isOneLine = true) :
    IsOneLineText (tagHead style head) := by
  simp only [TagHead.isOneLine, Bool.and_eq_true] at oneLine
  obtain ⟨⟨name, attrs⟩, blocks⟩ := oneLine
  refine (attributes_oneLine attrs).bind fun written written_oneLine => ?_
  refine (attributeBlocks_oneLine blocks).bind fun added added_oneLine => ?_
  split
  · rename_i own isName
    have ownLine : own.isOneLine = true := by rwa [isName] at name
    exact Run.yields_pure (Text.isOneLine_append_of (tagName_oneLine head ownLine)
      (Text.isOneLine_append_of written_oneLine added_oneLine))
  · exact Run.yields_fail _

private theorem mixinArgs_oneLine {args : Loose Text} (oneLine : args.shown.isOneLine = true) :
    (mixinArgs args).isOneLine = true := by
  unfold mixinArgs
  split
  · exact Text.isOneLine_between (by decide) (by decide) oneLine
  · rfl

private theorem callHead_oneLine {m : MixinHead} (oneLine : m.isOneLine = true) :
    IsOneLineText (callHead style m) := by
  simp only [MixinHead.isOneLine, Bool.and_eq_true] at oneLine
  obtain ⟨⟨⟨name, args⟩, attrs⟩, blocks⟩ := oneLine
  refine (attributes_oneLine attrs).bind fun written written_oneLine => ?_
  refine (attributeBlocks_oneLine blocks).bind fun added added_oneLine => Run.yields_pure ?_
  simp only [Text.isOneLine_append, name, mixinArgs_oneLine args, written_oneLine, added_oneLine]
  rfl

private theorem filterHead_oneLine {attrs : Attributes} {name : Loose Text}
    (nameLine : name.shown.isOneLine = true) (attrsLine : Attribute.areOneLine attrs = true) :
    IsOneLineText (filterHead style attrs name) := by
  cases name with
  | of name =>
    exact (attributes_oneLine attrsLine).bind fun written written_oneLine =>
      Run.yields_pure (Text.isOneLine_append_of (Text.isOneLine_append_of rfl nameLine)
        written_oneLine)
  | odd value => exact Run.yields_fail _

private theorem inclusionFilter_oneLine {attrs : Attributes} {name : Loose Text}
    (nameLine : name.shown.isOneLine = true) (attrsLine : Attribute.areOneLine attrs = true) :
    IsOneLine (inclusionFilter style attrs name) :=
  .ite (fun _ => (filterHead_oneLine nameLine attrsLine).bind fun _ written =>
    isOneLine_append written) fun _ => isOneLine_nothing

private theorem commentMark_oneLine (buffer : Loose Bool) :
    (commentMark buffer).isOneLine = true := by
  unfold commentMark
  split <;> rfl

private theorem leaf_oneLine (node : Node) {head : Leaf} (oneLine : head.isOneLine = true) :
    IsOneLine (leaf spot node head) := by
  cases head with
  | mixinBlock => exact isOneLine_newLine _ rfl
  | bare => exact isOneLine_refuse _
  | doctype val =>
    refine isOneLine_newLine _ ?_
    split
    · exact Text.isOneLine_append_of rfl oneLine
    · rfl
  | comment val buffer =>
    cases val with
    | of val =>
      exact isOneLine_newLine _ (Text.isOneLine_append_of (commentMark_oneLine buffer) oneLine)
    | odd value => exact isOneLine_unsupported
  | fileReference path =>
    cases path with
    | of path => exact isOneLine_append oneLine
    | odd value => exact .ite (fun _ => isOneLine_unsupported) fun _ => isOneLine_nothing
  | text val isHtml =>
    cases val with
    | of val =>
      refine .ite (fun _ => ?_) fun _ => ?_
      · refine .ite (fun _ => isOneLine_refuse _) fun _ => isOneLine_put ?_
        simp [Piece.isOneLine]
      · refine .ite (fun _ => isOneLine_put (by simp [Piece.isOneLine])) fun _ => ?_
        refine .ite (fun _ => isOneLine_put ?_) fun _ => ?_
        · exact List.forall_mem_cons.mpr ⟨rfl, List.forall_mem_cons.mpr ⟨rfl, by simp [Piece.isOneLine]⟩⟩
        · refine .ite (fun _ => isOneLine_nothing) fun _ => isOneLine_put ?_
          exact List.forall_mem_cons.mpr ⟨rfl, List.forall_mem_cons.mpr ⟨rfl, by simp [Piece.isOneLine]⟩⟩
    | odd value =>
      refine .ite (fun _ => ?_) fun _ => ?_
      · exact .ite (fun _ => isOneLine_refuse _) fun _ => isOneLine_unsupported
      · exact .ite (fun _ => isOneLine_unsupported) fun _ => isOneLine_nothing

private theorem codeOperator_oneLine (code : CodeHead) : (codeOperator code).isOneLine = true := by
  unfold codeOperator
  split
  · rfl
  · split <;> rfl

private theorem interpolatedCode_oneLine (code : CodeHead) {val : Text}
    (oneLine : val.isOneLine = true) :
    (interpolatedCode code val).isOneLine = true := by
  unfold interpolatedCode
  split
  · rw [Text.isOneLine_cons, Text.isOneLine_between (by decide) (by decide) oneLine]
    split <;> rfl
  · have inner : (("- " : Text) ++ val).isOneLine = true := Text.isOneLine_append_of rfl oneLine
    rw [Text.isOneLine_cons, Text.isOneLine_between (by decide) (by decide) inner]
    rfl

private theorem rawBlock_oneLine (depth : Int) {lines : Int → Emission}
    (linesOneLine : ∀ depth, IsOneLine (lines depth)) : IsOneLine (rawBlock depth lines) :=
  (isOneLine_newLine _ rfl).bind fun _ _ => linesOneLine _

section Contents

variable {owner : Node} {block : Option Node} {inner chained code : Spot → Emission}
  {lines : Int → Emission} (innerOneLine : ∀ spot, IsOneLine (inner spot))

include innerOneLine in
private theorem code_oneLine {head : CodeHead} (oneLine : head.val.shown.isOneLine = true) :
    IsOneLine (Emit.code spot owner head inner) := by
  unfold Emit.code
  split
  · exact isOneLine_unsupported
  · rename_i val isVal
    have valLine : val.isOneLine = true := by rwa [isVal] at oneLine
    have spaced : Text.isOneLine (.scalar ' ' :: val) = true := valLine
    refine .ite (fun _ => isOneLine_append (interpolatedCode_oneLine head valLine)) fun _ => ?_
    refine (isOneLine_head _ _ (codeOperator_oneLine head)).bind fun _ _ => ?_
    refine .ite (fun _ => ?_) fun _ => ?_
    · exact (isOneLine_put (by simp [Piece.isOneLine])).bind fun _ _ => innerOneLine _
    · exact (isOneLine_append spaced).bind fun _ _ => innerOneLine _

include innerOneLine in
private theorem ownContent_oneLine (block : Node) :
    IsOneLine (ownContent style spot owner block inner) := by
  unfold ownContent
  split
  · exact isOneLine_unsupported
  · exact isOneLine_nothing
  · split
    · exact isOneLine_unsupported
    · exact .ite (fun _ => (isOneLine_append rfl).bind fun _ _ => innerOneLine _)
        fun _ => innerOneLine _

include innerOneLine in
private theorem tag_oneLine {head : TagHead} (oneLine : head.isOneLine = true)
    (codeOneLine : ∀ spot, IsOneLine (code spot)) :
    IsOneLine (tag style spot owner head block code inner) := by
  unfold tag
  split
  · exact isOneLine_refuse _
  · refine (tagHead_oneLine oneLine).bind fun text written => isOneLine_bracketed ?_
    exact (isOneLine_head _ _ written).bind fun _ _ => (codeOneLine _).bind fun _ _ =>
      ownContent_oneLine innerOneLine _

include innerOneLine in
private theorem mixin_oneLine {m : MixinHead} (oneLine : m.isOneLine = true) :
    IsOneLine (mixin style spot owner m block inner) := by
  refine .ite (fun _ => ?_) fun _ => ?_
  · refine (callHead_oneLine oneLine).bind fun text written => isOneLine_bracketed ?_
    refine (isOneLine_head _ _ written).bind fun _ _ => ?_
    split
    · exact isOneLine_nothing
    · exact ownContent_oneLine innerOneLine _
  · refine (isOneLine_newLine _ ?_).bind fun _ _ => innerOneLine _
    simp only [MixinHead.isOneLine, Bool.and_eq_true] at oneLine
    simp only [Text.isOneLine_append, oneLine.1.1.1, mixinArgs_oneLine oneLine.1.1.2]
    rfl

include innerOneLine in
private theorem when_oneLine {expr : Loose Text} (oneLine : expr.shown.isOneLine = true) :
    IsOneLine (when spot owner expr block inner) := by
  refine (isOneLine_newLine _ ?_).bind fun _ _ => ?_
  · split
    · rfl
    · exact Text.isOneLine_append_of rfl oneLine
  · split
    · exact isOneLine_nothing
    · split
      · exact isOneLine_unsupported
      · exact isOneLine_newLine _ rfl
      · exact innerOneLine _

private theorem blockComment_oneLine {val : Loose Text} (oneLine : val.shown.isOneLine = true)
    (buffer : Loose Bool) (linesOneLine : ∀ depth, IsOneLine (lines depth)) :
    IsOneLine (blockComment spot owner val buffer block lines) := by
  unfold blockComment
  split
  · exact isOneLine_refuse _
  · have head : IsOneLineText (.ofExcept (blockCommentHead buffer val)) := by
      refine Run.yields_ofExcept fun text written => ?_
      cases val with
      | of val =>
        cases written
        exact Text.isOneLine_append_of (commentMark_oneLine buffer) oneLine
      | odd value =>
        simp only [blockCommentHead] at written
        split at written
        · cases written
        · cases written
          exact commentMark_oneLine buffer
    exact head.bind fun _ written => (isOneLine_newLine _ written).bind fun _ _ =>
      rawBlock_oneLine _ linesOneLine

include innerOneLine in
private theorem filter_oneLine {name : Loose Text} {attrs : Attributes}
    (nameLine : name.shown.isOneLine = true) (attrsLine : Attribute.areOneLine attrs = true)
    (chainedOneLine : ∀ spot, IsOneLine (chained spot))
    (linesOneLine : ∀ depth, IsOneLine (lines depth)) :
    IsOneLine (filter style spot owner name attrs block chained inner lines) := by
  unfold filter
  split
  · exact isOneLine_refuse _
  · refine (filterHead_oneLine nameLine attrsLine).bind fun text written => isOneLine_bracketed ?_
    refine (isOneLine_head _ _ written).bind fun _ _ => ?_
    split
    · exact isOneLine_unsupported
    · exact isOneLine_nothing
    · refine .ite (fun _ => ?_) fun _ => .ite (fun _ => ?_) fun _ => ?_
      · exact .ite (fun _ => chainedOneLine _) fun _ => isOneLine_refuse _
      · exact .ite (fun _ => (isOneLine_append rfl).bind fun _ _ => innerOneLine _)
          fun _ => innerOneLine _
      · exact rawBlock_oneLine _ linesOneLine

private theorem content_oneLine {run : Int → Bool → Bool → Emission} (yields : Loose Bool)
    (nodes : List Node) (linesOneLine : ∀ depth, IsOneLine (lines depth))
    (runOneLine : ∀ depth nested inline, IsOneLine (run depth nested inline)) :
    IsOneLine (content style spot yields nodes lines run) := by
  refine .ite (fun _ => isOneLine_newLine _ rfl) fun _ => ?_
  split
  · exact isOneLine_unsupported
  · split
    · exact (isOneLine_append rfl).bind fun _ _ => rawBlock_oneLine _ linesOneLine
    · exact (isOneLine_append rfl).bind fun _ _ => rawBlock_oneLine _ linesOneLine
    · exact (isOneLine_newLine _ rfl).bind fun _ _ => rawBlock_oneLine _ linesOneLine
  · exact .ite (fun _ => (isOneLine_append rfl).bind fun _ _ => runOneLine _ _ _)
      fun _ => runOneLine _ _ _

end Contents

private theorem oddContent_oneLine (depth : Int) (yields : Loose Bool) (value : Json) :
    IsOneLine (oddContent depth yields value) := by
  refine .ite (fun _ => isOneLine_newLine _ rfl) fun _ => ?_
  split
  · exact isOneLine_nothing
  · exact isOneLine_unsupported

private theorem oddLines_oneLine (block : Node) (value : Json) :
    IsOneLine (oddLines block value) := by
  unfold oddLines
  split
  · exact isOneLine_nothing
  · exact isOneLine_refuse _
  · exact isOneLine_unsupported

private theorem namedBlockHead_oneLine {name mode : Loose Text}
    (nameLine : name.shown.isOneLine = true) (modeLine : mode.shown.isOneLine = true) :
    (namedBlockHead name mode).isOneLine = true := by
  rw [namedBlockHead, Text.isOneLine_append, Text.isOneLine_append, nameLine]
  split
  · rfl
  · rw [modeLine]
    rfl

private theorem eachHead_oneLine {val obj key : Loose Text} (valLine : val.shown.isOneLine = true)
    (objLine : obj.shown.isOneLine = true) (keyLine : key.shown.isOneLine = true) :
    (eachHead val obj key).isOneLine = true := by
  have keyPart : (if key.isGiven then (", " : Text) ++ key.shown else []).isOneLine = true := by
    split
    · exact Text.isOneLine_append_of rfl keyLine
    · rfl
  simp only [eachHead, Text.isOneLine_append, valLine, objLine, keyPart]
  rfl

private theorem alternate_oneLine {other : Node} (apart : other.isKind .conditional = false)
    (oneLine : ∀ spot, IsOneLine (emit style spot other)) :
    IsOneLine (emitAlternate style spot (some other)) := by
  rw [emitAlternate_of_not_conditional apart]
  exact (isOneLine_newLine _ rfl).bind fun _ _ => oneLine _

end Emit

section Trees

variable (style : Style)

mutual

/-- The markup of a tree of one line holds no line feed. -/
theorem emit_oneLine :
    ∀ n : Node, n.isOneLine = true → ∀ spot : Spot, IsOneLine (emit style spot n)
  | .stray _, _, _ => isOneLine_refuse _
  | .leaf loc head, oneLine, spot => @Emit.leaf_oneLine spot (.leaf loc head) head oneLine
  | .block loc kind yields nodes, oneLine, spot => by
    simp only [Node.isOneLine, Bool.and_eq_true] at oneLine
    have runOneLine (depth : Int) (nested inline : Bool) := emitRun_oneLine nodes oneLine.2
      { depth, nested, parent := some (.block loc kind yields nodes), inline }
    have linesOneLine (depth : Int) :=
      emitLines_oneLine (.block loc kind yields nodes) nodes oneLine.2 depth spot.nested false
    cases kind with
    | plain =>
      simp only [emit]
      exact Emit.content_oneLine yields nodes linesOneLine runOneLine
    | named name mode =>
      simp only [BlockKind.isOneLine, Bool.and_eq_true] at oneLine
      simp only [emit]
      exact (isOneLine_newLine _ (Emit.namedBlockHead_oneLine oneLine.1.1 oneLine.1.2)).bind
        fun _ _ => Emit.content_oneLine yields nodes linesOneLine runOneLine
  | .oddBlock loc kind yields value, oneLine, spot => by
    cases kind with
    | plain => exact Emit.oddContent_oneLine _ _ _
    | named name mode =>
      simp only [Node.isOneLine, BlockKind.isOneLine, Bool.and_eq_true] at oneLine
      exact (isOneLine_newLine _ (Emit.namedBlockHead_oneLine oneLine.1 oneLine.2)).bind
        fun _ _ => Emit.oddContent_oneLine _ _ _
  | .stem loc (.mixin m) block, oneLine, spot => by
    simp only [Node.isOneLine, Bool.and_eq_true] at oneLine
    simp only [emit]
    exact Emit.mixin_oneLine (emitOptional_oneLine block oneLine.2) oneLine.1
  | .stem loc (.code head) block, oneLine, spot => by
    simp only [Node.isOneLine, Bool.and_eq_true] at oneLine
    simp only [emit]
    exact Emit.code_oneLine (emitOptional_oneLine block oneLine.2) oneLine.1
  | .stem loc (.blockComment val buffer) block, oneLine, spot => by
    simp only [Node.isOneLine, Bool.and_eq_true] at oneLine
    simp only [emit]
    exact Emit.blockComment_oneLine oneLine.1 buffer fun depth =>
      emitBlockLines_oneLine block oneLine.2 depth spot.nested
  | .stem loc (.caseOf expr) block, oneLine, spot => by
    simp only [Node.isOneLine, Bool.and_eq_true] at oneLine
    have headLine : (("case " : Text) ++ expr.shown).isOneLine = true :=
      Text.isOneLine_append_of rfl oneLine.1
    simp only [emit]
    exact (isOneLine_newLine _ headLine).bind fun _ _ => emitChild_oneLine block oneLine.2 _
  | .stem loc (.when expr) block, oneLine, spot => by
    simp only [Node.isOneLine, Bool.and_eq_true] at oneLine
    simp only [emit]
    exact Emit.when_oneLine (emitOptional_oneLine block oneLine.2) oneLine.1
  | .stem loc (.whileLoop test) block, oneLine, spot => by
    simp only [Node.isOneLine, Bool.and_eq_true] at oneLine
    have headLine : (("while " : Text) ++ test.shown).isOneLine = true :=
      Text.isOneLine_append_of rfl oneLine.1
    simp only [emit]
    exact (isOneLine_newLine _ headLine).bind fun _ _ => emitChild_oneLine block oneLine.2 _
  | .stem loc .extending file, oneLine, spot => by
    simp only [Node.isOneLine, Bool.and_eq_true] at oneLine
    simp only [emit]
    exact (isOneLine_newLine _ rfl).bind fun _ _ => emitChild_oneLine file oneLine.2 _
  | .stem loc (.filter name attrs) block, oneLine, spot => by
    simp only [Node.isOneLine, Stem.isOneLine, Bool.and_eq_true] at oneLine
    simp only [emit]
    exact Emit.filter_oneLine (emitOptional_oneLine block oneLine.2) oneLine.1.1 oneLine.1.2
      (emitChildren_oneLine block oneLine.2) fun depth =>
        emitBlockLines_oneLine block oneLine.2 depth spot.nested
  | .fork loc (.tag head) block code, oneLine, spot => by
    simp only [Node.isOneLine, Bool.and_eq_true] at oneLine
    simp only [emit]
    exact Emit.tag_oneLine (emitOptional_oneLine block oneLine.1.2) oneLine.1.1
      (emitTagCode_oneLine code oneLine.2)
  | .fork loc (.conditional test) yes no, oneLine, spot => by
    simp only [Node.isOneLine, Bool.and_eq_true] at oneLine
    have headLine : (("if " : Text) ++ test.shown).isOneLine = true :=
      Text.isOneLine_append_of rfl oneLine.1.1
    simp only [emit]
    exact (isOneLine_newLine _ headLine).bind fun _ _ =>
      (emitChild_oneLine yes oneLine.1.2 _).bind fun _ _ => emitAlternate_oneLine no oneLine.2 _
  | .fork loc (.each val obj key) block alternative, oneLine, spot => by
    simp only [Node.isOneLine, Fork.isOneLine, Bool.and_eq_true] at oneLine
    have headLine := Emit.eachHead_oneLine oneLine.1.1.1.1 oneLine.1.1.1.2 oneLine.1.1.2
    simp only [emit]
    refine (isOneLine_newLine _ headLine).bind fun _ _ =>
      (emitChild_oneLine block oneLine.1.2 _).bind fun _ _ => ?_
    exact .ite (fun _ => (isOneLine_newLine _ rfl).bind fun _ _ =>
      emitOptional_oneLine alternative oneLine.2 _) fun _ =>
        emitOptional_oneLine alternative oneLine.2 _
  | .fork loc (.inclusion filter attrs) file block, oneLine, spot => by
    simp only [Node.isOneLine, Fork.isOneLine, Bool.and_eq_true] at oneLine
    simp only [emit]
    exact (isOneLine_newLine _ rfl).bind fun _ _ =>
      (Emit.inclusionFilter_oneLine oneLine.1.1.1 oneLine.1.1.2).bind fun _ _ =>
      (isOneLine_append rfl).bind fun _ _ => (emitChild_oneLine file oneLine.1.2 _).bind fun _ _ =>
      emitOptional_oneLine block oneLine.2 _
termination_by structural n => n

private theorem emitChild_oneLine : ∀ child : Option Node, Node.slotIsOneLine child = true →
    ∀ spot : Spot, IsOneLine (emitChild style spot child)
  | none, _, _ => isOneLine_refuse _
  | some n, oneLine, spot => emit_oneLine n oneLine spot
termination_by structural child => child

private theorem emitOptional_oneLine : ∀ child : Option Node, Node.slotIsOneLine child = true →
    ∀ spot : Spot, IsOneLine (emitOptional style spot child)
  | none, _, _ => isOneLine_nothing
  | some n, oneLine, spot => emit_oneLine n oneLine spot
termination_by structural child => child

private theorem emitChildren_oneLine : ∀ child : Option Node, Node.slotIsOneLine child = true →
    ∀ spot : Spot, IsOneLine (emitChildren style spot child)
  | some (.block _ _ _ nodes), oneLine, spot =>
    emitRun_oneLine nodes (Bool.and_eq_true _ _ ▸ oneLine).2 spot
  | none, _, _ => isOneLine_unsupported
  | some (.leaf _ _), _, _ => isOneLine_unsupported
  | some (.oddBlock _ _ _ _), _, _ => isOneLine_unsupported
  | some (.stem _ _ _), _, _ => isOneLine_unsupported
  | some (.fork _ _ _ _), _, _ => isOneLine_unsupported
  | some (.stray _), _, _ => isOneLine_unsupported
termination_by structural child => child

private theorem emitBlockLines_oneLine : ∀ child : Option Node, Node.slotIsOneLine child = true →
    ∀ (depth : Int) (nested : Bool), IsOneLine (emitBlockLines style depth nested child)
  | some (.block loc kind yields nodes), oneLine, depth, nested =>
    emitLines_oneLine (.block loc kind yields nodes) nodes (Bool.and_eq_true _ _ ▸ oneLine).2 depth
      nested true
  | some (.oddBlock _ _ _ _), _, _, _ => Emit.oddLines_oneLine _ _
  | none, _, _, _ => isOneLine_unsupported
  | some (.leaf _ _), _, _, _ => isOneLine_unsupported
  | some (.stem _ _ _), _, _, _ => isOneLine_unsupported
  | some (.fork _ _ _ _), _, _, _ => isOneLine_unsupported
  | some (.stray _), _, _, _ => isOneLine_unsupported
termination_by structural child => child

private theorem emitTagCode_oneLine : ∀ child : Option Node, Node.slotIsOneLine child = true →
    ∀ spot : Spot, IsOneLine (emitTagCode style spot child)
  | none, _, _ => isOneLine_nothing
  | some (.stem _ (.code head) body), oneLine, _ => by
    have parts := Bool.and_eq_true _ _ ▸ oneLine
    exact Emit.code_oneLine (emitOptional_oneLine body parts.2) parts.1
  | some (.stem _ (.blockComment val _) body), oneLine, _ => by
    have parts := Bool.and_eq_true _ _ ▸ oneLine
    exact .ite (fun _ => isOneLine_unsupported) fun _ =>
      Emit.code_oneLine (emitOptional_oneLine body parts.2) parts.1
  | some (.stem _ (.mixin _) _), _, _ => isOneLine_unsupported
  | some (.stem _ (.caseOf _) _), _, _ => isOneLine_unsupported
  | some (.stem _ (.when _) _), _, _ => isOneLine_unsupported
  | some (.stem _ (.whileLoop _) _), _, _ => isOneLine_unsupported
  | some (.stem _ .extending _), _, _ => isOneLine_unsupported
  | some (.stem _ (.filter _ _) _), _, _ => isOneLine_unsupported
  | some (.leaf _ _), _, _ => isOneLine_unsupported
  | some (.block _ _ _ _), _, _ => isOneLine_unsupported
  | some (.oddBlock _ _ _ _), _, _ => isOneLine_unsupported
  | some (.fork _ _ _ _), _, _ => isOneLine_unsupported
  | some (.stray _), _, _ => isOneLine_unsupported
termination_by structural child => child

private theorem emitAlternate_oneLine : ∀ child : Option Node, Node.slotIsOneLine child = true →
    ∀ spot : Spot, IsOneLine (emitAlternate style spot child)
  | none, _, _ => isOneLine_nothing
  | some (.fork loc (.conditional test) yes no), oneLine, spot => by
    simp only [Node.slotIsOneLine, Node.isOneLine, Bool.and_eq_true] at oneLine
    have headLine : (("if " : Text) ++ test.shown).isOneLine = true :=
      Text.isOneLine_append_of rfl oneLine.1.1
    simp only [emitAlternate]
    exact (isOneLine_newLine _ rfl).bind fun _ _ => (isOneLine_append headLine).bind fun _ _ =>
      (emitChild_oneLine yes oneLine.1.2 _).bind fun _ _ => emitAlternate_oneLine no oneLine.2 _
  | some (.fork loc (.tag head) block code), oneLine, _ =>
    Emit.alternate_oneLine rfl (emit_oneLine (.fork loc (.tag head) block code) oneLine)
  | some (.fork loc (.each val obj key) block other), oneLine, _ =>
    Emit.alternate_oneLine rfl (emit_oneLine (.fork loc (.each val obj key) block other) oneLine)
  | some (.fork loc (.inclusion filter attrs) file block), oneLine, _ =>
    Emit.alternate_oneLine rfl
      (emit_oneLine (.fork loc (.inclusion filter attrs) file block) oneLine)
  | some (.stem loc head child), oneLine, _ =>
    Emit.alternate_oneLine (by cases head <;> rfl) (emit_oneLine (.stem loc head child) oneLine)
  | some (.leaf loc head), oneLine, _ =>
    Emit.alternate_oneLine (by cases head <;> rfl) (emit_oneLine (.leaf loc head) oneLine)
  | some (.block loc kind yields nodes), oneLine, _ =>
    Emit.alternate_oneLine (by cases kind <;> rfl)
      (emit_oneLine (.block loc kind yields nodes) oneLine)
  | some (.oddBlock loc kind yields value), oneLine, _ =>
    Emit.alternate_oneLine (by cases kind <;> rfl)
      (emit_oneLine (.oddBlock loc kind yields value) oneLine)
  | some (.stray value), oneLine, _ =>
    Emit.alternate_oneLine rfl (emit_oneLine (.stray value) oneLine)
termination_by structural child => child

private theorem emitRun_oneLine : ∀ nodes : List Node, Node.areOneLine nodes = true →
    ∀ spot : Spot, IsOneLine (emitRun style spot nodes)
  | [], _, _ => isOneLine_nothing
  | n :: rest, oneLine, spot => by
    simp only [Node.areOneLine, Bool.and_eq_true] at oneLine
    have later := emitRun_oneLine rest oneLine.2 { spot with inline := Emit.continuesLine n rest }
    simp only [emitRun]
    exact .ite (fun _ => (emit_oneLine n oneLine.1 spot).bind fun _ _ => later)
      fun _ => isOneLine_unsupported.bind fun _ _ => later
termination_by structural nodes => nodes

private theorem emitLines_oneLine (block : Node) : ∀ nodes :
    List Node, Node.areOneLine nodes = true → ∀ (depth : Int) (nested verbatim : Bool),
      IsOneLine (emitLines style depth nested block verbatim nodes)
  | [], _, _, _, _ => isOneLine_nothing
  | n :: rest, oneLine, depth, nested, verbatim => by
    simp only [Node.areOneLine, Bool.and_eq_true] at oneLine
    have now := emit_oneLine n oneLine.1 { depth, nested, parent := some block, inline := true }
    have later := emitLines_oneLine block rest oneLine.2 depth nested verbatim
    unfold emitLines
    split
    · exact (isOneLine_put (by simp [Piece.isOneLine])).bind fun _ _ => later
    · exact isOneLine_unsupported.bind fun _ _ => later
    · exact now.bind fun _ _ => later
    · exact now.bind fun _ _ => later
    · exact (isOneLine_refuse _).bind fun _ _ => later
termination_by structural nodes => nodes

end

end Trees

end PugPrinter
