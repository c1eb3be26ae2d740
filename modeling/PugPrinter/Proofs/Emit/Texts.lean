import PugPrinter.Proofs.Emit.Depth
import PugPrinter.Proofs.Subtrees
import PugPrinter.Proofs.TextPlaces

/-!
The texts that an emission writes. Every piece that stands for a text node carries the value of that
node, so the texts can be read off the pieces. An emission that ends well writes the texts of its node
that are not lost, in the order of the document and each of them once: no layout, no flag and no way
to write a block drops or repeats any other.
-/

set_option autoImplicit false

namespace PugPrinter

def Piece.content? : Piece → Option Text
  | prose text => some text
  | lineFeed => some "\n"
  | raw _ _ text => some text
  | _ => none

/-- The texts that pieces write, without the empty ones. -/
def writtenTexts (pieces : List Piece) : List Text :=
  (pieces.filterMap Piece.content?).filter fun text => !text.isEmpty

private theorem writtenTexts_append (first second : List Piece) :
    writtenTexts (first ++ second) = writtenTexts first ++ writtenTexts second := by
  simp [writtenTexts]

def Node.isFairPlaceholder : Node → Bool
  | .block _ _ yields nodes => !yields.isOn || nodes.isEmpty
  | _ => true

/-- Whether a node at a spot has siblings in the block of its parent. -/
def Spot.siblings (spot : Spot) : Bool :=
  match (spot.parent.bind Layout.blockOf?).bind Node.nodes? with
  | some nodes => nodes.length != 1
  | none => false

variable {α β : Type}

def Run.Shows (run : Run Piece α) (texts : List Text) : Prop :=
  ∀ a, run.result = .ok a → writtenTexts run.out = texts

namespace Run

variable {first : Run Piece α} {next : α → Run Piece β} {texts more : List Text}

private theorem Shows.bind (firstShows : first.Shows texts) (nextShows : ∀ a, (next a).Shows more) :
    (first >>= next).Shows (texts ++ more) := by
  intro b ended
  obtain ⟨a, firstEnded, nextEnded⟩ := (bind_result_eq_ok_iff _ _ _).mp ended
  rw [bind_out_of_ok firstEnded, writtenTexts_append, firstShows a firstEnded,
    nextShows a b nextEnded]

private theorem Shows.after (firstShows : first.Shows []) (nextShows : ∀ a, (next a).Shows texts) :
    (first >>= next).Shows texts :=
  firstShows.bind nextShows

private theorem shows_fail (fault : Fault) : (fail fault : Run Piece α).Shows texts := by
  intro a ended
  cases ended

private theorem shows_put (pieces : List Piece) : (put pieces).Shows (writtenTexts pieces) :=
  fun _ _ => rfl

private theorem shows_ofExcept (result : Except Fault α) :
    (ofExcept result : Run Piece α).Shows [] :=
  fun _ _ => rfl

private theorem shows_mapOut_notConstant (run : Run Text α) :
    (run.mapOut Piece.notConstant).Shows [] := by
  intro a _
  simp [writtenTexts, mapOut_out, List.filterMap_map, Function.comp_def, Piece.content?]

private theorem Shows.ite {c : Prop} [Decidable c] {yes no : Run Piece α}
    (yesShows : c → yes.Shows texts) (noShows : ¬ c → no.Shows texts) :
    (if c then yes else no).Shows texts := by
  split
  · exact yesShows ‹c›
  · exact noShows ‹¬ c›

end Run

open Run Emission
open Node (textPlaces runPlaces rawPlaces slotTextPlaces rawBlockPlaces filterPlaces tagCodePlaces
  startsAt isChain isKind subtreesOfNodes subtreesOfSlot forall_subtrees_block forall_subtrees_stem
  forall_subtrees_fork forall_subtreesOfNodes_cons)

variable {style : Style} {spot : Spot} {texts : List Text}

namespace Emission

private theorem shows_nothing : (nothing : Emission).Shows [] :=
  fun _ _ => rfl

private theorem shows_append (text : Text) : (append text).Shows [] :=
  fun _ _ => rfl

private theorem shows_newLine (depth : Int) (text : Text) : (newLine depth text).Shows [] :=
  fun _ _ => rfl

private theorem shows_refuse (error : TreeError) : (refuse error).Shows texts :=
  shows_fail _

private theorem shows_unsupported : unsupported.Shows texts :=
  shows_fail _

private theorem shows_head (inline : Bool) (depth : Int) (text : Text) :
    (head inline depth text).Shows [] := by
  cases inline
  · exact shows_newLine depth text
  · exact shows_append text

private theorem shows_bracketed (brackets : Bool) {inner : Emission} (shows : inner.Shows texts) :
    (bracketed brackets inner).Shows texts := by
  cases brackets
  · exact shows
  · refine (shows_append _).after fun _ => ?_
    have closed := shows.bind fun _ => shows_append "]"
    rwa [List.append_nil] at closed

end Emission

namespace Emit

private theorem attributes_shows (attrs : Attributes) : (attributes style attrs).Shows [] :=
  shows_mapOut_notConstant _

private theorem tagHead_shows (head : TagHead) : (tagHead style head).Shows [] := by
  refine (attributes_shows _).after fun _ => (shows_ofExcept _).after fun _ => ?_
  split
  · exact fun _ _ => rfl
  · exact shows_fail _

private theorem callHead_shows (m : MixinHead) : (callHead style m).Shows [] :=
  (attributes_shows _).after fun _ => (shows_ofExcept _).after fun _ => fun _ _ => rfl

private theorem filterHead_shows (attrs : Attributes) (name : Loose Text) :
    (filterHead style attrs name).Shows [] := by
  cases name with
  | of name => exact (attributes_shows _).after fun _ => fun _ _ => rfl
  | odd value => exact shows_fail _

private theorem kept_text (loc : Location) (val : Text) (isHtml : Loose Bool)
    (inline siblings : Bool) :
    TextPlace.kept ((Node.leaf loc (.text (.of val) isHtml)).textPlaces inline siblings) =
      [val].filter fun text => !text.isEmpty := by
  cases val <;> rfl

private theorem text_shows (node : Node) (isHtml : Bool) (val : Text) :
    (text spot node isHtml val).Shows ([val].filter fun text => !text.isEmpty) := by
  refine Shows.ite (fun _ => Shows.ite (fun _ => shows_refuse _) fun _ => shows_put _) fun _ => ?_
  refine Shows.ite (fun _ => shows_put _) fun _ => Shows.ite (fun isLineFeed => ?_) fun _ => ?_
  · rw [beq_iff_eq] at isLineFeed
    rw [isLineFeed]
    exact shows_put _
  · refine Shows.ite (fun empty => ?_) fun _ => shows_put _
    rw [List.isEmpty_iff.mp empty]
    exact shows_nothing

private theorem leaf_shows (loc : Location) (head : Leaf) (inline siblings : Bool) :
    (leaf spot (.leaf loc head) head).Shows
      (TextPlace.kept ((Node.leaf loc head).textPlaces inline siblings)) := by
  cases head with
  | mixinBlock => exact shows_newLine _ _
  | doctype val => exact shows_newLine _ _
  | bare => exact shows_refuse _
  | comment val buffer =>
    cases val with
    | of val => exact shows_newLine _ _
    | odd value => exact shows_unsupported
  | fileReference path =>
    cases path with
    | of path => exact shows_append _
    | odd value => exact Shows.ite (fun _ => shows_unsupported) fun _ => shows_nothing
  | text val isHtml =>
    cases val with
    | of val =>
      rw [kept_text]
      exact text_shows _ _ _
    | odd value =>
      refine Shows.ite (fun _ => ?_) fun _ => ?_
      · exact Shows.ite (fun _ => shows_refuse _) fun _ => shows_unsupported
      · exact Shows.ite (fun _ => shows_unsupported) fun _ => shows_nothing

private theorem code_shows (owner : Node) (head : CodeHead) {block : Spot → Emission}
    {places : List TextPlace}
    (shows : ∀ inner, inner.inline = false → (block inner).Shows (TextPlace.kept places)) :
    (code spot owner head block).Shows (TextPlace.kept
      (if spot.inline && spot.siblings then places.map TextPlace.lose else places)) := by
  have running : isRunning spot = (spot.inline && spot.siblings) := rfl
  unfold code
  split
  · exact shows_unsupported
  · rw [running]
    cases spot.inline && spot.siblings with
    | true =>
      rw [if_pos rfl, if_pos rfl, TextPlace.kept_map_lose]
      exact shows_append _
    | false =>
      refine (shows_head _ _ _).after fun _ => Shows.ite (fun _ => ?_) fun _ => ?_
      · exact (shows_put _).after fun _ => shows (spot.below owner) rfl
      · exact (shows_append _).after fun _ => shows (spot.below owner) rfl

private theorem ownContent_shows (owner block : Node) {content : Spot → Emission}
    (written : Bool → List Text) (start : Bool)
    (shows : ∀ inner, (content inner).Shows (written inner.inline))
    (empty : block.nodes? = some [] → written start = [])
    (agree : ∀ nodes same, block.nodes? = some nodes →
      Layout.startsOnSameLine? style.colon owner true nodes = some same →
      written same = written start) :
    (ownContent style spot owner block content).Shows (written start) := by
  unfold ownContent
  split
  · exact shows_unsupported
  · rw [empty ‹_›]
    exact shows_nothing
  · rename_i nodes _ children
    split
    · exact shows_unsupported
    · rename_i same decided
      rw [← agree nodes same children decided]
      exact Shows.ite (fun _ => (shows_append _).after fun _ => shows _) fun _ => shows _

private theorem rawBlock_shows {depth : Int} {lines : Int → Emission}
    (shows : ∀ inner, (lines inner).Shows texts) : (rawBlock depth lines).Shows texts :=
  (shows_newLine _ _).after fun _ => shows _

private theorem content_shows {yields : Loose Bool} {nodes : List Node} {siblings : Bool}
    (fair : yields.isOn = true → nodes = []) {lines : Int → Emission}
    {run : Int → Bool → Bool → Emission}
    (linesShow : ∀ depth, (lines depth).Shows (TextPlace.kept (rawPlaces siblings nodes)))
    (runShows : ∀ depth nested inline,
      (run depth nested inline).Shows (TextPlace.kept (runPlaces inline siblings nodes))) :
    (content style spot yields nodes lines run).Shows
      (TextPlace.kept (runPlaces spot.inline siblings nodes)) := by
  unfold content
  split
  · rename_i placeholder
    rw [fair placeholder]
    exact shows_newLine _ _
  · split
    · exact shows_unsupported
    · rename_i dot
      rw [Node.runPlaces_of_isDotChild (Layout.isDotChild_of_usesDot dot) _ _ siblings]
      split
      · exact (shows_append _).after fun _ => rawBlock_shows linesShow
      · exact (shows_append _).after fun _ => rawBlock_shows linesShow
      · exact (shows_newLine _ _).after fun _ => rawBlock_shows linesShow
    · refine Shows.ite (fun colon => ?_) fun _ => runShows _ _ _
      rw [Node.runPlaces_of_usesColon colon _ true]
      exact (shows_append _).after fun _ => runShows _ _ _

private theorem oddContent_shows (depth : Int) (yields : Loose Bool) (value : Json) :
    (oddContent depth yields value).Shows [] := by
  refine Shows.ite (fun _ => shows_newLine _ _) fun _ => ?_
  split
  · exact shows_nothing
  · exact shows_unsupported

private theorem oddLines_shows (block : Node) (value : Json) : (oddLines block value).Shows [] := by
  unfold oddLines
  split
  · exact shows_nothing
  · exact shows_refuse _
  · exact shows_unsupported

private theorem inclusionFilter_shows (attrs : Attributes) (name : Loose Text) :
    (inclusionFilter style attrs name).Shows [] :=
  Shows.ite (fun _ => (filterHead_shows attrs name).after fun _ => shows_append _)
    fun _ => shows_nothing

end Emit

/-- All placeholders among some nodes are without children. -/
def Fair (nodes : List Node) : Prop :=
  ∀ n ∈ nodes, n.isFairPlaceholder = true

private theorem nodes_eq_nil_of_fair {loc : Location} {kind : BlockKind} {yields : Loose Bool}
    {nodes : List Node} (fair : (Node.block loc kind yields nodes).isFairPlaceholder = true)
    (placeholder : yields.isOn = true) : nodes = [] := by
  simpa [Node.isFairPlaceholder, placeholder] using fair

private theorem slotTextPlaces_agree {colon same : Bool} {owner block : Node} {line : Int}
    {nodes : List Node} (stands : owner.line? = some line) (children : block.nodes? = some nodes)
    (decided : Layout.startsOnSameLine? colon owner true nodes = some same) :
    slotTextPlaces same (some block) = slotTextPlaces (startsAt line (some block)) (some block) := by
  cases block with
  | block loc kind yields inner =>
    cases children
    cases kind with
    | plain => exact Node.runPlaces_of_startsOnSameLine stands decided _ rfl
    | named name mode => rfl
  | oddBlock => rfl
  | leaf | stem | fork | stray => cases children

private theorem slotTextPlaces_of_no_nodes {block : Node} (none : block.nodes? = some [])
    (inline : Bool) :
    slotTextPlaces inline (some block) = [] := by
  cases block with
  | block loc kind yields nodes =>
    cases none
    rfl
  | oddBlock => rfl
  | leaf | stem | fork | stray => cases none

private theorem not_code_of_nodes {n : Node} {nodes : List Node}
    (children : n.nodes? = some nodes) :
    n.isKind .code = false := by
  cases n with
  | block loc kind yields inner => cases kind <;> rfl
  | oddBlock loc kind yields value => cases kind <;> rfl
  | leaf | stem | fork | stray => cases children

private def Node.chainPlaces (inline : Bool) : Option Node → List TextPlace
  | some (.block _ _ _ nodes) => runPlaces inline (nodes.length != 1) nodes
  | _ => []

private theorem filterPlaces_of_no_nodes {block : Node} (none : block.nodes? = some [])
    (inline : Bool) :
    filterPlaces inline (some block) = [] := by
  cases block with
  | block loc kind yields nodes =>
    cases none
    cases inline <;> rfl
  | oddBlock => rfl
  | leaf | stem | fork | stray => cases none

private theorem filterPlaces_of_chain {block first : Node} {rest : List Node}
    (children : block.nodes? = some (first :: rest)) (chain : first.isKind .filter = true)
    (inline : Bool) : filterPlaces inline (some block) =
      Node.chainPlaces inline (some block) := by
  cases block with
  | block loc kind yields nodes =>
    cases children
    exact if_pos chain
  | oddBlock => rfl
  | leaf | stem | fork | stray => cases children

private theorem filterPlaces_of_not_chain {block first : Node} {rest : List Node}
    (children : block.nodes? = some (first :: rest)) (single : first.isKind .filter = false)
    (inline : Bool) :
    filterPlaces inline (some block) =
      if inline then slotTextPlaces inline (some block) else rawBlockPlaces (some block) := by
  cases block with
  | block loc kind yields nodes =>
    cases children
    have noChain : isChain (first :: rest) = false := single
    cases inline with
    | true => simp [filterPlaces, noChain, slotTextPlaces, textPlaces]
    | false => simp [filterPlaces, noChain, rawBlockPlaces]
  | oddBlock => cases inline <;> rfl
  | leaf | stem | fork | stray => cases children

open Node (chainPlaces)

/-- The emission of the child in a slot writes the texts of the child. Code in the slot must not
continue a line, where it might have siblings. -/
private def ShowsSlot (emission : Spot → Emission) (slot : Option Node) : Prop :=
  ∀ inner : Spot, (inner.inline = true → slot.any (isKind .code) = false) →
    (emission inner).Shows (TextPlace.kept (slotTextPlaces inner.inline slot))

namespace Emit

private theorem element_shows {owner block : Node} {line : Int} (stands : owner.line? = some line)
    {content : Spot → Emission} (shows : ShowsSlot content (some block)) :
    (ownContent style spot owner block content).Shows
      (TextPlace.kept (slotTextPlaces (startsAt line (some block)) (some block))) := by
  cases children : block.nodes? with
  | none =>
    simp only [ownContent, children]
    exact shows_unsupported
  | some nodes =>
    have anywhere (inner : Spot) := shows inner fun _ => not_code_of_nodes children
    refine ownContent_shows owner block
      (fun inline => TextPlace.kept (slotTextPlaces inline (some block))) _ anywhere ?_ ?_
    · intro none
      rw [slotTextPlaces_of_no_nodes none]
      rfl
    · intro nodes same children decided
      rw [slotTextPlaces_agree stands children decided]

private theorem mixin_shows {owner : Node} {loc : Location} (m : MixinHead) {block : Option Node}
    (stands : owner.line? = some loc.line) {content : Spot → Emission}
    (shows : ShowsSlot content block) :
    (mixin style spot owner m block content).Shows
      (TextPlace.kept (slotTextPlaces (m.call.isOn && startsAt loc.line block) block)) := by
  refine Shows.ite (fun call => ?_) fun declared => ?_
  · rw [call, Bool.true_and]
    refine (callHead_shows m).after fun _ => shows_bracketed _ ?_
    refine (shows_head _ _ _).after fun _ => ?_
    cases block with
    | none => exact shows_nothing
    | some block => exact element_shows stands shows
  · rw [Bool.eq_false_iff.mpr declared, Bool.false_and]
    exact (shows_newLine _ _).after fun _ => shows (spot.below owner) fun continues => nomatch continues

private theorem tag_shows {owner : Node} {loc : Location} (head : TagHead) {block : Option Node}
    (stands : owner.line? = some loc.line) {code content : Spot → Emission}
    (codeShows : ∀ inner : Spot, inner.parent = none → (code inner).Shows texts)
    (contentShows : ShowsSlot content block) :
    (tag style spot owner head block code content).Shows
      (texts ++ TextPlace.kept (slotTextPlaces (startsAt loc.line block) block)) := by
  cases block with
  | none => exact shows_refuse _
  | some block =>
    refine (tagHead_shows head).after fun _ => shows_bracketed _ ?_
    refine (shows_head _ _ _).after fun _ => ?_
    exact (codeShows _ rfl).bind fun _ => element_shows stands contentShows

private theorem when_shows (owner : Node) (expr : Loose Text) {block : Option Node}
    {body : Spot → Emission} (shows : ShowsSlot body block) :
    (when spot owner expr block body).Shows (TextPlace.kept (slotTextPlaces false block)) := by
  refine (shows_newLine _ _).after fun _ => ?_
  cases block with
  | none => exact shows_nothing
  | some block =>
    dsimp only
    split
    · exact shows_unsupported
    · rename_i none
      rw [slotTextPlaces_of_no_nodes none]
      exact shows_newLine _ _
    · exact shows (spot.below owner) fun continues => nomatch continues

private theorem blockComment_shows (owner : Node) (val : Loose Text) (buffer : Loose Bool)
    (block : Option Node) {lines : Int → Emission} (shows : ∀ inner, (lines inner).Shows texts) :
    (blockComment spot owner val buffer block lines).Shows texts := by
  cases block with
  | none => exact shows_refuse _
  | some block =>
    refine (shows_ofExcept _).after fun _ => ?_
    exact (shows_newLine _ _).after fun _ => rawBlock_shows shows

private theorem filter_shows (owner : Node) (name : Loose Text) (attrs : Attributes)
    (block : Option Node) {chained content : Spot → Emission} {lines : Int → Emission}
    (chainedShows : ∀ inner : Spot, inner.parent = some owner →
      (chained inner).Shows (TextPlace.kept (chainPlaces inner.inline block)))
    (contentShows : ShowsSlot content block)
    (linesShow : ∀ depth, (lines depth).Shows (TextPlace.kept (rawBlockPlaces block))) :
    (filter style spot owner name attrs block chained content lines).Shows
      (TextPlace.kept (filterPlaces spot.inline block)) := by
  cases block with
  | none => exact shows_refuse _
  | some block =>
    refine (filterHead_shows attrs name).after fun _ => shows_bracketed _ ?_
    refine (shows_head _ _ _).after fun _ => ?_
    cases children : block.nodes? with
    | none => exact shows_unsupported
    | some nodes =>
      have inLine := contentShows { spot with nested := false } fun _ => not_code_of_nodes children
      cases nodes with
      | nil =>
        rw [filterPlaces_of_no_nodes children]
        exact shows_nothing
      | cons first rest =>
        dsimp only
        refine Shows.ite (fun isFilter => ?_) fun notFilter => ?_
        · rw [filterPlaces_of_chain children isFilter]
          exact Shows.ite (fun _ => chainedShows _ rfl) fun _ => shows_refuse _
        · rw [filterPlaces_of_not_chain children (Bool.eq_false_iff.mpr notFilter)]
          refine Shows.ite (fun continues => ?_) fun startsLine => ?_
          · rw [if_pos continues]
            exact Shows.ite (fun _ => (shows_append _).after fun _ => inLine) fun _ => inLine
          · rw [if_neg startsLine]
            exact rawBlock_shows linesShow

end Emit

private theorem textPlaces_of_not_code {n : Node} {inline siblings : Bool}
    (noCode : inline = true → n.isKind .code = false) :
    n.textPlaces inline siblings = n.textPlaces inline false := by
  cases inline with
  | false => exact Node.textPlaces_of_not_inline siblings n
  | true =>
    have other := noCode rfl
    cases n with
    | leaf loc head =>
      cases head with
      | text val isHtml => cases val <;> rfl
      | _ => rfl
    | stem loc head child => cases head <;> first | rfl | cases other
    | fork loc head first second => cases head <;> rfl
    | _ => rfl

private theorem slot_shows {n : Node} (starts : spot.inline = false)
    (shows : (emit style spot n).Shows
      (TextPlace.kept (n.textPlaces spot.inline spot.siblings))) :
    (emit style spot n).Shows (TextPlace.kept (slotTextPlaces false (some n))) := by
  rwa [starts, Node.textPlaces_of_not_inline] at shows

private theorem alternate_shows {n : Node} (other : n.isKind .conditional = false)
    (shows : (emit style spot n).Shows (TextPlace.kept (slotTextPlaces false (some n)))) :
    (emitAlternate style spot (some n)).Shows (TextPlace.kept (slotTextPlaces false (some n))) := by
  rw [emitAlternate_of_not_conditional other]
  exact (shows_newLine _ _).after fun _ => shows

mutual

/-- The emission of a node writes its texts that are not lost, in order and each once. -/
theorem emit_shows (style : Style) : ∀ n : Node, Fair n.subtrees → ∀ spot : Spot,
    (emit style spot n).Shows (TextPlace.kept (n.textPlaces spot.inline spot.siblings))
  | .stray _, _ => fun _ => by
    simp only [emit]
    exact shows_refuse _
  | .leaf loc head, _ => fun spot => by
    simp only [emit]
    exact Emit.leaf_shows loc head _ _
  | .block loc kind yields nodes, fair => fun spot => by
    obtain ⟨own, below⟩ := forall_subtrees_block.mp fair
    have empty := nodes_eq_nil_of_fair own
    have linesShow (depth : Int) :=
      emitLines_shows style nodes below depth spot.nested (.block loc kind yields nodes) false
    have runShows (depth : Int) (nested inline : Bool) := emitRun_shows style nodes below
      { depth, nested, parent := some (.block loc kind yields nodes), inline }
    cases kind with
    | plain =>
      simp only [emit]
      exact Emit.content_shows empty linesShow runShows
    | named name mode =>
      simp only [emit]
      exact (shows_newLine _ _).after fun _ => Emit.content_shows empty linesShow runShows
  | .oddBlock loc kind yields value, _ => fun spot => by
    cases kind with
    | plain =>
      simp only [emit]
      exact Emit.oddContent_shows _ _ _
    | named name mode =>
      simp only [emit]
      exact (shows_newLine _ _).after fun _ => Emit.oddContent_shows _ _ _
  | .stem loc (.mixin m) block, fair => fun spot => by
    simp only [emit]
    exact Emit.mixin_shows m rfl (emitOptional_shows style block (forall_subtrees_stem.mp fair).2)
  | .stem loc (.code head) block, fair => fun spot => by
    have blockShows := emitOptional_shows style block (forall_subtrees_stem.mp fair).2
    simp only [emit, textPlaces]
    refine Emit.code_shows _ head fun inner starts => ?_
    have shows := blockShows inner fun continues => by rw [starts] at continues; cases continues
    rwa [starts] at shows
  | .stem loc (.blockComment val buffer) block, fair => fun spot => by
    simp only [emit]
    exact Emit.blockComment_shows _ val buffer block fun depth =>
      emitBlockLines_shows style block (forall_subtrees_stem.mp fair).2 depth spot.nested
  | .stem loc (.caseOf expr) block, fair => fun spot => by
    simp only [emit]
    exact (shows_newLine _ _).after fun _ =>
      emitChild_shows style block (forall_subtrees_stem.mp fair).2 _ rfl
  | .stem loc (.when expr) block, fair => fun spot => by
    simp only [emit]
    exact Emit.when_shows _ expr (emitOptional_shows style block (forall_subtrees_stem.mp fair).2)
  | .stem loc (.whileLoop test) block, fair => fun spot => by
    simp only [emit]
    exact (shows_newLine _ _).after fun _ =>
      emitChild_shows style block (forall_subtrees_stem.mp fair).2 _ rfl
  | .stem loc .extending file, fair => fun spot => by
    simp only [emit]
    exact (shows_newLine _ _).after fun _ =>
      emitChild_shows style file (forall_subtrees_stem.mp fair).2 _ rfl
  | .stem loc (.filter name attrs) block, fair => fun spot => by
    have below := (forall_subtrees_stem.mp fair).2
    have chainedShows := emitChildren_shows style block below
    have contentShows := emitOptional_shows style block below
    have linesShow := emitBlockLines_shows style block below
    simp only [emit]
    refine Emit.filter_shows _ name attrs block (fun inner own => chainedShows inner ?_)
      contentShows fun depth => linesShow depth spot.nested
    rw [own]
    rfl
  | .fork loc (.tag head) block code, fair => fun spot => by
    obtain ⟨_, ofBlock, ofCode⟩ := forall_subtrees_fork.mp fair
    have codeShows := emitTagCode_shows style code ofCode
    have contentShows := emitOptional_shows style block ofBlock
    simp only [emit, textPlaces, TextPlace.kept_append]
    exact Emit.tag_shows head rfl codeShows contentShows
  | .fork loc (.conditional test) yes no, fair => fun spot => by
    obtain ⟨_, ofYes, ofNo⟩ := forall_subtrees_fork.mp fair
    simp only [emit, textPlaces, TextPlace.kept_append]
    refine (shows_newLine _ _).after fun _ => ?_
    exact (emitChild_shows style yes ofYes _ rfl).bind fun _ =>
      emitAlternate_shows style no ofNo _ rfl
  | .fork loc (.each val obj key) block alternative, fair => fun spot => by
    obtain ⟨_, ofBlock, ofOther⟩ := forall_subtrees_fork.mp fair
    have instead := emitOptional_shows style alternative ofOther spot.detached
      fun continues => nomatch continues
    simp only [emit, textPlaces, TextPlace.kept_append]
    refine (shows_newLine _ _).after fun _ => ?_
    refine (emitChild_shows style block ofBlock _ rfl).bind fun _ => ?_
    exact Shows.ite (fun _ => (shows_newLine _ _).after fun _ => instead) fun _ => instead
  | .fork loc (.inclusion filter attrs) file block, fair => fun spot => by
    obtain ⟨_, ofFile, ofBlock⟩ := forall_subtrees_fork.mp fair
    simp only [emit, textPlaces, TextPlace.kept_append]
    refine (shows_newLine _ _).after fun _ => ?_
    refine (Emit.inclusionFilter_shows attrs filter).after fun _ => ?_
    refine (shows_append _).after fun _ => ?_
    exact (emitChild_shows style file ofFile _ rfl).bind fun _ =>
      emitOptional_shows style block ofBlock spot.detached fun continues => nomatch continues
termination_by structural n => n

private theorem emitChild_shows (style : Style) : ∀ child :
    Option Node, Fair (subtreesOfSlot child) → ∀ spot : Spot, spot.inline = false →
      (emitChild style spot child).Shows (TextPlace.kept (slotTextPlaces false child))
  | none, _ => fun _ _ => by
    simp only [emitChild]
    exact shows_refuse _
  | some n, fair => fun spot starts => by
    have shows := emit_shows style n fair spot
    rw [starts, Node.textPlaces_of_not_inline] at shows
    simp only [emitChild]
    exact shows
termination_by structural child => child

private theorem emitOptional_shows (style : Style) : ∀ child : Option Node,
    Fair (subtreesOfSlot child) → ShowsSlot (fun spot => emitOptional style spot child) child
  | none, _ => fun _ _ => by
    simp only [emitOptional]
    exact shows_nothing
  | some n, fair => fun spot noCode => by
    have shows := emit_shows style n fair spot
    rw [textPlaces_of_not_code noCode] at shows
    simp only [emitOptional]
    exact shows
termination_by structural child => child

private theorem emitChildren_shows (style : Style) : ∀ child : Option Node,
    Fair (subtreesOfSlot child) → ∀ spot : Spot, spot.parent.bind Layout.blockOf? = child →
      (emitChildren style spot child).Shows (TextPlace.kept (chainPlaces spot.inline child))
  | some (.block loc kind yields nodes), fair => fun spot own => by
    have siblings : spot.siblings = (nodes.length != 1) := by
      rw [Spot.siblings, own]
      rfl
    have shows := emitRun_shows style nodes (forall_subtrees_block.mp fair).2 spot
    rw [siblings] at shows
    simp only [emitChildren]
    exact shows
  | none, _ | some (.leaf _ _), _ | some (.oddBlock _ _ _ _), _ | some (.stem _ _ _), _
  | some (.fork _ _ _ _), _ | some (.stray _), _ => fun _ _ => by
    simp only [emitChildren]
    exact shows_unsupported
termination_by structural child => child

private theorem emitBlockLines_shows (style : Style) : ∀ child :
    Option Node, Fair (subtreesOfSlot child) → ∀ depth nested,
      (emitBlockLines style depth nested child).Shows (TextPlace.kept (rawBlockPlaces child))
  | some (.block loc kind yields nodes), fair => fun depth nested => by
    simp only [emitBlockLines]
    exact emitLines_shows style nodes (forall_subtrees_block.mp fair).2 depth nested
      (.block loc kind yields nodes) true
  | some (.oddBlock loc kind yields value), _ => fun _ _ => by
    simp only [emitBlockLines]
    exact Emit.oddLines_shows _ _
  | none, _ | some (.leaf _ _), _ | some (.stem _ _ _), _ | some (.fork _ _ _ _), _
  | some (.stray _), _ => fun _ _ => by
    simp only [emitBlockLines]
    exact shows_unsupported
termination_by structural child => child

private theorem emitTagCode_shows (style : Style) : ∀ code :
    Option Node, Fair (subtreesOfSlot code) → ∀ spot : Spot, spot.parent = none →
      (emitTagCode style spot code).Shows (TextPlace.kept (tagCodePlaces code))
  | none, _ => fun _ _ => by
    simp only [emitTagCode]
    exact shows_nothing
  | some (.stem loc head body), fair => fun spot orphan => by
    have bodyShows := emitOptional_shows style body (forall_subtrees_stem.mp fair).2
    have below (inner : Spot) (starts : inner.inline = false) :
        (emitOptional style inner body).Shows (TextPlace.kept (slotTextPlaces false body)) := by
      have shows := bodyShows inner fun continues => by rw [starts] at continues; cases continues
      rwa [starts] at shows
    have alone : (spot.inline && spot.siblings) = false := by
      rw [Spot.siblings, orphan]
      exact Bool.and_false _
    have codeShows (owner : Node) (code : CodeHead) :
        (Emit.code spot owner code fun inner => emitOptional style inner body).Shows
          (TextPlace.kept (slotTextPlaces false body)) := by
      have shows := @Emit.code_shows spot owner code _ _ below
      rwa [alone] at shows
    cases head with
    | code head =>
      simp only [emitTagCode]
      exact codeShows _ head
    | blockComment val buffer =>
      simp only [emitTagCode]
      exact Shows.ite (fun _ => shows_unsupported) fun _ => codeShows _ _
    | _ =>
      simp only [emitTagCode]
      exact shows_unsupported
  | some (.leaf _ _), _ | some (.block _ _ _ _), _ | some (.oddBlock _ _ _ _), _
  | some (.fork _ _ _ _), _ | some (.stray _), _ => fun _ _ => by
    simp only [emitTagCode]
    exact shows_unsupported
termination_by structural code => code

private theorem emitAlternate_shows (style : Style) : ∀ child :
    Option Node, Fair (subtreesOfSlot child) → ∀ spot : Spot, spot.inline = false →
      (emitAlternate style spot child).Shows (TextPlace.kept (slotTextPlaces false child))
  | none, _ => fun _ _ => by
    simp only [emitAlternate]
    exact shows_nothing
  | some (.fork loc (.conditional test) yes no), fair => fun spot starts => by
    obtain ⟨_, ofYes, ofNo⟩ := forall_subtrees_fork.mp fair
    simp only [emitAlternate, slotTextPlaces, textPlaces, TextPlace.kept_append]
    refine (shows_newLine _ _).after fun _ => (shows_append _).after fun _ => ?_
    exact (emitChild_shows style yes ofYes _ rfl).bind fun _ =>
      emitAlternate_shows style no ofNo _ rfl
  | some (.fork loc (.tag head) block code), fair => fun spot starts =>
    alternate_shows rfl
      (slot_shows starts (emit_shows style (.fork loc (.tag head) block code) fair spot))
  | some (.fork loc (.each val obj key) block other), fair => fun spot starts =>
    alternate_shows rfl (slot_shows starts
      (emit_shows style (.fork loc (.each val obj key) block other) fair spot))
  | some (.fork loc (.inclusion filter attrs) file block), fair => fun spot starts =>
    alternate_shows rfl (slot_shows starts
      (emit_shows style (.fork loc (.inclusion filter attrs) file block) fair spot))
  | some (.stem loc head child), fair => fun spot starts =>
    alternate_shows (by cases head <;> rfl)
      (slot_shows starts (emit_shows style (.stem loc head child) fair spot))
  | some (.leaf loc head), fair => fun spot starts =>
    alternate_shows (by cases head <;> rfl)
      (slot_shows starts (emit_shows style (.leaf loc head) fair spot))
  | some (.block loc kind yields nodes), fair => fun spot starts =>
    alternate_shows (by cases kind <;> rfl)
      (slot_shows starts (emit_shows style (.block loc kind yields nodes) fair spot))
  | some (.oddBlock loc kind yields value), fair => fun spot starts =>
    alternate_shows (by cases kind <;> rfl)
      (slot_shows starts (emit_shows style (.oddBlock loc kind yields value) fair spot))
  | some (.stray value), fair => fun spot starts =>
    alternate_shows rfl (slot_shows starts (emit_shows style (.stray value) fair spot))
termination_by structural child => child

private theorem emitRun_shows (style : Style) : ∀ nodes : List Node, Fair (subtreesOfNodes nodes) →
    ∀ spot : Spot, (emitRun style spot nodes).Shows
      (TextPlace.kept (runPlaces spot.inline spot.siblings nodes))
  | [], _ => fun _ => by
    simp only [emitRun]
    exact shows_nothing
  | n :: rest, fair => fun spot => by
    obtain ⟨ofNode, ofRest⟩ := forall_subtreesOfNodes_cons.mp fair
    have later := emitRun_shows style rest ofRest
      { spot with inline := Emit.continuesLine n rest }
    simp only [emitRun, runPlaces, TextPlace.kept_append]
    refine Shows.ite (fun _ => ?_) fun _ => shows_unsupported.bind fun _ => later
    exact (emit_shows style n ofNode spot).bind fun _ => later
termination_by structural nodes => nodes

private theorem emitLines_shows (style : Style) : ∀ nodes :
    List Node, Fair (subtreesOfNodes nodes) → ∀ depth nested block verbatim,
      (emitLines style depth nested block verbatim nodes).Shows (TextPlace.kept
        (rawPlaces (Spot.siblings { depth, nested, parent := some block, inline := true }) nodes))
  | [], _ => fun _ _ _ _ => by
    simp only [emitLines]
    exact shows_nothing
  | n :: rest, fair => fun depth nested block verbatim => by
    obtain ⟨ofNode, ofRest⟩ := forall_subtreesOfNodes_cons.mp fair
    have node := emit_shows style n ofNode { depth, nested, parent := some block, inline := true }
    have later := emitLines_shows style rest ofRest depth nested block verbatim
    unfold emitLines
    simp only [rawPlaces, TextPlace.kept_append]
    split
    · rw [Emit.kept_text]
      exact (shows_put _).bind fun _ => later
    · exact shows_unsupported.bind fun _ => later
    · exact node.bind fun _ => later
    · exact node.bind fun _ => later
    · exact (shows_refuse _).bind fun _ => later
termination_by structural nodes => nodes

end

end PugPrinter
