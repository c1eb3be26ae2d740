import PugPrinter.Proofs.Attribute.Placing
import PugPrinter.Proofs.Emit.BodyForm
import PugPrinter.Proofs.Emit.Opening
import PugPrinter.Proofs.TextPlaces

/-!
Nodes that write nothing. These are texts and file names without a value, blocks of such nodes, and tags
whose head is blank, where an element needs no brackets. Every other node starts a line or continues one
with words, as soon as it is printed without a fault.
-/

set_option autoImplicit false

namespace PugPrinter

open Emission

namespace Loose

def isEmptyList {α : Type} : Loose (List α) → Bool
  | of items => items.isEmpty
  | odd value => value.items?.any List.isEmpty

end Loose

def TagHead.isBlank (head : TagHead) : Bool :=
  head.name.isText [] && !head.interpolated.isOn && !head.selfClosing.isOn &&
    head.attrs.isEmptyList && head.attributeBlocks.isEmptyList

namespace Node

def hasNoNodes (n : Node) : Bool :=
  n.nodes?.any List.isEmpty

mutual

/-- Whether a node writes nothing, in the line before it or not. Only where elements need no brackets
can a tag do so. -/
def isSilent (nested inline : Bool) : Node → Bool
  | .leaf _ (.text (.of val) isHtml) => !isHtml.isOn && val.isEmpty
  | .leaf _ (.text (.odd _) _) => true
  | .leaf _ (.fileReference (.of path)) => path.isEmpty
  | .leaf _ (.fileReference (.odd _)) => true
  | .block _ .plain yields nodes => !yields.isOn && areSilent nested inline nodes
  | .oddBlock _ .plain yields _ => !yields.isOn
  | .fork loc (.tag head) body code =>
    nested && inline && head.isBlank && code.isNone && isSilentBody loc.line body
  | _ => false
termination_by structural n => n

def areSilent (nested inline : Bool) : List Node → Bool
  | [] => true
  | n :: rest => n.isSilent nested inline && areSilent nested (Emit.continuesLine n rest) rest
termination_by structural nodes => nodes

/-- Whether the body of a tag in a line writes nothing. One that starts in this line has a space before
it. -/
def isSilentBody (line : Int) : Option Node → Bool
  | none => true
  | some body =>
    body.hasNoNodes || (!startsAt line (some body) && body.isSilent false false)
termination_by structural body => body

end

private theorem not_isSilent_of_followsColon {n : Node} (follows : Layout.followsColon n = true)
    {nested inline : Bool} (apart : (nested && inline) = false) : n.isSilent nested inline = false := by
  cases n with
  | leaf loc head => cases head <;> cases follows
  | block loc kind yields nodes => cases kind <;> cases follows
  | oddBlock loc kind yields value => cases kind <;> cases follows
  | stem loc head child => cases head <;> rfl
  | fork loc head first second =>
    cases head with
    | tag head => simp [isSilent, apart]
    | _ => rfl
  | stray value => rfl

private theorem not_isSilent_of_isCode {n : Node} (isCode : n.isKind .code = true)
    {nested inline : Bool} :
    n.isSilent nested inline = false := by
  cases n with
  | leaf loc head => cases head <;> cases isCode
  | block loc kind yields nodes => cases kind <;> cases isCode
  | oddBlock loc kind yields value => cases kind <;> cases isCode
  | fork loc head first second => cases head <;> cases isCode
  | stem loc head child => rfl
  | stray value => rfl

private theorem words_of_areSilent {nested inline : Bool} {nodes : List Node}
    (silent : areSilent nested inline nodes = true) {count total : Layout.DotCount}
    {before : Option Node} {beforeStarts : Bool}
    (counted : Layout.countDot count before beforeStarts nodes = .counted total) :
    total.words = count.words := by
  fun_induction Layout.countDot count before beforeStarts nodes generalizing inline with
  | case1 =>
    cases counted
    rfl
  | case2 _ _ _ _ _ val =>
    rename_i ih
    rw [areSilent, Bool.and_eq_true] at silent
    have noValue : val = [] := by
      have here := silent.1
      simp only [isSilent, Bool.and_eq_true, List.isEmpty_iff] at here
      exact here.2
    subst noValue
    exact ih silent.2 counted
  | case3 => cases counted
  | case4 =>
    rw [areSilent, Bool.and_eq_true] at silent
    cases silent.1
  | case5 => cases counted

private theorem usesDot?_of_areSilent {nested inline : Bool} {nodes : List Node}
    (silent : areSilent nested inline nodes = true) (parent : Option Node) :
    Layout.usesDot? parent nodes ≠ some true := by
  intro dot
  cases nodes with
  | nil => cases dot
  | cons first rest =>
    simp only [Layout.usesDot?, bind, Option.bind_eq_some_iff] at dot
    obtain ⟨lastLine, _, firstLine, _, dot⟩ := dot
    split at dot
    · cases dot
    · split at dot
      · rename_i counted
        have noWords := words_of_areSilent silent counted
        simp [noWords] at dot
      · cases dot
      · cases dot

private theorem usesColon_of_areSilent {nested inline : Bool} {nodes : List Node}
    (silent : areSilent nested inline nodes = true) (apart : (nested && inline) = false)
    (enabled : Bool) (owner : Layout.Owner) : Layout.usesColon enabled owner nodes = false := by
  cases colon : Layout.usesColon enabled owner nodes with
  | false => rfl
  | true =>
    unfold Layout.usesColon at colon
    split at colon
    · have follows := (Bool.and_eq_true_iff.mp colon).2
      rw [areSilent, not_isSilent_of_followsColon follows apart, Bool.false_and] at silent
      cases silent
    · cases colon

private theorem areSilent_of_isSilent {body first : Node} {rest : List Node} {line : Int}
    {nested inline : Bool} (silent : body.isSilent nested inline = true)
    (children : body.nodes? = some (first :: rest)) (stands : first.line? = some line) :
    areSilent nested inline (first :: rest) = true := by
  -- Where the first child of a block stands in a line, the block writes nothing only when its
  -- children do not.
  cases body with
  | block loc kind yields nodes =>
    cases children
    cases kind with
    | plain => exact (Bool.and_eq_true_iff.mp silent).2
    | named name mode => cases silent
  | oddBlock loc kind yields value =>
    -- The items in place of the nodes are no nodes and stand in no line.
    obtain ⟨item, rfl⟩ : ∃ item, first = stray item := by
      unfold nodes? at children
      split at children
      · rename_i found
        cases found
      · cases children
      · rename_i found
        cases found
        obtain ⟨items, _, strays⟩ := Option.map_eq_some_iff.mp children
        cases items with
        | nil => cases strays
        | cons item items => exact ⟨item, (List.cons.inj strays).1.symm⟩
      · cases children
    cases stands
  | leaf | stem | fork | stray => cases children

private theorem not_isSilent_of_startsAt {colon : Bool} {owner body first : Node}
    {rest : List Node} {line : Int} (children : body.nodes? = some (first :: rest))
    (atLine : owner.line? = some line)
    (decided : Layout.startsOnSameLine? colon owner true (first :: rest) = some false)
    (starts : startsAt line (some body) = true) : body.isSilent false false = false := by
  -- A body that starts in the line of its tag but is not written there writes something: it is a
  -- dot block or stands after a colon.
  cases silent : body.isSilent false false with
  | false => rfl
  | true =>
    have stands : first.line? = some line := by simpa [startsAt, children] using starts
    have all := areSilent_of_isSilent silent children stands
    have noColon := usesColon_of_areSilent all rfl colon (.node owner true)
    simp only [Layout.startsOnSameLine?, stands, atLine, noColon, bne_self_eq_false, Bool.false_eq_true,
      if_false, Option.bind_eq_bind, Option.bind_some] at decided
    obtain ⟨dot, isDot, notSame⟩ := Option.bind_eq_some_iff.mp decided
    cases dot with
    | true => exact absurd isDot (usesDot?_of_areSilent all _)
    | false => cases notSame

private theorem startsAt_of_startsOnSameLine {colon : Bool} {owner body first : Node}
    {rest : List Node} {line : Int} (children : body.nodes? = some (first :: rest))
    (atLine : owner.line? = some line)
    (decided : Layout.startsOnSameLine? colon owner true (first :: rest) = some true) :
    first.line? = some line ∧ startsAt line (some body) = true := by
  obtain ⟨own, stands, decided⟩ := Option.bind_eq_some_iff.mp decided
  split at decided
  · cases decided
  · rename_i here
    rw [atLine, bne_iff_ne, ne_eq, Classical.not_not] at here
    exact ⟨stands.trans here.symm, by simp [startsAt, children, stands, ← here]⟩

private theorem not_isSilent_of_not_needsSpace {body first : Node} {rest : List Node} {line : Int}
    (children : body.nodes? = some (first :: rest)) (stands : first.line? = some line)
    (noSpace : ¬ Layout.needsSpace (first :: rest) = true) : body.isSilent false true = false := by
  rw [Layout.needsSpace_iff] at noSpace
  push Not at noSpace
  obtain ⟨only, alone, isCode⟩ := noSpace
  cases silent : body.isSilent false true with
  | false => rfl
  | true =>
    have all := areSilent_of_isSilent silent children stands
    rw [alone, areSilent, not_isSilent_of_isCode (eq_true_of_ne_false isCode)] at all
    cases all

end Node

namespace Piece

def Visible (pieces : List Piece) : Prop :=
  OpenLine pieces ∨ ContinueLine pieces

private theorem Visible.append {pieces : List Piece} (visible : Visible pieces)
    (more : List Piece) :
    Visible (pieces ++ more) :=
  visible.imp (fun opens => opens.append more) fun continues => continues.append more

private theorem Visible.after {quiet pieces : List Piece} (quietFirst : Quiet quiet)
    (visible : Visible pieces) : Visible (quiet ++ pieces) :=
  visible.imp (fun opens => opens.after quietFirst) fun continues => continues.after quietFirst

end Piece

namespace Run

variable {α β : Type}

def Tells (silent : Bool) (run : Run Piece α) : Prop :=
  ∀ a, run.result = .ok a → if silent then Piece.Quiet run.out else Piece.Visible run.out

private theorem Opens.tells {run : Run Piece α} {opening : Opening} (opens : run.Opens opening) :
    run.Tells (opening == .nothing) := by
  intro a ended
  have holds := opens a ended
  cases opening with
  | nothing => exact holds
  | line => exact .inl holds
  | words => exact .inr holds

theorem tells_fail (fault : Fault) (silent : Bool) : (fail fault : Run Piece α).Tells silent := by
  intro a ended
  cases ended

private theorem Tells.bind {first : Run Piece α} {next : α → Run Piece β} {here later : Bool}
    (firstTells : first.Tells here) (nextTells : ∀ a, (next a).Tells later) :
    (first >>= next).Tells (here && later) := by
  intro b ended
  obtain ⟨a, firstEnded, nextEnded⟩ := (bind_result_eq_ok_iff _ _ _).mp ended
  have first := firstTells a firstEnded
  have second := nextTells a b nextEnded
  rw [bind_out_of_ok firstEnded]
  cases here with
  | false => exact Piece.Visible.append first _
  | true =>
    cases later with
    | false => exact Piece.Visible.after first second
    | true => exact Piece.Quiet.append first second

private theorem Tells.shown {first : Run Piece α} (firstTells : first.Tells false)
    (next : α → Run Piece β) : (first >>= next).Tells false := by
  intro b ended
  obtain ⟨a, firstEnded, _⟩ := (bind_result_eq_ok_iff _ _ _).mp ended
  rw [bind_out_of_ok firstEnded]
  exact Piece.Visible.append (firstTells a firstEnded) _

private theorem Silent.tells_bind {first : Run Piece α} {next : α → Run Piece β} {silent : Bool}
    (silentFirst : first.Silent) (nextTells : ∀ a, first.result = .ok a → (next a).Tells silent) :
    (first >>= next).Tells silent := by
  intro b ended
  obtain ⟨a, firstEnded, nextEnded⟩ := (bind_result_eq_ok_iff _ _ _).mp ended
  have later := nextTells a firstEnded b nextEnded
  rw [bind_out_of_ok firstEnded]
  cases silent with
  | false => exact Piece.Visible.after silentFirst later
  | true => exact Piece.Quiet.append silentFirst later

theorem Tells.ite {condition : Prop} [Decidable condition] {yes no : Run Piece α} {silent : Bool}
    (yesTells : condition → yes.Tells silent) (noTells : ¬ condition → no.Tells silent) :
    (if condition then yes else no).Tells silent := by
  split
  · exact yesTells ‹_›
  · exact noTells ‹_›

end Run

namespace Emission

theorem newLine_tells (depth : Int) (text : Text) : (newLine depth text).Tells false :=
  (newLine_opens depth text).tells

private theorem append_tells {text : Text} (given : text ≠ []) : (append text).Tells false :=
  (append_opens given).tells

private theorem nothing_tells : nothing.Tells true :=
  nothing_opens.tells

private theorem element_tells {brackets joins : Bool} {text : Text}
    (given : brackets = true ∨ joins = false ∨ text ≠ []) (depth : Int) (more : Emission) :
    (bracketed brackets (head joins depth text >>= fun _ => more)).Tells false := by
  cases brackets with
  | true => exact (append_tells (by decide)).shown _
  | false =>
    cases joins with
    | false => exact (newLine_tells depth text).shown _
    | true =>
      have filled : text ≠ [] := by simpa using given
      exact (append_tells filled).shown _

end Emission

namespace Attribute

private theorem renderExprs_eq_nil_iff {exprs : List Text} : renderExprs exprs = [] ↔ exprs =
    [] := by
  cases exprs with
  | nil => exact iff_of_true rfl rfl
  | cons expr rest => exact iff_of_false (List.cons_ne_nil _ _) (List.cons_ne_nil _ _)

private theorem assemble_eq_nil_iff {placed : List Placed} : assemble placed = [] ↔ placed =
    [] := by
  cases placed with
  | nil => exact iff_of_true rfl rfl
  | cons p rest =>
    refine iff_of_false (fun empty => ?_) (List.cons_ne_nil _ _)
    simp only [assemble, List.append_eq_nil_iff] at empty
    obtain ⟨⟨noId, noClass⟩, noList⟩ := empty
    cases p with
    | id name => cases noId
    | className name => cases noClass
    | listed text => cases noList

private theorem render_eq_nil_iff {quote : Text} {attrs : Attributes} {text : Text}
    (written : (render quote attrs).result = .ok text) : text = [] ↔ attrs.isEmptyList = true := by
  cases attrs with
  | odd value =>
    rw [render] at written
    split at written
    · rename_i empty
      cases written
      simp [Loose.isEmptyList, empty]
    · cases written
  | of items =>
    rw [render] at written
    obtain ⟨all, rendered, ended⟩ := (Run.bind_result_eq_ok_iff _ _ _).mp written
    obtain ⟨placed, placedAll, assembled⟩ := (Run.bind_result_eq_ok_iff _ _ _).mp rendered
    cases assembled
    have isPlaced := eq_places placedAll
    split at ended
    · rename_i allProper
      cases ended
      rw [assemble_eq_nil_iff, isPlaced, Loose.isEmptyList, List.isEmpty_iff]
      cases items with
      | nil => exact iff_of_true rfl rfl
      | cons item items =>
        cases item with
        | of attr => exact iff_of_false (List.cons_ne_nil _ _) (List.cons_ne_nil _ _)
        | odd value => cases allProper
    · obtain ⟨_, _, stopped⟩ := (Run.bind_result_eq_ok_iff _ _ _).mp ended
      cases stopped

private theorem renderBlocks_eq_nil_iff {blocks : AttributeBlocks} {text : Text}
    (written : renderBlocks blocks = .ok text) : text = [] ↔ blocks.isEmptyList = true := by
  unfold renderBlocks at written
  split at written
  · cases written
    simp [renderExprs_eq_nil_iff, Loose.isEmptyList]
  · split at written
    · rename_i items found
      cases written
      simp [renderExprs_eq_nil_iff, Loose.isEmptyList, found]
    · cases written

end Attribute

namespace Emit

variable {style : Style} {spot : Spot} {owner : Node}

private theorem tagHead_eq_nil_iff {head : TagHead} {text : Text}
    (found : (tagHead style head).result = .ok text) : text = [] ↔ head.isBlank = true := by
  obtain ⟨attrs, attrsFound, ended⟩ := (Run.bind_result_eq_ok_iff _ _ _).mp found
  obtain ⟨blocks, blocksFound, ended⟩ := (Run.bind_result_eq_ok_iff _ _ _).mp ended
  have noAttrs := Attribute.render_eq_nil_iff attrsFound
  have noBlocks := Attribute.renderBlocks_eq_nil_iff blocksFound
  cases named : head.name with
  | odd value =>
    rw [named] at ended
    cases ended
  | of name =>
    rw [named] at ended
    cases ended
    rw [List.append_eq_nil_iff, List.append_eq_nil_iff, noAttrs, noBlocks]
    simp only [TagHead.isBlank, named, Loose.isText, Bool.and_eq_true, Bool.not_eq_true', beq_iff_eq]
    constructor
    · rintro ⟨noName, noAttrs', noBlocks'⟩
      have nothing : attrs ++ blocks = [] := by
        rw [noAttrs.mpr noAttrs', noBlocks.mpr noBlocks']
        rfl
      have slash : ("/" : Text) ≠ [] := by decide
      rw [nothing, tagName] at noName
      cases interpolated : head.interpolated.isOn <;> cases closing : head.selfClosing.isOn <;>
        simp_all [isShorthand]
    · rintro ⟨⟨⟨⟨noName, plain⟩, opened⟩, noAttrs'⟩, noBlocks'⟩
      refine ⟨?_, noAttrs', noBlocks'⟩
      simp [tagName, noName, plain, opened]

private theorem code_tells (head : CodeHead) (block : Spot → Emission) :
    (code spot owner head block).Tells false := by
  have tells := (@code_opens spot owner head block).tells
  cases inline : spot.inline <;> rw [inline] at tells <;> exact tells

private theorem emitTagCode_tells (code : Option Node) :
    (emitTagCode style spot code).Tells code.isNone := by
  cases code with
  | none => exact nothing_tells
  | some code =>
    cases code with
    | stem loc head child =>
      cases head with
      | code head => exact code_tells head _
      | blockComment val buffer => exact .ite (fun _ => Run.tells_fail _ _) fun _ => code_tells _ _
      | _ => exact Run.tells_fail _ _
    | _ => exact Run.tells_fail _ _

private theorem ownContent_tells {body : Node} {line : Int} (atLine : owner.line? = some line)
    {content : Spot → Emission}
    (contentTells : ∀ inline, (content { spot with nested := false, parent := some owner, inline }).Tells
      (body.isSilent false inline)) :
    (ownContent style spot owner body content).Tells (Node.isSilentBody line (some body)) := by
  rw [Node.isSilentBody, Node.hasNoNodes]
  unfold ownContent
  cases children : body.nodes? with
  | none => exact Run.tells_fail _ _
  | some nodes =>
    cases nodes with
    | nil => exact nothing_tells
    | cons first rest =>
      simp only [Option.any_some, List.isEmpty_cons, Bool.false_or]
      cases decided : Layout.startsOnSameLine? style.colon owner true (first :: rest) with
      | none => exact Run.tells_fail _ _
      | some same =>
        cases same with
        | false =>
          have below := contentTells false
          cases starts : Node.startsAt line (some body) with
          | false => exact below
          | true =>
            rw [Node.not_isSilent_of_startsAt children atLine decided starts] at below
            exact below
        | true =>
          obtain ⟨stands, starts⟩ := Node.startsAt_of_startsOnSameLine children atLine decided
          rw [starts]
          by_cases space : Layout.needsSpace (first :: rest) = true
          · simp only [space, Bool.and_self, if_true]
            exact (append_tells (by decide)).shown _
          · have joined := contentTells true
            have shown := Node.not_isSilent_of_not_needsSpace children stands space
            rw [shown] at joined
            simpa only [space, Bool.and_false, Bool.false_eq_true, if_false, Bool.not_true,
              Bool.false_and] using joined

private theorem tag_tells {head : TagHead} {body : Node} {line : Int}
    (atLine : owner.line? = some line) {code content : Spot → Emission} {codeless : Bool}
    (codeTells : (code { spot with parent := none, inline := true }).Tells codeless)
    (contentTells : ∀ inline, (content { spot with nested := false, parent := some owner, inline }).Tells
      (body.isSilent false inline)) :
    (tag style spot owner head (some body) code content).Tells
      (spot.nested && spot.inline && head.isBlank && codeless && Node.isSilentBody line (some body)) := by
  refine (tagHead_silent style head).tells_bind fun text found => ?_
  have blank := tagHead_eq_nil_iff found
  by_cases joins : (spot.nested && spot.inline) = true
  · obtain ⟨nested, inline⟩ := Bool.and_eq_true_iff.mp joins
    have element (more : Emission) : bracketed (spot.inline && !spot.nested)
        (Emission.head spot.inline spot.depth text >>= fun _ => more) = append text >>= fun _ => more := by
      simp [nested, inline, bracketed, Emission.head]
    rw [element, joins, Bool.true_and]
    cases isBlank : head.isBlank with
    | false =>
      have filled : text ≠ [] := fun empty => Bool.noConfusion (isBlank.symm.trans (blank.mp empty))
      exact (append_tells filled).shown _
    | true =>
      have empty : text = [] := blank.mpr isBlank
      subst empty
      have content := codeTells.bind fun _ => @ownContent_tells style _ _ _ _ atLine _ contentTells
      exact Run.Silent.tells_bind (fun _ => rfl) fun _ _ => content
  · have apart : (spot.nested && spot.inline) = false := Bool.eq_false_iff.mpr joins
    rw [apart]
    refine element_tells ?_ _ _
    cases inline : spot.inline with
    | false => exact .inr (.inl rfl)
    | true =>
      left
      simpa [inline] using apart

private theorem mixin_tells (m : MixinHead) (block : Option Node) (content : Spot → Emission) :
    (mixin style spot owner m block content).Tells false := by
  unfold mixin
  split
  · refine (callHead_silent style m).tells_bind fun text found => ?_
    obtain ⟨attrs, _, found⟩ := (Run.bind_result_eq_ok_iff _ _ _).mp found
    obtain ⟨blocks, _, found⟩ := (Run.bind_result_eq_ok_iff _ _ _).mp found
    cases found
    exact element_tells (.inr (.inr (List.cons_ne_nil _ _))) _ _
  · exact (newLine_tells _ _).shown _

private theorem filter_tells (name : Loose Text) (attrs : Attributes) (block : Option Node)
    (chained content : Spot → Emission) (lines : Int → Emission) :
    (filter style spot owner name attrs block chained content lines).Tells false := by
  cases block with
  | none => exact Run.tells_fail _ _
  | some block =>
    refine (filterHead_silent style attrs name).tells_bind fun text found => ?_
    cases name with
    | odd value => cases found
    | of name =>
      obtain ⟨written, _, found⟩ := (Run.bind_result_eq_ok_iff _ _ _).mp found
      cases found
      exact element_tells (.inr (.inr (List.cons_ne_nil _ _))) _ _

end Emit

/-- In a line, and where elements need no brackets, the node stands below no node whose child may follow
a colon. -/
def Spot.NoBareColon (spot : Spot) : Prop :=
  (spot.nested && spot.inline) = true → ∀ parent, spot.parent = some parent →
    Layout.takesColon parent = false

private theorem Spot.NoBareColon.usesColon_of_areSilent {spot : Spot} (apart : spot.NoBareColon)
    {nodes : List Node} (silent : Node.areSilent spot.nested spot.inline nodes = true)
    (enabled : Bool) : Layout.usesColon enabled (.ofParent spot.parent) nodes = false := by
  cases bare : spot.nested && spot.inline with
  | false => exact Node.usesColon_of_areSilent silent bare enabled _
  | true =>
    cases given : spot.parent with
    | none => rfl
    | some parent =>
      unfold Layout.usesColon
      split
      · rename_i same
        cases same
        rw [apart bare parent given, Bool.and_false, Bool.false_and]
      · rfl

namespace Emit

variable {style : Style} {spot : Spot}

private theorem content_tells (apart : spot.NoBareColon) (yields : Loose Bool) {nodes : List Node}
    (lines : Int → Emission) {run : Int → Bool → Bool → Emission}
    (runTells : ∀ depth, (run depth spot.nested spot.inline).Tells
      (Node.areSilent spot.nested spot.inline nodes)) :
    (content style spot yields nodes lines run).Tells
      (!yields.isOn && Node.areSilent spot.nested spot.inline nodes) := by
  unfold content
  cases yields.isOn with
  | true => exact newLine_tells _ _
  | false =>
    simp only [Bool.false_eq_true, if_false, Bool.not_false, Bool.true_and]
    cases dot : Layout.usesDot? spot.parent nodes with
    | none => exact Run.tells_fail _ _
    | some dotted =>
      cases dotted with
      | true =>
        -- A dot block has words in it.
        have shown : Node.areSilent spot.nested spot.inline nodes = false :=
          Bool.eq_false_iff.mpr fun silent => Node.usesDot?_of_areSilent silent _ dot
        rw [shown]
        dsimp only
        split
        · exact (append_tells (List.cons_ne_nil _ _)).shown _
        · exact (append_tells (List.cons_ne_nil _ _)).shown _
        · exact (newLine_tells _ _).shown _
      | false =>
        by_cases colon : Layout.usesColon style.colon (.ofParent spot.parent) nodes = true
        · have shown : Node.areSilent spot.nested spot.inline nodes = false := by
            refine Bool.eq_false_iff.mpr fun silent => ?_
            rw [apart.usesColon_of_areSilent silent] at colon
            cases colon
          rw [shown]
          simp only [colon, if_true]
          exact (append_tells (by decide)).shown _
        · simp only [colon]
          exact runTells _

private theorem oddContent_tells (depth : Int) (yields : Loose Bool) (value : Json) :
    (oddContent depth yields value).Tells (!yields.isOn) := by
  have tells := (oddContent_opens depth yields value).tells
  cases on : yields.isOn <;> rw [on] at tells <;> exact tells

end Emit

open Emit

mutual

/-- A node that is printed writes nothing exactly when it is silent where it stands. -/
theorem emit_tells (style : Style) : ∀ (n : Node) (spot : Spot), spot.NoBareColon →
    (emit style spot n).Tells (n.isSilent spot.nested spot.inline)
  | .stray value, spot, _ => Run.tells_fail _ _
  | .leaf loc head, spot, _ => by
    have tells := (@leaf_opens style spot loc head).tells
    rw [emit]
    cases head with
    | text val isHtml =>
      cases val with
      | odd value => exact tells
      | of val =>
        have same : ((Node.leaf loc (.text (.of val) isHtml)).opening style spot.parent spot.inline ==
            .nothing) = (Node.leaf loc (.text (.of val) isHtml)).isSilent spot.nested spot.inline := by
          rw [Node.opening, Node.isSilent]
          cases isHtml.isOn <;> cases val <;> cases spot.inline <;> rfl
        rwa [same] at tells
    | fileReference path =>
      cases path with
      | odd value => exact tells
      | of path => cases path <;> exact tells
    | _ => exact tells
  | .block loc (.named name mode) yields nodes, spot, _ => by
    rw [emit]
    exact (newLine_tells _ _).shown _
  | .block loc .plain yields nodes, spot, apart => by
    rw [emit]
    exact content_tells apart yields _ fun depth =>
      emitRun_tells style nodes { depth, nested := spot.nested, inline := spot.inline } _ rfl
  | .oddBlock loc (.named name mode) yields value, spot, _ => by
    rw [emit]
    exact (newLine_tells _ _).shown _
  | .oddBlock loc .plain yields value, spot, _ => by
    rw [emit]
    exact oddContent_tells _ _ _
  | .stem loc head child, spot, _ => by
    cases head with
    | mixin m =>
      rw [emit]
      exact mixin_tells m child _
    | code head =>
      rw [emit]
      exact code_tells head _
    | filter name attrs =>
      rw [emit]
      exact filter_tells name attrs child _ _ _
    | blockComment val buffer =>
      rw [emit]
      cases child with
      | none => exact Run.tells_fail _ _
      | some block =>
        exact (Run.silent_of_out_nil rfl).tells_bind fun _ _ => (newLine_tells _ _).shown _
    | _ =>
      rw [emit]
      exact (newLine_tells _ _).shown _
  | .fork loc (.tag head) none code, spot, _ => Run.tells_fail _ _
  | .fork loc (.tag head) (some body) code, spot, _ => by
    rw [emit]
    exact tag_tells rfl (emitTagCode_tells code) fun inline =>
      emit_tells style body _ fun bare => by cases bare
  | .fork loc (.conditional test) yes no, spot, _ => by
    rw [emit]
    exact (newLine_tells _ _).shown _
  | .fork loc (.each val obj key) body alternative, spot, _ => by
    rw [emit]
    exact (newLine_tells _ _).shown _
  | .fork loc (.inclusion filter attrs) file body, spot, _ => by
    rw [emit]
    exact (newLine_tells _ _).shown _
termination_by structural n => n

private theorem emitRun_tells (style : Style) : ∀ (nodes : List Node) (spot : Spot) (block : Node),
    Layout.takesColon block = false →
    (emitRun style { spot with parent := some block } nodes).Tells
      (Node.areSilent spot.nested spot.inline nodes)
  | [], spot, block, _ => nothing_tells
  | n :: rest, spot, block, noColon => by
    have here := emit_tells style n { spot with parent := some block } fun _ parent isParent => by
      cases isParent
      exact noColon
    have later := emitRun_tells style rest { spot with inline := continuesLine n rest } block noColon
    rw [emitRun]
    split
    · exact here.bind fun _ => later
    · exact Run.tells_fail _ _
termination_by structural nodes => nodes

end

end PugPrinter
