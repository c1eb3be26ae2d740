import PugPrinter.Proofs.Edit.NormalForm
import PugPrinter.Proofs.Emit.Depth

/-!
Lines count only by their differences. When all lines of a tree are moved by the same number, and
columns and files are forgotten, every choice of layout stays what it was, since all of them compare
the line of a node with that of a neighbour, of its parent or of its block. So the moved tree becomes
the same pieces; only a fault may name another place.
-/

set_option autoImplicit false

namespace PugPrinter

namespace Run

variable {ω α β : Type}

/-- Runs that put out the same and end alike: with the same result, or both with some fault. -/
structure Agrees (run other : Run ω α) : Prop where
  out : run.out = other.out
  result : ∀ a, run.result = .ok a ↔ other.result = .ok a

theorem Agrees.refl (run : Run ω α) : run.Agrees run :=
  ⟨rfl, fun _ => Iff.rfl⟩

private theorem agrees_fail (fault other : Fault) : (fail fault : Run ω α).Agrees (fail other) where
  out := rfl
  result a := by
    constructor
    · intro ended
      cases ended
    · intro ended
      cases ended

private theorem Agrees.bind {first first' : Run ω α} {next next' : α → Run ω β}
    (same : first.Agrees first') (rest : ∀ a, (next a).Agrees (next' a)) :
    (first >>= next).Agrees (first' >>= next') := by
  cases ended : first.result with
  | ok a =>
    have ended' := (same.result a).mp ended
    constructor
    · rw [bind_out_of_ok ended, bind_out_of_ok ended', same.out, (rest a).out]
    · intro b
      simp only [bind_def, andThen, ended, ended', (rest a).result b]
  | error fault =>
    obtain ⟨fault', ended'⟩ : ∃ fault', first'.result = .error fault' := by
      cases ended' : first'.result with
      | error fault' => exact ⟨fault', rfl⟩
      | ok a =>
        rw [(same.result a).mpr ended'] at ended
        cases ended
    constructor
    · simp only [bind_def, andThen, ended, ended', same.out]
    · intro b
      simp only [bind_def, andThen, ended, ended', reduceCtorEq]

theorem Agrees.ite {c : Prop} [Decidable c] {yes yes' no no' : Run ω α} (ofYes : yes.Agrees yes')
    (ofNo : no.Agrees no') : (if c then yes else no).Agrees (if c then yes' else no') := by
  split
  · exact ofYes
  · exact ofNo

end Run

/-- A place with its line moved; its column and its file are forgotten. -/
def Location.moved (k : Int) (loc : Location) : Location :=
  { line := loc.line + k }

namespace Node

mutual

/-- A tree with all its lines moved by the same number, without columns and files. -/
def moved (k : Int) : Node → Node
  | .leaf loc head => .leaf (loc.moved k) head
  | .block loc kind yields nodes => .block (loc.moved k) kind yields (movedNodes k nodes)
  | .oddBlock loc kind yields value => .oddBlock (loc.moved k) kind yields value
  | .stem loc head child => .stem (loc.moved k) head (movedSlot k child)
  | .fork loc head first second =>
    .fork (loc.moved k) head (movedSlot k first) (movedSlot k second)
  | .stray value => .stray value
termination_by structural node => node

def movedNodes (k : Int) : List Node → List Node
  | [] => []
  | n :: rest => n.moved k :: movedNodes k rest
termination_by structural nodes => nodes

def movedSlot (k : Int) : Option Node → Option Node
  | none => none
  | some n => some (n.moved k)
termination_by structural child => child

end

variable (k : Int)

theorem movedNodes_eq_map (nodes : List Node) : movedNodes k nodes = nodes.map (moved k) := by
  induction nodes with
  | nil => rfl
  | cons n rest ih => rw [movedNodes, ih, List.map_cons]

private theorem movedSlot_eq_map (child : Option Node) :
    movedSlot k child = child.map (moved k) := by
  cases child <;> rfl

private theorem isSome_movedSlot (child : Option Node) :
    (movedSlot k child).isSome = child.isSome := by
  cases child <;> rfl

@[simp] theorem line?_moved (n : Node) : (n.moved k).line? = n.line?.map (· + k) := by
  cases n <;> rfl

@[simp] theorem kind?_moved (n : Node) : (n.moved k).kind? = n.kind? := by
  cases n <;> rfl

@[simp] theorem isKind_moved (kind : Kind) (n : Node) :
    (n.moved k).isKind kind = n.isKind kind := by
  rw [isKind, isKind, kind?_moved]

@[simp] theorem isNode_moved (n : Node) : (n.moved k).isNode = n.isNode := by
  cases n <;> rfl

@[simp] theorem isCall_moved (n : Node) : (n.moved k).isCall = n.isCall := by
  cases n with
  | stem loc head child => cases head <;> rfl
  | _ => rfl

private theorem nodes?_moved (n : Node) :
    (n.moved k).nodes? = n.nodes?.map (List.map (moved k)) := by
  cases n with
  | block loc kind yields nodes =>
    exact congrArg some (movedNodes_eq_map k nodes)
  | oddBlock loc kind yields value =>
    have stays (items : List Json) : (items.map stray).map (moved k) = items.map stray := by
      rw [List.map_map]
      rfl
    cases value with
    | obj fields =>
      cases fields with
      | nil => rfl
      | cons field fields => rfl
    | str s => exact congrArg some (stays _).symm
    | arr items => exact congrArg some (stays _).symm
    | _ => rfl
  | _ => rfl

end Node

namespace Layout

open Node

variable (k : Int)

@[simp] theorem isLineFeed_moved (n : Node) : isLineFeed (n.moved k) = isLineFeed n := by
  cases n with
  | leaf loc head => cases head <;> rfl
  | _ => rfl

@[simp] theorem takesColon_moved (n : Node) : takesColon (n.moved k) = takesColon n := by
  simp only [takesColon, isKind_moved, isCall_moved]

@[simp] theorem followsColon_moved (n : Node) : followsColon (n.moved k) = followsColon n := by
  simp only [followsColon, isKind_moved, isCall_moved]

private theorem blockOf?_moved (n : Node) : blockOf? (n.moved k) = (blockOf? n).map (moved k) := by
  cases n with
  | stem loc head child => cases head <;> first | rfl | exact movedSlot_eq_map k child
  | fork loc head first second => cases head <;> first | rfl | exact movedSlot_eq_map k first
  | _ => rfl

private theorem usesColon_moved (enabled : Bool) (parent : Node) (nodes : List Node) :
    usesColon enabled (.node (parent.moved k) true) (nodes.map (moved k)) =
      usesColon enabled (.node parent true) nodes := by
  rcases nodes with _ | ⟨child, _ | ⟨next, rest⟩⟩ <;> simp [usesColon]

private theorem startsLine_moved (n : Node) (before : Option Node) :
    startsLine (n.moved k) (before.map (moved k)) = startsLine n before := by
  cases before with
  | none => rfl
  | some prev =>
    simp only [startsLine, Option.map_some, line?_moved, isLineFeed_moved]
    rcases n.line? with _ | line <;> rcases prev.line? with _ | prevLine <;>
      simp only [Option.map_none, Option.map_some, Int.add_lt_add_iff_right]

private theorem countDot_moved (count : DotCount) (before : Option Node) (beforeStarts : Bool)
    (nodes : List Node) :
    countDot count (before.map (moved k)) beforeStarts (nodes.map (moved k)) =
      countDot count before beforeStarts nodes := by
  induction nodes generalizing count before beforeStarts with
  | nil => rfl
  | cons n rest ih =>
    have starts := startsLine_moved k n before
    rw [List.map_cons]
    cases n with
    | leaf loc head =>
      cases head with
      | text val isHtml =>
        cases val with
        | of val =>
          simp only [moved] at starts
          simp only [moved, countDot, starts]
          exact ih _ (some (.leaf loc (.text (.of val) isHtml))) _
        | odd value => rfl
      | _ => rfl
    | stem loc head child =>
      cases head with
      | code head =>
        cases child with
        | none =>
          simp only [moved, movedSlot] at starts
          simp only [moved, movedSlot, countDot, starts]
          exact ih _ (some (.stem loc (.code head) none)) _
        | some child => rfl
      | _ => rfl
    | _ => rfl

private theorem getLast_moved {nodes : List Node} (filled : nodes ≠ []) :
    ((nodes.map (moved k)).getLast (by simpa using filled)).line? =
      (nodes.getLast filled).line?.map (· + k) := by
  rw [List.getLast_map, line?_moved]

private theorem usesDot?_moved (parent : Option Node) (nodes : List Node) :
    usesDot? (parent.map (moved k)) (nodes.map (moved k)) = usesDot? parent nodes := by
  cases nodes with
  | nil => rfl
  | cons first rest =>
    have count := countDot_moved k {} parent false (first :: rest)
    have last := getLast_moved k (List.cons_ne_nil first rest)
    simp only [List.map_cons] at count last
    simp only [usesDot?, List.map_cons, count, last, line?_moved]
    rcases (first :: rest).getLast _ |>.line? with _ | lastLine
    · rfl
    · rcases first.line? with _ | firstLine
      · rfl
      · have span : lastLine + k - (firstLine + k) = lastLine - firstLine := by omega
        simp only [Option.map_some, Option.bind_eq_bind, Option.bind_some, span]

private theorem startsOnSameLine?_moved (colon : Bool) (owner : Node) (nodes : List Node) :
    startsOnSameLine? colon (owner.moved k) true (nodes.map (moved k)) =
      startsOnSameLine? colon owner true nodes := by
  cases nodes with
  | nil => rfl
  | cons first rest =>
    have colonUsed := usesColon_moved k colon owner (first :: rest)
    have dotUsed := usesDot?_moved k (some owner) (first :: rest)
    have sameLine (line : Int) :
        (owner.line?.map (· + k) != some (line + k)) = (owner.line? != some line) := by
      rcases owner.line? with _ | ownLine
      · rfl
      · simp only [Option.map_some, bne, Option.some_beq_some]
        congr 1
        rw [Bool.eq_iff_iff, beq_iff_eq, beq_iff_eq, Int.add_left_inj]
    simp only [List.map_cons, Option.map_some] at colonUsed dotUsed
    simp only [startsOnSameLine?, List.map_cons, line?_moved, colonUsed, dotUsed]
    rcases first.line? with _ | line
    · rfl
    · simp only [Option.map_some, Option.bind_eq_bind, Option.bind_some, sameLine]

private theorem needsSpace_moved (nodes : List Node) :
    needsSpace (nodes.map (moved k)) = needsSpace nodes := by
  rcases nodes with _ | ⟨n, _ | ⟨next, rest⟩⟩ <;> simp [needsSpace]

end Layout

def Spot.moved (k : Int) (spot : Spot) : Spot :=
  { spot with parent := spot.parent.map (Node.moved k) }

@[simp] theorem Spot.moved_depth (k : Int) (spot : Spot) : (spot.moved k).depth = spot.depth := rfl

@[simp] theorem Spot.moved_nested (k : Int) (spot : Spot) : (spot.moved k).nested = spot.nested := rfl

@[simp] theorem Spot.moved_inline (k : Int) (spot : Spot) : (spot.moved k).inline = spot.inline := rfl

@[simp] theorem Spot.moved_parent (k : Int) (spot : Spot) :
    (spot.moved k).parent = spot.parent.map (Node.moved k) := rfl

def MovesWith (k : Int) (content' content : Spot → Emission) : Prop :=
  ∀ spot : Spot, (content' (spot.moved k)).Agrees (content spot)

namespace Emission

open Run

private theorem agrees_refuse (error error' : TreeError) : (refuse error).Agrees (refuse error') :=
  agrees_fail _ _

private theorem agrees_bracketed {inner inner' : Emission} (brackets : Bool)
    (same : inner.Agrees inner') :
    (bracketed brackets inner).Agrees (bracketed brackets inner') := by
  unfold bracketed
  exact .ite (.bind (.refl _) fun _ => .bind same fun _ => .refl _) same

end Emission

open Emission Run

namespace Emit

open Node Layout

variable {k : Int} {style : Style} {spot : Spot} (owner : Node)

private theorem text_moved (spot : Spot) (node node' : Node) (isHtml : Bool) (val : Text) :
    (text (spot.moved k) node' isHtml val).Agrees (text spot node isHtml val) := by
  unfold text
  exact .ite (.ite (agrees_refuse _ _) (.refl _)) (.refl _)

private theorem oddText_moved (spot : Spot) (node node' : Node) (isHtml : Bool) (value : Json) :
    (oddText (spot.moved k) node' isHtml value).Agrees (oddText spot node isHtml value) := by
  unfold oddText
  exact .ite (.ite (agrees_refuse _ _) (.refl _)) (.refl _)

private theorem leaf_moved (spot : Spot) (node node' : Node) (head : Leaf) :
    (leaf (spot.moved k) node' head).Agrees (leaf spot node head) := by
  cases head with
  | text val isHtml =>
    cases val with
    | of val => exact text_moved spot node node' isHtml.isOn val
    | odd value => exact oddText_moved spot node node' isHtml.isOn value
  | comment val buffer => cases val <;> exact .refl _
  | fileReference path => cases path <;> exact .refl _
  | bare => exact agrees_refuse _ _
  | mixinBlock => exact .refl _
  | doctype val => exact .refl _

private theorem isRunning_moved (spot : Spot) : isRunning (spot.moved k) = isRunning spot := by
  have children : ((spot.parent.map (moved k)).bind blockOf?).bind nodes? =
      ((spot.parent.bind blockOf?).bind nodes?).map (List.map (moved k)) := by
    cases spot.parent with
    | none => rfl
    | some parent =>
      simp only [Option.map_some, Option.bind_some, blockOf?_moved]
      cases blockOf? parent with
      | none => rfl
      | some block => exact nodes?_moved k block
  simp only [isRunning, Spot.moved_inline, Spot.moved_parent, children]
  cases (spot.parent.bind blockOf?).bind nodes? with
  | none => rfl
  | some nodes => simp only [Option.map_some, List.length_map]

private theorem code_moved (head : CodeHead) {block block' : Spot → Emission}
    (follows : MovesWith k block' block) :
    (code (spot.moved k) (owner.moved k) head block').Agrees (code spot owner head block) := by
  unfold code
  cases head.val with
  | odd _ => exact .refl _
  | of val =>
    have body := follows (spot.below owner)
    simp only [isRunning_moved]
    exact .ite (.refl _) (.bind (.refl _) fun _ =>
      .ite (.bind (.refl _) fun _ => body) (.bind (.refl _) fun _ => body))

private theorem ownContent_moved (block : Node) {content content' : Spot → Emission}
    (follows : MovesWith k content' content) :
    (ownContent style (spot.moved k) (owner.moved k) (block.moved k) content').Agrees
      (ownContent style spot owner block content) := by
  unfold ownContent
  rw [nodes?_moved]
  rcases block.nodes? with _ | _ | ⟨first, rest⟩
  · exact .refl _
  · exact .refl _
  · have sameLine := startsOnSameLine?_moved k style.colon owner (first :: rest)
    have space := needsSpace_moved k (first :: rest)
    simp only [List.map_cons] at sameLine space
    simp only [Option.map_some, List.map_cons, sameLine, space]
    cases startsOnSameLine? style.colon owner true (first :: rest) with
    | none => exact .refl _
    | some same =>
      have body := follows { spot with nested := false, parent := some owner, inline := same }
      exact .ite (.bind (.refl _) fun _ => body) body

private theorem tag_moved (head : TagHead) (block : Option Node)
    {code code' content content' : Spot → Emission} (codeFollows : MovesWith k code' code)
    (contentFollows : MovesWith k content' content) :
    (tag style (spot.moved k) (owner.moved k) head (movedSlot k block) code' content').Agrees
      (tag style spot owner head block code content) := by
  cases block with
  | none => exact agrees_refuse _ _
  | some block =>
    exact .bind (.refl _) fun _ => agrees_bracketed _ (.bind (.refl _) fun _ =>
      .bind (codeFollows { spot with parent := none, inline := true }) fun _ =>
        ownContent_moved owner block contentFollows)

private theorem mixin_moved (m : MixinHead) (block : Option Node)
    {content content' : Spot → Emission} (follows : MovesWith k content' content) :
    (mixin style (spot.moved k) (owner.moved k) m (movedSlot k block) content').Agrees
      (mixin style spot owner m block content) := by
  unfold mixin
  refine .ite (.bind (.refl _) fun _ => agrees_bracketed _ (.bind (.refl _) fun _ => ?_))
    (.bind (.refl _) fun _ => follows (spot.below owner))
  cases block with
  | none => exact .refl _
  | some block => exact ownContent_moved owner block follows

private theorem when_moved (expr : Loose Text) (block : Option Node) {body body' : Spot → Emission}
    (follows : MovesWith k body' body) :
    (when (spot.moved k) (owner.moved k) expr (movedSlot k block) body').Agrees
      (when spot owner expr block body) := by
  refine .bind (.refl _) fun _ => ?_
  cases block with
  | none => exact .refl _
  | some block =>
    simp only [movedSlot, nodes?_moved]
    rcases block.nodes? with _ | _ | ⟨first, rest⟩
    · exact .refl _
    · exact .refl _
    · exact follows (spot.below owner)

private theorem rawBlock_agrees (depth : Int) {lines lines' : Int → Emission}
    (same : ∀ depth, (lines' depth).Agrees (lines depth)) :
    (rawBlock depth lines').Agrees (rawBlock depth lines) :=
  .bind (.refl _) fun _ => same _

private theorem blockComment_moved (val : Loose Text) (buffer : Loose Bool) (block : Option Node)
    {lines lines' : Int → Emission} (same : ∀ depth, (lines' depth).Agrees (lines depth)) :
    (blockComment (spot.moved k) (owner.moved k) val buffer (movedSlot k block) lines').Agrees
      (blockComment spot owner val buffer block lines) := by
  cases block with
  | none => exact agrees_refuse _ _
  | some block =>
    exact .bind (.refl _) fun _ => .bind (.refl _) fun _ => rawBlock_agrees _ same

private theorem filter_moved (name : Loose Text) (attrs : Attributes) (block : Option Node)
    {chained chained' content content' : Spot → Emission} {lines lines' : Int → Emission}
    (chainFollows : MovesWith k chained' chained) (contentFollows : MovesWith k content' content)
    (same : ∀ depth, (lines' depth).Agrees (lines depth)) :
    (filter style (spot.moved k) (owner.moved k) name attrs (movedSlot k block) chained' content'
      lines').Agrees (filter style spot owner name attrs block chained content lines) := by
  cases block with
  | none => exact agrees_refuse _ _
  | some block =>
    refine .bind (.refl _) fun _ => agrees_bracketed _ (.bind (.refl _) fun _ => ?_)
    rw [nodes?_moved]
    rcases block.nodes? with _ | _ | ⟨first, rest⟩
    · exact .refl _
    · exact .refl _
    · have chain := chainFollows { spot with nested := true, parent := some owner }
      have body := contentFollows { spot with nested := false }
      simp only [Option.map_some, List.map_cons, isKind_moved, List.isEmpty_map]
      exact .ite (.ite chain (agrees_refuse _ _))
        (.ite (.ite (.bind (.refl _) fun _ => body) body) (rawBlock_agrees _ same))

private theorem content_moved (spot : Spot) (yields : Loose Bool) (nodes : List Node)
    {lines lines' : Int → Emission} {run run' : Int → Bool → Bool → Emission}
    (sameLines : ∀ depth, (lines' depth).Agrees (lines depth))
    (sameRun : ∀ depth nested inline, (run' depth nested inline).Agrees (run depth nested inline)) :
    (content style (spot.moved k) yields (movedNodes k nodes) lines' run').Agrees
      (content style spot yields nodes lines run) := by
  have kinds : (spot.parent.map (moved k)).bind kind? = spot.parent.bind kind? := by
    cases spot.parent with
    | none => rfl
    | some parent => exact kind?_moved k parent
  have colon : usesColon style.colon (.ofParent (spot.parent.map (moved k))) (nodes.map (moved k)) =
      usesColon style.colon (.ofParent spot.parent) nodes := by
    cases spot.parent with
    | none => rfl
    | some parent => exact usesColon_moved k style.colon parent nodes
  simp only [content, Spot.moved_parent, movedNodes_eq_map, usesDot?_moved, kinds, colon]
  refine .ite (.refl _) ?_
  split
  · exact .refl _
  · split <;> exact .bind (.refl _) fun _ => rawBlock_agrees _ sameLines
  · exact .ite (.bind (.refl _) fun _ => sameRun _ _ _) (sameRun _ _ _)

private theorem oddLines_moved (block block' : Node) (value : Json) :
    (oddLines block' value).Agrees (oddLines block value) := by
  unfold oddLines
  split
  · exact .refl _
  · exact agrees_refuse _ _
  · exact .refl _

private theorem continuesLine_moved (k : Int) (n : Node) (rest : List Node) :
    continuesLine (n.moved k) (movedNodes k rest) = continuesLine n rest := by
  cases rest with
  | nil => rfl
  | cons next rest =>
    simp only [continuesLine, movedNodes, line?_moved]
    rcases n.line? with _ | line <;> rcases next.line? with _ | nextLine <;> try rfl
    simp only [Option.map_some]
    rw [Bool.eq_iff_iff, beq_iff_eq, beq_iff_eq, Int.add_left_inj]

end Emit

private theorem alternate_moved {k : Int} {style : Style} {n : Node}
    (other : n.isKind .conditional = false)
    (follows : MovesWith k (fun spot => emit style spot (n.moved k)) fun spot => emit style spot n) :
    MovesWith k (fun spot => emitAlternate style spot (some (n.moved k)))
      fun spot => emitAlternate style spot (some n) := by
  intro spot
  have other' : (n.moved k).isKind .conditional = false := by rw [Node.isKind_moved, other]
  simp only [emitAlternate_of_not_conditional other, emitAlternate_of_not_conditional other']
  exact .bind (.refl _) fun _ => follows spot

open Node (moved movedSlot movedNodes)

mutual

/-- A node with its lines moved becomes the pieces of the node itself. -/
theorem emit_moved (k : Int) (style : Style) : ∀ n : Node,
    MovesWith k (fun spot => emit style spot (n.moved k)) fun spot => emit style spot n
  | .stray value => by
    intro spot
    simp only [moved, emit]
    exact agrees_refuse _ _
  | .leaf loc head => by
    intro spot
    simp only [moved, emit]
    exact Emit.leaf_moved spot _ _ head
  | .block loc kind yields nodes => by
    intro spot
    have lines (depth : Int) := emitLines_moved k style depth spot.nested
      (.block loc kind yields nodes) false nodes
    have run (depth : Int) (nested inline : Bool) := emitRun_moved k style nodes
      { depth, nested, parent := some (.block loc kind yields nodes), inline }
    cases kind with
    | plain =>
      simp only [moved, emit]
      exact Emit.content_moved spot yields nodes lines run
    | named name mode =>
      simp only [moved, emit]
      exact .bind (.refl _) fun _ => Emit.content_moved spot.detached yields nodes lines run
  | .oddBlock loc kind yields value => by
    intro spot
    cases kind <;> simp only [moved, emit] <;> exact .refl _
  | .stem loc (.mixin m) block => by
    intro spot
    simp only [moved, emit]
    exact Emit.mixin_moved (.stem loc (.mixin m) block) m block (emitOptional_moved k style block)
  | .stem loc (.code head) block => by
    intro spot
    simp only [moved, emit]
    exact Emit.code_moved (.stem loc (.code head) block) head (emitOptional_moved k style block)
  | .stem loc (.blockComment val buffer) block => by
    intro spot
    simp only [moved, emit]
    exact Emit.blockComment_moved (.stem loc (.blockComment val buffer) block) val buffer block
      fun depth => emitBlockLines_moved k style depth spot.nested block
  | .stem loc (.caseOf expr) block => by
    intro spot
    simp only [moved, emit]
    exact .bind (.refl _) fun _ =>
      emitChild_moved k style block (spot.below (.stem loc (.caseOf expr) block))
  | .stem loc (.when expr) block => by
    intro spot
    simp only [moved, emit]
    exact Emit.when_moved (.stem loc (.when expr) block) expr block (emitOptional_moved k style block)
  | .stem loc (.whileLoop test) block => by
    intro spot
    simp only [moved, emit]
    exact .bind (.refl _) fun _ =>
      emitChild_moved k style block (spot.below (.stem loc (.whileLoop test) block))
  | .stem loc .extending file => by
    intro spot
    simp only [moved, emit]
    exact .bind (.refl _) fun _ =>
      emitChild_moved k style file (spot.below (.stem loc .extending file))
  | .stem loc (.filter name attrs) block => by
    intro spot
    simp only [moved, emit]
    exact Emit.filter_moved (.stem loc (.filter name attrs) block) name attrs block
      (emitChildren_moved k style block) (emitOptional_moved k style block)
      fun depth => emitBlockLines_moved k style depth spot.nested block
  | .fork loc (.tag head) block code => by
    intro spot
    simp only [moved, emit]
    exact Emit.tag_moved (.fork loc (.tag head) block code) head block
      (emitTagCode_moved k style code) (emitOptional_moved k style block)
  | .fork loc (.conditional test) yes no => by
    intro spot
    have first := emitChild_moved k style yes (spot.below (.fork loc (.conditional test) yes no))
    have second := emitAlternate_moved k style no (spot.below (.fork loc (.conditional test) yes no))
    simp only [moved, emit]
    exact .bind (.refl _) fun _ => .bind first fun _ => second
  | .fork loc (.each val obj key) block alternative => by
    intro spot
    have body := emitChild_moved k style block
      (spot.below (.fork loc (.each val obj key) block alternative))
    have instead := emitOptional_moved k style alternative spot.detached
    simp only [moved, emit, Node.isSome_movedSlot]
    exact .bind (.refl _) fun _ => .bind body fun _ =>
      .ite (.bind (.refl _) fun _ => instead) instead
  | .fork loc (.inclusion filter attrs) file block => by
    intro spot
    have path := emitChild_moved k style file
      (spot.below (.fork loc (.inclusion filter attrs) file block))
    have content := emitOptional_moved k style block spot.detached
    simp only [moved, emit]
    exact .bind (.refl _) fun _ => .bind (.refl _) fun _ => .bind (.refl _) fun _ =>
      .bind path fun _ => content
termination_by structural n => n

private theorem emitChild_moved (k : Int) (style : Style) : ∀ child : Option Node,
    MovesWith k (fun spot => emitChild style spot (movedSlot k child))
      fun spot => emitChild style spot child
  | none => fun spot => by
    simp only [movedSlot, emitChild]
    exact agrees_refuse _ _
  | some n => fun spot => by
    simp only [movedSlot, emitChild]
    exact emit_moved k style n spot
termination_by structural child => child

private theorem emitOptional_moved (k : Int) (style : Style) : ∀ child : Option Node,
    MovesWith k (fun spot => emitOptional style spot (movedSlot k child))
      fun spot => emitOptional style spot child
  | none => fun spot => by
    simp only [movedSlot, emitOptional]
    exact .refl _
  | some n => fun spot => by
    simp only [movedSlot, emitOptional]
    exact emit_moved k style n spot
termination_by structural child => child

private theorem emitChildren_moved (k : Int) (style : Style) : ∀ child : Option Node,
    MovesWith k (fun spot => emitChildren style spot (movedSlot k child))
      fun spot => emitChildren style spot child
  | some (.block _ _ _ nodes) => fun spot => by
    simp only [movedSlot, moved, emitChildren]
    exact emitRun_moved k style nodes spot
  | none | some (.leaf _ _) | some (.oddBlock _ _ _ _) | some (.stem _ _ _)
  | some (.fork _ _ _ _) | some (.stray _) => fun spot => by
    simp only [movedSlot, moved, emitChildren]
    exact .refl _
termination_by structural child => child

private theorem emitBlockLines_moved (k : Int) (style : Style) (depth : Int) (nested : Bool) :
    ∀ child : Option Node, (emitBlockLines style depth nested (movedSlot k child)).Agrees
      (emitBlockLines style depth nested child)
  | some (.block loc kind yields nodes) => by
    simp only [movedSlot, moved, emitBlockLines]
    exact emitLines_moved k style depth nested (.block loc kind yields nodes) true nodes
  | some (.oddBlock loc kind yields value) => by
    simp only [movedSlot, moved, emitBlockLines]
    exact Emit.oddLines_moved _ _ value
  | none | some (.leaf _ _) | some (.stem _ _ _) | some (.fork _ _ _ _) | some (.stray _) => by
    simp only [movedSlot, moved, emitBlockLines]
    exact .refl _
termination_by structural child => child

private theorem emitTagCode_moved (k : Int) (style : Style) : ∀ code : Option Node,
    MovesWith k (fun spot => emitTagCode style spot (movedSlot k code))
      fun spot => emitTagCode style spot code
  | some (.stem loc (.code head) body) => fun spot => by
    simp only [movedSlot, moved, emitTagCode]
    exact Emit.code_moved (.stem loc (.code head) body) head (emitOptional_moved k style body)
  | some (.stem loc (.blockComment val buffer) body) => fun spot => by
    simp only [movedSlot, moved, emitTagCode]
    exact .ite (.refl _) (Emit.code_moved (.stem loc (.blockComment val buffer) body) { val }
      (emitOptional_moved k style body))
  | none | some (.leaf _ _) | some (.block _ _ _ _) | some (.oddBlock _ _ _ _)
  | some (.fork _ _ _ _) | some (.stray _) | some (.stem _ (.mixin _) _)
  | some (.stem _ (.caseOf _) _) | some (.stem _ (.when _) _) | some (.stem _ (.whileLoop _) _)
  | some (.stem _ .extending _) | some (.stem _ (.filter _ _) _) => fun spot => by
    simp only [movedSlot, moved, emitTagCode]
    exact .refl _
termination_by structural code => code

private theorem emitAlternate_moved (k : Int) (style : Style) : ∀ child : Option Node,
    MovesWith k (fun spot => emitAlternate style spot (movedSlot k child))
      fun spot => emitAlternate style spot child
  | none => fun spot => by
    simp only [movedSlot, emitAlternate]
    exact .refl _
  | some (.fork loc (.conditional test) yes no) => fun spot => by
    have first := emitChild_moved k style yes (spot.below (.fork loc (.conditional test) yes no))
    have second := emitAlternate_moved k style no (spot.below (.fork loc (.conditional test) yes no))
    simp only [movedSlot, moved, emitAlternate]
    exact .bind (.refl _) fun _ => .bind (.refl _) fun _ => .bind first fun _ => second
  | some (.fork loc (.tag head) block code) =>
    alternate_moved rfl (emit_moved k style (.fork loc (.tag head) block code))
  | some (.fork loc (.each val obj key) block alternative) =>
    alternate_moved rfl (emit_moved k style (.fork loc (.each val obj key) block alternative))
  | some (.fork loc (.inclusion filter attrs) file block) =>
    alternate_moved rfl (emit_moved k style (.fork loc (.inclusion filter attrs) file block))
  | some (.stem loc head child) =>
    alternate_moved (by cases head <;> rfl) (emit_moved k style (.stem loc head child))
  | some (.leaf loc head) =>
    alternate_moved (by cases head <;> rfl) (emit_moved k style (.leaf loc head))
  | some (.block loc kind yields nodes) =>
    alternate_moved (by cases kind <;> rfl) (emit_moved k style (.block loc kind yields nodes))
  | some (.oddBlock loc kind yields value) =>
    alternate_moved (by cases kind <;> rfl) (emit_moved k style (.oddBlock loc kind yields value))
  | some (.stray value) => alternate_moved rfl (emit_moved k style (.stray value))
termination_by structural child => child

private theorem emitRun_moved (k : Int) (style : Style) : ∀ nodes : List Node,
    MovesWith k (fun spot => emitRun style spot (movedNodes k nodes))
      fun spot => emitRun style spot nodes
  | [] => fun spot => by
    simp only [movedNodes, emitRun]
    exact .refl _
  | n :: rest => fun spot => by
    have node := emit_moved k style n spot
    have others := emitRun_moved k style rest { spot with inline := Emit.continuesLine n rest }
    simp only [movedNodes, emitRun, Node.isNode_moved, Emit.continuesLine_moved]
    exact .ite (.bind node fun _ => others) (.bind (.refl _) fun _ => others)
termination_by structural nodes => nodes

private theorem emitLines_moved (k : Int) (style : Style) (depth : Int) (nested : Bool)
    (block : Node) (verbatim : Bool) : ∀ nodes : List Node,
    (emitLines style depth nested (block.moved k) verbatim (movedNodes k nodes)).Agrees
      (emitLines style depth nested block verbatim nodes)
  | [] => by
    simp only [movedNodes, emitLines]
    exact .refl _
  | n :: rest => by
    have node := emit_moved k style n { depth, nested, parent := some block, inline := true }
    have others := emitLines_moved k style depth nested block verbatim rest
    cases n with
    | leaf loc head =>
      cases head with
      | text val isHtml =>
        cases val with
        | of val => exact .bind (.refl _) fun _ => others
        | odd value => exact .bind (.refl _) fun _ => others
      | _ => exact .bind (agrees_refuse _ _) fun _ => others
    | stem loc head child =>
      cases head with
      | code head => exact .bind node fun _ => others
      | _ => exact .bind (agrees_refuse _ _) fun _ => others
    | fork loc head first second =>
      cases head with
      | tag head => exact .bind node fun _ => others
      | _ => exact .bind (agrees_refuse _ _) fun _ => others
    | _ => exact .bind (agrees_refuse _ _) fun _ => others
termination_by structural nodes => nodes

end

end PugPrinter
