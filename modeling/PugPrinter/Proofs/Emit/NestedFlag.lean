import PugPrinter.Proofs.Emit.RunningLine
import PugPrinter.Proofs.Lines

/-!
The flag that keeps the heads of a chain in one line. All nodes on lines of their own hand it on to
what is below them, but it shows only in elements that continue a line, which have no brackets where it
is on, and in filters, which then continue the line. Where it shows, less is written.
-/

set_option autoImplicit false

namespace PugPrinter

open Emission

namespace Node

/-- Whether the flag shows in a sequence, given where it shows in its nodes as raw lines and as lines of
their own. After a colon it is on in any case. -/
def contentShowsFlag (colon : Bool) (parent : Option Node) (yields : Loose Bool) (nodes : List Node)
    (lines run : Bool) : Bool :=
  !yields.isOn &&
    match Layout.usesDot? parent nodes with
    | none => false
    | some true => lines
    | some false => !Layout.usesColon colon (.ofParent parent) nodes && run

mutual

def showsFlag (colon : Bool) (parent : Option Node) (inline : Bool) : Node → Bool
  | .leaf _ _ | .oddBlock _ _ _ _ | .stray _ => false
  | .block loc .plain yields nodes =>
    let self := Node.block loc .plain yields nodes
    contentShowsFlag colon parent yields nodes (linesShowFlag colon self nodes)
      (runShowsFlag colon (some self) inline nodes)
  | .block loc (.named name mode) yields nodes =>
    let self := Node.block loc (.named name mode) yields nodes
    contentShowsFlag colon none yields nodes (linesShowFlag colon self nodes)
      (runShowsFlag colon (some self) false nodes)
  | .stem loc (.mixin m) body =>
    if m.call.isOn then inline else slotShowsFlag colon (some (.stem loc (.mixin m) body)) false body
  | .stem loc (.code head) body =>
    !Emit.isRunning { depth := 0, parent, inline } &&
      slotShowsFlag colon (some (.stem loc (.code head) body)) false body
  | .stem _ (.blockComment _ _) body => blockLinesShowFlag colon body
  | .stem _ (.filter _ _) _ => true
  | .stem loc head child => slotShowsFlag colon (some (.stem loc head child)) false child
  | .fork _ (.tag _) _ code => inline || tagCodeShowsFlag colon code
  | .fork loc (.conditional test) yes no =>
    let self := Node.fork loc (.conditional test) yes no
    slotShowsFlag colon (some self) false yes || slotShowsFlag colon (some self) false no
  | .fork loc head first second =>
    slotShowsFlag colon (some (.fork loc head first second)) false first ||
      slotShowsFlag colon none false second
termination_by structural node => node

def runShowsFlag (colon : Bool) (parent : Option Node) (inline : Bool) : List Node → Bool
  | [] => false
  | n :: rest => n.showsFlag colon parent inline ||
      runShowsFlag colon parent (Emit.continuesLine n rest) rest
termination_by structural nodes => nodes

/-- Whether the flag shows in siblings as raw lines. -/
def linesShowFlag (colon : Bool) (block : Node) : List Node → Bool
  | [] => false
  | n :: rest => n.showsFlag colon (some block) true || linesShowFlag colon block rest
termination_by structural nodes => nodes

def slotShowsFlag (colon : Bool) (parent : Option Node) (inline : Bool) : Option Node → Bool
  | none => false
  | some n => n.showsFlag colon parent inline
termination_by structural child => child

def blockLinesShowFlag (colon : Bool) : Option Node → Bool
  | some (.block loc kind yields nodes) => linesShowFlag colon (.block loc kind yields nodes) nodes
  | _ => false
termination_by structural child => child

def tagCodeShowsFlag (colon : Bool) : Option Node → Bool
  | some (.stem loc head body) => slotShowsFlag colon (some (.stem loc head body)) false body
  | _ => false
termination_by structural code => code

end

private theorem showsFlag_of_no_nodes {n : Node} (empty : n.nodes? = some []) (colon : Bool)
    (parent : Option Node) (inline : Bool) : n.showsFlag colon parent inline = false := by
  have noContent (parent : Option Node) (yields : Loose Bool) :
      contentShowsFlag colon parent yields [] false false = false := by
    simp [contentShowsFlag, Layout.usesDot?]
  cases n with
  | block loc kind yields nodes =>
    cases empty
    cases kind <;> exact noContent _ yields
  | oddBlock => rfl
  | _ => cases empty

end Node

/-- An emission with the flag off and with it on: they end alike, they are the same if the flag does not
show, and else less is written where it is on. -/
structure Differs (unit : Text) (shows : Bool) (off on : Emission) : Prop where
  result : on.result = off.result
  same : shows = false → on = off
  less : off.result = .ok () →
    Piece.weight unit on.out + shows.toNat ≤ Piece.weight unit off.out

namespace Differs

variable {unit : Text} {shows later : Bool} {off on nextOff nextOn : Emission}

theorem refl (emission : Emission) : Differs unit false emission emission :=
  ⟨rfl, fun _ => rfl, fun _ => Nat.le_refl _⟩

private theorem of_error {emission : Emission} {fault : Fault}
    (failed : emission.result = .error fault) (shows : Bool) :
    Differs unit shows emission emission := by
  refine ⟨rfl, fun _ => rfl, fun ended => ?_⟩
  rw [failed] at ended
  cases ended

private theorem after {α : Type} (first : Run Piece α) {next next' : α → Emission}
    (each : ∀ a, Differs unit shows (next a) (next' a)) :
    Differs unit shows (first >>= next) (first >>= next') := by
  constructor
  case result =>
    rcases first with ⟨out, _ | a⟩
    · rfl
    · exact (each a).result
  case same => exact fun hidden => congrArg (first >>= ·) (funext fun a => (each a).same hidden)
  case less =>
    intro ended
    obtain ⟨a, firstEnded, nextEnded⟩ := (Run.bind_result_eq_ok_iff _ _ _).mp ended
    have less := (each a).less nextEnded
    rw [Run.bind_out_of_ok firstEnded, Run.bind_out_of_ok firstEnded, Piece.weight_append,
      Piece.weight_append]
    omega

private theorem andThen (here : Differs unit shows off on)
    (rest : Differs unit later nextOff nextOn) :
    Differs unit (shows || later) (off >>= fun _ => nextOff) (on >>= fun _ => nextOn) := by
  constructor
  case result =>
    have ends := here.result
    simp only [Run.bind_def, Run.andThen, ends]
    cases off.result with
    | error fault => rfl
    | ok => exact rest.result
  case same =>
    intro hidden
    obtain ⟨hiddenHere, hiddenLater⟩ := Bool.or_eq_false_iff.mp hidden
    rw [here.same hiddenHere, rest.same hiddenLater]
  case less =>
    intro ended
    obtain ⟨_, firstEnded, nextEnded⟩ := (Run.bind_result_eq_ok_iff _ _ _).mp ended
    have less := here.less firstEnded
    have restLess := rest.less nextEnded
    have one : (shows || later).toNat ≤ shows.toNat + later.toNat := by
      cases shows <;> cases later <;> decide
    rw [Run.bind_out_of_ok firstEnded, Run.bind_out_of_ok (here.result.trans firstEnded),
      Piece.weight_append, Piece.weight_append]
    omega

private theorem before (here : Differs unit shows off on) (rest : Emission) :
    Differs unit shows (off >>= fun _ => rest) (on >>= fun _ => rest) := by
  simpa only [Bool.or_false] using here.andThen (refl rest)

private theorem unbracketed (inner : Differs unit shows off on) :
    Differs unit true (bracketed true off) (bracketed false on) := by
  constructor
  case result =>
    have ends := inner.result
    simp only [bracketed, Run.bind_def, Run.andThen, ends, append, Run.put, if_true,
      Bool.false_eq_true, if_false]
    cases off.result <;> rfl
  case same =>
    intro hidden
    cases hidden
  case less =>
    intro ended
    obtain ⟨innerEnded, whole⟩ := Emit.bracketed_of_ok ended
    have less := inner.less innerEnded
    have opening : Piece.weight unit [.markup "#["] = 2 := rfl
    rw [whole, if_pos rfl, Piece.weight_append, Piece.weight_append, opening]
    simp only [bracketed, Bool.false_eq_true, if_false, Bool.toNat_true]
    omega

private theorem joined (depth : Int) (text : Text) (rest : Differs unit shows off on) :
    Differs unit true (newLine depth text >>= fun _ => off) (append text >>= fun _ => on) := by
  constructor
  case result => exact rest.result
  case same =>
    intro hidden
    cases hidden
  case less =>
    intro ended
    have less := rest.less ended
    have lineEnded : (newLine depth text).result = .ok () := rfl
    have textEnded : (append text).result = .ok () := rfl
    have line : Piece.weight unit (newLine depth text).out =
        Piece.weight unit [.line depth] + Piece.weight unit (append text).out :=
      Piece.weight_append unit [.line depth] [.markup text]
    have opens : 1 ≤ Piece.weight unit [.line depth] := Nat.le_add_left _ _
    rw [Run.bind_out_of_ok lineEnded, Run.bind_out_of_ok textEnded, Piece.weight_append,
      Piece.weight_append, line, Bool.toNat_true]
    omega

end Differs

private abbrev DiffersAt (unit : Text) (shows : Bool) (spot : Spot) (emission : Spot → Emission) : Prop :=
  Differs unit shows (emission { spot with nested := false }) (emission { spot with nested := true })

namespace Emit

variable {unit : Text} {style : Style} {spot : Spot} {owner : Node} {shows : Bool}

private theorem differsAt_code (head : CodeHead) {block : Spot → Emission}
    (inner : DiffersAt unit shows (spot.below owner) block) :
    DiffersAt unit (!isRunning { depth := 0, parent := spot.parent, inline := spot.inline } && shows)
      spot fun spot => code spot owner head block := by
  change Differs _ (!isRunning spot && shows) _ _
  unfold code
  cases head.val with
  | odd => exact .of_error rfl _
  | of val =>
    have sameRunning (nested : Bool) : isRunning { spot with nested } = isRunning spot := rfl
    simp only [sameRunning]
    cases isRunning spot with
    | true => exact .refl _
    | false =>
      refine .after _ fun _ => ?_
      split <;> exact .after _ fun _ => inner

private theorem differsAt_mixin (m : MixinHead) (block : Option Node) {content : Spot → Emission}
    (inner : DiffersAt unit shows (spot.below owner) content) :
    DiffersAt unit (if m.call.isOn then spot.inline else shows) spot fun spot =>
      mixin style spot owner m block content := by
  unfold DiffersAt mixin
  cases m.call.isOn with
  | true =>
    simp only [if_true, Bool.not_false, Bool.and_true, Bool.not_true, Bool.and_false]
    refine .after _ fun text => ?_
    cases spot.inline with
    | true => exact .unbracketed (.refl _)
    | false => exact .refl _
  | false => exact .after _ fun _ => inner

private theorem differsAt_when (expr : Loose Text) (block : Option Node) {body : Spot → Emission}
    (inner : DiffersAt unit (Node.slotShowsFlag style.colon (some owner) false block)
      (spot.below owner) body) :
    DiffersAt unit (Node.slotShowsFlag style.colon (some owner) false block) spot fun spot =>
      when spot owner expr block body := by
  refine .after _ fun _ => ?_
  cases block with
  | none => exact .refl _
  | some block =>
    cases children : block.nodes? with
    | none =>
      simp only [children]
      exact .of_error rfl _
    | some nodes =>
      cases nodes with
      | nil =>
        simp only [children, Node.slotShowsFlag, Node.showsFlag_of_no_nodes children]
        exact .refl _
      | cons first rest =>
        simp only [children]
        exact inner

theorem differs_rawBlock {lines lines' : Int → Emission} (depth : Int)
    (inner : ∀ depth, Differs unit shows (lines depth) (lines' depth)) :
    Differs unit shows (rawBlock depth lines) (rawBlock depth lines') :=
  .after _ fun _ => inner _

private theorem differsAt_filter (name : Loose Text) (attrs : Attributes) (block : Option Node)
    {chained content : Spot → Emission} {linesOff linesOn : Int → Emission}
    (inner : ∀ depth, Differs unit shows (linesOff depth) (linesOn depth)) :
    Differs unit true
      (filter style { spot with nested := false } owner name attrs block chained content linesOff)
      (filter style { spot with nested := true } owner name attrs block chained content linesOn) := by
  unfold filter
  cases block with
  | none => exact .of_error rfl _
  | some block =>
    refine .after _ fun text => ?_
    cases inline : spot.inline with
    | true => exact .unbracketed (.refl _)
    | false =>
      cases block.nodes? with
      | none => exact .joined spot.depth text (.of_error rfl false)
      | some nodes =>
        cases nodes with
        | nil => exact .joined spot.depth text (.refl _)
        | cons first rest =>
          cases filtered : first.isKind .filter with
          | false =>
            simp only [filtered]
            exact .joined spot.depth text (differs_rawBlock _ inner)
          | true =>
            simp only [filtered]
            cases rest with
            | nil => exact .joined spot.depth text (.refl _)
            | cons next rest => exact .joined spot.depth text (.of_error rfl false)

private theorem differsAt_tag (head : TagHead) (block : Option Node)
    {code content : Spot → Emission}
    (inner : DiffersAt unit shows { spot with parent := none, inline := true } code) :
    DiffersAt unit (spot.inline || shows) spot fun spot =>
      tag style spot owner head block code content := by
  unfold DiffersAt tag
  cases block with
  | none => exact .of_error rfl _
  | some block =>
    refine .after _ fun text => ?_
    have whole (joins : Bool) : Differs unit shows _ _ :=
      .after (Emission.head joins spot.depth text) fun _ => inner.before (ownContent style
        { spot with nested := false } owner block content)
    cases inline : spot.inline with
    | true => exact .unbracketed (whole true)
    | false => exact whole false

private theorem differsAt_content (yields : Loose Bool) (nodes : List Node)
    {linesOff linesOn : Int → Emission} {run : Int → Bool → Bool → Emission} {ofLines ofRun : Bool}
    (inLines : ∀ depth, Differs unit ofLines (linesOff depth) (linesOn depth))
    (inRun : ∀ depth, Differs unit ofRun (run depth false spot.inline) (run depth true spot.inline)) :
    Differs unit (Node.contentShowsFlag style.colon spot.parent yields nodes ofLines ofRun)
      (content style { spot with nested := false } yields nodes linesOff run)
      (content style { spot with nested := true } yields nodes linesOn run) := by
  unfold content Node.contentShowsFlag
  cases yields.isOn with
  | true => exact .refl _
  | false =>
    simp only [Bool.false_eq_true, if_false, Bool.not_false, Bool.true_and]
    cases Layout.usesDot? spot.parent nodes with
    | none => exact .of_error rfl _
    | some dotted =>
      cases dotted with
      | true =>
        dsimp only
        split
        all_goals exact .after _ fun _ => differs_rawBlock _ inLines
      | false =>
        dsimp only
        cases Layout.usesColon style.colon (.ofParent spot.parent) nodes with
        | true => exact .refl _
        | false => exact inRun _

end Emit

section

open Node (slotShowsFlag blockLinesShowFlag tagCodeShowsFlag runShowsFlag linesShowFlag)

variable {unit : Text} {shows : Bool}

private theorem differs_alternate {style : Style} {spot : Spot} {other : Node}
    (inner : DiffersAt unit shows spot fun spot => emit style spot other)
    (isOther : other.isKind .conditional = false) :
    DiffersAt unit shows spot fun spot => emitAlternate style spot (some other) := by
  unfold DiffersAt
  have goes (spot : Spot) : emitAlternate style spot (some other) =
      (newLine spot.depth "else" >>= fun _ => emit style spot other) := by
    cases other with
    | fork loc head first second =>
      cases head with
      | conditional => cases isOther
      | _ => rfl
    | _ => rfl
  simp only [goes]
  exact .after _ fun _ => inner

mutual

private theorem differs_emit (unit : Text) (style : Style) : ∀ (n : Node) (spot : Spot),
    DiffersAt unit (n.showsFlag style.colon spot.parent spot.inline) spot fun spot =>
      emit style spot n
  | .stray _, _ => .of_error rfl _
  | .leaf _ head, _ => by
    cases head with
    | text val isHtml => cases val <;> exact .refl _
    | comment val buffer => cases val <;> exact .refl _
    | fileReference path => cases path <;> exact .refl _
    | _ => exact .refl _
  | .oddBlock _ kind _ _, _ => by cases kind <;> exact .refl _
  | .block loc kind yields nodes, spot => by
    have lines (depth : Int) :=
      differs_emitLines unit style nodes depth (.block loc kind yields nodes) false
    have run (inline : Bool) (depth : Int) : Differs _ _ _ _ := differs_emitRun unit style nodes
      { depth, parent := some (.block loc kind yields nodes), inline }
    dsimp only at run
    cases kind with
    | plain =>
      simp only [DiffersAt, emit, Node.showsFlag]
      exact Emit.differsAt_content yields nodes lines (run spot.inline)
    | named name mode =>
      simp only [DiffersAt, emit, Node.showsFlag]
      exact .after _ fun _ =>
        @Emit.differsAt_content _ _ { depth := spot.depth } yields nodes _ _ _ _ _ lines (run false)
  | .stem loc head child, spot => by
    have below := differs_emitOptional unit style child (spot.below (.stem loc head child))
    have needed := differs_emitChild unit style child (spot.below (.stem loc head child))
    have lines := differs_emitBlockLines unit style child
    cases head with
    | mixin m =>
      simp only [DiffersAt, emit, Node.showsFlag]
      exact Emit.differsAt_mixin m child below
    | code head =>
      simp only [DiffersAt, emit, Node.showsFlag]
      exact Emit.differsAt_code head below
    | blockComment val buffer =>
      simp only [DiffersAt, emit, Node.showsFlag, Emit.blockComment]
      cases child with
      | none => exact .of_error rfl _
      | some block => exact .after _ fun _ => .after _ fun _ => Emit.differs_rawBlock _ lines
    | when expr =>
      simp only [DiffersAt, emit, Node.showsFlag]
      exact Emit.differsAt_when expr child below
    | filter name attrs =>
      simp only [DiffersAt, emit, Node.showsFlag]
      exact Emit.differsAt_filter name attrs child lines
    | _ =>
      simp only [DiffersAt, emit, Node.showsFlag]
      exact .after _ fun _ => needed
  | .fork loc head first second, spot => by
    have below := differs_emitChild unit style first (spot.below (.fork loc head first second))
    have detached := differs_emitOptional unit style second spot.detached
    cases head with
    | tag head =>
      simp only [DiffersAt, emit, Node.showsFlag]
      exact Emit.differsAt_tag head first (differs_emitTagCode unit style second
        { spot with parent := none, inline := true } rfl)
    | conditional test =>
      simp only [DiffersAt, emit, Node.showsFlag]
      exact .after _ fun _ => below.andThen (differs_emitAlternate unit style second (spot.below _) rfl)
    | each val obj key =>
      simp only [DiffersAt, emit, Node.showsFlag]
      refine .after _ fun _ => below.andThen ?_
      cases second with
      | none => exact detached
      | some other => exact .after _ fun _ => detached
    | inclusion filter attrs =>
      simp only [DiffersAt, emit, Node.showsFlag]
      exact .after _ fun _ => .after _ fun _ => .after _ fun _ => below.andThen detached
termination_by structural n => n

private theorem differs_emitChild (unit : Text) (style : Style) : ∀ (child : Option Node)
    (spot : Spot),
    DiffersAt unit (slotShowsFlag style.colon spot.parent spot.inline child) spot fun spot =>
      emitChild style spot child
  | none, _ => .of_error rfl _
  | some n, spot => differs_emit unit style n spot
termination_by structural child => child

private theorem differs_emitOptional (unit : Text) (style : Style) : ∀ (child : Option Node)
    (spot : Spot),
    DiffersAt unit (slotShowsFlag style.colon spot.parent spot.inline child) spot fun spot =>
      emitOptional style spot child
  | none, _ => .refl _
  | some n, spot => differs_emit unit style n spot
termination_by structural child => child

private theorem differs_emitBlockLines (unit : Text) (style : Style) : ∀ (child : Option Node)
    (depth : Int), Differs unit (blockLinesShowFlag style.colon child)
    (emitBlockLines style depth false child)
      (emitBlockLines style depth true child)
  | some (.block loc kind yields nodes), depth =>
    differs_emitLines unit style nodes depth (.block loc kind yields nodes) true
  | some (.oddBlock _ _ _ _), _ => .refl _
  | none, _ | some (.leaf _ _), _ | some (.stem _ _ _), _ | some (.fork _ _ _ _), _
  | some (.stray _), _ => .refl _
termination_by structural child => child

private theorem differs_emitTagCode (unit : Text) (style : Style) : ∀ (code : Option Node)
    (spot : Spot),
    spot.parent = none → DiffersAt unit (tagCodeShowsFlag style.colon code) spot fun spot =>
      emitTagCode style spot code
  | none, _, _ => .refl _
  | some (.stem loc head body), spot, noParent => by
    have alone : Emit.isRunning { depth := 0, parent := spot.parent, inline := spot.inline } = false := by
      rw [noParent]
      exact Bool.and_false _
    have inner (owner : Node) (code : CodeHead) := Emit.differsAt_code code
      (differs_emitOptional unit style body (spot.below owner))
    rw [alone] at inner
    cases head with
    | code head => exact inner _ head
    | blockComment val buffer =>
      unfold DiffersAt
      simp only [emitTagCode]
      cases buffer.isOn with
      | true => exact .of_error rfl _
      | false => exact inner _ { val }
    | _ => exact .of_error rfl _
  | some (.leaf _ _), _, _ | some (.block _ _ _ _), _, _ | some (.oddBlock _ _ _ _), _, _
  | some (.fork _ _ _ _), _, _ | some (.stray _), _, _ => .refl _
termination_by structural code => code

private theorem differs_emitAlternate (unit : Text) (style : Style) : ∀ (child : Option Node)
    (spot : Spot),
    spot.inline = false → DiffersAt unit (slotShowsFlag style.colon spot.parent false child) spot
      fun spot => emitAlternate style spot child
  | none, _, _ => .refl _
  | some (.fork loc (.conditional test) yes no), spot, _ =>
    .after _ fun _ => .after _ fun _ => .andThen (differs_emitChild unit style yes (spot.below _))
      (differs_emitAlternate unit style no (spot.below _) rfl)
  | some (.fork loc (.tag head) block code), spot, apart =>
    differs_alternate (apart ▸ differs_emit unit style (.fork loc (.tag head) block code) spot) rfl
  | some (.fork loc (.each val obj key) block alternative), spot, apart =>
    differs_alternate
      (apart ▸ differs_emit unit style (.fork loc (.each val obj key) block alternative) spot) rfl
  | some (.fork loc (.inclusion filter attrs) file block), spot, apart =>
    differs_alternate
      (apart ▸ differs_emit unit style (.fork loc (.inclusion filter attrs) file block) spot) rfl
  | some (.stem loc head child), spot, apart =>
    differs_alternate (apart ▸ differs_emit unit style (.stem loc head child) spot)
      (by cases head <;> rfl)
  | some (.leaf loc head), spot, apart =>
    differs_alternate (apart ▸ differs_emit unit style (.leaf loc head) spot) (by cases head <;> rfl)
  | some (.block loc kind yields nodes), spot, apart =>
    differs_alternate (apart ▸ differs_emit unit style (.block loc kind yields nodes) spot)
      (by cases kind <;> rfl)
  | some (.oddBlock loc kind yields value), spot, apart =>
    differs_alternate (apart ▸ differs_emit unit style (.oddBlock loc kind yields value) spot)
      (by cases kind <;> rfl)
  | some (.stray value), spot, apart =>
    differs_alternate (apart ▸ differs_emit unit style (.stray value) spot) rfl
termination_by structural child => child

private theorem differs_emitRun (unit : Text) (style : Style) : ∀ (nodes : List Node) (spot : Spot),
    DiffersAt unit (runShowsFlag style.colon spot.parent spot.inline nodes) spot fun spot =>
      emitRun style spot nodes
  | [], _ => .refl _
  | n :: rest, spot => by
    have first := differs_emit unit style n spot
    have others := differs_emitRun unit style rest
      { spot with inline := Emit.continuesLine n rest }
    simp only [DiffersAt, emitRun, runShowsFlag]
    split
    · exact first.andThen others
    · exact .of_error rfl _
termination_by structural nodes => nodes

theorem differs_emitLines (unit : Text) (style : Style) : ∀ (nodes : List Node) (depth : Int)
    (block : Node) (verbatim : Bool), Differs unit (linesShowFlag style.colon block nodes)
      (emitLines style depth false block verbatim nodes)
      (emitLines style depth true block verbatim nodes)
  | [], _, _, _ => .refl _
  | n :: rest, depth, block, verbatim => by
    have first := differs_emit unit style n { depth, parent := some block, inline := true }
    have others := differs_emitLines unit style rest depth block verbatim
    simp only [emitLines, linesShowFlag]
    split
    · exact .after _ fun _ => others
    · exact .of_error rfl _
    · exact first.andThen others
    · exact first.andThen others
    · exact .of_error rfl _
termination_by structural nodes => nodes

end

end

end PugPrinter
