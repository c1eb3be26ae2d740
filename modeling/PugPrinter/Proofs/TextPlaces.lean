import PugPrinter.Emit
import PugPrinter.Proofs.Layout

/-!
The texts of a tree in the order of the document, with the note whether a text is lost. A text is lost
when it stands below code in running text: such code continues a line and has siblings, and it is
written between its own marks, without its block. Which node continues a line is said here by the
lines of the source alone: the layout of a block makes no difference to the texts that it loses.
-/

set_option autoImplicit false

namespace PugPrinter

structure TextPlace where
  val : Text
  /-- Whether the text stands below code in running text. -/
  lost : Bool := false

namespace TextPlace

def lose (place : TextPlace) : TextPlace :=
  { place with lost := true }

def kept (places : List TextPlace) : List Text :=
  (places.filter fun place => !place.lost).map val

@[simp] theorem kept_nil : kept [] = [] := rfl

@[simp] theorem kept_append (first second : List TextPlace) :
    kept (first ++ second) = kept first ++ kept second := by
  simp [kept]

@[simp] theorem kept_map_lose (places : List TextPlace) : kept (places.map lose) = [] := by
  simp [kept, List.filter_map, Function.comp_def, lose]

@[simp] theorem map_val_map_lose (places : List TextPlace) :
    (places.map lose).map val = places.map val := by
  simp [Function.comp_def, lose]

/-- Nothing is kept out of order, and all is kept exactly when nothing is lost. -/
theorem kept_eq_map_val_iff (places : List TextPlace) :
    kept places = places.map val ↔ ∀ place ∈ places, place.lost = false := by
  constructor
  · intro all place member
    have length : (places.filter fun place => !place.lost).length = places.length := by
      have lengths := congrArg List.length all
      simpa [kept] using lengths
    simpa using List.length_filter_eq_length_iff.mp length place member
  · intro none
    rw [kept, List.filter_eq_self.mpr fun place member => by simp [none place member]]

theorem kept_sublist (places : List TextPlace) : List.Sublist (kept places) (places.map val) :=
  List.Sublist.map val List.filter_sublist

end TextPlace

def BlockKind.isPlain : BlockKind → Bool
  | plain => true
  | named _ _ => false

namespace Node

def startsAt (line : Int) (slot : Option Node) : Bool :=
  match slot.bind nodes? with
  | some (first :: _) => first.line? == some line
  | _ => false

def isChain (nodes : List Node) : Bool :=
  nodes.head?.any (isKind .filter)

mutual

/-- The texts of a tree that are not empty, in the order of the document. The code of a tag comes
before its block. -/
def texts : Node → List Text
  | .leaf _ (.text (.of val) _) => if val.isEmpty then [] else [val]
  | .leaf _ _ => []
  | .block _ _ _ nodes => textsOfNodes nodes
  | .oddBlock _ _ _ _ => []
  | .stem _ _ child => textsOfSlot child
  | .fork _ (.tag _) body code => textsOfSlot code ++ textsOfSlot body
  | .fork _ _ first second => textsOfSlot first ++ textsOfSlot second
  | .stray _ => []
termination_by structural node => node

def textsOfNodes : List Node → List Text
  | [] => []
  | n :: rest => n.texts ++ textsOfNodes rest
termination_by structural nodes => nodes

def textsOfSlot : Option Node → List Text
  | none => []
  | some n => n.texts
termination_by structural child => child

end

mutual

/-- The texts of a node that continues a line or does not, and has siblings or has none. The content
of a tag or of a mixin call goes on in the line of its head when it starts there; all other blocks
start on a line of their own. -/
def textPlaces (inline siblings : Bool) : Node → List TextPlace
  | .leaf _ (.text (.of val) _) => if val.isEmpty then [] else [{ val }]
  | .leaf _ _ => []
  | .block _ kind _ nodes => runPlaces (kind.isPlain && inline) (nodes.length != 1) nodes
  | .oddBlock _ _ _ _ => []
  | .stem _ (.code _) body =>
    if inline && siblings then (slotTextPlaces false body).map TextPlace.lose
    else slotTextPlaces false body
  | .stem loc (.mixin m) body => slotTextPlaces (m.call.isOn && startsAt loc.line body) body
  | .stem _ (.blockComment _ _) body => rawBlockPlaces body
  | .stem _ (.filter _ _) body => filterPlaces inline body
  | .stem _ _ child => slotTextPlaces false child
  | .fork loc (.tag _) body code =>
    tagCodePlaces code ++ slotTextPlaces (startsAt loc.line body) body
  | .fork _ _ first second => slotTextPlaces false first ++ slotTextPlaces false second
  | .stray _ => []
termination_by structural node => node

/-- The texts of siblings. Each but the first continues a line when it shares that of the one before. -/
def runPlaces (inline siblings : Bool) : List Node → List TextPlace
  | [] => []
  | n :: rest => n.textPlaces inline siblings ++ runPlaces (Emit.continuesLine n rest) siblings rest
termination_by structural nodes => nodes

def rawPlaces (siblings : Bool) : List Node → List TextPlace
  | [] => []
  | n :: rest => n.textPlaces true siblings ++ rawPlaces siblings rest
termination_by structural nodes => nodes

def slotTextPlaces (inline : Bool) : Option Node → List TextPlace
  | none => []
  | some n => n.textPlaces inline false
termination_by structural child => child

def rawBlockPlaces : Option Node → List TextPlace
  | some (.block _ _ _ nodes) => rawPlaces (nodes.length != 1) nodes
  | some n => n.textPlaces false false
  | none => []
termination_by structural child => child

/-- The texts of the body of a filter: the next filter of a chain stands where this one does, and a
body goes on in the line of the filter or is written as raw lines. -/
def filterPlaces (inline : Bool) : Option Node → List TextPlace
  | some (.block _ kind _ nodes) =>
    if isChain nodes then runPlaces inline (nodes.length != 1) nodes
    else if inline then runPlaces kind.isPlain (nodes.length != 1) nodes
    else rawPlaces (nodes.length != 1) nodes
  | some n => n.textPlaces false false
  | none => []
termination_by structural child => child

def tagCodePlaces : Option Node → List TextPlace
  | some (.stem _ _ body) => slotTextPlaces false body
  | some n => n.textPlaces false false
  | none => []
termination_by structural code => code

end

mutual

theorem map_val_textPlaces (inline siblings : Bool) :
    ∀ n : Node, (n.textPlaces inline siblings).map TextPlace.val = n.texts
  | .leaf _ head => by
    cases head with
    | text val isHtml =>
      cases val with
      | of val =>
        simp only [textPlaces, texts]
        split <;> rfl
      | odd value => rfl
    | _ => rfl
  | .block _ kind _ nodes => map_val_runPlaces _ _ nodes
  | .oddBlock _ _ _ _ | .stray _ => rfl
  | .stem loc head child => by
    have inSlot := map_val_slotTextPlaces false child
    cases head with
    | code head =>
      simp only [textPlaces, texts]
      split
      · rw [TextPlace.map_val_map_lose, inSlot]
      · exact inSlot
    | mixin m => exact map_val_slotTextPlaces _ child
    | blockComment val buffer => exact map_val_rawBlockPlaces child
    | filter name attrs => exact map_val_filterPlaces inline child
    | _ => exact inSlot
  | .fork loc head first second => by
    cases head with
    | tag head =>
      simp only [textPlaces, texts, List.map_append]
      rw [map_val_tagCodePlaces second, map_val_slotTextPlaces _ first]
    | _ =>
      simp only [textPlaces, texts, List.map_append]
      rw [map_val_slotTextPlaces false first, map_val_slotTextPlaces false second]
termination_by structural n => n

private theorem map_val_runPlaces (inline siblings : Bool) :
    ∀ nodes : List Node, (runPlaces inline siblings nodes).map TextPlace.val = textsOfNodes nodes
  | [] => rfl
  | n :: rest => by
    rw [runPlaces, textsOfNodes, List.map_append, map_val_textPlaces inline siblings n,
      map_val_runPlaces _ siblings rest]
termination_by structural nodes => nodes

private theorem map_val_rawPlaces (siblings : Bool) :
    ∀ nodes : List Node, (rawPlaces siblings nodes).map TextPlace.val = textsOfNodes nodes
  | [] => rfl
  | n :: rest => by
    rw [rawPlaces, textsOfNodes, List.map_append, map_val_textPlaces true siblings n,
      map_val_rawPlaces siblings rest]
termination_by structural nodes => nodes

private theorem map_val_slotTextPlaces (inline : Bool) :
    ∀ child : Option Node, (slotTextPlaces inline child).map TextPlace.val = textsOfSlot child
  | none => rfl
  | some n => map_val_textPlaces inline false n
termination_by structural child => child

private theorem map_val_rawBlockPlaces :
    ∀ child : Option Node, (rawBlockPlaces child).map TextPlace.val = textsOfSlot child
  | none => rfl
  | some (.block _ _ _ nodes) => map_val_rawPlaces _ nodes
  | some (.leaf loc head) => map_val_textPlaces false false (.leaf loc head)
  | some (.oddBlock _ _ _ _) | some (.stray _) => rfl
  | some (.stem loc head child) => map_val_textPlaces false false (.stem loc head child)
  | some (.fork loc head first second) =>
    map_val_textPlaces false false (.fork loc head first second)
termination_by structural child => child

private theorem map_val_filterPlaces (inline : Bool) :
    ∀ child : Option Node, (filterPlaces inline child).map TextPlace.val = textsOfSlot child
  | none => rfl
  | some (.block _ kind _ nodes) => by
    have inRun (inline : Bool) := map_val_runPlaces inline (nodes.length != 1) nodes
    simp only [filterPlaces]
    split
    · exact inRun inline
    · split
      · exact inRun kind.isPlain
      · exact map_val_rawPlaces _ nodes
  | some (.leaf loc head) => map_val_textPlaces false false (.leaf loc head)
  | some (.oddBlock _ _ _ _) | some (.stray _) => rfl
  | some (.stem loc head child) => map_val_textPlaces false false (.stem loc head child)
  | some (.fork loc head first second) =>
    map_val_textPlaces false false (.fork loc head first second)
termination_by structural child => child

private theorem map_val_tagCodePlaces :
    ∀ code : Option Node, (tagCodePlaces code).map TextPlace.val = textsOfSlot code
  | none => rfl
  | some (.stem _ _ body) => map_val_slotTextPlaces false body
  | some (.leaf loc head) => map_val_textPlaces false false (.leaf loc head)
  | some (.block loc kind yields nodes) =>
    map_val_textPlaces false false (.block loc kind yields nodes)
  | some (.oddBlock _ _ _ _) | some (.stray _) => rfl
  | some (.fork loc head first second) =>
    map_val_textPlaces false false (.fork loc head first second)
termination_by structural code => code

end

theorem textPlaces_of_not_inline (siblings : Bool) (n : Node) :
    n.textPlaces false siblings = n.textPlaces false false := by
  cases n with
  | leaf loc head => cases head <;> rfl
  | stem loc head child => cases head <;> rfl
  | fork loc head first second => cases head <;> rfl
  | _ => rfl

private theorem textPlaces_of_isDotChild {n : Node} (dot : Layout.isDotChild n = true)
    (inline siblings : Bool) : n.textPlaces inline siblings = n.textPlaces true false := by
  unfold Layout.isDotChild at dot
  split at dot
  · rfl
  · cases inline <;> cases siblings <;> rfl
  · cases dot

theorem runPlaces_of_isDotChild {nodes : List Node}
    (dot : ∀ n ∈ nodes, Layout.isDotChild n = true) (inline siblings other : Bool) :
    runPlaces inline siblings nodes = rawPlaces other nodes := by
  induction nodes generalizing inline with
  | nil => rfl
  | cons n rest ih =>
    obtain ⟨first, later⟩ := List.forall_mem_cons.mp dot
    rw [runPlaces, rawPlaces, ih later, textPlaces_of_isDotChild first inline,
      textPlaces_of_isDotChild first true other]

private theorem textPlaces_of_followsColon {n : Node} (follows : Layout.followsColon n = true)
    (inline siblings : Bool) : n.textPlaces inline siblings = n.textPlaces false false := by
  cases n with
  | leaf loc head => cases head <;> cases follows
  | block loc kind yields nodes => cases kind <;> cases follows
  | stem loc head child => cases head <;> first | rfl | cases follows
  | fork loc head first second => cases head <;> rfl
  | _ => rfl

theorem runPlaces_of_usesColon {enabled : Bool} {owner : Layout.Owner} {nodes : List Node}
    (colon : Layout.usesColon enabled owner nodes = true) (inline other siblings : Bool) :
    runPlaces inline siblings nodes = runPlaces other siblings nodes := by
  unfold Layout.usesColon at colon
  split at colon
  · rename_i child
    have follows : Layout.followsColon child = true := (Bool.and_eq_true_iff.mp colon).2
    simp only [runPlaces, textPlaces_of_followsColon follows]
  · cases colon

/-- Whether content is written in the line of its owner, or starts there and has another layout, makes
no difference to its texts. -/
theorem runPlaces_of_startsOnSameLine {colon same : Bool} {owner : Node} {line : Int}
    {nodes : List Node} (stands : owner.line? = some line)
    (decided : Layout.startsOnSameLine? colon owner true nodes = some same) (siblings : Bool)
    {block : Node} (children : block.nodes? = some nodes) :
    runPlaces same siblings nodes = runPlaces (startsAt line (some block)) siblings nodes := by
  cases nodes with
  | nil => rfl
  | cons first rest =>
    have start : startsAt line (some block) = (first.line? == some line) := by
      simp [startsAt, children]
    simp only [Layout.startsOnSameLine?, bind, Option.bind_eq_some_iff] at decided
    obtain ⟨firstLine, firstAt, decided⟩ := decided
    split at decided
    · rename_i elsewhere
      injection decided with decided
      have apart : startsAt line (some block) = false := by
        rw [stands, bne_iff_ne] at elsewhere
        rw [start, firstAt, beq_eq_false_iff_ne]
        exact Ne.symm elsewhere
      rw [apart, decided]
    · split at decided
      · rename_i byColon
        exact runPlaces_of_usesColon byColon _ _ _
      · rename_i here _
        rw [Option.bind_eq_some_iff] at decided
        obtain ⟨dot, dotDecided, decided⟩ := decided
        cases dot with
        | true =>
          have allDot := Layout.isDotChild_of_usesDot dotDecided
          rw [runPlaces_of_isDotChild allDot same siblings false,
            runPlaces_of_isDotChild allDot _ siblings false]
        | false =>
          injection decided with decided
          have together : startsAt line (some block) = true := by
            rw [stands, bne_iff_ne, ne_eq, Classical.not_not] at here
            rw [start, firstAt, beq_iff_eq]
            exact here.symm
          rw [together, ← decided]
          rfl

end Node

end PugPrinter
