import PugPrinter.Proofs.Emit.BodyForm
import PugPrinter.Proofs.RootWrapping

/-!
Chains of elements with colons between them. An element that holds just another one is written in one
line with it, and so on: each link of the chain puts its head and a colon in the line, the flag that
keeps brackets away is on for the next one, and the depth stays the same. The last element begins its
own body anew, so the body does not show that its element stands in a chain.
-/

set_option autoImplicit false

namespace PugPrinter

open Emission

def Element.code? : Element → Option Node
  | .tag _ code => code
  | .call _ _ => none

/-- Whether an element has the block that it cannot be without. -/
def Element.isComplete (block : Option Node) : Element → Bool
  | .tag _ _ => block.isSome
  | .call _ _ => true

private theorem Element.followsColon_node (element : Element) (loc : Location)
    (block : Option Node) :
    Layout.followsColon (element.node loc block) = true := by
  cases element with
  | tag head code => rfl
  | call head isCall =>
    rw [node, Layout.followsColon, Node.isCall, isCall]
    rfl

private theorem Layout.takesColon_of_followsColon {n : Node} (follows : followsColon n = true) :
    takesColon n = true := by
  simp only [followsColon, takesColon, Bool.or_eq_true] at follows ⊢
  exact follows.imp_left .inl

structure BareElement where
  loc : Location
  element : Element
  noCode : element.code? = none

structure ColonLink extends BareElement where
  block : PlainBlock

namespace BareElement

def node (bare : BareElement) (block : Option Node) : Node :=
  bare.element.node bare.loc block

/-- The head of the element, with the notes on the way to it. -/
def head (style : Style) (bare : BareElement) : Run Piece Text :=
  bare.element.head style

def body (style : Style) (depth : Int) (bare : BareElement) : Option Node → Emission
  | none => nothing
  | some block =>
    Emit.ownContent style { depth } (bare.node (some block)) block fun inner => emit style inner block

variable {style : Style} {spot : Spot} {bare : BareElement} {block : Option Node}

private theorem code_eq_nothing : bare.element.code style spot = nothing := by
  have noCode := bare.noCode
  cases isElement : bare.element with
  | tag head code =>
    rw [isElement] at noCode
    rw [show code = none from noCode]
    rfl
  | call head isCall => rfl

private theorem emit_node (complete : bare.element.isComplete block = true) :
    emit style spot (bare.node block) =
      bare.element.emission style spot (bare.body style spot.depth block) := by
  cases block with
  | some block => exact Emit.emit_node bare.element bare.loc block
  | none =>
    cases isElement : bare.element with
    | tag head code =>
      rw [isElement] at complete
      cases complete
    | call head isCall =>
      rw [node, isElement, Element.node, emit, Emit.mixin, isCall]
      rfl

private theorem emission_eq (content : Emission) :
    bare.element.emission style spot content = bare.head style >>= fun text =>
      bracketed (spot.inline && !spot.nested)
        (Emission.head spot.inline spot.depth text >>= fun _ => content) := by
  unfold Element.emission
  rw [code_eq_nothing]
  rfl

private theorem head_silent : (bare.head style).Silent := by
  unfold head
  cases bare.element with
  | tag head code => exact Emit.tagHead_silent style head
  | call head isCall => exact Emit.callHead_silent style head

private theorem headedBy_emission (noBrackets : (spot.inline && !spot.nested) = false) {text : Text}
    (found : (bare.head style).result = .ok text) (content : Emission) :
    HeadedBy spot.inline spot.depth text content (bare.element.emission style spot content) := by
  rw [emission_eq, noBrackets]
  exact .of_head head_silent found content

private theorem emission_result_eq_ok_iff (content : Emission) :
    (bare.element.emission style spot content).result = .ok () ↔
      (∃ text, (bare.head style).result = .ok text) ∧ content.result = .ok () := by
  simp only [emission_eq, Run.bind_result_eq_ok_iff, Emit.bracketed_result_eq_ok_iff,
    Emit.head_result, true_and, exists_and_right, exists_const]

end BareElement

namespace ColonLink

/-- Elements around a last one, each of which holds just the next. -/
def chain (last : Node) : List ColonLink → Node
  | [] => last
  | link :: links => link.element.around link.loc link.block [chain last links]

variable {style : Style} {spot : Spot} {last : BareElement} {block : Option Node}

private theorem exists_chain_eq (last : BareElement) (block : Option Node)
    (links : List ColonLink) :
    ∃ (element : Element) (loc : Location) (inner : Option Node),
      chain (last.node block) links = element.node loc inner := by
  cases links with
  | nil => exact ⟨_, _, _, rfl⟩
  | cons link links => exact ⟨_, _, _, rfl⟩

def after (spot : Spot) (parent : Node) : Spot :=
  { depth := spot.depth, nested := true, parent := some parent, inline := true }

private theorem emit_link (colon : style.colon = true) (link : ColonLink) (element : Element)
    (loc : Location) (inner : Option Node) :
    emit style spot (link.element.around link.loc link.block [element.node loc inner]) =
      link.element.emission style spot (append ": " >>= fun _ =>
        emit style (after spot (link.block.node [element.node loc inner]))
          (element.node loc inner)) := by
  have stands : (element.node loc inner).line? = some loc.line := by cases element <;> rfl
  have isNode : (element.node loc inner).isNode = true := by cases element <;> rfl
  have chosen : bodyForm? style.colon (link.element.around link.loc link.block
      [element.node loc inner]) [element.node loc inner] = some .colon := by
    have takes : Layout.takesColon (link.element.around link.loc link.block
        [element.node loc inner]) = true :=
      Layout.takesColon_of_followsColon (Element.followsColon_node ..)
    have follows : Layout.followsColon (element.node loc inner) = true :=
      Element.followsColon_node ..
    simp [bodyForm?, Layout.usesDot?_only stands, Layout.usesColon, colon, takes, follows]
  have only := emitRun_only style (after spot (link.block.node [element.node loc inner])) isNode
  rw [Emit.emit_around_eq, chosen, ← only]
  rfl

private theorem chain_result_eq_ok_iff (colon : style.colon = true)
    (complete : last.element.isComplete block = true) (links : List ColonLink) (other : Spot)
    (level : other.depth = spot.depth) :
    (emit style spot (chain (last.node block) links)).result = .ok () ↔
      (∀ link ∈ links, ∃ text, (link.head style).result = .ok text) ∧
        (emit style other (last.node block)).result = .ok () := by
  induction links generalizing spot with
  | nil =>
    rw [chain, BareElement.emit_node complete, BareElement.emit_node complete, level,
      BareElement.emission_result_eq_ok_iff, BareElement.emission_result_eq_ok_iff]
    simp
  | cons link links ih =>
    obtain ⟨element, loc, inner, isElement⟩ := exists_chain_eq last block links
    have later := @ih (after spot (link.block.node [element.node loc inner])) level
    rw [chain, isElement, emit_link colon, BareElement.emission_result_eq_ok_iff, List.forall_mem_cons,
      Run.bind_result_eq_ok_iff]
    rw [isElement] at later
    rw [and_assoc, ← later]
    simp [append, Run.put]

/-- A chain writes its heads with colons between them, and goes on as the body of its last element. -/
private theorem headedBy_chain (colon : style.colon = true)
    (complete : last.element.isComplete block = true) {links : List ColonLink} {heads : List Text}
    {lastHead : Text} (found : links.map (fun link => (link.head style).result) = heads.map .ok)
    (lastFound : (last.head style).result = .ok lastHead)
    (noBrackets : (spot.inline && !spot.nested) = false) :
    HeadedBy spot.inline spot.depth (Text.join ": " (heads ++ [lastHead]))
      (last.body style spot.depth block) (emit style spot (chain (last.node block) links)) := by
  induction links generalizing heads spot with
  | nil =>
    cases heads with
    | cons _ _ => cases found
    | nil =>
      rw [chain, BareElement.emit_node complete]
      exact BareElement.headedBy_emission noBrackets lastFound _
  | cons link links ih =>
    cases heads with
    | nil => cases found
    | cons head heads =>
      obtain ⟨first, others⟩ := List.cons.inj found
      obtain ⟨element, loc, inner, isElement⟩ := exists_chain_eq last block links
      -- The flag is on for the rest of the chain, so its heads have no brackets either.
      have rest := @ih (after spot (link.block.node [element.node loc inner])) heads others rfl
      have joined : Text.join ": " (head :: heads ++ [lastHead]) =
          head ++ (": " ++ Text.join ": " (heads ++ [lastHead])) := by
        cases heads <;> simp [Text.join]
      rw [isElement] at rest
      rw [chain, isElement, emit_link colon, joined]
      exact (BareElement.headedBy_emission noBrackets first _).trans
        ((HeadedBy.of_append spot.depth ": " _).trans rest)

end ColonLink

open ColonLink

/-- A chain of elements on a line of its own ends well exactly when the heads of its links are found and
the last element ends well on a line of its own. Once all heads are found, both go on in the same way:
the last element after its head, and the chain after one line with all heads and colons between them. -/
theorem colon_chain_line {style : Style} (colon : style.colon = true) (links : List ColonLink)
    {last : BareElement} {block : Option Node} (complete : last.element.isComplete block = true)
    (depth : Int) (parent other : Option Node) :
    ((emit style { depth, parent } (chain (last.node block) links)).result = .ok () ↔
      (∀ link ∈ links, ∃ text, (link.head style).result = .ok text) ∧
        (emit style { depth, parent := other } (last.node block)).result = .ok ()) ∧
    ∀ heads lastHead, links.map (fun link => (link.head style).result) = heads.map .ok →
      (last.head style).result = .ok lastHead →
      HeadedBy false depth lastHead (last.body style depth block)
          (emit style { depth, parent := other } (last.node block)) ∧
        HeadedBy false depth (Text.join ": " (heads ++ [lastHead])) (last.body style depth block)
          (emit style { depth, parent } (chain (last.node block) links)) ∧
        ∀ b : LineBuffer, (b.withLine depth (Text.join ": " (heads ++ [lastHead]))).lines =
          b.lines ++ [Text.repeated b.unit depth ++ Text.join ": " (heads ++ [lastHead])] := by
  refine ⟨chain_result_eq_ok_iff colon complete links _ rfl, ?_⟩
  intro heads lastHead found lastFound
  have alone := @headedBy_chain style { depth, parent := other } last block colon complete [] []
    lastHead rfl lastFound rfl
  have whole := @headedBy_chain style { depth, parent } last block colon complete links heads
    lastHead found lastFound rfl
  exact ⟨alone, whole, fun b => b.lines_withLine depth _⟩

namespace ColonLink

def sample (line : Int) (name : Text) : ColonLink where
  loc := { line }
  element := .tag { name := .of name } none
  noCode := rfl
  block := { loc := { line } }

def lastSample : BareElement where
  loc := { line := 2 }
  element := .call { name := .of "m", call := .of true } rfl
  noCode := rfl

def wordsSample : Option Node :=
  some (.block { line := 2 } .plain (.of false) [.leaf { line := 2 } (.text (.of "x") (.of false))])

end ColonLink

/-- Two tags and a mixin call in one line, however their own lines stand. -/
theorem colon_chain_line_sample :
    (emit { colon := true } { depth := 1 }
        (chain (lastSample.node wordsSample) [sample 1 "ul", sample 4 "li"])).result = .ok () ∧
      ((emit { colon := true } { depth := 1 }
        (chain (lastSample.node wordsSample) [sample 1 "ul", sample 4 "li"])).out.foldl Piece.write
          { unit := "  " }).lines = [("  ul: li: +m x" : Text)] := by
  obtain ⟨ends, line⟩ := @colon_chain_line { colon := true } rfl [sample 1 "ul", sample 4 "li"]
    lastSample wordsSample rfl 1 none none
  have first : ((sample 1 "ul").head { colon := true }).result = .ok "ul" := by rfl
  have second : ((sample 4 "li").head { colon := true }).result = .ok "li" := by rfl
  have found : [sample 1 "ul", sample 4 "li"].map
      (fun link => (link.head { colon := true }).result) = [("ul" : Text), ("li" : Text)].map .ok := by
    rw [List.map_cons, List.map_cons, first, second]
    rfl
  obtain ⟨_, whole, _⟩ := line _ "+m" found (by rfl)
  refine ⟨ends.mpr ⟨?_, by rfl⟩, ?_⟩
  · rw [List.forall_mem_cons, List.forall_mem_singleton]
    exact ⟨⟨_, first⟩, ⟨_, second⟩⟩
  · rw [whole.writes]
    rfl

end PugPrinter
