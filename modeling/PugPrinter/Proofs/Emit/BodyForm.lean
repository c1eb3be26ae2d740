import PugPrinter.Proofs.Emit.Heading
import PugPrinter.Proofs.Layout

/-!
The form of the body of an element. The body is written by two steps that look at it on their own: the
element decides whether a space comes before it, and the block decides what it is written as. Both
come to one choice of a form, and only a body that goes on child after child in the line of its
element has a space before it: a dot and a colon stand directly behind the head and its code.
-/

set_option autoImplicit false

namespace PugPrinter

open Emission

/-- A tag with the code in its line, or a mixin call. -/
inductive Element where
  | tag (head : TagHead) (code : Option Node)
  | call (head : MixinHead) (isCall : head.call = .of true)

namespace Element

/-- An element as a node, at a place and with a block. -/
def node (loc : Location) (block : Option Node) : Element → Node
  | .tag head code => .fork loc (.tag head) block code
  | .call head _ => .stem loc (.mixin head) block

def head (style : Style) : Element → Run Piece Text
  | .tag head _ => Emit.tagHead style head
  | .call head _ => Emit.callHead style head

def code (style : Style) (spot : Spot) : Element → Emission
  | .tag _ code => emitTagCode style { spot with parent := none, inline := true } code
  | .call _ _ => nothing

def emission (style : Style) (spot : Spot) (content : Emission) (element : Element) : Emission := do
  let text ← element.head style
  bracketed (spot.inline && !spot.nested) do
    Emission.head spot.inline spot.depth text
    element.code style spot
    content

/-- The pieces of an element with a head, up to the end of its code. -/
def upToCode (style : Style) (spot : Spot) (text : Text) (element : Element) : List Piece :=
  (if spot.inline && !spot.nested then [.markup "#["] else []) ++
    ((if spot.inline then [] else [.line spot.depth]) ++ .markup text :: (element.code style spot).out)

end Element

/-- A plain block that is no placeholder, apart from its nodes. -/
structure PlainBlock where
  loc : Location
  yields : Loose Bool := .of false
  noPlaceholder : yields.isOn = false := by rfl

namespace PlainBlock

def node (block : PlainBlock) (nodes : List Node) : Node :=
  .block block.loc .plain block.yields nodes

end PlainBlock

def Element.around (element : Element) (loc : Location) (block : PlainBlock) (nodes : List Node) :
    Node :=
  element.node loc (some (block.node nodes))

/-- The forms of a body: raw lines after a dot, the only child after a colon, or child after child,
in the line of the head or below it. -/
inductive BodyForm where
  | dot
  | colon
  | inTurn (joins : Bool)
  deriving DecidableEq, Repr

def Node.sharesLine (owner : Node) (nodes : List Node) : Bool :=
  nodes.head?.any fun first => first.line? == owner.line?

def bodyForm? (colon : Bool) (owner : Node) (nodes : List Node) : Option BodyForm :=
  (Layout.usesDot? (some owner) nodes).map fun dot =>
    if dot then .dot
    else if Layout.usesColon colon (.node owner true) nodes then .colon
    else .inTurn (owner.sharesLine nodes)

namespace BodyForm

/-- What stands between the head with its code and a body of a form. -/
def mark (nodes : List Node) : BodyForm → List Piece
  | dot => [.markup "."]
  | colon => [.markup ": "]
  | inTurn joins => if joins && Layout.needsSpace nodes then [.markup " "] else []

def body (style : Style) (depth : Int) (block : Node) (nodes : List Node) : BodyForm → Emission
  | dot => Emit.rawBlock depth fun depth => emitLines style depth false block false nodes
  | colon => emitRun style { depth, nested := true, parent := some block, inline := true } nodes
  | inTurn joins => emitRun style { depth := depth + 1, parent := some block, inline := joins } nodes

/-- The mark of a form and a body in it. Where no form can be chosen, nothing is defined. -/
def content (style : Style) (depth : Int) (block : Node) (nodes : List Node) :
    Option BodyForm → Emission
  | none => unsupported
  | some form => do
    .put (form.mark nodes)
    form.body style depth block nodes

end BodyForm

namespace Layout

variable {colon : Bool} {owner : Node} {nodes : List Node}

private theorem usesDot?_of_usesColon {layoutOwner : Owner}
    (after : usesColon colon layoutOwner nodes = true) (parent : Option Node) :
    usesDot? parent nodes ≠ some true := by
  obtain ⟨child, rfl⟩ : ∃ child, nodes = [child] := by
    unfold usesColon at after
    split at after
    · exact ⟨_, rfl⟩
    · cases after
  cases stands : child.line? with
  | none => simp [usesDot?, stands]
  | some line => simp [usesDot?_only stands parent]

private theorem usesDot?_eq_none {parent : Option Node} {first : Node} {rest : List Node}
    (nowhere : first.line? = none) : usesDot? parent (first :: rest) = none := by
  cases last : ((first :: rest).getLast (List.cons_ne_nil first rest)).line? <;>
    simp [usesDot?, last, nowhere]

private theorem startsOnSameLine?_of_form {form : BodyForm}
    (chosen : bodyForm? colon owner nodes = some form) :
    startsOnSameLine? colon owner true nodes = some (form == .inTurn true) := by
  cases nodes with
  | nil =>
    cases chosen
    rfl
  | cons first rest =>
    obtain ⟨dot, decided, isForm⟩ := Option.map_eq_some_iff.mp chosen
    cases stands : first.line? with
    | none =>
      rw [usesDot?_eq_none stands] at decided
      cases decided
    | some line =>
      have shares : owner.sharesLine (first :: rest) = (owner.line? == some line) := by
        rw [Node.sharesLine, List.head?_cons, Option.any_some, stands, Bool.beq_comm]
      subst isForm
      simp only [startsOnSameLine?, stands, decided, shares, Option.bind_eq_bind, Option.bind_some]
      cases dot <;> cases usesColon colon (.node owner true) (first :: rest) <;>
        by_cases same : owner.line? = some line <;> simp [same]

private theorem startsOnSameLine?_of_no_form (open' : bodyForm? colon owner nodes = none) :
    startsOnSameLine? colon owner true nodes ≠ some true := by
  have undecided : usesDot? (some owner) nodes = none := Option.map_eq_none_iff.mp open'
  intro starts
  cases nodes with
  | nil => cases starts
  | cons first rest =>
    obtain ⟨line, _, starts⟩ := Option.bind_eq_some_iff.mp starts
    split at starts
    · cases starts
    · split at starts
      · cases starts
      · rw [undecided] at starts
        cases starts

private theorem startsOnSameLine?_eq_some_true_iff :
    startsOnSameLine? colon owner true nodes = some true ↔
      bodyForm? colon owner nodes = some (.inTurn true) := by
  cases chosen : bodyForm? colon owner nodes with
  | none => exact iff_of_false (startsOnSameLine?_of_no_form chosen) nofun
  | some form => simp [startsOnSameLine?_of_form chosen]

theorem needsSpace_iff : needsSpace nodes = true ↔ ∀ n, nodes = [n] → n.isKind .code = false := by
  unfold needsSpace
  split
  · simp
  · next notOnly => exact iff_of_true rfl fun n only => absurd only (notOnly n)

end Layout

namespace Emit

variable {style : Style} {spot : Spot} {owner : Node} {block : PlainBlock} {nodes : List Node}

/-- The block of an element chooses its form for itself. Only child after child does it depend on the
inline flag that it is given. -/
private theorem emit_body (isElement : owner.kind? = some .tag ∨ owner.kind? = some .mixin)
    (inline : Bool) :
    emit style { depth := spot.depth, parent := some owner, inline } (block.node nodes) =
      match bodyForm? style.colon owner nodes with
      | some (.inTurn _) => (BodyForm.inTurn inline).body style spot.depth (block.node nodes) nodes
      | form => BodyForm.content style spot.depth (block.node nodes) nodes form := by
  have given : (some owner).bind Node.kind? = owner.kind? := rfl
  rw [PlainBlock.node, emit]
  simp only [Emit.content, block.noPlaceholder, Bool.false_eq_true, if_false, Layout.Owner.ofParent,
    given]
  cases decided : Layout.usesDot? (some owner) nodes with
  | none =>
    have chosen : bodyForm? style.colon owner nodes = none := by simp [bodyForm?, decided]
    rw [chosen]
    rfl
  | some dot =>
    cases dot with
    | true =>
      have chosen : bodyForm? style.colon owner nodes = some .dot := by simp [bodyForm?, decided]
      rw [chosen]
      rcases isElement with isTag | isMixin
      · simp only [isTag]
        rfl
      · simp only [isMixin]
        rfl
    | false =>
      by_cases after : Layout.usesColon style.colon (.node owner true) nodes = true
      · have chosen : bodyForm? style.colon owner nodes = some .colon := by
          simp [bodyForm?, decided, after]
        rw [chosen]
        simp only [after, if_true]
        rfl
      · have chosen : bodyForm? style.colon owner nodes =
            some (.inTurn (owner.sharesLine nodes)) := by
          simp [bodyForm?, decided, after]
        rw [chosen]
        simp only [after]
        rfl

private theorem ownContent_eq (isElement : owner.kind? = some .tag ∨ owner.kind? = some .mixin) :
    ownContent style spot owner (block.node nodes) (fun inner => emit style inner (block.node nodes)) =
      BodyForm.content style spot.depth (block.node nodes) nodes
        (bodyForm? style.colon owner nodes) := by
  cases nodes with
  | nil => rfl
  | cons first rest =>
    have children : (block.node (first :: rest)).nodes? = some (first :: rest) := rfl
    simp only [ownContent, children, emit_body isElement]
    cases chosen : bodyForm? style.colon owner (first :: rest) with
    | none =>
      have apart := Layout.startsOnSameLine?_of_no_form chosen
      split
      · rfl
      · cases ‹Bool›
        · rfl
        · exact absurd ‹_› apart
    | some form =>
      rw [Layout.startsOnSameLine?_of_form chosen]
      cases form with
      | dot | colon => rfl
      | inTurn joins =>
        cases joins
        · rfl
        · simp only [BodyForm.content, BodyForm.mark, beq_self_eq_true, Bool.true_and]
          split <;> rfl

private theorem kind?_node (element : Element) (loc : Location) (block : Option Node) :
    (element.node loc block).kind? = some .tag ∨ (element.node loc block).kind? = some .mixin := by
  cases element
  · exact .inl rfl
  · exact .inr rfl

theorem emit_node (element : Element) (loc : Location) (block : Node) :
    emit style spot (element.node loc (some block)) =
      element.emission style spot
        (ownContent style spot (element.node loc (some block)) block fun inner =>
          emit style inner block) := by
  cases element with
  | tag head code =>
    rw [Element.node, emit]
    rfl
  | call head isCall =>
    rw [Element.node, emit, mixin, isCall]
    rfl

theorem emit_around_eq (element : Element) (loc : Location) :
    emit style spot (element.around loc block nodes) =
      element.emission style spot (BodyForm.content style spot.depth (block.node nodes) nodes
        (bodyForm? style.colon (element.around loc block nodes) nodes)) := by
  rw [Element.around, emit_node, ownContent_eq (kind?_node element loc _)]

private theorem prefix_bracketed (brackets : Bool) (inner : Emission) :
    (if brackets then [.markup "#["] else []) ++ inner.out <+: (bracketed brackets inner).out := by
  cases brackets with
  | false => exact List.prefix_refl _
  | true => exact (List.prefix_cons_inj _).mpr (Run.prefix_bind inner _)

private theorem prefix_emission {element : Element} {text : Text} {next : List Piece}
    {content : Emission} (found : (element.head style).result = .ok text)
    (coded : (element.code style spot).result = .ok ()) (begins : next <+: content.out) :
    (element.head style).out ++ element.upToCode style spot text ++ next <+:
      (element.emission style spot content).out := by
  -- Whatever comes after the code of an element, its pieces go on from those up to the code with
  -- what comes next.
  have inner := prefix_bracketed (spot.inline && !spot.nested)
    (Emission.head spot.inline spot.depth text >>= fun _ => element.code style spot >>= fun _ => content)
  rw [head_out, Run.bind_out_of_ok coded] at inner
  rw [Element.emission, Run.bind_out_of_ok found, List.append_assoc, List.prefix_append_right_inj]
  refine List.IsPrefix.trans ?_ inner
  simpa [Element.upToCode, List.append_assoc] using begins

end Emit

/-- The two steps that look at the body of an element agree. No body is both a dot block and after a
colon. A space comes before it exactly when it goes on child after child in the line of the element and
is more than code alone. So the element is its head, its code, directly behind them the mark of the
form, and the body in this form. -/
theorem emit_around (style : Style) (spot : Spot) (element : Element) (loc : Location)
    (block : PlainBlock) (nodes : List Node) :
    ¬ (Layout.usesDot? (some (element.around loc block nodes)) nodes = some true ∧
      Layout.usesColon style.colon (.node (element.around loc block nodes) true) nodes = true) ∧
    (Layout.startsOnSameLine? style.colon (element.around loc block nodes) true nodes = some true ∧
        Layout.needsSpace nodes = true ↔
      bodyForm? style.colon (element.around loc block nodes) nodes = some (.inTurn true) ∧
        ∀ n, nodes = [n] → n.isKind .code = false) ∧
    emit style spot (element.around loc block nodes) =
      element.emission style spot (BodyForm.content style spot.depth (block.node nodes) nodes
        (bodyForm? style.colon (element.around loc block nodes) nodes)) ∧
    ∀ form text, bodyForm? style.colon (element.around loc block nodes) nodes = some form →
      (element.head style).result = .ok text → (element.code style spot).result = .ok () →
      (element.head style).out ++ element.upToCode style spot text ++ form.mark nodes <+:
        (emit style spot (element.around loc block nodes)).out := by
  refine ⟨fun ⟨dot, after⟩ => Layout.usesDot?_of_usesColon after _ dot, ?_,
    Emit.emit_around_eq element loc, ?_⟩
  · rw [Layout.startsOnSameLine?_eq_some_true_iff, Layout.needsSpace_iff]
  · intro form text chosen found coded
    rw [Emit.emit_around_eq, chosen]
    exact Emit.prefix_emission found coded (Run.prefix_bind (.put (form.mark nodes)) _)

end PugPrinter
