import PugPrinter.Proofs.Emit.Frame

/-!
A walk through a node writes the emission of the node. There is one lemma for each handler, which is
given what the walks through its children write, and then the induction over the tree.
-/

set_option autoImplicit false

namespace PugPrinter

open Run

variable {floor : Int} {style : Style} {spot : Spot} {owner : Node}

/-- A walk as a function of its parent and the inline flag writes an emission as a function of the
spot, from a floor on. -/
def Follows (floor : Int) (visit : Option Node → Bool → Walk Unit) (content : Spot → Emission) : Prop :=
  ∀ spot : Spot, floor ≤ spot.depth →
    Writes floor spot.depth spot.nested (visit spot.parent spot.inline) (content spot)

def FollowsLevel (floor : Int) (nested : Bool) (visit : Walk Unit) (lines : Int → Emission) : Prop :=
  ∀ depth : Int, floor ≤ depth → Writes floor depth nested visit (lines depth)

namespace Emit

private theorem le_rawDepth {depth : Int} (high : floor ≤ depth) : floor ≤ rawDepth depth := by
  unfold rawDepth
  split
  · rename_i top
    have zero : depth + 1 = 0 := beq_iff_eq.mp top
    omega
  · omega

private theorem attributes_silent (style : Style) (attrs : Attributes) :
    (attributes style attrs).Silent := by
  intro b
  simp only [attributes, mapOut_out]
  induction (Attribute.render [style.quote.mark] attrs).out with
  | nil => rfl
  | cons note notes ih => exact ih

theorem tagHead_silent (style : Style) (tag : TagHead) : (tagHead style tag).Silent := by
  refine (attributes_silent style tag.attrs).bind fun _ => (silent_of_out_nil rfl).bind fun _ => ?_
  cases tag.name <;> exact silent_of_out_nil rfl

theorem callHead_silent (style : Style) (m : MixinHead) : (callHead style m).Silent :=
  (attributes_silent style m.attrs).bind fun _ => (silent_of_out_nil rfl).bind fun _ =>
    silent_of_out_nil rfl

theorem filterHead_silent (style : Style) (attrs : Attributes) (name : Loose Text) :
    (filterHead style attrs name).Silent := by
  cases name with
  | of name => exact (attributes_silent style attrs).bind fun _ => silent_of_out_nil rfl
  | odd _ => exact silent_of_out_nil rfl

private theorem oddLines_silent (block : Node) (value : Json) : (oddLines block value).Silent := by
  unfold oddLines
  split <;> exact silent_of_out_nil rfl

end Emit

namespace Walk

private theorem text_writes (node : Node) (isHtml : Bool) (val : Text) :
    Writes floor spot.depth spot.nested (text spot.inline node isHtml val)
      (Emit.text spot node isHtml val) := by
  refine .ite (fun _ => ?html) fun _ => .ite (fun _ => .prose val) fun _ => ?piped
  case html => exact .ite (fun _ => .refuse _) fun _ => .newLine_rawText false val fun _ => rfl
  case piped =>
    refine .ite (fun _ => ?feed) fun _ => .ite (fun _ => .nothing) fun _ => ?line
    case feed =>
      apply Writes.newLine_of
      intro b
      rw [Int.add_zero]
      rfl
    case line =>
      apply Writes.newLine_of
      intro b
      rw [Int.add_zero, ← LineBuffer.append_append]
      rfl

private theorem oddText_writes (node : Node) (isHtml : Bool) (value : Json) :
    Writes floor spot.depth spot.nested (oddText spot.inline node isHtml value)
      (Emit.oddText spot node isHtml value) :=
  .ite (fun _ => .ite (fun _ => .refuse _) fun _ => .unsupported)
    fun _ => .ite (fun _ => .unsupported) fun _ => .nothing

private theorem leaf_writes (node : Node) (head : Leaf) :
    Writes floor spot.depth spot.nested (leaf spot.parent spot.inline node head)
      (Emit.leaf spot node head) := by
  cases head with
  | mixinBlock => exact .newLine _
  | text val isHtml =>
    cases val with
    | of val => exact text_writes node isHtml.isOn val
    | odd value => exact oddText_writes node isHtml.isOn value
  | comment val buffer =>
    cases val with
    | of val => exact .newLine _
    | odd _ => exact .unsupported
  | doctype val => exact .newLine _
  | fileReference path =>
    cases path with
    | of path => exact .append path
    | odd value => exact .ite (fun _ => .unsupported) fun _ => .nothing
  | bare => exact .refuse _

private theorem code_writes (high : floor ≤ spot.depth) (head : CodeHead)
    {visit : Option Node → Bool → Walk Unit} {block : Spot → Emission}
    (follows : Follows floor visit block) :
    Writes floor spot.depth spot.nested (code spot.parent spot.inline owner head visit)
      (Emit.code spot owner head block) := by
  have body : Writes floor spot.depth spot.nested (visit (some owner) false)
      (block (spot.below owner)) :=
    follows (spot.below owner) high
  unfold code Emit.code
  cases head.val with
  | odd _ => exact .unsupported
  | of val =>
    refine .ite (fun _ => .append _) fun _ => (Writes.head _ _).bind fun _ => ?_
    have script : Writes floor spot.depth spot.nested
        (deeper do newLine []; rawText true val)
        (.put [.line (spot.depth + 1), .script (spot.depth + 1) val]) :=
      .deeper (.newLine_rawText true val fun _ => rfl)
    exact .ite (fun _ => script.bind fun _ => body) fun _ => (Writes.append _).bind fun _ => body

private theorem ownContent_writes (high : floor ≤ spot.depth) (block : Node)
    {visit : Option Node → Bool → Walk Unit} {content : Spot → Emission}
    (follows : Follows floor visit content) :
    Writes floor spot.depth spot.nested (ownContent style owner block visit)
      (Emit.ownContent style spot owner block content) := by
  unfold ownContent Emit.ownContent
  rcases block.nodes? with _ | _ | ⟨first, rest⟩
  · exact .unsupported
  · exact .nothing
  · simp only
    cases Layout.startsOnSameLine? style.colon owner true (first :: rest) with
    | none => exact .unsupported
    | some same =>
      have inner : Writes floor spot.depth spot.nested (nesting false (visit (some owner) same))
          (content { spot with nested := false, parent := some owner, inline := same }) :=
        .nesting (follows { spot with nested := false, parent := some owner, inline := same } high)
      exact .ite (fun _ => (Writes.append _).bind fun _ => inner) fun _ => inner

private theorem tag_writes (high : floor ≤ spot.depth) (head : TagHead) (block : Option Node)
    {visitCode visit : Option Node → Bool → Walk Unit} {code content : Spot → Emission}
    (codeFollows : Follows floor visitCode code) (contentFollows : Follows floor visit content) :
    Writes floor spot.depth spot.nested (tag style spot.inline owner head block visitCode visit)
      (Emit.tag style spot owner head block code content) := by
  cases block with
  | none => exact .refuse _
  | some block =>
    refine (Writes.of_silent (Emit.tagHead_silent style head)).bind fun text => .isNested ?_
    refine .bracketed _ ((Writes.head _ _).bind fun _ => ?_)
    exact (codeFollows { spot with parent := none, inline := true } high).bind fun _ =>
      ownContent_writes high block contentFollows

private theorem mixin_writes (high : floor ≤ spot.depth) (m : MixinHead) (block : Option Node)
    {visit : Option Node → Bool → Walk Unit} {content : Spot → Emission}
    (follows : Follows floor visit content) :
    Writes floor spot.depth spot.nested (mixin style spot.inline owner m block visit)
      (Emit.mixin style spot owner m block content) := by
  refine .ite (fun _ => ?call) fun _ => (Writes.newLine _).bind fun _ =>
    follows (spot.below owner) high
  case call =>
    refine (Writes.of_silent (Emit.callHead_silent style m)).bind fun text => .isNested ?_
    refine .bracketed _ ((Writes.head _ _).bind fun _ => ?_)
    cases block with
    | none => exact .nothing
    | some block => exact ownContent_writes high block follows

private theorem when_writes (high : floor ≤ spot.depth) (expr : Loose Text) (block : Option Node)
    {visit : Option Node → Bool → Walk Unit} {body : Spot → Emission}
    (follows : Follows floor visit body) :
    Writes floor spot.depth spot.nested (when owner expr block visit)
      (Emit.when spot owner expr block body) := by
  refine (Writes.newLine _).bind fun _ => ?_
  cases block with
  | none => exact .nothing
  | some block =>
    simp only
    rcases block.nodes? with _ | _ | ⟨first, rest⟩
    · exact .unsupported
    · exact .newLine_deeper [] 1
    · exact follows (spot.below owner) high

private theorem rawBlock_writes {depth : Int} {nested : Bool} (high : floor ≤ depth)
    {visit : Walk Unit} {lines : Int → Emission} (follows : FollowsLevel floor nested visit lines) :
    Writes floor depth nested (rawBlock visit) (Emit.rawBlock depth lines) :=
  .rawBlock high (follows _ (Emit.le_rawDepth high))

private theorem blockComment_writes (high : floor ≤ spot.depth) (val : Loose Text)
    (buffer : Loose Bool) (block : Option Node) {visit : Walk Unit} {lines : Int → Emission}
    (follows : FollowsLevel floor spot.nested visit lines) :
    Writes floor spot.depth spot.nested (blockComment owner val buffer block visit)
      (Emit.blockComment spot owner val buffer block lines) := by
  cases block with
  | none => exact .refuse _
  | some block =>
    exact (Writes.of_silent (silent_of_out_nil rfl)).bind fun _ => (Writes.newLine _).bind fun _ =>
      rawBlock_writes high follows

private theorem filter_writes (high : floor ≤ spot.depth) (name : Loose Text) (attrs : Attributes)
    (block : Option Node) {visitChained visit : Option Node → Bool → Walk Unit}
    {visitLines : Walk Unit} {chained content : Spot → Emission} {lines : Int → Emission}
    (chainFollows : Follows floor visitChained chained) (contentFollows : Follows floor visit content)
    (linesFollow : FollowsLevel floor spot.nested visitLines lines) :
    Writes floor spot.depth spot.nested
      (filter style spot.parent spot.inline owner name attrs block visitChained visit visitLines)
      (Emit.filter style spot owner name attrs block chained content lines) := by
  cases block with
  | none => exact .refuse _
  | some block =>
    refine (Writes.of_silent (Emit.filterHead_silent style attrs name)).bind fun text =>
      .isNested ?_
    refine .bracketed _ ((Writes.head _ _).bind fun _ => ?_)
    rcases block.nodes? with _ | _ | ⟨first, rest⟩
    · exact .unsupported
    · exact .nothing
    · have chain : Writes floor spot.depth spot.nested
          (nesting true (visitChained (some owner) spot.inline))
          (chained { spot with nested := true, parent := some owner }) :=
        .nesting (chainFollows { spot with nested := true, parent := some owner } high)
      have running : Writes floor spot.depth spot.nested
          (nesting false (visit spot.parent spot.inline)) (content { spot with nested := false }) :=
        .nesting (contentFollows { spot with nested := false } high)
      refine .ite (fun _ => .ite (fun _ => chain) fun _ => .refuse _) fun _ => ?_
      refine .ite (fun _ => ?_) fun _ => rawBlock_writes high linesFollow
      exact .ite (fun _ => (Writes.append _).bind fun _ => running) fun _ => running

/-- The content of a sequence. Only below a parent is something entered at the depth of the sequence
itself; everything else is one level deeper. -/
theorem content_writes (spot : Spot) (high : spot.parent.isSome = true → floor ≤ spot.depth)
    (below : floor ≤ spot.depth + 1) (yields : Loose Bool) (nodes : List Node)
    {visitLines : Walk Unit} {visitRun : Bool → Walk Unit}
    {lines : Int → Emission} {run : Int → Bool → Bool → Emission}
    (linesFollow : FollowsLevel floor spot.nested visitLines lines)
    (runFollows : ∀ nested inline,
      FollowsLevel floor nested (visitRun inline) fun depth => run depth nested inline) :
    Writes floor spot.depth spot.nested
      (content style spot.parent spot.inline yields nodes visitLines visitRun)
      (Emit.content style spot yields nodes lines run) := by
  refine .ite (fun _ => .newLine _) fun _ => ?_
  rcases Layout.usesDot? spot.parent nodes with _ | _ | _
  · exact .unsupported
  · refine .ite (fun colon => ?_) fun _ => .deeper (runFollows spot.nested spot.inline _ below)
    have owned : spot.parent.isSome = true := by
      cases parent : spot.parent with
      | none => simp [Layout.usesColon, Layout.Owner.ofParent, parent] at colon
      | some parent => rfl
    exact (Writes.append _).bind fun _ => .nesting (runFollows true true _ (high owned))
  · have ofElement (owned : spot.parent.isSome = true) :
        Writes floor spot.depth spot.nested (do append "."; rawBlock visitLines)
          (do Emission.append "."; Emit.rawBlock spot.depth lines) :=
      (Writes.append _).bind fun _ => rawBlock_writes (high owned) linesFollow
    have ofOther : Writes floor spot.depth spot.nested
        (deeper do newLine "."; rawBlock visitLines)
        (do Emission.newLine (spot.depth + 1) "."; Emit.rawBlock (spot.depth + 1) lines) :=
      .deeper ((Writes.newLine _).bind fun _ => rawBlock_writes below linesFollow)
    cases kind : spot.parent.bind Node.kind? with
    | none => exact ofOther
    | some kind' =>
      obtain ⟨parent, isParent, _⟩ := Option.bind_eq_some_iff.mp kind
      have owned : spot.parent.isSome = true := Option.isSome_of_eq_some isParent
      cases kind' with
      | tag => exact ofElement owned
      | mixin => exact ofElement owned
      | _ => exact ofOther

theorem oddContent_writes {depth : Int} {nested : Bool} (yields : Loose Bool) (value : Json) :
    Writes floor depth nested (oddContent yields value) (Emit.oddContent depth yields value) := by
  refine .ite (fun _ => .newLine _) fun _ => ?_
  rcases value.items? with _ | _ | ⟨item, items⟩
  · exact .unsupported
  · exact .nothing
  · exact .unsupported

private theorem inclusionFilter_writes {depth : Int} {nested : Bool} (attrs : Attributes)
    (name : Loose Text) :
    Writes floor depth nested (inclusionFilter style attrs name)
      (Emit.inclusionFilter style attrs name) :=
  .ite (fun _ => (Writes.of_silent (Emit.filterHead_silent style attrs name)).bind fun _ =>
    .append _) fun _ => .nothing

end Walk

private theorem walkAlternate_of_not_conditional {parent n : Node}
    (other : n.isKind .conditional = false) :
    walkAlternate style parent (some n) =
      (do Walk.newLine "else"; walk style (some parent) false n) := by
  unfold walkAlternate
  split
  · simp_all
  · rename_i same
    cases same
    cases other
  · rename_i same
    cases same
    rfl

private theorem alternate_follows {parent n : Node} (other : n.isKind .conditional = false)
    (follows : Follows floor (fun parent inline => walk style parent inline n)
      fun spot => emit style spot n) (high : floor ≤ spot.depth) :
    Writes floor spot.depth spot.nested (walkAlternate style parent (some n))
      (emitAlternate style (spot.below parent) (some n)) := by
  rw [walkAlternate_of_not_conditional other, emitAlternate_of_not_conditional other]
  exact (Writes.newLine _).bind fun _ => follows (spot.below parent) high

mutual

/-- A walk through a node writes the emission of the node. -/
theorem walk_follows (floor : Int) (style : Style) : ∀ n : Node,
    Follows floor (fun parent inline => walk style parent inline n) fun spot => emit style spot n
  | .stray value => by
    intro spot high
    simp only [walk, emit]
    exact .enter high (.refuse _)
  | .leaf loc head => by
    intro spot high
    simp only [walk, emit]
    exact .enter high (Walk.leaf_writes _ head)
  | .block loc kind yields nodes => by
    intro spot high
    have linesFollow := walkLines_follows floor style spot.nested (.block loc kind yields nodes)
      false nodes
    have runFollows := walkRun_follows floor style (some (.block loc kind yields nodes)) nodes
    have below : floor ≤ spot.depth + 1 := by omega
    cases kind with
    | plain =>
      simp only [walk, emit]
      exact .enter high (Walk.content_writes spot (fun _ => high) below yields nodes linesFollow
        runFollows)
    | named name mode =>
      simp only [walk, emit]
      refine .enter high ((Writes.newLine _).bind fun _ => ?_)
      exact Walk.content_writes spot.detached (fun _ => high) below yields nodes linesFollow
        runFollows
  | .oddBlock loc kind yields value => by
    intro spot high
    cases kind with
    | plain =>
      simp only [walk, emit]
      exact .enter high (Walk.oddContent_writes yields value)
    | named name mode =>
      simp only [walk, emit]
      exact .enter high ((Writes.newLine _).bind fun _ => Walk.oddContent_writes yields value)
  | .stem loc (.mixin m) block => by
    intro spot high
    simp only [walk, emit]
    exact .enter high (Walk.mixin_writes high m block (walkOptional_follows floor style block))
  | .stem loc (.code head) block => by
    intro spot high
    simp only [walk, emit]
    exact .enter high (Walk.code_writes high head (walkOptional_follows floor style block))
  | .stem loc (.blockComment val buffer) block => by
    intro spot high
    simp only [walk, emit]
    exact .enter high (Walk.blockComment_writes high val buffer block
      (walkBlockLines_follows floor style spot.nested block))
  | .stem loc (.caseOf expr) block => by
    intro spot high
    simp only [walk, emit]
    exact .enter high ((Writes.newLine _).bind fun _ =>
      walkChild_writes floor style _ block spot high)
  | .stem loc (.when expr) block => by
    intro spot high
    simp only [walk, emit]
    exact .enter high (Walk.when_writes high expr block (walkOptional_follows floor style block))
  | .stem loc (.whileLoop test) block => by
    intro spot high
    simp only [walk, emit]
    exact .enter high ((Writes.newLine _).bind fun _ =>
      walkChild_writes floor style _ block spot high)
  | .stem loc .extending file => by
    intro spot high
    simp only [walk, emit]
    exact .enter high ((Writes.newLine _).bind fun _ =>
      walkChild_writes floor style _ file spot high)
  | .stem loc (.filter name attrs) block => by
    intro spot high
    simp only [walk, emit]
    exact .enter high (Walk.filter_writes high name attrs block
      (walkChildren_follows floor style block) (walkOptional_follows floor style block)
      (walkBlockLines_follows floor style spot.nested block))
  | .fork loc (.tag head) block code => by
    intro spot high
    simp only [walk, emit]
    exact .enter high (Walk.tag_writes high head block (walkTagCode_follows floor style code)
      (walkOptional_follows floor style block))
  | .fork loc (.conditional test) yes no => by
    intro spot high
    simp only [walk, emit]
    exact .enter high ((Writes.newLine _).bind fun _ =>
      (walkChild_writes floor style _ yes spot high).bind fun _ =>
        walkAlternate_writes floor style _ no spot high)
  | .fork loc (.each val obj key) block alternative => by
    intro spot high
    have instead := walkOptional_follows floor style alternative spot.detached high
    simp only [walk, emit]
    refine .enter high ((Writes.newLine _).bind fun _ =>
      (walkChild_writes floor style _ block spot high).bind fun _ => ?_)
    exact .ite (fun _ => (Writes.newLine _).bind fun _ => instead) fun _ => instead
  | .fork loc (.inclusion filter attrs) file block => by
    intro spot high
    simp only [walk, emit]
    exact .enter high ((Writes.newLine _).bind fun _ =>
      (Walk.inclusionFilter_writes attrs filter).bind fun _ => (Writes.append _).bind fun _ =>
        (walkChild_writes floor style _ file spot high).bind fun _ =>
          walkOptional_follows floor style block spot.detached high)
termination_by structural n => n

private theorem walkChild_writes (floor : Int) (style : Style) (parent : Node) :
    ∀ (child : Option Node) (spot : Spot), floor ≤ spot.depth →
      Writes floor spot.depth spot.nested (walkChild style parent child)
        (emitChild style (spot.below parent) child)
  | none, spot, _ => by
    simp only [walkChild, emitChild]
    exact .refuse _
  | some n, spot, high => by
    simp only [walkChild, emitChild]
    exact walk_follows floor style n (spot.below parent) high
termination_by structural child => child

private theorem walkOptional_follows (floor : Int) (style : Style) : ∀ child : Option Node,
    Follows floor (fun parent inline => walkOptional style parent inline child)
      fun spot => emitOptional style spot child
  | none => fun _ _ => by
    simp only [walkOptional, emitOptional]
    exact .nothing
  | some n => fun spot high => by
    simp only [walkOptional, emitOptional]
    exact walk_follows floor style n spot high
termination_by structural child => child

private theorem walkChildren_follows (floor : Int) (style : Style) : ∀ child : Option Node,
    Follows floor (fun parent inline => walkChildren style parent inline child)
      fun spot => emitChildren style spot child
  | some (.block _ _ _ nodes) => fun spot high => by
    simp only [walkChildren, emitChildren]
    exact walkRun_follows floor style spot.parent nodes spot.nested spot.inline spot.depth high
  | none | some (.leaf _ _) | some (.oddBlock _ _ _ _) | some (.stem _ _ _)
  | some (.fork _ _ _ _) | some (.stray _) => fun _ _ => by
    simp only [walkChildren, emitChildren]
    exact .unsupported
termination_by structural child => child

private theorem walkBlockLines_follows (floor : Int) (style : Style) (nested : Bool) :
    ∀ child : Option Node, FollowsLevel floor nested (walkBlockLines style child)
      fun depth => emitBlockLines style depth nested child
  | some (.block loc kind yields nodes) => fun depth high => by
    simp only [walkBlockLines, emitBlockLines]
    exact walkLines_follows floor style nested (.block loc kind yields nodes) true nodes depth high
  | some (.oddBlock loc kind yields value) => fun _ _ => by
    simp only [walkBlockLines, emitBlockLines]
    exact .of_silent (Emit.oddLines_silent _ value)
  | none | some (.leaf _ _) | some (.stem _ _ _) | some (.fork _ _ _ _) | some (.stray _) =>
    fun _ _ => by
      simp only [walkBlockLines, emitBlockLines]
      exact .unsupported
termination_by structural child => child

private theorem walkTagCode_follows (floor : Int) (style : Style) : ∀ code : Option Node,
    Follows floor (fun parent inline => walkTagCode style parent inline code)
      fun spot => emitTagCode style spot code
  | none => fun _ _ => by
    simp only [walkTagCode, emitTagCode]
    exact .nothing
  | some (.stem loc (.code head) body) => fun spot high => by
    simp only [walkTagCode, emitTagCode]
    exact .enter high (Walk.code_writes high head (walkOptional_follows floor style body))
  | some (.stem loc (.blockComment val buffer) body) => fun spot high => by
    simp only [walkTagCode, emitTagCode]
    exact .ite (fun _ => .unsupported) fun _ =>
      .enter high (Walk.code_writes high _ (walkOptional_follows floor style body))
  | some (.leaf _ _) | some (.block _ _ _ _) | some (.oddBlock _ _ _ _) | some (.fork _ _ _ _)
  | some (.stray _) | some (.stem _ (.mixin _) _) | some (.stem _ (.caseOf _) _)
  | some (.stem _ (.when _) _) | some (.stem _ (.whileLoop _) _) | some (.stem _ .extending _)
  | some (.stem _ (.filter _ _) _) => fun _ _ => by
    simp only [walkTagCode, emitTagCode]
    exact .unsupported
termination_by structural code => code

private theorem walkAlternate_writes (floor : Int) (style : Style) (parent : Node) :
    ∀ (child : Option Node) (spot : Spot), floor ≤ spot.depth →
      Writes floor spot.depth spot.nested (walkAlternate style parent child)
        (emitAlternate style (spot.below parent) child)
  | none, spot, _ => by
    simp only [walkAlternate, emitAlternate]
    exact .nothing
  | some (.fork loc (.conditional test) yes no), spot, high => by
    simp only [walkAlternate, emitAlternate]
    exact (Writes.newLine _).bind fun _ => .enter high ((Writes.append _).bind fun _ =>
      (walkChild_writes floor style _ yes spot high).bind fun _ =>
        walkAlternate_writes floor style _ no spot high)
  | some (.fork loc (.tag head) block code), _, high =>
    alternate_follows rfl (walk_follows floor style (.fork loc (.tag head) block code)) high
  | some (.fork loc (.each val obj key) block alternative), _, high =>
    alternate_follows rfl
      (walk_follows floor style (.fork loc (.each val obj key) block alternative)) high
  | some (.fork loc (.inclusion filter attrs) file block), _, high =>
    alternate_follows rfl
      (walk_follows floor style (.fork loc (.inclusion filter attrs) file block)) high
  | some (.stem loc head child), _, high =>
    alternate_follows (by cases head <;> rfl) (walk_follows floor style (.stem loc head child)) high
  | some (.leaf loc head), _, high =>
    alternate_follows (by cases head <;> rfl) (walk_follows floor style (.leaf loc head)) high
  | some (.block loc kind yields nodes), _, high =>
    alternate_follows (by cases kind <;> rfl)
      (walk_follows floor style (.block loc kind yields nodes)) high
  | some (.oddBlock loc kind yields value), _, high =>
    alternate_follows (by cases kind <;> rfl)
      (walk_follows floor style (.oddBlock loc kind yields value)) high
  | some (.stray value), _, high =>
    alternate_follows rfl (walk_follows floor style (.stray value)) high
termination_by structural child => child

theorem walkRun_follows (floor : Int) (style : Style) (parent : Option Node) :
    ∀ (nodes : List Node) (nested inline : Bool),
      FollowsLevel floor nested (walkRun style parent inline nodes)
        fun depth => emitRun style { depth, nested, parent, inline } nodes
  | [], _, _ => fun _ _ => by
    simp only [walkRun, emitRun]
    exact .nothing
  | n :: rest, nested, inline => fun depth high => by
    have node := walk_follows floor style n { depth, nested, parent, inline } high
    have others := walkRun_follows floor style parent rest nested (Emit.continuesLine n rest) depth
      high
    simp only [walkRun, emitRun]
    exact .ite (fun _ => node.bind fun _ => others) fun _ => Writes.unsupported.bind fun _ => others
termination_by structural nodes => nodes

theorem walkLines_follows (floor : Int) (style : Style) (nested : Bool) (block : Node)
    (verbatim : Bool) : ∀ nodes : List Node,
      FollowsLevel floor nested (walkLines style block verbatim nodes)
        fun depth => emitLines style depth nested block verbatim nodes
  | [] => fun _ _ => by
    simp only [walkLines, emitLines]
    exact .nothing
  | n :: rest => fun depth high => by
    have others := walkLines_follows floor style nested block verbatim rest depth high
    have node := walk_follows floor style n { depth, nested, parent := some block, inline := true }
      high
    have refused : Writes floor depth nested
        (do
          Walk.refuse (.unexpectedRawChild n.subject (some block.subject))
          walkLines style block verbatim rest)
        (do
          Emission.refuse (.unexpectedRawChild n.subject (some block.subject))
          emitLines style depth nested block verbatim rest) :=
      (Writes.refuse _).bind fun _ => others
    unfold walkLines emitLines
    cases n with
    | leaf loc head =>
      cases head with
      | text val isHtml =>
        cases val with
        | of val => exact (Writes.rawText _ _).bind fun _ => others
        | odd value => exact Writes.unsupported.bind fun _ => others
      | _ => exact refused
    | stem loc head child =>
      cases head with
      | code head => exact node.bind fun _ => others
      | _ => exact refused
    | fork loc head first second =>
      cases head with
      | tag head => exact node.bind fun _ => others
      | _ => exact refused
    | _ => exact refused
termination_by structural nodes => nodes

end

end PugPrinter
