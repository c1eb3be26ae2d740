import PugPrinter.Proofs.Emit.RunningLine

/-!
Children without a line. A node whose place nobody knows stands in line 0, and the printer takes this for
a line like any other: siblings in line 0 count as siblings that share one. So of the tags and mixin calls
in a block of such nodes only a first child has a line of its own. All others run on in the line of the
sibling before them.
-/

set_option autoImplicit false

namespace PugPrinter

namespace Node

def isElement (n : Node) : Bool :=
  n.isKind .tag || n.isWrittenCall

variable {n : Node}

private theorem interpolates_of_isElement (element : n.isElement = true) :
    n.interpolates = true := by
  unfold interpolates
  rw [show (n.isKind .tag || n.isWrittenCall) = true from element]
  rfl

private theorem kind?_of_isElement (element : n.isElement = true) :
    n.kind? = some .tag ∨ n.kind? = some .mixin := by
  rcases Bool.or_eq_true_iff.mp element with isTag | isCall
  · exact .inl (beq_iff_eq.mp isTag)
  · cases n with
    | stem loc head child => cases head <;> first | cases isCall | exact .inr rfl
    | _ => cases isCall

private theorem not_isKind_of_isElement (element : n.isElement = true) {kind : Kind}
    (noTag : kind ≠ .tag) (noMixin : kind ≠ .mixin) : n.isKind kind = false := by
  rw [isKind, beq_eq_false_iff_ne]
  rcases kind?_of_isElement element with isTag | isMixin
  · rw [isTag]
    exact fun same => noTag (Option.some.inj same).symm
  · rw [isMixin]
    exact fun same => noMixin (Option.some.inj same).symm

end Node

namespace Emit

/-- Pieces that start a line at a depth with the bare head of a node. -/
def StartsLine (style : Style) (depth : Int) (n : Node) (out : List Piece) : Prop :=
  ∃ text body, (bareHead style n).result = .ok text ∧
    out = (bareHead style n).out ++ .line depth :: .markup text :: body

/-- Pieces that go on in a line with the head of a node, after an opening bracket or without one. -/
def JoinsLine (style : Style) (brackets : Bool) (n : Node) (out : List Piece) : Prop :=
  ∃ text body, (bareHead style n).result = .ok text ∧
    out = (bareHead style n).out ++
      ((if brackets then [.markup "#["] else []) ++ .markup text :: body)

variable {style : Style} {spot : Spot} {n : Node}

private theorem JoinsLine.not_startsLine {brackets : Bool} {out : List Piece}
    (joins : JoinsLine style brackets n out) (depth : Int) : ¬ StartsLine style depth n out := by
  rintro ⟨text, body, _, starts⟩
  obtain ⟨text', body', _, rfl⟩ := joins
  have tails := List.append_cancel_left starts
  cases brackets <;> cases tails

private theorem element_line (element : n.isElement = true) (among : isRunning spot = spot.inline)
    (ended : (emit style spot n).result = .ok ()) :
    if spot.inline then JoinsLine style (!spot.nested) n (emit style spot n).out
    else StartsLine style spot.depth n (emit style spot n).out := by
  have form := emit_form (Node.interpolates_of_isElement element) among ended
  have noCode : n.isKind .code = false := Node.not_isKind_of_isElement element nofun nofun
  have noFilter : n.isKind .filter = false := Node.not_isKind_of_isElement element nofun nofun
  rw [interpolatesAt, noCode, Bool.false_or] at form
  unfold Bare at form
  rw [noFilter, Bool.false_and, Bool.or_false] at form
  cases inline : spot.inline with
  | false =>
    rw [inline] at form
    exact form
  | true =>
    rw [inline] at form
    cases nested : spot.nested with
    | true =>
      rw [nested] at form
      exact form
    | false =>
      rw [nested] at form
      have bracketed : Bracketed style n (emit style spot n).out := by
        cases n with
        | stem loc head child =>
          cases head <;> first | exact form | cases noCode
        | _ => exact form
      obtain ⟨text, body, found, out⟩ := bracketed
      exact ⟨text, body ++ [.markup "]"], found, out.trans (by simp)⟩

private theorem isRunning_childSpot {loc : Location} {kind : BlockKind} {yields : Loose Bool}
    {before after : List Node} (ownLine : (spot.ofContent kind).inline = false) :
    let block := Node.block loc kind yields (before ++ n :: after)
    isRunning (childSpot spot kind block before n) = (childSpot spot kind block before n).inline := by
  -- In a block that continues no line, a child continues one only after a sibling, so code stands
  -- in running text whenever it continues a line.
  intro block
  cases before with
  | nil =>
    have starts : (childSpot spot kind block [] n).inline = false := ownLine
    rw [isRunning, starts, Bool.false_and]
  | cons prev before =>
    exact isRunning_inside (by simp) _

private theorem child_line {loc : Location} {kind : BlockKind} {yields : Loose Bool}
    {nodes before after : List Node} (divided : nodes = before ++ n :: after)
    (inTurn : WrittenInTurn style (spot.ofContent kind).parent yields nodes)
    (ownLine : (spot.ofContent kind).inline = false) (element : n.isElement = true)
    (ended : (emit style spot (.block loc kind yields nodes)).result = .ok ()) :
    ∃ first own rest,
      own = (emit style (childSpot spot kind (.block loc kind yields nodes) before n) n).out ∧
      (emit style spot (.block loc kind yields nodes)).out = first ++ own ++ rest ∧
      if continuesAt false before n then JoinsLine style (!spot.nested) n own
      else StartsLine style (spot.depth + 1) n own := by
  -- A child of a block that continues no line starts a line exactly when it has no sibling before
  -- it or that stands in another line.
  subst divided
  rw [emit_block_inTurn inTurn] at ended ⊢
  obtain ⟨_, headed, childrenEnded⟩ := (Run.bind_result_eq_ok_iff _ _ _).mp ended
  obtain ⟨first, ownEnded, _, out⟩ := emitRun_split childrenEnded
  let inside := spot.inside kind (.block loc kind yields (before ++ n :: after))
  refine ⟨(heading spot.depth kind).out ++ first, _,
    (emitRun style (inside.continuing (continuesLine n after)) after).out, rfl, ?_, ?_⟩
  · rw [Run.bind_out_of_ok headed, out]
    simp only [List.append_assoc]
    rfl
  · rw [← ownLine]
    exact element_line element (isRunning_childSpot ownLine) ownEnded

private theorem continuesAt_of_shared {line : Int} {before after : List Node}
    (shared : ∀ m ∈ before ++ n :: after, m.line? = some line) :
    continuesAt false before n = !before.isEmpty := by
  unfold continuesAt
  cases last : before.getLast? with
  | none =>
    rw [List.getLast?_eq_none_iff.mp last]
    rfl
  | some prev =>
    have mem := List.mem_of_getLast? last
    have prevLine := shared prev (List.mem_append_left _ mem)
    have ownLine := shared n (by simp)
    have given : before.isEmpty = false := List.isEmpty_eq_false_iff.mpr (List.ne_nil_of_mem mem)
    simp [continuesLine, prevLine, ownLine, given]

end Emit

open Emit

/-- A tag or a mixin call in a block that continues no line, is written child after child and has only
children in the unknown line 0: it starts a line, one level below the block, exactly when it is the first
child. Every other one goes on in the line of the sibling before it, in brackets where it needs them. -/
theorem unknown_line_starts_iff {style : Style} {spot : Spot} {loc : Location} {kind : BlockKind}
    {yields : Loose Bool} {nodes before after : List Node} {n : Node}
    (divided : nodes = before ++ n :: after)
    (inTurn : WrittenInTurn style (spot.ofContent kind).parent yields nodes)
    (ownLine : (spot.ofContent kind).inline = false) (unknown : ∀ m ∈ nodes, m.line? = some 0)
    (element : n.isElement = true)
    (ended : (emit style spot (.block loc kind yields nodes)).result = .ok ()) :
    ∃ first own rest,
      own = (emit style (childSpot spot kind (.block loc kind yields nodes) before n) n).out ∧
      (emit style spot (.block loc kind yields nodes)).out = first ++ own ++ rest ∧
      (StartsLine style (spot.depth + 1) n own ↔ before = []) ∧
      (before ≠ [] → JoinsLine style (!spot.nested) n own) := by
  obtain ⟨first, own, rest, isOwn, out, form⟩ := child_line divided inTurn ownLine element ended
  refine ⟨first, own, rest, isOwn, out, ?_⟩
  rw [continuesAt_of_shared (divided ▸ unknown)] at form
  cases before with
  | nil => exact ⟨iff_of_true form rfl, fun given => absurd rfl given⟩
  | cons prev before =>
    have joins : JoinsLine style (!spot.nested) n own := form
    exact ⟨iff_of_false (joins.not_startsLine _) (List.cons_ne_nil _ _), fun _ => joins⟩

namespace Emit

def unplacedTag (name : Text) : Node :=
  .fork { line := 0 } (.tag { name := .of name }) (some (.block { line := 0 } .plain (.of false) [])) none

def unplacedCall (name : Text) : Node :=
  .stem { line := 0 } (.mixin { name := .of name, call := .of true }) none

def unplacedBlock (nodes : List Node) : Node :=
  .block { line := 0 } .plain (.of false) nodes

end Emit

/-- Two tags and a call in the unknown line: the first tag starts a line, the call does not. -/
theorem unknown_line_starts_samples :
    (∃ own, own <:+: (emit {} { depth := -1 }
        (unplacedBlock [unplacedTag "a", unplacedTag "b", unplacedCall "c"])).out ∧
      StartsLine {} 0 (unplacedTag "a") own) ∧
    (∃ own, own <:+: (emit {} { depth := -1 }
        (unplacedBlock [unplacedTag "a", unplacedTag "b", unplacedCall "c"])).out ∧
      JoinsLine {} true (unplacedCall "c") own ∧ ¬ StartsLine {} 0 (unplacedCall "c") own) := by
  constructor
  · obtain ⟨first, own, rest, _, out, starts, _⟩ :=
      @unknown_line_starts_iff {} { depth := -1 } { line := 0 } .plain (.of false) _ []
        [unplacedTag "b", unplacedCall "c"] (unplacedTag "a") rfl ⟨rfl, rfl, rfl⟩ rfl (by decide)
        rfl rfl
    exact ⟨own, ⟨first, rest, out.symm⟩, starts.mpr rfl⟩
  · obtain ⟨first, own, rest, _, out, starts, joins⟩ :=
      @unknown_line_starts_iff {} { depth := -1 } { line := 0 } .plain (.of false) _
        [unplacedTag "a", unplacedTag "b"] [] (unplacedCall "c") rfl ⟨rfl, rfl, rfl⟩ rfl (by decide)
        rfl rfl
    exact ⟨own, ⟨first, rest, out.symm⟩, joins (by decide),
      fun started => absurd (starts.mp started) (by decide)⟩

/-- Not every tag in a block of nodes in the unknown line starts a line: after another one it goes on in
the line of that one, and what is printed is no template of two tags. -/
theorem not_all_unknown_start_lines :
    ¬ (∀ (style : Style) (spot : Spot) (loc : Location) (kind : BlockKind) (yields : Loose Bool)
        (nodes before after : List Node) (n : Node), nodes = before ++ n :: after →
      WrittenInTurn style (spot.ofContent kind).parent yields nodes →
      (spot.ofContent kind).inline = false → (∀ m ∈ nodes, m.line? = some 0) →
      n.isElement = true → (emit style spot (.block loc kind yields nodes)).result = .ok () →
      StartsLine style (spot.depth + 1) n
        (emit style (childSpot spot kind (.block loc kind yields nodes) before n) n).out) ∧
    (sourceOfTree .standard (unplacedBlock [unplacedTag "a", unplacedTag "b"])).result =
      .ok "a#[b]" := by
  constructor
  · intro all
    obtain ⟨_, _, _, starts⟩ := all {} { depth := -1 } { line := 0 } .plain (.of false) _
      [unplacedTag "a"] [] (unplacedTag "b") rfl ⟨rfl, rfl, rfl⟩ rfl (by decide) rfl rfl
    cases starts
  · rfl

end PugPrinter
