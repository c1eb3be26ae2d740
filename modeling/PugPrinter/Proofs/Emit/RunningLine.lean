import PugPrinter.Proofs.Runs
import PugPrinter.Source

/-!
Siblings that share a line. In a block that is written child after child, a tag, a mixin call, a
filter or a piece of code that is followed in its line stands in interpolated form exactly when it
continues a line itself and, code apart, does not stand where elements need no brackets. The first
of its line starts the line with its bare head, and what follows runs on in that head.
-/

set_option autoImplicit false

namespace PugPrinter

namespace Node

def isWrittenCall : Node → Bool
  | stem _ (.mixin m) _ => m.call.isOn
  | _ => false

/-- Nodes that have an interpolated form: tags, mixin calls, filters and code. -/
def interpolates (n : Node) : Bool :=
  n.isKind .tag || n.isWrittenCall || n.isKind .filter || n.isKind .code

end Node

/-- A block is written child after child: it is no placeholder, no dot block, and not its only child
after a colon. -/
structure WrittenInTurn (style : Style) (parent : Option Node) (yields : Loose Bool)
    (nodes : List Node) : Prop where
  noPlaceholder : yields.isOn = false
  noDot : Layout.usesDot? parent nodes = some false
  noColon : Layout.usesColon style.colon (.ofParent parent) nodes = false

/-- The spot that the layout of a block sees: a named block has a line of its own and no parent. -/
def Spot.ofContent (spot : Spot) : BlockKind → Spot
  | .plain => spot
  | .named _ _ => spot.detached

/-- The spot of the children of a block that is written child after child. The first of them
continues a line when the block does. -/
def Spot.inside (spot : Spot) (kind : BlockKind) (block : Node) : Spot where
  depth := spot.depth + 1
  nested := spot.nested
  parent := some block
  inline := (spot.ofContent kind).inline

def Spot.continuing (spot : Spot) (inline : Bool) : Spot :=
  { spot with inline }

namespace Emit

open Emission

/-- The bare head of a node that has an interpolated form, with the notes on the way to it. -/
def bareHead (style : Style) : Node → Run Piece Text
  | .fork _ (.tag head) _ _ => tagHead style head
  | .stem _ (.mixin m) _ => callHead style m
  | .stem _ (.filter name attrs) _ => filterHead style attrs name
  | .stem _ (.code head) _ => .done (codeOperator head)
  | _ => .fail .unsupportedShape

def Bracketed (style : Style) (n : Node) (out : List Piece) : Prop :=
  ∃ text body, (bareHead style n).result = .ok text ∧
    out = (bareHead style n).out ++ ([.markup "#[", .markup text] ++ body ++ [.markup "]"])

/-- Pieces in interpolated form: code between its own marks, an element between brackets. -/
def Interpolated (style : Style) : Node → List Piece → Prop
  | .stem _ (.code head) _, out =>
    ∃ val, head.val = .of val ∧ out = [.markup (interpolatedCode head val)]
  | n, out => Bracketed style n out

/-- Pieces that start with a bare head. The head starts a line at the depth of the spot, unless it
continues one or is the next filter of a chain. -/
def Bare (style : Style) (spot : Spot) (n : Node) (out : List Piece) : Prop :=
  ∃ text body, (bareHead style n).result = .ok text ∧
    out = (bareHead style n).out ++
      ((if spot.inline || (n.isKind .filter && spot.nested) then [] else [.line spot.depth]) ++
        .markup text :: body)

def interpolatesAt (spot : Spot) (n : Node) : Bool :=
  spot.inline && (n.isKind .code || !spot.nested)

/-- Whether a child continues a line: the one before it stands in its line, or it is the first child
of a block that continues a line itself. -/
def continuesAt (inline : Bool) (before : List Node) (n : Node) : Bool :=
  match before.getLast? with
  | none => inline
  | some prev => continuesLine prev [n]

private theorem continuesAt_cons (inline : Bool) (prev : Node) (before : List Node) (n : Node)
    (rest : List Node) :
    continuesAt inline (prev :: before) n =
      continuesAt (continuesLine prev (before ++ n :: rest)) before n := by
  cases before with
  | nil => rfl
  | cons m before =>
    unfold continuesAt
    rw [List.getLast?_cons_cons]
    cases last : (m :: before).getLast? with
    | none => simp at last
    | some _ => rfl

private theorem emitRun_cons_of_ok {style : Style} {spot : Spot} {n : Node} {rest : List Node}
    (ended : (emitRun style spot (n :: rest)).result = .ok ()) :
    (emit style spot n).result = .ok () ∧
      (emitRun style (spot.continuing (continuesLine n rest)) rest).result = .ok () ∧
      (emitRun style spot (n :: rest)).out = (emit style spot n).out ++
        (emitRun style (spot.continuing (continuesLine n rest)) rest).out := by
  rw [emitRun] at ended ⊢
  by_cases isNode : n.isNode = true
  · rw [if_pos isNode] at ended ⊢
    obtain ⟨_, nodeEnded, restEnded⟩ := (Run.bind_result_eq_ok_iff _ _ _).mp ended
    exact ⟨nodeEnded, restEnded, Run.bind_out_of_ok nodeEnded _⟩
  · rw [if_neg isNode] at ended
    cases ended

theorem emitRun_split {style : Style} {spot : Spot} {before rest : List Node} {n : Node}
    (ended : (emitRun style spot (before ++ n :: rest)).result = .ok ()) :
    ∃ first,
      (emit style (spot.continuing (continuesAt spot.inline before n)) n).result = .ok () ∧
      (emitRun style (spot.continuing (continuesLine n rest)) rest).result = .ok () ∧
      (emitRun style spot (before ++ n :: rest)).out = first ++
        (emit style (spot.continuing (continuesAt spot.inline before n)) n).out ++
        (emitRun style (spot.continuing (continuesLine n rest)) rest).out := by
  induction before generalizing spot with
  | nil =>
    obtain ⟨nodeEnded, restEnded, out⟩ := emitRun_cons_of_ok ended
    exact ⟨[], nodeEnded, restEnded, out⟩
  | cons prev before ih =>
    rw [List.cons_append] at ended ⊢
    obtain ⟨_, restEnded, prevOut⟩ := emitRun_cons_of_ok ended
    obtain ⟨first, nodeEnded, afterEnded, out⟩ := ih restEnded
    have inline := continuesAt_cons spot.inline prev before n rest
    refine ⟨(emit style spot prev).out ++ first, ?_, afterEnded, ?_⟩
    · rw [inline]
      exact nodeEnded
    · rw [prevOut, out, inline]
      simp only [List.append_assoc]
      rfl

private theorem emitRun_pair {style : Style} {spot : Spot} {before after : List Node}
    {n next : Node} (joined : continuesLine n (next :: after) = true)
    (ended : (emitRun style spot (before ++ n :: next :: after)).result = .ok ()) :
    ∃ first rest,
      (emit style (spot.continuing (continuesAt spot.inline before n)) n).result = .ok () ∧
      (emitRun style spot (before ++ n :: next :: after)).out = first ++
        (emit style (spot.continuing (continuesAt spot.inline before n)) n).out ++
        (emit style (spot.continuing true) next).out ++ rest := by
  obtain ⟨first, ownEnded, restEnded, out⟩ := emitRun_split ended
  rw [joined] at restEnded out
  obtain ⟨_, _, restOut⟩ := emitRun_cons_of_ok restEnded
  refine ⟨first, (emitRun style ((spot.continuing true).continuing (continuesLine next after))
    after).out, ownEnded, ?_⟩
  rw [out, restOut]
  simp only [List.append_assoc]

private theorem bracketed_out {inner : Emission} (ended : (bracketed true inner).result = .ok ()) :
    (bracketed true inner).out = .markup "#[" :: inner.out ++ [.markup "]"] := by
  have opened : (append "#[").result = .ok () := rfl
  obtain ⟨_, _, innerEnded⟩ := (Run.bind_result_eq_ok_iff _ _ _).mp ended
  obtain ⟨_, innerEnded, _⟩ := (Run.bind_result_eq_ok_iff _ _ _).mp innerEnded
  simp only [bracketed, if_true]
  rw [Run.bind_out_of_ok opened, Run.bind_out_of_ok innerEnded]
  rfl

theorem bracketed_of_ok {brackets : Bool} {inner : Emission}
    (ended : (bracketed brackets inner).result = .ok ()) :
    inner.result = .ok () ∧ (bracketed brackets inner).out =
      (if brackets then [.markup "#["] else []) ++ inner.out ++
        (if brackets then [.markup "]"] else []) := by
  cases brackets with
  | false => exact ⟨ended, (List.append_nil _).symm⟩
  | true =>
    obtain ⟨_, _, rest⟩ := (Run.bind_result_eq_ok_iff _ _ _).mp ended
    obtain ⟨_, innerEnded, _⟩ := (Run.bind_result_eq_ok_iff _ _ _).mp rest
    exact ⟨innerEnded, bracketed_out ended⟩

theorem bracketed_result_eq_ok_iff {brackets : Bool} {inner : Emission} :
    (bracketed brackets inner).result = .ok () ↔ inner.result = .ok () := by
  cases brackets with
  | false => exact Iff.rfl
  | true =>
    refine ⟨fun ended => (bracketed_of_ok ended).1, fun ended => ?_⟩
    refine (Run.bind_result_eq_ok_iff _ _ _).mpr ⟨(), rfl, ?_⟩
    exact (Run.bind_result_eq_ok_iff _ _ _).mpr ⟨(), ended, rfl⟩

theorem head_result (joins : Bool) (depth : Int) (text : Text) :
    (head joins depth text).result = .ok () := by
  cases joins <;> rfl

theorem head_out (joins : Bool) (depth : Int) (text : Text) (more : Emission) :
    (head joins depth text >>= fun _ => more).out =
      (if joins then [] else [.line depth]) ++ .markup text :: more.out := by
  rw [Run.bind_out_of_ok (head_result joins depth text)]
  cases joins <;> rfl

private theorem code_form {style : Style} {spot : Spot} {loc : Location} {head : CodeHead}
    {child : Option Node} {block : Spot → Emission} (among : isRunning spot = spot.inline)
    (ended : (code spot (.stem loc (.code head) child) head block).result = .ok ()) :
    if interpolatesAt spot (.stem loc (.code head) child) then
      Interpolated style (.stem loc (.code head) child)
        (code spot (.stem loc (.code head) child) head block).out
    else Bare style spot (.stem loc (.code head) child)
        (code spot (.stem loc (.code head) child) head block).out := by
  have turn : interpolatesAt spot (.stem loc (.code head) child) = spot.inline :=
    Bool.and_true _
  rw [turn]
  unfold code at ended ⊢
  cases val : head.val with
  | odd value =>
    rw [val] at ended
    cases ended
  | of text =>
    simp only [val, among] at ended ⊢
    cases inline : spot.inline with
    | true => exact ⟨text, val, rfl⟩
    | false =>
      have starts : (spot.inline ||
          (Node.isKind .filter (.stem loc (.code head) child) && spot.nested)) = false := by
        rw [inline]
        rfl
      simp only [Bool.false_eq_true, if_false, head_out]
      unfold Bare
      rw [starts]
      exact ⟨codeOperator head, _, rfl, rfl⟩

private theorem element_form {style : Style} {spot : Spot} {n : Node} {joins : Bool}
    {more : Emission} (notCode : n.isKind .code = false)
    (interpolated : Interpolated style n = Bracketed style n)
    (joined : joins = (spot.inline || (n.isKind .filter && spot.nested)))
    (ended : (bareHead style n >>= fun text => bracketed (spot.inline && !spot.nested)
      (head joins spot.depth text >>= fun _ => more)).result = .ok ()) :
    if interpolatesAt spot n then
      Interpolated style n (bareHead style n >>= fun text =>
        bracketed (spot.inline && !spot.nested)
          (head joins spot.depth text >>= fun _ => more)).out
    else Bare style spot n (bareHead style n >>= fun text =>
        bracketed (spot.inline && !spot.nested)
          (head joins spot.depth text >>= fun _ => more)).out := by
  have turn : interpolatesAt spot n = (spot.inline && !spot.nested) := by
    unfold interpolatesAt
    rw [notCode, Bool.false_or]
  rw [turn, interpolated]
  obtain ⟨text, found, ended⟩ := (Run.bind_result_eq_ok_iff _ _ _).mp ended
  rw [Run.bind_out_of_ok found]
  cases brackets : spot.inline && !spot.nested with
  | true =>
    rw [brackets] at ended
    have joins_eq : joins = true := by
      rw [Bool.and_eq_true] at brackets
      rw [joined, brackets.1, Bool.true_or]
    refine ⟨text, more.out, found, ?_⟩
    rw [bracketed_out ended, head_out, joins_eq]
    rfl
  | false =>
    refine ⟨text, more.out, found, ?_⟩
    rw [← joined]
    exact congrArg _ (head_out joins spot.depth text more)

/-- A node with an interpolated form, among siblings in a block: what it is written as depends only
on whether it continues a line and on whether an element needs brackets there. -/
theorem emit_form {style : Style} {spot : Spot} {n : Node} (has : n.interpolates = true)
    (among : isRunning spot = spot.inline) (ended : (emit style spot n).result = .ok ()) :
    if interpolatesAt spot n then Interpolated style n (emit style spot n).out
    else Bare style spot n (emit style spot n).out := by
  cases n with
  | leaf loc head => cases head <;> cases has
  | block loc kind yields nodes => cases kind <;> cases has
  | oddBlock loc kind yields value => cases kind <;> cases has
  | stray value => cases has
  | stem loc head child =>
    cases head with
    | code head =>
      rw [emit] at ended ⊢
      exact code_form among ended
    | mixin m =>
      have isCall : m.call.isOn = true := by
        simpa [Node.interpolates, Node.isKind, Node.kind?, Stem.kind, Node.isWrittenCall] using has
      rw [emit] at ended ⊢
      unfold Emit.mixin at ended ⊢
      rw [if_pos isCall] at ended ⊢
      exact element_form rfl rfl (Bool.or_false _).symm ended
    | filter name attrs =>
      rw [emit] at ended ⊢
      cases child with
      | none => cases ended
      | some block =>
        exact element_form rfl rfl rfl ended
    | _ => cases has
  | fork loc head first second =>
    cases head with
    | tag head =>
      rw [emit] at ended ⊢
      cases first with
      | none => cases ended
      | some block => exact element_form rfl rfl (Bool.or_false _).symm ended
    | _ => cases has

theorem interpolatedCode_ne_nil (code : CodeHead) (val : Text) : interpolatedCode code val ≠ [] := by
  unfold interpolatedCode
  split <;> exact List.cons_ne_nil _ _

theorem codeOperator_ne_interpolatedCode (head other : CodeHead) (val : Text) :
    codeOperator head ≠ interpolatedCode other val := by
  unfold codeOperator interpolatedCode
  cases head.buffer.isOn <;> cases head.escape.isOn <;> cases other.buffer.isOn <;>
    cases other.escape.isOn <;> intro same <;> cases same

private theorem Bare.not_interpolated {style : Style} {spot : Spot} {n : Node} {out : List Piece}
    (bare : Bare style spot n out) (noBracket : (bareHead style n).result ≠ .ok "#[") :
    ¬ Interpolated style n out := by
  obtain ⟨text, body, found, rfl⟩ := bare
  have apart : ¬ Bracketed style n ((bareHead style n).out ++
      ((if spot.inline || (n.isKind .filter && spot.nested) then [] else [.line spot.depth]) ++
        .markup text :: body)) := by
    rintro ⟨text', body', found', same⟩
    have tails := List.append_cancel_left same
    split at tails
    · injection tails with opening
      injection opening with opening
      exact noBracket (opening ▸ found)
    · cases tails
  cases n with
  | stem loc head child =>
    cases head with
    | code head =>
      rintro ⟨val, _, same⟩
      cases found
      split at same
      · injection same with same
        injection same with same
        exact codeOperator_ne_interpolatedCode head head val same
      · cases same
    | _ => exact apart
  | _ => exact apart

def heading (depth : Int) : BlockKind → Emission
  | .plain => nothing
  | .named name mode => newLine depth (namedBlockHead name mode)

theorem emit_block_inTurn {style : Style} {spot : Spot} {loc : Location} {kind : BlockKind}
    {yields : Loose Bool} {nodes : List Node}
    (inTurn : WrittenInTurn style (spot.ofContent kind).parent yields nodes) :
    emit style spot (.block loc kind yields nodes) = heading spot.depth kind >>= fun _ =>
      emitRun style (spot.inside kind (.block loc kind yields nodes)) nodes := by
  have inTurnContent (lines : Int → Emission) (run : Int → Bool → Bool → Emission) :
      content style (spot.ofContent kind) yields nodes lines run =
        run ((spot.ofContent kind).depth + 1) (spot.ofContent kind).nested
          (spot.ofContent kind).inline := by
    simp [content, inTurn.noPlaceholder, inTurn.noDot, inTurn.noColon]
  cases kind with
  | plain =>
    rw [emit]
    exact inTurnContent _ _
  | named name mode =>
    rw [emit]
    exact congrArg _ (funext fun _ => inTurnContent _ _)

/-- The spot of a child of a block that is written child after child. -/
def childSpot (spot : Spot) (kind : BlockKind) (block : Node) (before : List Node) (n : Node) :
    Spot :=
  (spot.inside kind block).continuing (continuesAt (spot.ofContent kind).inline before n)

theorem isRunning_inside {spot : Spot} {loc : Location} {kind : BlockKind} {yields : Loose Bool}
    {nodes : List Node} (siblings : nodes.length ≠ 1) (inline : Bool) :
    isRunning ((spot.inside kind (.block loc kind yields nodes)).continuing inline) = inline := by
  have others : (nodes.length != 1) = true := bne_iff_ne.mpr siblings
  simp [isRunning, Spot.inside, Spot.continuing, Layout.blockOf?, Node.nodes?, others]

private theorem continuesLine_of_shared {n next : Node} {after : List Node}
    (has : n.interpolates = true)
    (shared : n.line? = next.line?) : continuesLine n (next :: after) = true := by
  cases line : n.line? with
  | none => cases n <;> first | cases has | cases line
  | some line =>
    rw [line] at shared
    simp [continuesLine, line, ← shared]

end Emit

open Emit

/-- A tag, a mixin call, a filter or a piece of code that is followed in its line: the next sibling
goes on right after its pieces, and these have interpolated form exactly when the node continues a
line itself and, code apart, stands where elements need brackets. Else the node keeps its bare head,
which the sibling runs on in. -/
theorem running_line_child_form {style : Style} {spot : Spot} {loc : Location} {kind : BlockKind}
    {yields : Loose Bool} {nodes before after : List Node} {n next : Node}
    (divided : nodes = before ++ n :: next :: after)
    (inTurn : WrittenInTurn style (spot.ofContent kind).parent yields nodes)
    (has : n.interpolates = true) (shared : n.line? = next.line?)
    (ended : (emit style spot (.block loc kind yields nodes)).result = .ok ()) :
    ∃ first own rest,
      own = (emit style (childSpot spot kind (.block loc kind yields nodes) before n) n).out ∧
      (emit style spot (.block loc kind yields nodes)).out = first ++ own ++
        (emit style ((spot.inside kind (.block loc kind yields nodes)).continuing true) next).out ++
        rest ∧
      if continuesAt (spot.ofContent kind).inline before n && (n.isKind .code || !spot.nested) then
        Interpolated style n own
      else
        Bare style (childSpot spot kind (.block loc kind yields nodes) before n) n own ∧
          ((bareHead style n).result ≠ .ok "#[" → ¬ Interpolated style n own) := by
  subst divided
  have siblings : (before ++ n :: next :: after).length ≠ 1 := by
    rw [List.length_append, List.length_cons, List.length_cons]
    omega
  rw [emit_block_inTurn inTurn] at ended ⊢
  obtain ⟨_, headed, childrenEnded⟩ := (Run.bind_result_eq_ok_iff _ _ _).mp ended
  obtain ⟨first, rest, ownEnded, out⟩ :=
    emitRun_pair (continuesLine_of_shared has shared) childrenEnded
  have form := emit_form has (isRunning_inside siblings _) ownEnded
  refine ⟨(heading spot.depth kind).out ++ first, _, rest, rfl, ?_, ?_⟩
  · rw [Run.bind_out_of_ok headed, out]
    simp only [List.append_assoc]
    rfl
  · by_cases interpolates : interpolatesAt (childSpot spot kind
        (.block loc kind yields (before ++ n :: next :: after)) before n) n = true
    · exact (if_pos interpolates).mpr ((if_pos interpolates).mp form)
    · have bare := (if_neg interpolates).mp form
      exact (if_neg interpolates).mpr ⟨bare, bare.not_interpolated⟩

namespace Emit

def sampleCode : Node :=
  .stem { line := 1 } (.code { val := .of "x", buffer := .of true }) none

def sampleText (val : Text) : Node :=
  .leaf { line := 1 } (.text (.of val) (.of false))

def sampleLine (nodes : List Node) : Node :=
  .block { line := 1 } .plain (.of false) nodes

end Emit

/-- Code between two texts is interpolated; the same code at the start of the line is not. -/
theorem running_line_child_form_code :
    (∃ own, own <:+: (emit {} { depth := -1 }
        (sampleLine [sampleText "the ", sampleCode, sampleText " items"])).out ∧
      Interpolated {} sampleCode own) ∧
    (∃ own, own <:+: (emit {} { depth := -1 }
        (sampleLine [sampleCode, sampleText " items"])).out ∧
      ¬ Interpolated {} sampleCode own) := by
  constructor
  · obtain ⟨first, own, rest, _, out, form⟩ :=
      @running_line_child_form {} { depth := -1 } { line := 1 } .plain (.of false) _
        [sampleText "the "] [] sampleCode (sampleText " items") rfl ⟨rfl, rfl, rfl⟩ rfl rfl rfl
    exact ⟨own, ⟨first, _, by rw [List.append_assoc] at out; exact out.symm⟩, form⟩
  · obtain ⟨first, own, rest, _, out, form⟩ :=
      @running_line_child_form {} { depth := -1 } { line := 1 } .plain (.of false) _
        [] [] sampleCode (sampleText " items") rfl ⟨rfl, rfl, rfl⟩ rfl rfl rfl
    exact ⟨own, ⟨first, _, by rw [List.append_assoc] at out; exact out.symm⟩,
      form.2 (by intro same; cases same)⟩

/-- Not every node that is followed in its line is interpolated: code that starts its line takes the
text after it into its expression. -/
theorem not_all_followed_interpolated :
    ¬ (∀ (style : Style) (spot : Spot) (loc : Location) (kind : BlockKind) (yields : Loose Bool)
        (nodes before after : List Node) (n next : Node), nodes = before ++ n :: next :: after →
      WrittenInTurn style (spot.ofContent kind).parent yields nodes →
      n.interpolates = true → n.line? = next.line? →
      (emit style spot (.block loc kind yields nodes)).result = .ok () →
      Interpolated style n
        (emit style (childSpot spot kind (.block loc kind yields nodes) before n) n).out) ∧
    (sourceOfTree .standard (sampleLine [sampleCode, sampleText " items"])).result =
      .ok "= x items" := by
  constructor
  · intro all
    obtain ⟨_, _, out⟩ := all {} { depth := -1 } { line := 1 } .plain (.of false) _ [] []
      sampleCode (sampleText " items") rfl ⟨rfl, rfl, rfl⟩ rfl rfl rfl
    cases out
  · rfl

end PugPrinter
