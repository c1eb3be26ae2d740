import PugPrinter.Proofs.Emit.RunningLine
import PugPrinter.Proofs.Lines

/-!
How emissions begin. A node starts a line of its own, goes on with words in the line before it, or
writes nothing, in which case the next one decides. Only what goes on in a line changes it, so this
tells whether the lines before a node stay as they are.
-/

set_option autoImplicit false

namespace PugPrinter

open Emission

inductive Opening where
  | nothing
  | line
  | words
  deriving DecidableEq, Repr

namespace Opening

def andThen : Opening → Opening → Opening
  | nothing, later => later
  | here, _ => here

def Holds : Opening → List Piece → Prop
  | nothing => Piece.Quiet
  | line => Piece.OpenLine
  | words => Piece.ContinueLine

private theorem Holds.append {here later : Opening} {first second : List Piece}
    (firstHolds : here.Holds first) (secondHolds : later.Holds second) :
    (here.andThen later).Holds (first ++ second) := by
  cases here with
  | line => exact Piece.OpenLine.append firstHolds second
  | words => exact Piece.ContinueLine.append firstHolds second
  | nothing =>
    cases later with
    | nothing => exact Piece.Quiet.append firstHolds secondHolds
    | line => exact Piece.OpenLine.after firstHolds secondHolds
    | words => exact Piece.ContinueLine.after firstHolds secondHolds

end Opening

mutual

/-- How the emission of a node begins, below a parent and in the line before it or not. Only a block
looks at its parent, for its layout. -/
def Node.opening (style : Style) (parent : Option Node) (inline : Bool) : Node → Opening
  | .leaf _ (.text (.of val) isHtml) =>
    if isHtml.isOn then .line else if val.isEmpty then .nothing else if inline then .words else .line
  | .leaf _ (.text (.odd _) _) => .nothing
  | .leaf _ (.fileReference (.of path)) => if path.isEmpty then .nothing else .words
  | .leaf _ (.fileReference (.odd _)) => .nothing
  | .block loc .plain yields nodes =>
    if yields.isOn then .line
    else if Layout.usesDot? parent nodes = some true then
      if parent.any fun owner => owner.isKind .tag || owner.isKind .mixin then .words else .line
    else if Layout.usesColon style.colon (.ofParent parent) nodes then .words
    else Node.openingOfRun style (.block loc .plain yields nodes) inline nodes
  | .oddBlock _ .plain yields _ => if yields.isOn then .line else .nothing
  | .stem _ (.mixin m) _ => if m.call.isOn && inline then .words else .line
  | .stem _ (.code _) _ | .stem _ (.filter _ _) _ | .fork _ (.tag _) _ _ =>
    if inline then .words else .line
  | _ => .line
termination_by structural n => n

/-- How the emission of siblings begins: as that of the first one that writes anything. -/
def Node.openingOfRun (style : Style) (block : Node) (inline : Bool) : List Node → Opening
  | [] => .nothing
  | n :: rest => (n.opening style (some block) inline).andThen
      (Node.openingOfRun style block (Emit.continuesLine n rest) rest)
termination_by structural nodes => nodes

end

namespace Run

variable {α β : Type}

def Opens (run : Run Piece α) (opening : Opening) : Prop :=
  ∀ a, run.result = .ok a → opening.Holds run.out

private theorem Opens.bind {first : Run Piece α} {next : α → Run Piece β} {here later : Opening}
    (firstOpens : first.Opens here) (nextOpens : ∀ a, (next a).Opens later) :
    (first >>= next).Opens (here.andThen later) := by
  intro b ended
  obtain ⟨a, firstEnded, nextEnded⟩ := (bind_result_eq_ok_iff _ _ _).mp ended
  rw [bind_out_of_ok firstEnded]
  exact (firstOpens a firstEnded).append (nextOpens a b nextEnded)

private theorem Silent.opens_bind {first : Run Piece α} {next : α → Run Piece β} {later : Opening}
    (silent : first.Silent) (nextOpens : ∀ a, (next a).Opens later) :
    (first >>= next).Opens later :=
  @Opens.bind _ _ _ _ .nothing _ (fun _ _ => silent) nextOpens

private theorem opens_fail (fault : Fault) (opening : Opening) :
    (fail fault : Run Piece α).Opens opening := by
  intro a ended
  cases ended

private theorem Opens.ite {condition : Prop} [Decidable condition] {yes no : Run Piece α}
    {opening : Opening} (yesOpens : condition → yes.Opens opening)
    (noOpens : ¬ condition → no.Opens opening) :
    (if condition then yes else no).Opens opening := by
  split
  · exact yesOpens ‹_›
  · exact noOpens ‹_›

private theorem Opens.decided {first : Run Piece α} {next : α → Run Piece β} {opening : Opening}
    (opens : first.Opens opening) (decides : opening ≠ .nothing) :
    (first >>= next).Opens opening := by
  intro b ended
  obtain ⟨a, firstEnded, _⟩ := (bind_result_eq_ok_iff _ _ _).mp ended
  rw [bind_out_of_ok firstEnded]
  cases opening with
  | nothing => exact absurd rfl decides
  | line => exact Piece.OpenLine.append (opens a firstEnded) _
  | words => exact Piece.ContinueLine.append (opens a firstEnded) _

end Run

namespace Emission

theorem newLine_opens (depth : Int) (text : Text) : (newLine depth text).Opens .line :=
  fun _ _ => Piece.openLine_newLine depth _

theorem append_opens {text : Text} (given : text ≠ []) : (append text).Opens .words :=
  fun _ _ => Piece.continueLine_markup given _

theorem nothing_opens : nothing.Opens .nothing :=
  fun _ _ => Piece.quiet_nil

private theorem newLine_opens_bind (depth : Int) (text : Text) {α : Type}
    (next : Unit → Run Piece α) :
    (newLine depth text >>= next).Opens .line :=
  (newLine_opens depth text).decided (by decide)

private theorem append_opens_bind {text : Text} (given : text ≠ []) {α : Type}
    (next : Unit → Run Piece α) : (append text >>= next).Opens .words :=
  (append_opens given).decided (by decide)

private theorem element_opens (inline : Bool) (depth : Int) (text : Text) (more : Emission) :
    (bracketed inline (head inline depth text >>= fun _ => more)).Opens
      (if inline then .words else .line) := by
  cases inline with
  | true => exact append_opens_bind (by decide) _
  | false => exact newLine_opens_bind depth text _

end Emission

namespace Emit

variable {style : Style} {spot : Spot} {owner : Node}

private theorem escapeInterpolation_ne_nil {val : Text} (given : val ≠ []) :
    val.escapeInterpolation ≠ [] := by
  cases val with
  | nil => exact absurd rfl given
  | cons c val =>
    unfold Text.escapeInterpolation Text.escapeAfter
    split <;> exact List.cons_ne_nil _ _

private theorem text_opens (node : Node) (isHtml : Bool) (val : Text) :
    (text spot node isHtml val).Opens
      (if isHtml then .line else if val.isEmpty then .nothing
        else if spot.inline then .words else .line) := by
  have prose_opens (given : val ≠ []) : (Run.put [.prose val] : Emission).Opens .words :=
    fun _ _ => ⟨[], .prose val, [], val.escapeInterpolation, Piece.quiet_nil, rfl,
      escapeInterpolation_ne_nil given, fun _ => rfl⟩
  have line_opens (rest : List Piece) : (Run.put (.line spot.depth :: rest)).Opens .line :=
    fun _ _ => Piece.openLine_newLine _ _
  cases isHtml with
  | true =>
    simp only [text, if_true]
    exact .ite (fun _ => Run.opens_fail _ _) fun _ => line_opens _
  | false =>
    cases inline : spot.inline with
    | true =>
      simp only [text, inline, Bool.false_eq_true, if_false, if_true]
      cases val with
      | nil => exact fun _ _ _ => rfl
      | cons c val => exact prose_opens (List.cons_ne_nil c val)
    | false =>
      simp only [text, inline, Bool.false_eq_true, if_false]
      cases val with
      | nil => exact nothing_opens
      | cons c val => exact .ite (fun _ => line_opens _) fun _ => line_opens _

theorem leaf_opens (loc : Location) (kind : Leaf) :
    (leaf spot (.leaf loc kind) kind).Opens
      ((Node.leaf loc kind).opening style spot.parent spot.inline) := by
  cases kind with
  | mixinBlock => exact newLine_opens _ _
  | doctype val => exact newLine_opens _ _
  | bare => exact Run.opens_fail _ _
  | comment val buffer =>
    cases val with
    | of val => exact newLine_opens _ _
    | odd value => exact Run.opens_fail _ _
  | fileReference path =>
    cases path with
    | of path =>
      cases path with
      | nil => exact fun _ _ _ => rfl
      | cons c path => exact append_opens (List.cons_ne_nil c path)
    | odd value => exact .ite (fun _ => Run.opens_fail _ _) fun _ => nothing_opens
  | text val isHtml =>
    cases val with
    | of val => exact text_opens _ _ _
    | odd value =>
      refine .ite (fun _ => ?_) fun _ => ?_
      · exact .ite (fun _ => Run.opens_fail _ _) fun _ => Run.opens_fail _ _
      · exact .ite (fun _ => Run.opens_fail _ _) fun _ => nothing_opens

theorem codeOperator_ne_nil (code : CodeHead) : codeOperator code ≠ [] := by
  unfold codeOperator
  split
  · decide
  · split <;> decide

private theorem head_opens (inline : Bool) (depth : Int) {text : Text} (given : text ≠ []) :
    (head inline depth text).Opens (if inline then .words else .line) := by
  cases inline with
  | true => exact append_opens given
  | false => exact newLine_opens depth text

theorem code_opens (head : CodeHead) (block : Spot → Emission) :
    (code spot owner head block).Opens (if spot.inline then .words else .line) := by
  unfold code
  cases head.val with
  | odd value => exact Run.opens_fail _ _
  | of val =>
    refine .ite (fun running => ?_) fun _ => ?_
    · have inline : spot.inline = true := (Bool.and_eq_true_iff.mp running).1
      rw [if_pos inline]
      exact append_opens (interpolatedCode_ne_nil head val)
    · refine (head_opens spot.inline spot.depth (codeOperator_ne_nil head)).decided ?_
      cases spot.inline <;> decide

private theorem tag_opens (above : spot.nested = false) (head : TagHead) (block : Option Node)
    (code content : Spot → Emission) :
    (tag style spot owner head block code content).Opens (if spot.inline then .words else .line) := by
  cases block with
  | none => exact Run.opens_fail _ _
  | some block =>
    refine (tagHead_silent style head).opens_bind fun text => ?_
    rw [above, Bool.not_false, Bool.and_true]
    exact element_opens _ _ _ _

private theorem mixin_opens (above : spot.nested = false) (m : MixinHead) (block : Option Node)
    (content : Spot → Emission) :
    (mixin style spot owner m block content).Opens
      (if m.call.isOn && spot.inline then .words else .line) := by
  unfold mixin
  cases m.call.isOn with
  | true =>
    refine (callHead_silent style m).opens_bind fun text => ?_
    rw [above, Bool.not_false, Bool.and_true]
    exact element_opens _ _ _ _
  | false => exact newLine_opens_bind _ _ _

private theorem filter_opens (above : spot.nested = false) (name : Loose Text) (attrs : Attributes)
    (block : Option Node) (chained content : Spot → Emission) (lines : Int → Emission) :
    (filter style spot owner name attrs block chained content lines).Opens
      (if spot.inline then .words else .line) := by
  cases block with
  | none => exact Run.opens_fail _ _
  | some block =>
    refine (filterHead_silent style attrs name).opens_bind fun text => ?_
    rw [above, Bool.not_false, Bool.and_true, Bool.or_false]
    exact element_opens _ _ _ _

private theorem content_opens {loc : Location} (yields : Loose Bool) (nodes : List Node)
    (lines : Int → Emission) {run : Int → Bool → Bool → Emission}
    (runOpens : ∀ depth, (run depth spot.nested spot.inline).Opens
      (Node.openingOfRun style (.block loc .plain yields nodes) spot.inline nodes)) :
    (content style spot yields nodes lines run).Opens
      ((Node.block loc .plain yields nodes).opening style spot.parent spot.inline) := by
  have element : (spot.parent.any fun owner => owner.isKind .tag || owner.isKind .mixin) =
      (spot.parent.bind Node.kind? == some .tag || spot.parent.bind Node.kind? == some .mixin) := by
    cases spot.parent <;> rfl
  rw [Node.opening, element]
  unfold content
  cases yields.isOn with
  | true => exact newLine_opens _ _
  | false =>
    simp only [Bool.false_eq_true, if_false]
    cases Layout.usesDot? spot.parent nodes with
    | none => exact Run.opens_fail _ _
    | some dot =>
      cases dot with
      | true =>
        -- The dot of an element stands in its line, any other one on a line of its own.
        simp only [if_true]
        split
        · rename_i isTag
          rw [isTag]
          exact append_opens_bind (by decide) _
        · rename_i isMixin
          rw [isMixin]
          exact append_opens_bind (by decide) _
        · rename_i notTag notMixin
          have other : (spot.parent.bind Node.kind? == some .tag ||
              spot.parent.bind Node.kind? == some .mixin) = false := by
            simpa using ⟨notTag, notMixin⟩
          rw [other]
          exact newLine_opens_bind _ _ _
      | false =>
        simp only [Option.some.injEq, Bool.false_eq_true, if_false]
        split
        · exact append_opens_bind (by decide) _
        · exact runOpens _

theorem oddContent_opens (depth : Int) (yields : Loose Bool) (value : Json) :
    (oddContent depth yields value).Opens (if yields.isOn then .line else .nothing) := by
  unfold oddContent
  split
  · exact newLine_opens _ _
  · split
    · exact nothing_opens
    · exact Run.opens_fail _ _

end Emit

open Emit

mutual

/-- Where elements need brackets, a node begins as its kind and the line before it say. -/
theorem emit_opens (style : Style) : ∀ (n : Node) (spot : Spot), spot.nested = false →
    (emit style spot n).Opens (n.opening style spot.parent spot.inline)
  | .stray value, spot, _ => Run.opens_fail _ _
  | .leaf loc kind, spot, _ => leaf_opens loc kind
  | .block loc (.named name mode) yields nodes, spot, _ => by
    rw [emit]
    exact newLine_opens_bind _ _ _
  | .block loc .plain yields nodes, spot, above => by
    rw [emit]
    exact content_opens yields nodes _ fun depth =>
      emitRun_opens style nodes { depth, nested := spot.nested, inline := spot.inline } _ above
  | .oddBlock loc (.named name mode) yields value, spot, _ => by
    rw [emit]
    exact newLine_opens_bind _ _ _
  | .oddBlock loc .plain yields value, spot, _ => by
    rw [emit]
    exact oddContent_opens _ _ _
  | .stem loc kind child, spot, above => by
    cases kind with
    | mixin m =>
      rw [emit]
      exact mixin_opens above m child _
    | code head =>
      rw [emit]
      exact code_opens head _
    | filter name attrs =>
      rw [emit]
      exact filter_opens above name attrs child _ _ _
    | blockComment val buffer =>
      rw [emit]
      cases child with
      | none => exact Run.opens_fail _ _
      | some block =>
        exact (Run.silent_of_out_nil rfl).opens_bind fun _ => newLine_opens_bind _ _ _
    | _ =>
      rw [emit]
      exact newLine_opens_bind _ _ _
  | .fork loc kind first second, spot, above => by
    cases kind with
    | tag head =>
      rw [emit]
      exact tag_opens above head first _ _
    | _ =>
      rw [emit]
      exact newLine_opens_bind _ _ _
termination_by structural n => n

private theorem emitRun_opens (style : Style) : ∀ (nodes : List Node) (spot : Spot) (block : Node),
    spot.nested = false →
    (emitRun style { spot with parent := some block } nodes).Opens
      (Node.openingOfRun style block spot.inline nodes)
  | [], spot, block, _ => nothing_opens
  | n :: rest, spot, block, above => by
    have here := emit_opens style n { spot with parent := some block } above
    have later := emitRun_opens style rest
      { spot with inline := Emit.continuesLine n rest } block above
    rw [emitRun]
    split
    · exact here.bind fun _ => later
    · exact Run.opens_fail _ _
termination_by structural nodes => nodes

end

theorem Opening.Holds.lines_prefix_iff {opening : Opening} {pieces : List Piece}
    (holds : opening.Holds pieces) {b : LineBuffer} {last : Text}
    (isLast : b.lines.getLast? = some last) :
    b.lines <+: (pieces.foldl Piece.write b).lines ↔ opening ≠ .words := by
  cases opening with
  | nothing =>
    have same : pieces.foldl Piece.write b = b := holds b
    rw [same]
    exact iff_of_true (List.prefix_refl _) (by decide)
  | line => exact iff_of_true (Piece.OpenLine.lines_prefix holds b) (by decide)
  | words => exact iff_of_false (Piece.ContinueLine.not_lines_prefix holds isLast) (by decide)

end PugPrinter
