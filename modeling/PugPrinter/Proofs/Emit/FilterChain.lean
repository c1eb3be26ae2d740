import PugPrinter.Proofs.Emit.Heading
import PugPrinter.Proofs.Emit.NestedFlag
import PugPrinter.Proofs.RootWrapping
import PugPrinter.Proofs.Totality

/-!
Chains of filters. A filter whose block holds just another filter is written in one line with it, head
after head, and the body of the last one follows as raw lines. The flag that keeps the heads in one
line stays on for the body, so that a tag there lacks the brackets that it has below a filter alone.
-/

set_option autoImplicit false

namespace PugPrinter

open Emission

structure FilterLink where
  loc : Location
  name : Loose Text
  attrs : Attributes := .of []
  blockLoc : Location
  kind : BlockKind := .plain
  yields : Loose Bool := .of false

namespace FilterLink

def block (link : FilterLink) (nodes : List Node) : Node :=
  .block link.blockLoc link.kind link.yields nodes

def filter (link : FilterLink) (nodes : List Node) : Node :=
  .stem link.loc (.filter link.name link.attrs) (some (link.block nodes))

/-- Filters around a last one, each of which holds just the next. -/
def chain (last : FilterLink) (body : List Node) : List FilterLink → Node
  | [] => last.filter body
  | link :: links => link.filter [chain last body links]

/-- The head of a filter, with the notes on the way to it. -/
def head (style : Style) (link : FilterLink) : Run Piece Text :=
  Emit.filterHead style link.attrs link.name

def rawBody (style : Style) (depth : Int) (nested : Bool) (link : FilterLink) (body : List Node) :
    Emission :=
  if body.isEmpty then nothing
  else Emit.rawBlock depth fun depth => emitLines style depth nested (link.block body) true body

/-- The lines of a body, for a unit of indentation. -/
def bodyLines (unit : Text) (style : Style) (depth : Int) (nested : Bool) (link : FilterLink)
    (body : List Node) : List Text :=
  (Piece.writeAll unit (link.rawBody style depth nested body).out).lines

variable {style : Style} {spot : Spot} {link last : FilterLink} {body : List Node}

private theorem emit_filter_raw (apart : spot.inline = false) (raw : ∀ n ∈ body, n.isRaw = true) :
    emit style spot (link.filter body) = link.head style >>= fun text =>
      Emission.head spot.nested spot.depth text >>= fun _ =>
        link.rawBody style spot.depth spot.nested body := by
  rw [filter, emit]
  unfold Emit.filter
  simp only [apart, Bool.false_and, bracketed, Bool.false_eq_true, if_false, Bool.false_or]
  cases body with
  | nil => rfl
  | cons first rest =>
    have notFilter := Node.not_filter_of_isRaw (raw first List.mem_cons_self)
    simp only [block, Node.nodes?, notFilter, Bool.false_eq_true, if_false]
    rfl

private theorem emit_filter_next (apart : spot.inline = false) {next : Node}
    (isFilter : next.isKind .filter = true) :
    emit style spot (link.filter [next]) = link.head style >>= fun text =>
      Emission.head spot.nested spot.depth text >>= fun _ =>
        emit style { spot with nested := true, parent := some (link.filter [next]) } next := by
  have isNode : next.isNode = true := by
    cases next <;> first | rfl | cases isFilter
  rw [filter, emit]
  unfold Emit.filter
  simp only [apart, Bool.false_and, bracketed, Bool.false_eq_true, if_false, Bool.false_or, block,
    Node.nodes?, isFilter, if_true, List.isEmpty_nil, emitChildren,
    emitRun_only style _ isNode]
  rfl

private theorem isKind_chain (last : FilterLink) (body : List Node) (links : List FilterLink) :
    (chain last body links).isKind .filter = true := by
  cases links <;> rfl

private theorem headedBy_head {text : Text} (found : (link.head style).result = .ok text)
    (rest : Emission) :
    HeadedBy spot.nested spot.depth text rest (link.head style >>= fun text =>
      Emission.head spot.nested spot.depth text >>= fun _ => rest) :=
  .of_head (Emit.filterHead_silent _ _ _) found rest

/-- A chain writes its heads one after the other, and goes on as the body of its last filter; the flag
is on for the body as soon as there are two filters. -/
private theorem headedBy_chain (raw : ∀ n ∈ body, n.isRaw = true) {links : List FilterLink}
    {heads : List Text} {lastHead : Text}
    (found : links.map (fun link => (link.head style).result) = heads.map .ok)
    (lastFound : (last.head style).result = .ok lastHead) (apart : spot.inline = false) :
    HeadedBy spot.nested spot.depth (heads.flatten ++ lastHead)
      (last.rawBody style spot.depth (spot.nested || !links.isEmpty) body)
      (emit style spot (chain last body links)) := by
  induction links generalizing heads spot with
  | nil =>
    cases heads with
    | cons _ _ => cases found
    | nil =>
      simp only [chain, emit_filter_raw apart raw, List.isEmpty_nil, Bool.not_true, Bool.or_false]
      exact headedBy_head lastFound _
  | cons link links ih =>
    cases heads with
    | nil => cases found
    | cons head heads =>
      obtain ⟨first, others⟩ := List.cons.inj found
      rw [chain, emit_filter_next apart (isKind_chain last body links)]
      have outer := @headedBy_head style spot link head first (emit style
        { spot with nested := true, parent := some (link.filter [chain last body links]) }
        (chain last body links))
      -- The flag is on for the rest of the chain, so its heads go on in this line.
      have inner := @ih { spot with
        nested := true, parent := some (link.filter [chain last body links]) } heads others apart
      simpa using outer.trans inner

private theorem lines_rawBody (depth : Int) (nested : Bool) (b : LineBuffer) :
    ((last.rawBody style depth nested body).out.foldl Piece.write b).lines =
      b.lines ++ last.bodyLines b.unit style depth nested body := by
  unfold bodyLines rawBody
  split
  · exact (List.append_nil _).symm
  · exact (Piece.openLine_newLine _ _).lines_foldl_write b

end FilterLink

namespace Node

/-- Nodes whose raw lines hold no block below code: all but code that has one and no siblings. -/
def isShallow (siblings : Bool) : Node → Bool
  | .stem _ (.code _) child => siblings || child.isNone
  | _ => true

private theorem showsFlag_of_isShallow {colon siblings : Bool} {n block : Node}
    (raw : n.isRaw = true) (shallow : n.isShallow siblings = true)
    (running : Emit.isRunning { depth := 0, parent := some block, inline := true } = siblings) :
    n.showsFlag colon (some block) true = n.isKind .tag := by
  rcases eq_of_isRaw raw with ⟨loc, val, isHtml, rfl⟩ | ⟨loc, head, child, rfl⟩ |
    ⟨loc, head, first, second, rfl⟩
  · rfl
  · rw [showsFlag, running]
    cases siblings with
    | true => rfl
    | false =>
      have none : child = none := by simpa [isShallow] using shallow
      subst none
      rfl
  · rfl

private theorem linesShowFlag_eq_false_iff {colon siblings : Bool} {block : Node}
    {nodes : List Node}
    (running : Emit.isRunning { depth := 0, parent := some block, inline := true } = siblings)
    (raw : ∀ n ∈ nodes, n.isRaw = true) (shallow : ∀ n ∈ nodes, n.isShallow siblings = true) :
    linesShowFlag colon block nodes = false ↔ ∀ n ∈ nodes, n.isKind .tag = false := by
  induction nodes with
  | nil => simp [linesShowFlag]
  | cons n rest ih =>
    rw [List.forall_mem_cons] at raw shallow ⊢
    rw [linesShowFlag, showsFlag_of_isShallow raw.1 shallow.1 running, Bool.or_eq_false_iff,
      ih raw.2 shallow.2]

end Node

namespace FilterLink

variable {style : Style} {depth : Int} {last : FilterLink} {body : List Node}

private theorem differs_rawBody (unit : Text) (style : Style) (depth : Int) (last : FilterLink)
    (body : List Node) : Differs unit (Node.linesShowFlag style.colon (last.block body) body)
      (last.rawBody style depth false body) (last.rawBody style depth true body) := by
  cases body with
  | nil => exact .refl _
  | cons first rest => exact Emit.differs_rawBlock depth fun depth =>
      differs_emitLines unit style (first :: rest) depth (last.block (first :: rest)) true

private theorem weight_rawBody (unit : Text) (style : Style) (depth : Int) (nested : Bool)
    (last : FilterLink) (body : List Node) :
    Piece.weight unit (last.rawBody style depth nested body).out =
      ((last.bodyLines unit style depth nested body).map List.length).sum +
        (last.bodyLines unit style depth nested body).length := by
  cases body with
  | nil => rfl
  | cons first rest => exact Piece.weight_line unit (Emit.rawDepth depth) _

/-- The lines of a body are the same with the flag on and off exactly when it does not show in them. -/
private theorem bodyLines_eq_iff (unit : Text)
    (ended : (last.rawBody style depth false body).result = .ok ()) :
    last.bodyLines unit style depth true body = last.bodyLines unit style depth false body ↔
      Node.linesShowFlag style.colon (last.block body) body = false := by
  have differs := differs_rawBody unit style depth last body
  constructor
  · intro same
    cases shows : Node.linesShowFlag style.colon (last.block body) body with
    | false => rfl
    | true =>
      -- Where the flag shows, less is written with it on, so the lines cannot be the same.
      have less := differs.less ended
      rw [shows, Bool.toNat_true] at less
      rw [weight_rawBody, weight_rawBody, same] at less
      omega
  · intro hidden
    rw [bodyLines, bodyLines, differs.same hidden]

end FilterLink

open FilterLink

/-- A chain of filters on lines of its own: one line with all heads, and then the lines of the body,
which are those of the last filter alone if it is the only one. For a longer chain the body is written
with the flag on: the lines are the same only if it does not show in them, and in a body without a block
below code it shows in the tags. -/
theorem filter_chain_lines {style : Style} {depth : Int} {parent : Option Node}
    {links : List FilterLink} {last : FilterLink} {body : List Node} {heads : List Text}
    {lastHead : Text} (raw : ∀ n ∈ body, n.isRaw = true)
    (found : links.map (fun link => (link.head style).result) = heads.map .ok)
    (lastFound : (last.head style).result = .ok lastHead) (b : LineBuffer) :
    ∃ whole alone, whole = emit style { depth, parent } (chain last body links) ∧
      alone = emit style { depth, parent } (last.filter body) ∧
      (whole.out.foldl Piece.write b).lines = b.lines ++
        (Text.repeated b.unit depth ++ heads.flatten ++ lastHead) ::
          last.bodyLines b.unit style depth (!links.isEmpty) body ∧
      (alone.out.foldl Piece.write b).lines = b.lines ++
        (Text.repeated b.unit depth ++ lastHead) :: last.bodyLines b.unit style depth false body ∧
      (alone.result = .ok () → whole.result = .ok () ∧
        (last.bodyLines b.unit style depth (!links.isEmpty) body =
            last.bodyLines b.unit style depth false body ↔
          links = [] ∨ Node.linesShowFlag style.colon (last.block body) body = false) ∧
        ((∀ n ∈ body, n.isShallow (body.length != 1) = true) →
          (last.bodyLines b.unit style depth (!links.isEmpty) body =
              last.bodyLines b.unit style depth false body ↔
            links = [] ∨ ∀ n ∈ body, n.isKind .tag = false))) := by
  have wholeHeaded := @headedBy_chain style { depth, parent } last body raw links heads lastHead
    found lastFound rfl
  have aloneHeaded := @headedBy_chain style { depth, parent } last body raw [] [] lastHead rfl
    lastFound rfl
  have headLine (text : Text) (nested : Bool) :
      ((last.rawBody style depth nested body).out.foldl Piece.write (b.withLine depth text)).lines =
        b.lines ++ (Text.repeated b.unit depth ++ text) ::
          last.bodyLines b.unit style depth nested body := by
    rw [lines_rawBody, LineBuffer.lines_withLine, LineBuffer.unit_withLine, List.append_assoc]
    rfl
  refine ⟨_, _, rfl, rfl, ?_, ?_, ?_⟩
  · rw [wholeHeaded.writes, List.append_assoc]
    exact headLine _ _
  · exact (congrArg _ (aloneHeaded.writes b)).trans (headLine _ _)
  · intro ended
    have bodyEnded : (last.rawBody style depth false body).result = .ok () :=
      aloneHeaded.result.symm.trans ended
    have tags (shallow : ∀ n ∈ body, n.isShallow (body.length != 1) = true) :=
      @Node.linesShowFlag_eq_false_iff style.colon _ (last.block body) body rfl raw shallow
    rw [wholeHeaded.result]
    cases links with
    | nil => exact ⟨bodyEnded, iff_of_true rfl (.inl rfl), fun _ => iff_of_true rfl (.inl rfl)⟩
    | cons link links =>
      have same := bodyLines_eq_iff b.unit bodyEnded
      refine ⟨(differs_rawBody b.unit style depth last body).result.trans bodyEnded, ?_, ?_⟩
      · simpa using same
      · intro shallow
        rw [tags shallow] at same
        simpa using same

namespace FilterLink

def sample (name : Text) : FilterLink where
  loc := { line := 1 }
  name := .of name
  blockLoc := { line := 1 }

def sampleWords : List Node :=
  [.leaf { line := 2 } (.text (.of "x ") (.of false)),
    .stem { line := 2 } (.code { val := .of "y", buffer := .of true }) none]

def sampleMarkup : List Node :=
  [.leaf { line := 2 } (.text (.of "x ") (.of false)),
    .fork { line := 2 } (.tag { name := .of "em" })
      (some (.block { line := 2 } .plain (.of false)
        [.leaf { line := 2 } (.text (.of "y") (.of false))])) none]

def sampleCode (inside : Node) : List Node :=
  [.stem { line := 2 } (.code { val := .of "x" })
    (some (.block { line := 2 } .plain (.of false) [inside]))]

end FilterLink

/-- Two filters around text and code write the lines of the second one alone, also where the code has
an element on a line of its own in its block. Around an element, or code around a filter, they do not. -/
theorem filter_chain_lines_samples :
    (((emit {} { depth := 0 } (chain (sample "b") sampleWords [sample "a"])).out.foldl Piece.write
        { unit := "  " }).lines = [(":a:b" : Text), ("  x #\x7by\x7d" : Text)] ∧
      (sample "b").bodyLines "  " {} 0 true sampleWords =
        (sample "b").bodyLines "  " {} 0 false sampleWords) ∧
    (((emit {} { depth := 0 } (chain (sample "b") sampleMarkup [sample "a"])).out.foldl Piece.write
        { unit := "  " }).lines = [(":a:b" : Text), ("  x em y" : Text)] ∧
      (sample "b").bodyLines "  " {} 0 true sampleMarkup ≠
        (sample "b").bodyLines "  " {} 0 false sampleMarkup) ∧
    (sample "b").bodyLines "  " {} 0 true (sampleCode Node.paragraph) =
      (sample "b").bodyLines "  " {} 0 false (sampleCode Node.paragraph) ∧
    (sample "b").bodyLines "  " {} 0 true (sampleCode ((sample "c").filter [])) ≠
      (sample "b").bodyLines "  " {} 0 false (sampleCode ((sample "c").filter [])) := by
  refine ⟨?_, ?_, ?_, ?_⟩
  · obtain ⟨_, _, rfl, rfl, lines, _, flag⟩ := @filter_chain_lines {} 0 none [sample "a"]
      (sample "b") sampleWords [(":a" : Text)] ":b" (by decide) rfl rfl { unit := "  " }
    exact ⟨lines, ((flag rfl).2.2 (by decide)).mpr (.inr (by decide))⟩
  · obtain ⟨_, _, rfl, rfl, lines, _, flag⟩ := @filter_chain_lines {} 0 none [sample "a"]
      (sample "b") sampleMarkup [(":a" : Text)] ":b" (by decide) rfl rfl { unit := "  " }
    refine ⟨lines, fun same => ?_⟩
    rcases ((flag rfl).2.2 (by decide)).mp same with none | noTags
    · cases none
    · exact absurd noTags (by decide)
  · obtain ⟨_, _, rfl, rfl, _, _, flag⟩ := @filter_chain_lines {} 0 none [sample "a"]
      (sample "b") (sampleCode Node.paragraph) [(":a" : Text)] ":b" (by decide) rfl rfl
      { unit := "  " }
    exact (flag rfl).2.1.mpr (.inr rfl)
  · obtain ⟨_, _, rfl, rfl, _, _, flag⟩ := @filter_chain_lines {} 0 none [sample "a"]
      (sample "b") (sampleCode ((sample "c").filter [])) [(":a" : Text)] ":b" (by decide) rfl rfl
      { unit := "  " }
    intro same
    rcases (flag rfl).2.1.mp same with none | hidden
    · cases none
    · cases hidden

/-- Not every chain writes its body as the last filter alone does: in a chain of two, an element among
the raw lines has no brackets. -/
theorem not_chain_body_as_alone :
    ¬ (∀ (style : Style) (depth : Int) (links : List FilterLink) (last : FilterLink)
        (body : List Node) (b : LineBuffer), (∀ n ∈ body, n.isRaw = true) →
      (emit style { depth } (chain last body links)).result = .ok () →
      ∃ headLine lastLine bodyLines,
        ((emit style { depth } (chain last body links)).out.foldl Piece.write b).lines =
          b.lines ++ headLine :: bodyLines ∧
        ((emit style { depth } (last.filter body)).out.foldl Piece.write b).lines =
          b.lines ++ lastLine :: bodyLines) ∧
    (sourceOfTree .standard (chain (sample "b") sampleMarkup [sample "a"])).result =
      .ok ":a:b\n  x em y" ∧
    (sourceOfTree .standard ((sample "b").filter sampleMarkup)).result = .ok ":b\n  x #[em y]" := by
  refine ⟨?_, rfl, rfl⟩
  intro all
  obtain ⟨headLine, lastLine, bodyLines, chained, alone⟩ := all {} 0 [sample "a"] (sample "b")
    sampleMarkup { unit := "  " } (by decide) rfl
  have below : [("  x em y" : Text)] = bodyLines := (List.cons.inj chained).2
  have belowAlone : [("  x #[em y]" : Text)] = bodyLines := (List.cons.inj alone).2
  exact absurd (below.trans belowAlone.symm) (by decide)

end PugPrinter
