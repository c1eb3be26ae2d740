import PugPrinter.Proofs.Emit.Opening

/-!
The code in the line of a tag. That line is over once the code is written, unless the body goes on in
it: a dot, a colon, a file name and a text after an empty one of its line do, and the code takes them
into its expression.
-/

set_option autoImplicit false

namespace PugPrinter

open Emission

private theorem LineBuffer.getLast?_append (b : LineBuffer) {text : Text} (given : text ≠ []) :
    ∃ line, (b.append text).lines.getLast? = some line ∧ text <:+ line := by
  cases text with
  | nil => exact absurd rfl given
  | cons c text =>
    cases started : b.newestFirst with
    | nil => exact ⟨c :: text, by simp [lines, append, started], List.suffix_rfl⟩
    | cons last earlier =>
      exact ⟨last ++ c :: text, by simp [lines, append, started], List.suffix_append _ _⟩

def Spot.bodyBelow (spot : Spot) (owner : Node) : Spot :=
  { spot with nested := false, parent := some owner, inline := false }

namespace Emit

variable {style : Style} {spot : Spot}

/-- The code in the line of a tag: its operator, a space and its value. -/
def tagCode (code : CodeHead) (val : Text) : Text :=
  codeOperator code ++ (' ' :: val : Text)

private theorem emitTagCode_eq {loc : Location} {code : CodeHead} {val : Text}
    (written : code.val = .of val) (oneLine : val.contains '\n' = false) :
    emitTagCode style { spot with parent := none, inline := true } (some (.stem loc (.code code) none))
      = .put [.markup (codeOperator code), .markup (' ' :: val)] := by
  have apart : isRunning { spot with parent := none, inline := true } = false := rfl
  simp only [emitTagCode, Emit.code, written, apart, oneLine, Bool.false_eq_true, if_false]
  rfl

private theorem ownContent_of_later {owner block : Node} {line : Int} {nodes : List Node}
    (atLine : owner.line? = some line) (children : block.nodes? = some nodes)
    (later : ∀ n ∈ nodes, ∃ own, n.line? = some own ∧ line < own) (content : Spot → Emission) :
    ownContent style spot owner block content =
      if nodes.isEmpty then nothing else content (spot.bodyBelow owner) := by
  cases nodes with
  | nil => simp only [ownContent, children, List.isEmpty_nil, if_true]
  | cons first rest =>
    obtain ⟨own, firstLine, below⟩ := later first List.mem_cons_self
    have apart : ¬ owner.line? = some own := by
      rw [atLine]
      intro same
      cases same
      omega
    have notSame : Layout.startsOnSameLine? style.colon owner true (first :: rest) = some false := by
      simp [Layout.startsOnSameLine?, firstLine, apart]
    simp only [ownContent, children, notSame]
    rfl

private theorem emit_tag_code {loc codeLoc : Location} {head : TagHead} {code : CodeHead}
    {tag block : Node} {nodes : List Node} {val : Text}
    (isTag : tag = .fork loc (.tag head) (some block) (some (.stem codeLoc (.code code) none)))
    (children : block.nodes? = some nodes) (written : code.val = .of val)
    (oneLine : val.contains '\n' = false)
    (later : ∀ n ∈ nodes, ∃ line, n.line? = some line ∧ loc.line < line)
    (ended : (emit style spot tag).result = .ok ()) :
    ∃ upTo body, body = (if nodes.isEmpty then nothing else emit style (spot.bodyBelow tag) block) ∧
      body.result = .ok () ∧
      (emit style spot tag).out =
        upTo ++ body.out ++ (if spot.inline && !spot.nested then [.markup "]"] else []) ∧
      ∀ b, ∃ before : LineBuffer,
        upTo.foldl Piece.write b = before.append (tagCode code val) := by
  have codeEq := @emitTagCode_eq style spot codeLoc code val written oneLine
  have atLine : tag.line? = some loc.line := by rw [isTag]; rfl
  have contentEq := @ownContent_of_later style spot tag block loc.line nodes atLine children later
  have unfolded : emit style spot tag = tagHead style head >>= fun text =>
      bracketed (spot.inline && !spot.nested) (Emission.head spot.inline spot.depth text >>= fun _ =>
        .put [.markup (codeOperator code), .markup (' ' :: val)] >>= fun _ =>
          if nodes.isEmpty then nothing else emit style (spot.bodyBelow tag) block) := by
    rw [isTag] at contentEq ⊢
    rw [emit]
    simp only [Emit.tag, codeEq, contentEq, emitOptional]
  rw [unfolded] at ended ⊢
  -- From here on it does not matter what the body is, only that it comes right after the code.
  generalize (if nodes.isEmpty then nothing else emit style (spot.bodyBelow tag) block) = body
    at ended ⊢
  obtain ⟨text, found, ended⟩ := (Run.bind_result_eq_ok_iff _ _ _).mp ended
  obtain ⟨elementEnded, elementOut⟩ := bracketed_of_ok ended
  obtain ⟨_, _, restEnded⟩ := (Run.bind_result_eq_ok_iff _ _ _).mp elementEnded
  obtain ⟨_, _, bodyEnded⟩ := (Run.bind_result_eq_ok_iff _ _ _).mp restEnded
  have codeOut : (Run.put [.markup (codeOperator code), .markup (' ' :: val)] >>= fun _ => body).out
      = [.markup (codeOperator code), .markup (' ' :: val)] ++ body.out :=
    Run.bind_out_of_ok rfl _
  rw [Run.bind_out_of_ok found, elementOut, head_out, codeOut]
  let front : List Piece := (tagHead style head).out ++
    ((if spot.inline && !spot.nested then [.markup "#["] else []) ++
      ((if spot.inline then [] else [.line spot.depth]) ++ [.markup text]))
  refine ⟨front ++ [.markup (codeOperator code), .markup (' ' :: val)], body, rfl, bodyEnded, ?_, ?_⟩
  · simp [front]
  · intro b
    refine ⟨front.foldl Piece.write b, ?_⟩
    rw [List.foldl_append, tagCode, ← LineBuffer.append_append]
    rfl

private theorem opening_ne_words_iff {tag : Node} (isTag : tag.isKind .tag = true) (loc : Location)
    (yields : Loose Bool) (nodes : List Node) :
    (Node.block loc .plain yields nodes).opening style (some tag) false ≠ .words ↔
      yields.isOn = true ∨ (Layout.usesDot? (some tag) nodes ≠ some true ∧
        Layout.usesColon style.colon (.node tag true) nodes = false ∧
        Node.openingOfRun style (.block loc .plain yields nodes) false nodes ≠ .words) := by
  have element : ((some tag).any fun owner => owner.isKind .tag || owner.isKind .mixin) = true := by
    simp [isTag]
  rw [Node.opening, element]
  by_cases placeholder : yields.isOn = true
  · simp [placeholder]
  · by_cases dot : Layout.usesDot? (some tag) nodes = some true
    · simp [placeholder, dot]
    · by_cases colon : Layout.usesColon style.colon (.node tag true) nodes = true
      · simp [placeholder, dot, colon, Layout.Owner.ofParent]
      · simp [placeholder, dot, colon, Layout.Owner.ofParent]

end Emit

open Emit

/-- A tag with code in its line and a body on later lines: its pieces up to the code leave a line that
ends in the code, and the pieces of the body leave it so exactly when the body is a placeholder, or is
neither a dot block nor after a colon and does not begin with words. -/
theorem tag_code_line_kept {style : Style} {spot : Spot} {loc codeLoc blockLoc : Location}
    {head : TagHead} {code : CodeHead} {kind : BlockKind} {yields : Loose Bool} {nodes : List Node}
    {tag block : Node} {val : Text}
    (isTag : tag = .fork loc (.tag head) (some block) (some (.stem codeLoc (.code code) none)))
    (isBlock : block = .block blockLoc kind yields nodes) (plain : nodes = [] ∨ kind = .plain)
    (written : code.val = .of val) (oneLine : val.contains '\n' = false)
    (later : ∀ n ∈ nodes, ∃ line, n.line? = some line ∧ loc.line < line)
    (ended : (emit style spot tag).result = .ok ()) :
    ∃ upTo body, body = (if nodes.isEmpty then nothing else emit style (spot.bodyBelow tag) block) ∧
      (emit style spot tag).out =
        upTo ++ body.out ++ (if spot.inline && !spot.nested then [.markup "]"] else []) ∧
      ∀ b : LineBuffer, ∃ line, (upTo.foldl Piece.write b).lines.getLast? = some line ∧
        tagCode code val <:+ line ∧
        ((upTo.foldl Piece.write b).lines <+: ((upTo ++ body.out).foldl Piece.write b).lines ↔
          yields.isOn = true ∨ (Layout.usesDot? (some tag) nodes ≠ some true ∧
            Layout.usesColon style.colon (.node tag true) nodes = false ∧
            Node.openingOfRun style block false nodes ≠ .words)) := by
  have children : block.nodes? = some nodes := by rw [isBlock]; rfl
  obtain ⟨upTo, body, bodyEq, bodyEnded, out, writes⟩ :=
    emit_tag_code isTag children written oneLine later ended
  refine ⟨upTo, body, bodyEq, out, ?_⟩
  intro b
  obtain ⟨before, upToWrites⟩ := writes b
  have given : tagCode code val ≠ [] := by simp [tagCode]
  obtain ⟨line, isLast, ends⟩ := LineBuffer.getLast?_append before given
  rw [List.foldl_append, upToWrites]
  refine ⟨line, isLast, ends, ?_⟩
  -- An empty block is left out whatever its kind is; any other one is plain and has a beginning.
  by_cases empty : nodes = []
  · subst empty bodyEq
    exact iff_of_true (List.prefix_refl _) (.inr ⟨by simp [Layout.usesDot?], rfl, nofun⟩)
  · have isPlain : kind = .plain := plain.resolve_left empty
    have opens := emit_opens style block (spot.bodyBelow tag) rfl
    rw [if_neg (by simpa using empty)] at bodyEq
    rw [← bodyEq] at opens
    have tagKind : tag.isKind .tag = true := by rw [isTag]; rfl
    have kept := (opens () bodyEnded).lines_prefix_iff isLast
    rw [isBlock, isPlain] at kept ⊢
    exact kept.trans (opening_ne_words_iff tagKind _ _ _)

namespace Emit

def tagCodeText (line : Int) (val : Text) : Node :=
  .leaf { line } (.text (.of val) (.of false))

def tagCodeLink : Node :=
  .fork { line := 2 } (.tag { name := .of "a" }) (some (.block { line := 2 } .plain (.of false) []))
    none

def tagCodeHead : CodeHead :=
  { val := .of "x", buffer := .of true }

def tagCodeBlock (nodes : List Node) : Node :=
  .block { line := 2 } .plain (.of false) nodes

def tagCodeSample (nodes : List Node) : Node :=
  .fork { line := 1 } (.tag { name := .of "p" }) (some (tagCodeBlock nodes))
    (some (.stem { line := 1 } (.code tagCodeHead) none))

def tagCodeLines : List Node :=
  [tagCodeText 2 "one", tagCodeText 3 "\n", tagCodeText 3 "two"]

end Emit

/-- The line of the code is kept above an element on its own line, but not where two lines of text
make a dot block. -/
theorem tag_code_line_kept_samples :
    (∃ upTo body, (emit {} { depth := 0 } (tagCodeSample [tagCodeLink])).out = upTo ++ body ∧
      (∃ line, (Piece.writeAll "  " upTo).lines.getLast? = some line ∧
        tagCode tagCodeHead "x" <:+ line) ∧
      (Piece.writeAll "  " upTo).lines <+: (Piece.writeAll "  " (upTo ++ body)).lines) ∧
    (∃ upTo body, (emit {} { depth := 0 } (tagCodeSample tagCodeLines)).out = upTo ++ body ∧
      (∃ line, (Piece.writeAll "  " upTo).lines.getLast? = some line ∧
        tagCode tagCodeHead "x" <:+ line) ∧
      ¬ (Piece.writeAll "  " upTo).lines <+: (Piece.writeAll "  " (upTo ++ body)).lines) := by
  constructor
  · obtain ⟨upTo, body, _, out, kept⟩ := @tag_code_line_kept {} { depth := 0 } { line := 1 }
      { line := 1 } { line := 2 } { name := .of "p" } tagCodeHead .plain (.of false) [tagCodeLink]
      (tagCodeSample [tagCodeLink]) (tagCodeBlock [tagCodeLink]) "x" rfl rfl (.inr rfl) rfl rfl
      (by simp [tagCodeLink, Node.line?, Node.location?]) rfl
    obtain ⟨line, isLast, ends, iff⟩ := kept { unit := "  " }
    refine ⟨upTo, body.out, out.trans (List.append_nil _), ⟨line, isLast, ends⟩,
      iff.mpr (.inr ⟨?_, rfl, ?_⟩)⟩
    · decide
    · decide
  · obtain ⟨upTo, body, _, out, kept⟩ := @tag_code_line_kept {} { depth := 0 } { line := 1 }
      { line := 1 } { line := 2 } { name := .of "p" } tagCodeHead .plain (.of false) tagCodeLines
      (tagCodeSample tagCodeLines) (tagCodeBlock tagCodeLines) "x" rfl rfl (.inr rfl) rfl rfl
      (by simp [tagCodeLines, tagCodeText, Node.line?, Node.location?]) rfl
    obtain ⟨line, isLast, ends, iff⟩ := kept { unit := "  " }
    refine ⟨upTo, body.out, out.trans (List.append_nil _), ⟨line, isLast, ends⟩, fun same => ?_⟩
    rcases iff.mp same with placeholder | ⟨noDot, _⟩
    · cases placeholder
    · exact noDot rfl

/-- Not every tag keeps the line of its code: a dot, a colon and a text after an empty one go on in
it. -/
theorem not_all_tag_code_lines_kept :
    ¬ (∀ (style : Style) (depth : Int) (loc codeLoc blockLoc : Location) (head : TagHead)
        (code : CodeHead) (yields : Loose Bool) (nodes : List Node) (tag : Node) (val unit : Text),
      tag = .fork loc (.tag head) (some (.block blockLoc .plain yields nodes))
        (some (.stem codeLoc (.code code) none)) →
      code.val = .of val → val.contains '\n' = false →
      (∀ n ∈ nodes, ∃ line, n.line? = some line ∧ loc.line < line) →
      (emit style { depth } tag).result = .ok () →
      ∃ line ∈ (Piece.writeAll unit (emit style { depth } tag).out).lines,
        tagCode code val <:+ line) ∧
    (sourceOfTree .standard (tagCodeSample tagCodeLines)).result = .ok "p= x.\n  one\n  two" ∧
    (sourceOfTree { useColon := .of true } (tagCodeSample [tagCodeLink])).result = .ok "p= x: a" ∧
    (sourceOfTree .standard (tagCodeSample [tagCodeText 2 [], tagCodeText 2 "one"])).result =
      .ok "p= xone" := by
  refine ⟨?_, rfl, rfl, rfl⟩
  intro all
  obtain ⟨line, member, ends⟩ := all {} 0 { line := 1 } { line := 1 } { line := 2 }
    { name := .of "p" } tagCodeHead (.of false) tagCodeLines (tagCodeSample tagCodeLines) "x" "  "
    rfl rfl rfl (by simp [tagCodeLines, tagCodeText, Node.line?, Node.location?]) rfl
  have none : ∀ line ∈ (Piece.writeAll "  " (emit {} { depth := 0 }
      (tagCodeSample tagCodeLines)).out).lines, ¬ tagCode tagCodeHead "x" <:+ line := by
    decide
  exact none line member ends

end PugPrinter
