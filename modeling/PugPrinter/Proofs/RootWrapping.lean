import PugPrinter.Proofs.Emit.Parent
import PugPrinter.Proofs.Printing

/-!
A tree and the same tree as the only node of a sequence. The sequence is spliced away or brings its
only child to the top level, so the source is the same. A named block as the root is the exception:
its content starts at the top level, in the same column as its own head line, and only below a
sequence does it stand one level deeper.
-/

set_option autoImplicit false

namespace PugPrinter

open Emission

def Node.wrapped (n : Node) (loc : Location) : Node :=
  .block loc .plain (.of false) [n]

private theorem Node.normalForm_wrapped (n : Node) (loc : Location) :
    (n.wrapped loc).normalForm = .block loc .plain (.of false) n.normalForm.spliced := by
  simp [wrapped, normalForm, normalForms]

namespace Emission

private theorem bind_nothing (emission : Emission) :
    (emission >>= fun _ => nothing) = emission := by
  rcases emission with ⟨out, _ | _⟩
  · rfl
  · simp [Run.bind_def, Run.andThen, nothing, Run.done]

end Emission

theorem emitRun_only (style : Style) (spot : Spot) {n : Node} (isNode : n.isNode = true) :
    emitRun style spot [n] = emit style spot n := by
  rw [emitRun, if_pos isNode]
  exact bind_nothing _

private theorem emit_only_child (style : Style) {n : Node} (formed : n.wellFormed = true)
    (notWrapper : n.isWrapper = false) (loc : Location) (depth : Int) :
    emit style { depth } (.block loc .plain (.of false) [n]) =
      emit style { depth := depth + 1 } n := by
  have off : (Loose.of false).isOn = false := rfl
  simp only [emit, Emit.content, off, Layout.usesDot?_singleton formed, Layout.Owner.ofParent,
    Layout.usesColon, emitRun_only style _ (Node.isNode_of_wellFormed formed), Bool.false_eq_true,
    if_false]
  exact emit_on_own_lines style formed notWrapper (depth + 1) false _

private theorem Emit.content_down (style : Style) (yields : Loose Bool) (nodes : List Node)
    {lines : Int → Emission} {run : Int → Bool → Bool → Emission}
    (linesFollow : FollowsDepth .down lines)
    (runFollows : ∀ nested inline, FollowsDepth .down fun depth => run depth nested inline) :
    content style { depth := 0 } yields nodes lines run =
      leveled .down (content style { depth := -1 } yields nodes lines run) := by
  -- The content of a sequence without a parent, at the top level and above it: all pieces are one
  -- level apart.
  have top : (-1 : Int) + 1 = 0 := rfl
  have raw : rawBlock (0 + 1) lines = leveled .down (rawBlock 0 lines) :=
    rawBlock_leveled (Int.le_refl 0) linesFollow
  have inTurn : run (0 + 1) false false = leveled .down (run 0 false false) :=
    runFollows false false 0 (Int.le_refl 0)
  simp only [content, Layout.Owner.ofParent, Layout.usesColon, Option.bind_none, top]
  split
  · rfl
  · split
    · rfl
    · simp only [raw, leveled_bind, leveled_newLine]
      rfl
    · exact inTurn

private theorem emit_block_down (style : Style) (loc : Location) (kind : BlockKind)
    (yields : Loose Bool) (nodes : List Node) :
    emit style { depth := 0 } (.block loc kind yields nodes) =
      leveled .down (emit style { depth := -1 } (.block loc kind yields nodes)) := by
  have content := Emit.content_down style yields nodes
    (emitLines_followsDepth .down style false (.block loc kind yields nodes) false nodes)
    (emitRun_followsDepth .down style (some (.block loc kind yields nodes)) nodes)
  cases kind with
  | plain =>
    simp only [emit]
    exact content
  | named name mode =>
    simp only [emit, Spot.detached, leveled_bind, leveled_newLine, ← content]
    rfl

namespace Printer

private theorem rootEmission_block (style : Style) (loc : Location) (kind : BlockKind)
    (yields : Loose Bool) (nodes : List Node) :
    rootEmission style (.block loc kind yields nodes) =
      emit style { depth := -1 } (.block loc kind yields nodes) := rfl

private theorem rootEmission_of_not_sequence (style : Style) {n : Node}
    (other : n.isSequence = false) :
    rootEmission style n = emit style { depth := 0 } n := by
  cases n with
  | block loc kind yields nodes => cases kind <;> cases other
  | oddBlock loc kind yields value => cases kind <;> cases other
  | _ => rfl

/-- The emission of a sequence whose only node is a normal form, after splicing: that of the node
itself, one level deeper when it is a named block or a placeholder. -/
private theorem rootEmission_spliced (style : Style) {n : Node} (formed : n.wellFormed = true)
    (loc : Location)
    (sameLine : n.isWrapper = true → n.line? = some loc.line ∨
      Emit.seeLine false (n.nodes?.getD []) = false) :
    rootEmission style (.block loc .plain (.of false) n.spliced) =
      if n.isSequence && !n.isWrapper then leveled .down (rootEmission style n)
      else rootEmission style n := by
  cases wrapper : n.isWrapper with
  | true =>
    obtain ⟨own, yields, nodes, rfl, left⟩ :=
      Node.spliced_of_wrapper (Node.isWhole_of_wellFormed n formed n n.self_mem_subtrees) wrapper
    simp only [Node.wellFormed, Bool.and_eq_true] at formed
    obtain ⟨flag, rfl⟩ := Loose.isProper_iff.mp formed.1.2
    have line : own.line = loc.line ∨ Emit.seeLine false nodes = false := by
      simpa [Node.line?, Node.location?, Node.nodes?] using sameLine wrapper
    have off : flag = false := by
      cases flag with
      | false => rfl
      | true => cases wrapper
    rw [left, off]
    simp only [Bool.not_true, Bool.and_false, Bool.false_eq_true, if_false, rootEmission_block]
    exact (emit_block_place own loc style formed.2 (-1) (.of false) line).symm
  | false =>
    rw [Node.spliced_of_not_wrapper wrapper, rootEmission_block,
      emit_only_child style formed wrapper]
    cases sequence : n.isSequence with
    | false =>
      rw [rootEmission_of_not_sequence style sequence]
      rfl
    | true =>
      obtain ⟨own, kind, yields, nodes, rfl⟩ := Node.eq_block_of_isSequence formed sequence
      exact emit_block_down style own kind yields nodes

private theorem print_result_of_placeholder {config : Config} {root other : Node}
    (own : rootEmission config.style root = newLine (-1) "yield")
    (down : rootEmission config.style other = newLine 0 "yield") :
    (print { config, root := other }).result = (print { config, root }).result := by
  have pieces : Printer.pieces { config, root } = newLine (-1) "yield" := own
  have otherPieces : Printer.pieces { config, root := other } = newLine 0 "yield" := down
  simp only [print, writable, pieces, otherPieces]
  cases config.indentUnit <;> rfl

end Printer

namespace Node

private theorem line?_normalForm (n : Node) : n.normalForm.line? = n.line? := by
  cases n <;> rfl

def haveRunningFilter (inline : Bool) : List Node → Bool
  | [] => false
  | n :: rest => (inline && n.isKind .filter) || haveRunningFilter (Emit.continuesLine n rest) rest

private theorem seeLine_eq_haveRunningFilter {nodes : List Node}
    (flat : ∀ n ∈ nodes, n.isWrapper = false) (inline : Bool) :
    Emit.seeLine inline nodes = haveRunningFilter inline nodes := by
  induction nodes generalizing inline with
  | nil => rfl
  | cons n rest ih =>
    obtain ⟨first, others⟩ := List.forall_mem_cons.mp flat
    rw [Emit.seeLine, haveRunningFilter, Emit.seesLine, first, ih others, Bool.false_or]

/-- Whether in the lines of a sequence a filter goes on after another node. -/
def hasRunningFilter (n : Node) : Bool :=
  haveRunningFilter false (n.nodes?.getD [])

private theorem mem_sequencePlaces {n : Node} {nodes : List Node} (member : n ∈ nodes) :
    ⟨true, n.stripped⟩ ∈ sequencePlaces nodes := by
  induction nodes with
  | nil => cases member
  | cons first rest ih =>
    rw [sequencePlaces, List.cons_append, List.mem_cons, List.mem_append]
    rcases List.mem_cons.mp member with rfl | later
    · exact .inl rfl
    · exact .inr (.inr (ih later))

private theorem seeLine_normalForm {n : Node} (formed : n.wellFormed = true)
    (noFilter : n.normalForm.hasRunningFilter = false) :
    Emit.seeLine false (n.normalForm.nodes?.getD []) = false := by
  have flat : ∀ m ∈ n.normalForm.nodes?.getD [], m.isWrapper = false := by
    intro m member
    have among : (⟨true, m.stripped⟩ : Place) ∈ n.normalForm.places := by
      cases n with
      | block loc kind yields nodes => exact List.mem_cons_of_mem _ (mem_sequencePlaces member)
      | oddBlock => cases formed
      | _ => cases member
    exact (isWrapper_stripped m).symm.trans ((normalForm_isSplicing formed).flat _ among rfl)
  rw [seeLine_eq_haveRunningFilter flat]
  exact noFilter

private theorem normalize_wrapped {n : Node} (formed : n.wellFormed = true) (loc : Location) :
    ∃ count, (n.wrapped loc).normalize =
      .ok (.block loc .plain (.of false) n.normalForm.spliced, count) := by
  have wrappedFormed : (n.wrapped loc).wellFormed = true := by
    simp [wrapped, wellFormed, wellFormedNodes, BlockKind.wellFormed, Loose.isProper, formed]
  have normal := normalize_eq wrappedFormed
  rw [normalForm_wrapped] at normal
  exact ⟨_, normal⟩

private theorem eq_placeholder {n : Node} (formed : n.wellFormed = true)
    (sequence : n.isSequence = true) (notWrapper : n.isWrapper = false)
    (notNamed : n.isKind .namedBlock = false) :
    ∃ loc yields nodes, n = .block loc .plain yields nodes ∧ yields.isOn = true := by
  obtain ⟨loc, kind, yields, nodes, rfl⟩ := eq_block_of_isSequence formed sequence
  cases kind with
  | plain => exact ⟨loc, yields, nodes, rfl, by simpa [isWrapper] using notWrapper⟩
  | named => cases notNamed

private theorem eq_named {n : Node} (formed : n.wellFormed = true)
    (named : n.isKind .namedBlock = true) :
    ∃ loc name mode yields nodes, n = .block loc (.named name mode) yields nodes := by
  have sequence : n.isSequence = true := by rw [isSequence, named, Bool.or_true]
  obtain ⟨loc, kind, yields, nodes, rfl⟩ := eq_block_of_isSequence formed sequence
  cases kind with
  | plain => cases named
  | named name mode => exact ⟨loc, name, mode, yields, nodes, rfl⟩

end Node

variable {n : Node}

private theorem result_wrapped_of_not_named (formed : n.wellFormed = true) {loc : Location}
    (sameLine : n.isWrapper = true → n.line? = some loc.line ∨ n.normalForm.hasRunningFilter = false)
    (config : Config)
    (notNamed : n.isKind .namedBlock = false) :
    (sourceOfTree config (n.wrapped loc)).result = (sourceOfTree config n).result := by
  have normalFormed := Node.wellFormed_normalForm n formed
  obtain ⟨count, wrappedNormal⟩ := Node.normalize_wrapped formed loc
  rw [sourceOfTree_result config (Node.normalize_eq formed),
    sourceOfTree_result config wrappedNormal]
  have emission := Printer.rootEmission_spliced config.style normalFormed loc
    fun wrapper => by
      rw [Node.isWrapper_normalForm] at wrapper
      rw [Node.line?_normalForm]
      exact (sameLine wrapper).imp_right (Node.seeLine_normalForm formed)
  split at emission
  · rename_i moved
    rw [Bool.and_eq_true, Bool.not_eq_true'] at moved
    rw [← Node.isKind_normalForm] at notNamed
    obtain ⟨own, yields, nodes, isBlock, placeholder⟩ :=
      Node.eq_placeholder normalFormed moved.1 moved.2 notNamed
    have rooted : Printer.rootEmission config.style n.normalForm = newLine (-1) "yield" := by
      simp only [isBlock, Printer.rootEmission_block, emit, Emit.content, placeholder, if_true]
    rw [rooted] at emission
    exact Printer.print_result_of_placeholder rooted emission
  · exact Printer.print_result_congr emission

private theorem source_wrapped_of_named (formed : n.wellFormed = true) (loc : Location)
    {config : Config} (named : n.isKind .namedBlock = true) {unit text : Text}
    (given : config.indentUnit = .of unit)
    (printed : (sourceOfTree config n).result = .ok text) :
    ∃ head below,
      (Printer.rootEmission config.style n.normalForm).out = .line (-1) :: .markup head :: below ∧
      text = (Piece.writeAll unit (.line (-1) :: .markup head :: below)).build ∧
      (sourceOfTree config (n.wrapped loc)).result = .ok (Piece.writeAll unit
        (.line 0 :: .markup head :: below.map (Piece.leveled .down))).build := by
  have normal := Node.normalize_eq formed
  have normalFormed := Node.wellFormed_normalForm n formed
  obtain ⟨count, wrappedNormal⟩ := Node.normalize_wrapped formed loc
  rw [← Node.isKind_normalForm] at named
  obtain ⟨own, name, mode, yields, nodes, isBlock⟩ := Node.eq_named normalFormed named
  have ended : (Printer.rootEmission config.style n.normalForm).result = .ok () := by
    obtain ⟨root, total, rooted, ended⟩ := rootEmission_of_sourceOfTree printed
    rw [normal] at rooted
    cases rooted
    exact ended
  -- Below the wrapper the named block stands at the top level, which is one deeper than as the root.
  have emission : Printer.rootEmission config.style
      (.block loc .plain (.of false) n.normalForm.spliced) =
        leveled .down (Printer.rootEmission config.style n.normalForm) := by
    rw [Printer.rootEmission_spliced config.style normalFormed loc
      (by rw [isBlock]; intro wrapper; cases wrapper), isBlock]
    rfl
  obtain ⟨head, below, out⟩ : ∃ head below,
      (Printer.rootEmission config.style n.normalForm).out = .line (-1) :: .markup head :: below := by
    rw [isBlock]
    exact ⟨Emit.namedBlockHead name mode, _, rfl⟩
  refine ⟨head, below, out, ?_, ?_⟩
  · rw [sourceOfTree_of_rootEmission given normal ended, out] at printed
    cases printed
    rfl
  · have wrappedEnded : (Printer.rootEmission config.style
        (.block loc .plain (.of false) n.normalForm.spliced)).result = .ok () := by
      rw [emission]
      exact ended
    rw [sourceOfTree_of_rootEmission given wrappedNormal wrappedEnded, emission]
    exact congrArg (fun pieces => Except.ok (Piece.writeAll unit pieces).build)
      (congrArg (List.map (Piece.leveled .down)) out)

/-- A well-formed tree in a sequence of its own is printed as it is, or refused as it is, unless its
root is a named block: then all pieces below the head line come one level deeper. A sequence that
takes the place of another one has to stand in its line, if a filter in it goes on after another
node. -/
theorem source_wrapped (formed : n.wellFormed = true) (loc : Location)
    (sameLine : n.isWrapper = true → n.line? = some loc.line ∨ n.normalForm.hasRunningFilter = false)
    (config : Config) :
    (n.isKind .namedBlock = false →
      (sourceOfTree config (n.wrapped loc)).result = (sourceOfTree config n).result) ∧
    (n.isKind .namedBlock = true → ∀ unit text, config.indentUnit = .of unit →
      (sourceOfTree config n).result = .ok text → ∃ head below,
        (Printer.rootEmission config.style n.normalForm).out =
          .line (-1) :: .markup head :: below ∧
        text = (Piece.writeAll unit (.line (-1) :: .markup head :: below)).build ∧
        (sourceOfTree config (n.wrapped loc)).result = .ok (Piece.writeAll unit
          (.line 0 :: .markup head :: below.map (Piece.leveled .down))).build) :=
  ⟨result_wrapped_of_not_named formed sameLine config,
    fun named _ _ given printed => source_wrapped_of_named formed loc named given printed⟩

namespace Node

def paragraph : Node :=
  .fork { line := 2 } (.tag { name := .of "p" })
    (some (.block { line := 2 } .plain (.of false)
      [.leaf { line := 3 } (.text (.of "x") (.of false))])) none

def namedRoot : Node :=
  .block { line := 1 } (.named (.of "main") (.of "replace")) (.of false) [paragraph]

/-- A line of text that goes on with a filter, whose body has a line of text and a line of code. -/
def filteredLine : Node :=
  .block { line := 1 } .plain (.of false)
    [.leaf { line := 1 } (.text (.of "a") (.of false)),
      .stem { line := 1 } (.filter (.of "f") (.of []))
        (some (.block { line := 1 } .plain (.of false)
          [.leaf { line := 2 } (.text (.of "b") (.of false)),
            .stem { line := 3 } (.code { val := .of "c", buffer := .of true }) none]))]

end Node

theorem source_wrapped_samples :
    (Node.paragraph.wellFormed = true ∧
      (sourceOfTree .standard (Node.paragraph.wrapped {})).result = .ok "p\n  | x") ∧
    (Node.namedRoot.wellFormed = true ∧
      ∃ below : List Piece, (sourceOfTree .standard (Node.namedRoot.wrapped {})).result =
        .ok (Piece.writeAll "  " (.line 0 :: .markup "block main" ::
          below.map (Piece.leveled .down))).build) ∧
    ((Node.paragraph.wrapped {}).wellFormed = true ∧
      (Node.paragraph.wrapped {}).normalForm.hasRunningFilter = false ∧
      (sourceOfTree .standard ((Node.paragraph.wrapped {}).wrapped { line := 7 })).result =
        .ok "p\n  | x") := by
  have paragraph : Node.paragraph.wellFormed = true := by decide
  have named : Node.namedRoot.wellFormed = true := by decide
  have sequence : (Node.paragraph.wrapped {}).wellFormed = true := by decide
  have noFilter : (Node.paragraph.wrapped {}).normalForm.hasRunningFilter = false := rfl
  refine ⟨⟨paragraph, ?_⟩, ⟨named, ?_⟩, sequence, noFilter, ?_⟩
  · exact ((source_wrapped paragraph {} (fun wrapper => by cases wrapper) .standard).1 rfl).trans rfl
  · obtain ⟨head, below, out, _, wrapped⟩ :=
      (source_wrapped named {} (fun wrapper => by cases wrapper) .standard).2 rfl "  "
        "block main\np\n  | x" rfl rfl
    cases out
    exact ⟨_, wrapped⟩
  · exact ((source_wrapped sequence { line := 7 } (fun _ => .inr noFilter) .standard).1 rfl).trans rfl

/-- Not every tree is printed the same in a sequence of its own: below a named block as the root
nothing is indented; and a sequence that takes the place of another one in another line can change
what starts a line. -/
theorem not_wrapping_keeps_source :
    ¬ (∀ (n : Node) (loc : Location) (config : Config) (text : Text), n.wellFormed = true →
      (sourceOfTree config n).result = .ok text →
      (sourceOfTree config (n.wrapped loc)).result = .ok text) ∧
    ((sourceOfTree .standard Node.namedRoot).result = .ok "block main\np\n  | x" ∧
      (sourceOfTree .standard (Node.namedRoot.wrapped { line := 1 })).result =
        .ok "block main\n  p\n    | x") ∧
    ((sourceOfTree .standard Node.filteredLine).result = .ok "| a#[:f b\n  = c]" ∧
      (sourceOfTree .standard (Node.filteredLine.wrapped { line := 2 })).result =
        .ok "| a#[:f \n  .\n    b#\x7bc\x7d]") := by
  refine ⟨fun all => ?_, ⟨rfl, rfl⟩, rfl, rfl⟩
  have same := all Node.namedRoot {} .standard "block main\np\n  | x" (by decide) rfl
  cases same

end PugPrinter
