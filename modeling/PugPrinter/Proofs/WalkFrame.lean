import PugPrinter.Proofs.Emit.WalkWrites
import PugPrinter.Proofs.Printing

/-!
The frame of a walk. A walk through a node that ends well leaves the depth and the flag of the cursor
as it found them, and no walk ever reaches back into a line before the last. When a whole tree is
printed, everything below the root is entered at depth zero or deeper, so that raw lines never need
the indent that they would get at the top level.
-/

set_option autoImplicit false

namespace PugPrinter

namespace LineBuffer

/-- A buffer after more has been written: the lines before the last are unchanged, and the last one
has only been continued. -/
structure Extends (earlier later : LineBuffer) : Prop where
  kept : ∀ i, i + 1 < earlier.size → later.lines[i]? = earlier.lines[i]?
  continued : ∀ last, earlier.lines.getLast? = some last →
    ∃ line, later.lines[earlier.size - 1]? = some line ∧ last <+: line

@[simp] theorem length_lines (b : LineBuffer) : b.lines.length = b.size := by
  simp [lines, size]

namespace Extends

variable {a b c : LineBuffer}

private theorem refl (b : LineBuffer) : b.Extends b := by
  refine ⟨fun _ _ => rfl, fun last isLast => ⟨last, ?_, List.prefix_refl last⟩⟩
  rwa [List.getLast?_eq_getElem?, length_lines] at isLast

theorem size_le (more : a.Extends b) : a.size ≤ b.size := by
  cases last : a.lines.getLast? with
  | none =>
    have empty : a.size = 0 := by
      rw [← length_lines, List.getLast?_eq_none_iff.mp last, List.length_nil]
    omega
  | some line =>
    obtain ⟨_, found, _⟩ := more.continued line last
    obtain ⟨inside, _⟩ := List.getElem?_eq_some_iff.mp found
    rw [length_lines] at inside
    omega

private theorem trans (first : a.Extends b) (second : b.Extends c) : a.Extends c := by
  have grown := first.size_le
  constructor
  case kept =>
    intro i before
    rw [second.kept i (by omega), first.kept i before]
  case continued =>
    intro last isLast
    obtain ⟨line, found, longer⟩ := first.continued last isLast
    obtain ⟨inside, _⟩ := List.getElem?_eq_some_iff.mp found
    rw [length_lines] at inside
    by_cases more : a.size - 1 + 1 < b.size
    · -- The line is not the last one of the second buffer any more, so it is left alone.
      exact ⟨line, (second.kept _ more).trans found, longer⟩
    · have same : a.size - 1 = b.size - 1 := by omega
      rw [same] at found ⊢
      have isLast' : b.lines.getLast? = some line := by
        rwa [List.getLast?_eq_getElem?, length_lines]
      obtain ⟨line', found', longer'⟩ := second.continued line isLast'
      exact ⟨line', found', longer.trans longer'⟩

private theorem of_lines (more : a.Extends b) (same : c.newestFirst = b.newestFirst) :
    a.Extends c := by
  have lines : c.lines = b.lines := congrArg List.reverse same
  exact ⟨lines ▸ more.kept, lines ▸ more.continued⟩

private theorem of_cons {line : Text} (added : c.newestFirst = line :: b.newestFirst) :
    b.Extends c := by
  have lines : c.lines = b.lines ++ [line] := by simp [LineBuffer.lines, added]
  constructor
  case kept =>
    intro i before
    rw [lines, List.getElem?_append_left (by rw [length_lines]; omega)]
  case continued =>
    intro last isLast
    rw [List.getLast?_eq_getElem?, length_lines] at isLast
    obtain ⟨inside, _⟩ := List.getElem?_eq_some_iff.mp isLast
    exact ⟨last, by rwa [lines, List.getElem?_append_left inside], List.prefix_refl last⟩

private theorem append (b : LineBuffer) (text : Text) : b.Extends (b.append text) := by
  by_cases blank : text.isEmpty = true
  · simp only [LineBuffer.append, blank, if_true]
    exact refl b
  · cases started : b.newestFirst with
    | nil =>
      have added : (b.append text).newestFirst = text :: b.newestFirst := by
        simp [LineBuffer.append, blank, started]
      exact of_cons added
    | cons last earlier =>
      have before : b.lines = earlier.reverse ++ [last] := by simp [LineBuffer.lines, started]
      have after : (b.append text).lines = earlier.reverse ++ [last ++ text] := by
        simp [LineBuffer.lines, LineBuffer.append, blank, started]
      have size : b.size = earlier.reverse.length + 1 := by simp [LineBuffer.size, started]
      constructor
      case kept =>
        intro i inside
        have early : i < earlier.reverse.length := by omega
        rw [before, after, List.getElem?_append_left early, List.getElem?_append_left early]
      case continued =>
        intro line isLast
        rw [before, List.getLast?_concat, Option.some_inj] at isLast
        subst isLast
        exact ⟨last ++ text, by rw [after, size]; simp, List.prefix_append last text⟩

private theorem write (b : LineBuffer) (piece : Piece) : b.Extends (piece.write b) := by
  cases piece with
  | line depth => exact of_cons rfl
  | markup text => exact append b text
  | prose text => exact append b _
  | lineFeed => exact refl b
  | raw depth verbatim text => exact append b _
  | script depth text => exact append b _
  | notConstant source => exact refl b

theorem foldl_write (b : LineBuffer) (pieces : List Piece) : b.Extends (pieces.foldl Piece.write b) := by
  induction pieces generalizing b with
  | nil => exact refl b
  | cons piece pieces ih => exact (write b piece).trans (ih _)

end Extends

end LineBuffer

def Cursor.start (unit : Text) (root : Node) : Cursor :=
  { buffer := { unit, depth := Printer.startDepth root } }

private theorem Writes.entries_after_enter {floor depth : Int} {nested : Bool} {step : Walk Unit}
    {emission : Emission} (writes : Writes floor depth nested step emission)
    (entry : Int → Entry) {c : Cursor} (atDepth : c.buffer.depth = depth)
    (atFlag : c.nested = nested) (fresh : c.entries = []) :
    ∀ other ∈ ((do Walk.enter entry; step : Walk Unit) c).2.entries,
      other = entry depth ∨ floor ≤ other.depth := by
  have later := writes { c with entries := entry c.buffer.depth :: c.entries } atDepth atFlag
  obtain ⟨entered, added, high⟩ := later.entries
  intro other member
  have among : other ∈ entered ++ entry c.buffer.depth :: c.entries := added ▸ member
  rw [fresh, atDepth] at among
  rcases List.mem_append.mp among with below | first
  · exact .inr (high other below)
  · exact .inl (List.mem_singleton.mp first)

/-- Whatever is entered when a tree is printed, other than its root, is entered at depth zero or
deeper. The children of a sequence at the root are one level below it, as it has no parent. -/
private theorem walk_start_entries (style : Style) (unit : Text) (root : Node) :
    ∀ entry ∈ (walk style none false root (Cursor.start unit root)).2.entries,
      entry = .node root (Printer.startDepth root) ∨ 0 ≤ entry.depth := by
  have inside (start : Printer.startDepth root = 0) :
      ∀ entry ∈ (walk style none false root (Cursor.start unit root)).2.entries, 0 ≤ entry.depth := by
    have written := walk_follows 0 style root { depth := 0 } (Int.le_refl 0) (Cursor.start unit root)
      start rfl
    obtain ⟨entered, added, high⟩ := written.entries
    intro entry member
    have among : entry ∈ entered ++ [] := added ▸ member
    rw [List.append_nil] at among
    exact high entry among
  -- Only a sequence starts above the top level, and all that it enters is at that level or below.
  cases root with
  | block loc kind yields nodes =>
    have linesFollow := walkLines_follows 0 style false (.block loc kind yields nodes) false nodes
    have runFollows := walkRun_follows 0 style (some (.block loc kind yields nodes)) nodes
    have content : Writes 0 (-1) false
        (Walk.content style none false yields nodes
          (walkLines style (.block loc kind yields nodes) false nodes)
          fun inline => walkRun style (some (.block loc kind yields nodes)) inline nodes) _ :=
      Walk.content_writes { depth := -1 } (fun owned => nomatch owned) (Int.le_refl 0) yields nodes
        linesFollow runFollows
    cases kind with
    | plain =>
      simp only [walk]
      exact content.entries_after_enter (.node _) rfl rfl rfl
    | named name mode =>
      simp only [walk]
      exact ((Writes.newLine _).bind fun _ => content).entries_after_enter (.node _) rfl rfl rfl
  | oddBlock loc kind yields value =>
    have content : Writes 0 (-1) false (Walk.oddContent yields value) _ :=
      Walk.oddContent_writes yields value
    cases kind with
    | plain =>
      simp only [walk]
      exact content.entries_after_enter (.node _) rfl rfl rfl
    | named name mode =>
      simp only [walk]
      exact ((Writes.newLine _).bind fun _ => content).entries_after_enter (.node _) rfl rfl rfl
  | leaf | stem | fork | stray => exact fun entry member => .inr (inside rfl entry member)

private theorem walk_written (style : Style) (parent : Option Node) (inline : Bool) (n : Node)
    (c : Cursor) :
    Written c.buffer.depth c
      (emit style { depth := c.buffer.depth, nested := c.nested, parent, inline } n)
      (walk style parent inline n c) :=
  walk_follows c.buffer.depth style n
    { depth := c.buffer.depth, nested := c.nested, parent, inline } (Int.le_refl _) c rfl rfl

private theorem sourceOfTree_eq_walk {config : Config} {unit : Text} {tree root : Node}
    {count : Nat} (given : config.indentUnit = .of unit)
    (normal : tree.normalize = .ok (root, count)) :
    (sourceOfTree config tree).result =
      (walk config.style none false root (Cursor.start unit root)).1.map fun _ =>
        (walk config.style none false root (Cursor.start unit root)).2.buffer.build := by
  have written := walk_written config.style none false root (Cursor.start unit root)
  have result : (walk config.style none false root (Cursor.start unit root)).1 =
      (Printer.rootEmission config.style root).result := written.result
  rw [result]
  cases ended : (Printer.rootEmission config.style root).result with
  | ok _ =>
    have lines : (Piece.writeAll unit (Printer.rootEmission config.style root).out).newestFirst =
        (walk config.style none false root (Cursor.start unit root)).2.buffer.newestFirst := by
      rw [written.lines]
      apply Piece.newestFirst_foldl_write <;> rfl
    rw [sourceOfTree_of_rootEmission given normal ended]
    simp only [Except.map, LineBuffer.build, LineBuffer.lines, lines]
  | error fault =>
    cases printed : (sourceOfTree config tree).result with
    | error cause =>
      have same := rootEmission_error_of_sourceOfTree given normal printed
      rw [ended] at same
      cases same
      rfl
    | ok text =>
      obtain ⟨root', count', normal', endedWell⟩ := rootEmission_of_sourceOfTree printed
      rw [normal] at normal'
      cases normal'
      rw [ended] at endedWell
      cases endedWell

/-- How a walk leaves a cursor: when it ends well, the depth and the flag are as they were; and the
lines are extended, however it ends. -/
structure Cursor.Framed (earlier : Cursor) (ending : Except Fault Unit × Cursor) : Prop where
  depth : ending.1 = .ok () → ending.2.buffer.depth = earlier.buffer.depth
  nested : ending.1 = .ok () → ending.2.nested = earlier.nested
  extended : earlier.buffer.Extends ending.2.buffer

private theorem Written.framed {floor : Int} {c : Cursor} {emission : Emission}
    {ending : Except Fault Unit × Cursor} (written : Written floor c emission ending) :
    c.Framed ending where
  depth ended := written.depth () (written.result ▸ ended)
  nested ended := written.nested () (written.result ▸ ended)
  extended := (LineBuffer.Extends.foldl_write c.buffer emission.out).of_lines written.lines

/-- Every walk through a node keeps its frame and writes the emission of the node. A tree is printed as
the walk through its normal form fills the buffer; all that is entered on this walk, other than the
root, is entered at depth zero or deeper, and raw lines are just one level below. -/
theorem walk_framed :
    (∀ (style : Style) (parent : Option Node) (inline : Bool) (n : Node) (c : Cursor),
      c.Framed (walk style parent inline n c) ∧
      Written c.buffer.depth c
        (emit style { depth := c.buffer.depth, nested := c.nested, parent, inline } n)
        (walk style parent inline n c)) ∧
    (∀ (config : Config) (unit : Text) (tree root : Node) (count : Nat),
      config.indentUnit = .of unit → tree.normalize = .ok (root, count) →
      (sourceOfTree config tree).result =
        (walk config.style none false root (Cursor.start unit root)).1.map fun _ =>
          (walk config.style none false root (Cursor.start unit root)).2.buffer.build) ∧
    ∀ (style : Style) (unit : Text) (root : Node),
      ∀ entry ∈ (walk style none false root (Cursor.start unit root)).2.entries,
        (entry = .node root (Printer.startDepth root) ∨ 0 ≤ entry.depth) ∧
        ∀ depth, entry = .raw depth → 0 ≤ depth ∧ Emit.rawDepth depth = depth + 1 := by
  refine ⟨?_, fun _ _ _ _ _ => sourceOfTree_eq_walk, ?_⟩
  · intro style parent inline n c
    have written := walk_written style parent inline n c
    exact ⟨written.framed, written⟩
  · intro style unit root entry member
    have high := walk_start_entries style unit root entry member
    refine ⟨high, ?_⟩
    rintro depth rfl
    rcases high with isRoot | nonneg
    · cases isRoot
    · exact ⟨nonneg, Emit.rawDepth_of_nonneg nonneg⟩

/-- Two lines of text at the top level, with code in the first: a dot block without an owner. -/
def Walk.sampleTree : Node :=
  .block { line := 1 } .plain (.of false)
    [.leaf { line := 1 } (.text (.of "one ") (.of false)),
      .stem { line := 1 } (.code { val := .of "x", buffer := .of true, escape := .of true }) none,
      .leaf { line := 2 } (.text (.of "\n") (.of false)),
      .leaf { line := 2 } (.text (.of "two") (.of false))]

def Walk.sampleEnding : Except Fault Unit × Cursor :=
  walk Config.standard.style none false sampleTree (Cursor.start "  " sampleTree)

theorem walk_framed_sample :
    (Walk.sampleTree.normalize = .ok (Walk.sampleTree, 0) ∧ Walk.sampleEnding.1 = .ok () ∧
      (sourceOfTree .standard Walk.sampleTree).result = .ok Walk.sampleEnding.2.buffer.build ∧
      Walk.sampleEnding.2.buffer.depth = -1) ∧
    Walk.sampleEnding.2.entries.map Entry.depth = [1, 0, -1] ∧
      (.raw 0 ∈ Walk.sampleEnding.2.entries ∧ Emit.rawDepth 0 = 1) := by
  obtain ⟨framed, printed, entries⟩ := walk_framed
  have normal : Walk.sampleTree.normalize = .ok (Walk.sampleTree, 0) := rfl
  have ended : Walk.sampleEnding.1 = .ok () := rfl
  have member : .raw 0 ∈ Walk.sampleEnding.2.entries := .tail _ (.head _)
  refine ⟨⟨normal, ended, ?_, ?_⟩, rfl, member, ?_⟩
  · exact printed .standard "  " Walk.sampleTree Walk.sampleTree 0 rfl normal
  · exact (framed _ none false Walk.sampleTree (Cursor.start "  " Walk.sampleTree)).1.depth ended
  · exact ((entries _ "  " Walk.sampleTree _ member).2 0 rfl).2

end PugPrinter
