import PugPrinter.Proofs.Emit.Depth
import PugPrinter.Proofs.Emit.Walk
import PugPrinter.Proofs.Segment

/-!
What a step of a walk writes. A step writes an emission when it ends as the emission ends, the lines
of the buffer are continued with its pieces, the depth and the flag are as they were when it ends
well, and whatever is entered on the way is entered no higher than a floor. There is one rule for
each way of putting steps together.
-/

set_option autoImplicit false

namespace PugPrinter

namespace LineBuffer

@[simp] theorem depth_append (b : LineBuffer) (text : Text) : (b.append text).depth = b.depth := by
  unfold append
  split
  · rfl
  · split <;> rfl

theorem append_append (b : LineBuffer) (first second : Text) :
    (b.append first).append second = b.append (first ++ second) := by
  cases first with
  | nil => rfl
  | cons c first =>
    cases second with
    | nil => simp [append]
    | cons d second =>
      cases started : b.newestFirst <;> simp [append, started]

private theorem newestFirst_append {b other : LineBuffer}
    (lines : b.newestFirst = other.newestFirst)
    (text : Text) : (b.append text).newestFirst = (other.append text).newestFirst := by
  unfold append
  split
  · exact lines
  · rw [lines]
    split <;> rfl

end LineBuffer

namespace Piece

variable {b other : LineBuffer}

private theorem newestFirst_write (unit : b.unit = other.unit)
    (lines : b.newestFirst = other.newestFirst)
    (piece : Piece) : (piece.write b).newestFirst = (piece.write other).newestFirst := by
  cases piece with
  | line depth => simp only [write, LineBuffer.newLine, LineBuffer.indent, unit, lines]
  | markup text => exact LineBuffer.newestFirst_append lines text
  | prose text => exact LineBuffer.newestFirst_append lines text.escapeInterpolation
  | lineFeed => exact lines
  | raw depth verbatim text =>
    simp only [write, unit]
    exact LineBuffer.newestFirst_append lines _
  | script depth text =>
    simp only [write, unit]
    exact LineBuffer.newestFirst_append lines _
  | notConstant source => exact lines

theorem newestFirst_foldl_write (unit : b.unit = other.unit)
    (lines : b.newestFirst = other.newestFirst) (pieces : List Piece) :
    (pieces.foldl write b).newestFirst = (pieces.foldl write other).newestFirst := by
  induction pieces generalizing b other with
  | nil => exact lines
  | cons piece pieces ih =>
    apply ih
    · rw [Segment.unit_write, Segment.unit_write, unit]
    · exact newestFirst_write unit lines piece

theorem unit_foldl_write (b : LineBuffer) (pieces : List Piece) :
    (pieces.foldl write b).unit = b.unit := by
  induction pieces generalizing b with
  | nil => rfl
  | cons piece pieces ih => rw [List.foldl_cons, ih, Segment.unit_write]

theorem newestFirst_line_append (b : LineBuffer) (depth : Int) (text : Text) :
    ((write b (.line depth)).append text).newestFirst =
      (Text.repeated b.unit depth ++ text) :: b.newestFirst := by
  cases text with
  | nil => simp [write, LineBuffer.append, LineBuffer.newLine, LineBuffer.indent]
  | cons c text => simp [write, LineBuffer.append, LineBuffer.newLine, LineBuffer.indent]

end Piece

def Cursor.atDepth (c : Cursor) (depth : Int) : Cursor :=
  { c with buffer := { c.buffer with depth } }

private theorem Walk.toRawDepth_apply (c : Cursor) :
    toRawDepth c = (.ok (), c.atDepth (Emit.rawDepth c.buffer.depth)) := by
  have level : toRawDepth c =
      (if c.buffer.depth + 1 == 0 then deepen 1 else pure ()) (c.atDepth (c.buffer.depth + 1)) := rfl
  rw [level]
  unfold Emit.rawDepth
  split
  · rename_i top
    rw [beq_iff_eq.mp top]
    rfl
  · rfl

variable {α β : Type}

/-- A step of a walk from a cursor ended as an emission does: with the same result, the lines of its
pieces written, the depth and the flag as they were unless it was stopped, and nothing entered above a
floor. -/
structure Written (floor : Int) (c : Cursor) (emission : Run Piece α)
    (ending : Except Fault α × Cursor) : Prop where
  result : ending.1 = emission.result
  unit : ending.2.buffer.unit = c.buffer.unit
  lines : ending.2.buffer.newestFirst = (emission.out.foldl Piece.write c.buffer).newestFirst
  depth : ∀ a, emission.result = .ok a → ending.2.buffer.depth = c.buffer.depth
  nested : ∀ a, emission.result = .ok a → ending.2.nested = c.nested
  entries : ∃ entered, ending.2.entries = entered ++ c.entries ∧
    ∀ entry ∈ entered, floor ≤ entry.depth

def Writes (floor depth : Int) (nested : Bool) (step : Walk α) (emission : Run Piece α) : Prop :=
  ∀ c : Cursor, c.buffer.depth = depth → c.nested = nested → Written floor c emission (step c)

def Run.Silent (run : Run Piece α) : Prop :=
  ∀ b : LineBuffer, run.out.foldl Piece.write b = b

theorem Run.Silent.bind {first : Run Piece α} {next : α → Run Piece β} (firstSilent : first.Silent)
    (nextSilent : ∀ a, (next a).Silent) : (first >>= next).Silent := by
  intro b
  cases ended : first.result with
  | error fault =>
    have out : (first >>= next).out = first.out := by simp [Run.bind_def, Run.andThen, ended]
    rw [out, firstSilent b]
  | ok a => rw [Run.bind_out_of_ok ended, List.foldl_append, firstSilent b, nextSilent a b]

theorem Run.silent_of_out_nil {run : Run Piece α} (none : run.out = []) : run.Silent := by
  intro b
  rw [none]
  rfl

namespace Written

variable {floor : Int} {c : Cursor}

theorem of_silent {run : Run Piece α} (silent : run.Silent) :
    Written floor c run (run.result, c) := by
  refine ⟨rfl, rfl, ?_, fun _ _ => rfl, fun _ _ => rfl, [], rfl, fun _ member => nomatch member⟩
  rw [silent c.buffer]

private theorem of_pieces {pieces : List Piece} {later : Cursor}
    (unit : later.buffer.unit = c.buffer.unit)
    (lines : later.buffer.newestFirst = (pieces.foldl Piece.write c.buffer).newestFirst)
    (depth : later.buffer.depth = c.buffer.depth) (nested : later.nested = c.nested)
    (entries : later.entries = c.entries) :
    Written floor c (Run.put pieces) (.ok (), later) :=
  ⟨rfl, unit, lines, fun _ _ => depth, fun _ _ => nested, [], entries, fun _ member => nomatch member⟩

end Written

namespace Writes

variable {floor depth : Int} {nested : Bool}

theorem of_silent {run : Run Piece α} (silent : run.Silent) :
    Writes floor depth nested (Walk.ofRun run) run :=
  fun _ _ _ => .of_silent silent

theorem nothing : Writes floor depth nested Walk.nothing Emission.nothing :=
  fun _ _ _ => .of_silent (Run.silent_of_out_nil rfl)

theorem refuse (error : TreeError) :
    Writes floor depth nested (Walk.refuse error) (Emission.refuse error) :=
  fun _ _ _ => .of_silent (Run.silent_of_out_nil rfl)

theorem unsupported : Writes floor depth nested Walk.unsupported Emission.unsupported :=
  fun _ _ _ => .of_silent (Run.silent_of_out_nil rfl)

theorem bind {first : Walk α} {next : α → Walk β} {emission : Run Piece α}
    {more : α → Run Piece β} (firstWrites : Writes floor depth nested first emission)
    (nextWrites : ∀ a, Writes floor depth nested (next a) (more a)) :
    Writes floor depth nested (first >>= next) (emission >>= more) := by
  intro c atDepth atFlag
  have step := firstWrites c atDepth atFlag
  obtain ⟨entered, added, high⟩ := step.entries
  cases ended : emission.result with
  | error fault =>
    have stopped : first c = (.error fault, (first c).2) := Prod.ext (step.result.trans ended) rfl
    have whole : (first >>= next) c = (.error fault, (first c).2) := by
      simp only [Bind.bind, Walk.andThen]
      rw [stopped]
    have run : emission >>= more = ⟨emission.out, .error fault⟩ := by
      simp only [Run.bind_def, Run.andThen, ended]
    rw [whole, run]
    exact ⟨rfl, step.unit, step.lines, fun _ impossible => (by cases impossible),
      fun _ impossible => (by cases impossible), entered, added, high⟩
  | ok a =>
    have continued : first c = (.ok a, (first c).2) := Prod.ext (step.result.trans ended) rfl
    have whole : (first >>= next) c = next a (first c).2 := by
      simp only [Bind.bind, Walk.andThen]
      rw [continued]
    have later := nextWrites a (first c).2 ((step.depth a ended).trans atDepth)
      ((step.nested a ended).trans atFlag)
    obtain ⟨enteredLater, addedLater, highLater⟩ := later.entries
    have out : (emission >>= more).out = emission.out ++ (more a).out := Run.bind_out_of_ok ended more
    have result : (emission >>= more).result = (more a).result := by
      simp only [Run.bind_def, Run.andThen, ended]
    rw [whole]
    constructor
    case result => rw [result, later.result]
    case unit => rw [later.unit, step.unit]
    case lines =>
      rw [later.lines, out, List.foldl_append]
      apply Piece.newestFirst_foldl_write
      · rw [step.unit, Piece.unit_foldl_write]
      · exact step.lines
    case depth =>
      intro b endedLater
      rw [later.depth b (result ▸ endedLater), step.depth a ended]
    case nested =>
      intro b endedLater
      rw [later.nested b (result ▸ endedLater), step.nested a ended]
    case entries =>
      refine ⟨enteredLater ++ entered, by rw [addedLater, added, List.append_assoc], ?_⟩
      exact List.forall_mem_append.mpr ⟨highLater, high⟩

theorem ite {condition : Prop} [Decidable condition] {yes no : Walk α}
    {yesEmission noEmission : Run Piece α}
    (yesWrites : condition → Writes floor depth nested yes yesEmission)
    (noWrites : ¬ condition → Writes floor depth nested no noEmission) :
    Writes floor depth nested (if condition then yes else no)
      (if condition then yesEmission else noEmission) := by
  split
  · exact yesWrites ‹condition›
  · exact noWrites ‹¬ condition›

theorem append (text : Text) :
    Writes floor depth nested (Walk.append text) (Emission.append text) :=
  fun c _ _ => .of_pieces (c.buffer.unit_append text) rfl (c.buffer.depth_append text) rfl rfl

theorem prose (text : Text) :
    Writes floor depth nested (Walk.append text.escapeInterpolation) (.put [.prose text]) :=
  fun c _ _ => .of_pieces (c.buffer.unit_append _) rfl (c.buffer.depth_append _) rfl rfl

theorem newLine_of {pieces : List Piece} (text : Text) (delta : Int)
    (same : ∀ b : LineBuffer, pieces.foldl Piece.write b =
      (Piece.write b (.line (depth + delta))).append text) :
    Writes floor depth nested (Walk.newLine text delta) (.put pieces) := by
  intro c atDepth _
  refine .of_pieces rfl ?_ rfl rfl rfl
  rw [same, Piece.newestFirst_line_append, ← atDepth]
  rfl

theorem newLine_deeper (text : Text) (delta : Int) :
    Writes floor depth nested (Walk.newLine text delta) (Emission.newLine (depth + delta) text) :=
  newLine_of text delta fun _ => rfl

theorem newLine (text : Text) :
    Writes floor depth nested (Walk.newLine text) (Emission.newLine depth text) := by
  have level : Writes floor depth nested (Walk.newLine text) (Emission.newLine (depth + 0) text) :=
    newLine_deeper text 0
  rwa [Int.add_zero] at level

private theorem rawText_of {piece : Piece} (verbatim : Bool) (text : Text)
    (same : ∀ b : LineBuffer, piece.write b = Piece.write b (.raw depth verbatim text)) :
    Writes floor depth nested (Walk.rawText verbatim text) (.put [piece]) := by
  intro c atDepth _
  have indent : c.buffer.indent = Text.repeated c.buffer.unit depth := by
    simp [LineBuffer.indent, atDepth]
  refine .of_pieces (c.buffer.unit_append _) ?_ (c.buffer.depth_append _) rfl rfl
  rw [List.foldl_cons, List.foldl_nil, same]
  simp only [Piece.write, indent]

theorem rawText (verbatim : Bool) (text : Text) :
    Writes floor depth nested (Walk.rawText verbatim text) (.put [.raw depth verbatim text]) :=
  rawText_of verbatim text fun _ => rfl

theorem newLine_rawText {piece : Piece} (verbatim : Bool) (text : Text)
    (same : ∀ b : LineBuffer, piece.write b = Piece.write b (.raw depth verbatim text)) :
    Writes floor depth nested (do Walk.newLine []; Walk.rawText verbatim text)
      (.put [.line depth, piece]) := by
  have opened : Writes floor depth nested (Walk.newLine []) (.put [.line depth]) := by
    apply newLine_of
    intro b
    rw [Int.add_zero]
    rfl
  exact opened.bind fun _ => rawText_of verbatim text same

theorem enter {entry : Int → Entry} (high : floor ≤ (entry depth).depth) {step : Walk α}
    {emission : Run Piece α} (writes : Writes floor depth nested step emission) :
    Writes floor depth nested (do Walk.enter entry; step) emission := by
  intro c atDepth atFlag
  have later := writes { c with entries := entry c.buffer.depth :: c.entries } atDepth atFlag
  obtain ⟨entered, added, above⟩ := later.entries
  refine ⟨later.result, later.unit, later.lines, later.depth, later.nested,
    entered ++ [entry c.buffer.depth], ?_, ?_⟩
  · rw [List.append_assoc]
    exact added
  · refine List.forall_mem_append.mpr ⟨above, List.forall_mem_singleton.mpr ?_⟩
    rwa [atDepth]

theorem isNested {next : Bool → Walk α} {emission : Run Piece α}
    (writes : Writes floor depth nested (next nested) emission) :
    Writes floor depth nested (do next (← Walk.isNested)) emission := by
  intro c atDepth atFlag
  have later := writes c atDepth atFlag
  rwa [← atFlag] at later

private theorem lookDepth {next : Int → Walk α} {emission : Run Piece α}
    (writes : Writes floor depth nested (next depth) emission) :
    Writes floor depth nested (do next (← Walk.depth)) emission := by
  intro c atDepth atFlag
  have later := writes c atDepth atFlag
  rwa [← atDepth] at later

theorem nesting {flag : Bool} {inner : Walk Unit} {emission : Emission}
    (writes : Writes floor depth flag inner emission) :
    Writes floor depth nested (Walk.nesting flag inner) emission := by
  intro c atDepth _
  have part := writes { c with nested := flag } atDepth rfl
  exact ⟨part.result, part.unit, part.lines, part.depth, fun _ _ => rfl, part.entries⟩

private theorem between {other : Int} {go inner back : Walk Unit} {emission : Emission}
    (goes : ∀ c : Cursor, c.buffer.depth = depth → go c = (.ok (), c.atDepth other))
    (comes : ∀ c : Cursor, c.buffer.depth = other → back c = (.ok (), c.atDepth depth))
    (writes : Writes floor other nested inner emission) :
    Writes floor depth nested (do go; inner; back) emission := by
  intro c atDepth atFlag
  have part := writes (c.atDepth other) rfl atFlag
  have lines : (emission.out.foldl Piece.write (c.atDepth other).buffer).newestFirst =
      (emission.out.foldl Piece.write c.buffer).newestFirst := by
    apply Piece.newestFirst_foldl_write <;> rfl
  have there : (do go; inner; back : Walk Unit) c = (do inner; back : Walk Unit) (c.atDepth other) := by
    simp only [Bind.bind, Walk.andThen]
    rw [goes c atDepth]
  rw [there]
  cases ended : emission.result with
  | error fault =>
    have stopped : inner (c.atDepth other) = (.error fault, (inner (c.atDepth other)).2) :=
      Prod.ext (part.result.trans ended) rfl
    have whole : (do inner; back : Walk Unit) (c.atDepth other) =
        (.error fault, (inner (c.atDepth other)).2) := by
      simp only [Bind.bind, Walk.andThen]
      rw [stopped]
    rw [whole]
    exact ⟨ended.symm, part.unit, part.lines.trans lines,
      fun a endedWell => (by rw [ended] at endedWell; cases endedWell),
      fun a endedWell => (by rw [ended] at endedWell; cases endedWell), part.entries⟩
  | ok done =>
    have continued : inner (c.atDepth other) = (.ok done, (inner (c.atDepth other)).2) :=
      Prod.ext (part.result.trans ended) rfl
    have whole : (do inner; back : Walk Unit) (c.atDepth other) =
        (.ok (), (inner (c.atDepth other)).2.atDepth depth) := by
      simp only [Bind.bind, Walk.andThen]
      rw [continued]
      exact comes _ (part.depth done ended)
    rw [whole]
    exact ⟨ended.symm, part.unit, part.lines.trans lines, fun _ _ => atDepth.symm,
      fun _ _ => part.nested done ended, part.entries⟩

theorem deeper {inner : Walk Unit} {emission : Emission}
    (writes : Writes floor (depth + 1) nested inner emission) :
    Writes floor depth nested (Walk.deeper inner) emission := by
  refine between ?_ ?_ writes
  · intro c atDepth
    rw [← atDepth]
    rfl
  · intro c atDepth
    have back : depth = c.buffer.depth + -1 := by omega
    rw [back]
    rfl

theorem head (inline : Bool) (text : Text) :
    Writes floor depth nested (Walk.head inline text) (Emission.head inline depth text) :=
  ite (fun _ => append text) fun _ => newLine text

theorem bracketed (brackets : Bool) {inner : Walk Unit} {emission : Emission}
    (writes : Writes floor depth nested inner emission) :
    Writes floor depth nested (Walk.bracketed brackets inner) (Emission.bracketed brackets emission) :=
  ite (fun _ => (append _).bind fun _ => writes.bind fun _ => append _) fun _ => writes

theorem rawBlock (high : floor ≤ depth) {inner : Walk Unit} {lines : Int → Emission}
    (writes : Writes floor (Emit.rawDepth depth) nested inner (lines (Emit.rawDepth depth))) :
    Writes floor depth nested (Walk.rawBlock inner) (Emit.rawBlock depth lines) := by
  have inside : Writes floor (Emit.rawDepth depth) nested (do Walk.newLine []; inner)
      (Emit.rawBlock depth lines) :=
    (newLine []).bind fun _ => writes
  refine enter high (lookDepth (between ?_ ?_ inside))
  · intro c atDepth
    rw [Walk.toRawDepth_apply, atDepth]
  · intro c _
    rfl

end Writes

end PugPrinter
