import PugPrinter.Proofs.Emit.Frame
import PugPrinter.Proofs.Emit.RunningLine

/-!
Interpolation in a line of text and code. What each child writes is escaped on its own, so an opener
that the escape does not know, a mark at the end of one text and its brace at the start of the next, and
a backslash before code are not seen. The openers of the line are those of its code exactly when none
of this occurs.
-/

set_option autoImplicit false

namespace PugPrinter

namespace Text

def isOpener (c : CodePoint) (next : Option CodePoint) : Bool :=
  (c == '#' && next.any isOpenerEnd) || (c == '!' && next.any fun (d : CodePoint) => d == '{')

/-- The positions of the openers that no backslash stands before. The text starts at a position, after
a backslash or not, and goes on with a code point or ends. -/
def openers (slash : Bool) (start : Nat) (next : Option CodePoint) : Text → List Nat
  | [] => []
  | c :: rest =>
    (if !slash && isOpener c (rest.head?.or next) then [start] else []) ++
      openers (c == '\\') (start + 1) next rest

/-- Whether what comes after a text comes after a backslash. -/
def endsInSlash (slash : Bool) : Text → Bool
  | [] => slash
  | c :: rest => endsInSlash (c == '\\') rest

theorem endsInSlash_append (slash : Bool) (s t : Text) :
    endsInSlash slash (s ++ t) = endsInSlash (endsInSlash slash s) t := by
  induction s generalizing slash with
  | nil => rfl
  | cons c s ih => exact ih _

private theorem openers_append (slash : Bool) (start : Nat) (next : Option CodePoint) (s t : Text) :
    openers slash start next (s ++ t) = openers slash start (t.head?.or next) s ++
      openers (endsInSlash slash s) (start + s.length) next t := by
  induction s generalizing slash start with
  | nil => rfl
  | cons c s ih =>
    have border : ((s ++ t).head?.or next) = s.head?.or (t.head?.or next) := by
      cases s <;> rfl
    have length : start + (c :: s).length = start + 1 + s.length := by
      rw [List.length_cons]
      omega
    rw [List.cons_append, openers, openers, ih, border, endsInSlash, length, List.append_assoc]

private theorem bounds_of_mem_openers {slash : Bool} {start : Nat} {next : Option CodePoint}
    {t : Text} {i : Nat} (member : i ∈ openers slash start next t) :
    start ≤ i ∧ i < start + t.length := by
  induction t generalizing slash start with
  | nil => cases member
  | cons c t ih =>
    rw [List.length_cons]
    rcases List.mem_append.mp member with here | later
    · split at here
      · have same : i = start := List.mem_singleton.mp here
        omega
      · cases here
    · have bounds := ih later
      omega

/-- A text has an opener left after it is escaped: a mark of unescaped code and its brace inside of
it, or any mark at its end that what follows completes. -/
def leaks (slash : Bool) (next : Option CodePoint) : Text → Bool
  | [] => false
  | [c] => !slash && isOpener c next
  | c :: d :: rest => (!slash && c == '!' && d == '{') || leaks (c == '\\') next (d :: rest)

private theorem isOpener_escapeAfter (c d : CodePoint) (slash : Bool) (next : Option CodePoint)
    (rest : Text) :
    isOpener c ((escapeAfter slash (d :: rest)).head?.or next) = isOpener c (some d) := by
  -- The escape of a text starts with the same code point, or with a backslash before a mark;
  -- neither of these completes an opener.
  have backslash : isOpener c (some '\\') = false := by simp +decide [isOpener]
  have mark : isOpener c (some '#') = false := by simp +decide [isOpener]
  unfold escapeAfter
  split
  · rename_i opens
    have isMark : d = '#' := by
      simp only [Bool.and_eq_true, beq_iff_eq] at opens
      exact opens.1.1
    rw [isMark, mark]
    exact backslash
  · rfl

private theorem openers_escapeAfter_eq_nil_iff {slash known : Bool} (start : Nat)
    (next : Option CodePoint) (val : Text) (knows : known = true → slash = true) :
    openers slash start next (escapeAfter known val) = [] ↔ leaks slash next val = false := by
  -- A text is escaped without a leak exactly when no opener is left in it. The escape may know less
  -- than what stands before the text.
  induction val generalizing slash known start with
  | nil => simp [escapeAfter, openers, leaks]
  | cons c val ih =>
    cases val with
    | nil => simp [escapeAfter, continuesOpener, openers, leaks]
    | cons d rest =>
      rw [escapeAfter]
      split
      · -- The mark is closed by its new backslash, and the brace after it is no mark.
        rename_i opens
        have isMark : c = '#' := by
          simp only [Bool.and_eq_true, beq_iff_eq] at opens
          exact opens.1.1
        have later := @ih false false (start + 1 + 1) fun isTrue => Bool.noConfusion isTrue
        have noSlash : ((CodePoint.scalar '#') == CodePoint.scalar '\\') = false := by decide
        subst isMark
        simpa +decide [openers, leaks, isOpener, noSlash] using later
      · rename_i plain
        have later := @ih (c == '\\') (c == '\\') (start + 1) id
        have here : (!slash && isOpener c (some d)) = (!slash && c == '!' && d == '{') := by
          cases slash with
          | true => rfl
          | false =>
            have unknown : known = false := by simpa using knows
            have noMark : (c == '#' && isOpenerEnd d) = false := by
              simpa [unknown, continuesOpener] using plain
            simp [isOpener, noMark]
        rw [openers, isOpener_escapeAfter, here, leaks, List.append_eq_nil_iff, later,
          Bool.or_eq_false_iff]
        simp

private theorem openers_eq_nil {slash : Bool} {start : Nat} {next : Option CodePoint} {t : Text}
    (noMarks : ∀ c ∈ t, c ≠ '#' ∧ c ≠ '!') : openers slash start next t = [] := by
  induction t generalizing slash start with
  | nil => rfl
  | cons c t ih =>
    rw [List.forall_mem_cons] at noMarks
    have closed : isOpener c (t.head?.or next) = false := by
      simp [isOpener, noMarks.1.1, noMarks.1.2]
    rw [openers, closed, ih noMarks.2, Bool.and_false]
    rfl

end Text

namespace Node

/-- Text that is no HTML, and buffered code without a block whose value has no mark in it. -/
def isLinePart : Node → Bool
  | .leaf _ (.text (.of _) isHtml) => !isHtml.isOn
  | .stem _ (.code { val := .of val, buffer, .. }) none =>
    buffer.isOn && !val.contains '#' && !val.contains '!'
  | _ => false

def lineText : Node → Text
  | .leaf _ (.text (.of val) _) => val.escapeInterpolation
  | .stem _ (.code code) _ => Emit.interpolatedCode code (code.val.value?.getD [])
  | _ => []

/-- The positions at which code starts among siblings in running text. -/
def codeStarts (start : Nat) : List Node → List Nat
  | [] => []
  | n :: rest =>
    (if n.isKind .code then [start] else []) ++ codeStarts (start + n.lineText.length) rest

/-- Whether a child keeps the openers of its line as they are, after a backslash or not and before a
code point or the end: a text must not leak, and code must not stand after a backslash. -/
def keepsOpeners (slash : Bool) (next : Option CodePoint) : Node → Bool
  | .leaf _ (.text (.of val) _) => !val.leaks slash next
  | _ => !slash

private theorem eq_of_isLinePart {n : Node} (part : n.isLinePart = true) :
    (∃ loc val isHtml, n = .leaf loc (.text (.of val) isHtml) ∧ isHtml.isOn = false) ∨
      ∃ loc code val, n = .stem loc (.code code) none ∧ code.val = .of val ∧
        code.buffer.isOn = true ∧ ∀ c ∈ val, c ≠ '#' ∧ c ≠ '!' := by
  unfold isLinePart at part
  split at part
  · exact .inl ⟨_, _, _, rfl, by simpa using part⟩
  · rename_i loc val buffer escape
    simp only [Bool.and_eq_true, Bool.not_eq_true', List.contains_eq_mem, decide_eq_false_iff_not]
      at part
    obtain ⟨⟨buffered, noHash⟩, noBang⟩ := part
    refine .inr ⟨loc, _, val, rfl, rfl, buffered, ?_⟩
    intro c member
    exact ⟨fun same => noHash (same ▸ member), fun same => noBang (same ▸ member)⟩
  · cases part

private theorem openers_lineText_iff {n : Node} (part : n.isLinePart = true) (slash : Bool)
    (start : Nat) (next : Option CodePoint) :
    n.lineText.openers slash start next = (if n.isKind .code then [start] else []) ↔
      n.keepsOpeners slash next = true := by
  rcases eq_of_isLinePart part with ⟨loc, val, isHtml, rfl, _⟩ |
    ⟨loc, code, val, rfl, given, buffered, noMarks⟩
  · have closed := @Text.openers_escapeAfter_eq_nil_iff slash false start next val nofun
    have isText : isKind .code (.leaf loc (.text (.of val) isHtml)) = false := rfl
    simpa [isText, lineText, keepsOpeners, Text.escapeInterpolation] using closed
  · have isCode : isKind .code (.stem loc (.code code) none) = true := rfl
    have inside (mark : CodePoint) : Text.openers (mark == '\\') (start + 1) next
        (Text.between '{' '}' val) = [] := by
      apply Text.openers_eq_nil
      intro c member
      rcases List.mem_append.mp member with inner | last
      · rcases List.mem_cons.mp inner with first | inner
        · rw [first]
          decide
        · exact noMarks c inner
      · rw [List.mem_singleton.mp last]
        decide
    have opens (mark : CodePoint) (isMark : Text.isOpener mark (some '{') = true) :
        Text.openers slash start next (mark :: Text.between '{' '}' val) = [start] ↔ slash = false := by
      have head : (Text.between '{' '}' val).head?.or next = some (CodePoint.scalar '{') := rfl
      rw [Text.openers, inside, head, isMark]
      cases slash <;> simp
    rw [isCode, if_pos rfl, lineText, given]
    simp only [Emit.interpolatedCode, buffered, if_true, keepsOpeners, Loose.value?, Option.getD_some,
      Bool.not_eq_true']
    split
    · exact opens _ (by decide)
    · exact opens _ (by decide)

end Node

private theorem append_eq_append_iff_of_bound {a b c d : List Nat} {bound : Nat}
    (aBelow : ∀ i ∈ a, i < bound) (cBelow : ∀ i ∈ c, i < bound) (bAbove : ∀ i ∈ b, bound ≤ i)
    (dAbove : ∀ i ∈ d, bound ≤ i) :
    a ++ b = c ++ d ↔ a = c ∧ b = d := by
  constructor
  · intro same
    have below (s t : List Nat) (sBelow : ∀ i ∈ s, i < bound) (tAbove : ∀ i ∈ t, bound ≤ i) :
        (s ++ t).filter (fun i => decide (i < bound)) = s := by
      have kept : s.filter (fun i => decide (i < bound)) = s :=
        List.filter_eq_self.mpr fun i member => decide_eq_true (sBelow i member)
      have dropped : t.filter (fun i => decide (i < bound)) = [] :=
        List.filter_eq_nil_iff.mpr fun i member => by
          have above := tAbove i member
          simp only [decide_eq_true_eq]
          omega
      rw [List.filter_append, kept, dropped, List.append_nil]
    have first : a = c := by
      rw [← below a b aBelow bAbove, same, below c d cBelow dAbove]
    rw [first] at same
    exact ⟨first, List.append_cancel_left same⟩
  · rintro ⟨rfl, rfl⟩
    rfl

namespace Node

private theorem le_of_mem_codeStarts {start : Nat} {nodes : List Node} {i : Nat}
    (member : i ∈ codeStarts start nodes) : start ≤ i := by
  induction nodes generalizing start with
  | nil => cases member
  | cons n rest ih =>
    rcases List.mem_append.mp member with here | later
    · split at here
      · have same : i = start := List.mem_singleton.mp here
        omega
      · cases here
    · have above := ih later
      omega

private theorem lineText_ne_nil {n : Node} (part : n.isLinePart = true)
    (isCode : n.isKind .code = true) :
    n.lineText ≠ [] := by
  rcases eq_of_isLinePart part with ⟨_, _, _, rfl, _⟩ | ⟨_, code, _, rfl, _⟩
  · cases isCode
  · exact Emit.interpolatedCode_ne_nil code _

private theorem openers_line_iff {nodes : List Node} (parts : ∀ n ∈ nodes, n.isLinePart = true)
    (slash : Bool) (start : Nat) (next : Option CodePoint) :
    Text.openers slash start next (nodes.flatMap lineText) = codeStarts start nodes ↔
      ∀ before n after, nodes = before ++ n :: after →
        n.keepsOpeners (Text.endsInSlash slash (before.flatMap lineText))
          ((after.flatMap lineText).head?.or next) = true := by
  induction nodes generalizing slash start with
  | nil =>
    refine iff_of_true rfl ?_
    intro before n after split
    cases before <;> cases split
  | cons n rest ih =>
    rw [List.forall_mem_cons] at parts
    have here := openers_lineText_iff parts.1 slash start ((rest.flatMap lineText).head?.or next)
    have later := ih parts.2 (Text.endsInSlash slash n.lineText) (start + n.lineText.length)
    -- The positions of the first child end where those of the others begin.
    have apart := @append_eq_append_iff_of_bound
      (Text.openers slash start ((rest.flatMap lineText).head?.or next) n.lineText)
      (Text.openers (Text.endsInSlash slash n.lineText) (start + n.lineText.length) next
        (rest.flatMap lineText))
      (if n.isKind .code then [start] else []) (codeStarts (start + n.lineText.length) rest)
      (start + n.lineText.length)
      (fun i member => (Text.bounds_of_mem_openers member).2)
      (by
        intro i member
        split at member
        · rename_i isCode
          have given := List.length_pos_iff.mpr (lineText_ne_nil parts.1 isCode)
          have same : i = start := List.mem_singleton.mp member
          omega
        · cases member)
      (fun i member => (Text.bounds_of_mem_openers member).1)
      (fun i member => le_of_mem_codeStarts member)
    rw [List.flatMap_cons, Text.openers_append, codeStarts, apart, here, later]
    constructor
    · rintro ⟨first, others⟩ before m after split
      cases before with
      | nil =>
        cases split
        exact first
      | cons k before =>
        cases split
        rw [List.flatMap_cons, Text.endsInSlash_append]
        exact others before m after rfl
    · intro all
      refine ⟨all [] n rest rfl, ?_⟩
      intro before m after split
      have inner := all (n :: before) m after (congrArg _ split)
      rwa [List.flatMap_cons, Text.endsInSlash_append] at inner

end Node

namespace Emit

variable {style : Style}

private theorem emit_linePart {spot : Spot} {n : Node} (part : n.isLinePart = true)
    (inline : spot.inline = true) (running : isRunning spot = true) :
    ∃ piece, emit style spot n = .put [piece] ∧
      ∀ b : LineBuffer, piece.write b = b.append n.lineText := by
  rcases Node.eq_of_isLinePart part with ⟨loc, val, isHtml, rfl, plain⟩ |
    ⟨loc, code, val, rfl, given, _, _⟩
  · refine ⟨.prose val, ?_, fun _ => rfl⟩
    simp only [emit, leaf, text, plain, inline, Bool.false_eq_true, if_false, if_true]
  · refine ⟨.markup (interpolatedCode code val), ?_, ?_⟩
    · simp only [emit, Emit.code, given, running, if_true]
      rfl
    · intro b
      rw [Node.lineText, given]
      rfl

private theorem emitRun_lineParts {spot : Spot} {nodes : List Node} {line : Int}
    (parts : ∀ n ∈ nodes, n.isLinePart = true) (shared : ∀ n ∈ nodes, n.line? = some line)
    (inline : nodes ≠ [] → spot.inline = true)
    (running : isRunning (spot.continuing true) = true) :
    (emitRun style spot nodes).result = .ok () ∧ ∀ b : LineBuffer,
      (emitRun style spot nodes).out.foldl Piece.write b = b.append (nodes.flatMap Node.lineText) := by
  induction nodes generalizing spot with
  | nil => exact ⟨rfl, fun _ => rfl⟩
  | cons n rest ih =>
    rw [List.forall_mem_cons] at parts shared
    have isNode : n.isNode = true := by
      rcases Node.eq_of_isLinePart parts.1 with ⟨_, _, _, rfl, _⟩ | ⟨_, _, _, rfl, _⟩ <;> rfl
    have inlineHere := inline (List.cons_ne_nil n rest)
    have here : spot.continuing true = spot := by
      rw [Spot.continuing, ← inlineHere]
    obtain ⟨piece, emits, writes⟩ := @emit_linePart style spot n parts.1 inlineHere (here ▸ running)
    have inlineLater : rest ≠ [] → continuesLine n rest = true := by
      intro more
      cases rest with
      | nil => exact absurd rfl more
      | cons next rest => simp [continuesLine, shared.1, shared.2 next List.mem_cons_self]
    obtain ⟨laterEnded, laterWrites⟩ := @ih (spot.continuing (continuesLine n rest)) parts.2 shared.2
      inlineLater running
    have whole : emitRun style spot (n :: rest) = Run.put [piece] >>= fun _ =>
        emitRun style (spot.continuing (continuesLine n rest)) rest := by
      rw [emitRun, if_pos isNode, emits]
      rfl
    have ended : (Run.put [piece] : Emission).result = .ok () := rfl
    constructor
    · rw [whole]
      exact (Run.bind_result_eq_ok_iff _ _ _).mpr ⟨(), ended, laterEnded⟩
    · intro b
      rw [whole, Run.bind_out_of_ok ended, List.foldl_append, laterWrites, List.flatMap_cons,
        ← LineBuffer.append_append, ← writes]
      rfl

end Emit

open Emit

/-- A block of text and buffered code in one line: it is written in that line, and the openers that no
backslash stands before are those of its code exactly when each child keeps them, with what the other
children write before and after it. -/
theorem line_openers_iff {style : Style} {spot : Spot} {loc : Location} {yields : Loose Bool}
    {nodes : List Node} {line : Int} (siblings : 2 ≤ nodes.length)
    (shared : ∀ n ∈ nodes, n.line? = some line) (parts : ∀ n ∈ nodes, n.isLinePart = true)
    (noPlaceholder : yields.isOn = false) (inline : spot.inline = true) :
    (emit style spot (.block loc .plain yields nodes)).result = .ok () ∧
      (∀ b : LineBuffer, (emit style spot (.block loc .plain yields nodes)).out.foldl Piece.write b =
        b.append (nodes.flatMap Node.lineText)) ∧
      (Text.openers false 0 none (nodes.flatMap Node.lineText) = Node.codeStarts 0 nodes ↔
        ∀ before n after, nodes = before ++ n :: after →
          n.keepsOpeners (Text.endsInSlash false (before.flatMap Node.lineText))
            (after.flatMap Node.lineText).head? = true) := by
  have noDot : Layout.usesDot? spot.parent nodes = some false := by
    cases nodes with
    | nil => rfl
    | cons first rest =>
      have firstLine := shared first List.mem_cons_self
      have lastLine := shared _ (List.getLast_mem (List.cons_ne_nil first rest))
      simp [Layout.usesDot?, firstLine, lastLine]
  have noColon : Layout.usesColon style.colon (.ofParent spot.parent) nodes = false := by
    unfold Layout.usesColon
    split
    · simp at siblings
    · rfl
  have inTurn : WrittenInTurn style (spot.ofContent .plain).parent yields nodes :=
    ⟨noPlaceholder, noDot, noColon⟩
  have running := @isRunning_inside spot loc .plain yields nodes (by omega) true
  have run := @emitRun_lineParts style (spot.inside .plain (.block loc .plain yields nodes)) nodes line
    parts shared (fun _ => inline) running
  have whole : emit style spot (.block loc .plain yields nodes) =
      emitRun style (spot.inside .plain (.block loc .plain yields nodes)) nodes :=
    emit_block_inTurn inTurn
  rw [whole]
  refine ⟨run.1, run.2, ?_⟩
  have line := Node.openers_line_iff parts false 0 none
  simpa only [Option.or_none] using line

namespace Emit

def escapedSample : List Node :=
  [sampleText "#\x7ba\x7d ", sampleCode]

def leakingSample : List Node :=
  [sampleText "!\x7ba\x7d ", sampleCode]

def borderSample : List Node :=
  [sampleText "#", sampleText "\x7ba\x7d"]

def backslashSample : List Node :=
  [sampleText "a\\", sampleCode]

def sampleParagraph (nodes : List Node) : Node :=
  .fork { line := 1 } (.tag { name := .of "p" }) (some (sampleLine nodes)) none

end Emit

/-- The opener of escaped code in a text is kept apart from that of the code after it; the opener of
unescaped code is not. -/
theorem line_openers_iff_samples :
    ((∀ b : LineBuffer, (emit {} { depth := 0, inline := true } (sampleLine escapedSample)).out.foldl
        Piece.write b = b.append "\\#\x7ba\x7d #\x7bx\x7d") ∧
      Text.openers false 0 none "\\#\x7ba\x7d #\x7bx\x7d" = Node.codeStarts 0 escapedSample) ∧
    ((∀ b : LineBuffer, (emit {} { depth := 0, inline := true } (sampleLine leakingSample)).out.foldl
        Piece.write b = b.append "!\x7ba\x7d #\x7bx\x7d") ∧
      Text.openers false 0 none "!\x7ba\x7d #\x7bx\x7d" ≠ Node.codeStarts 0 leakingSample) := by
  constructor
  · obtain ⟨_, writes, iff⟩ := @line_openers_iff {} { depth := 0, inline := true } { line := 1 }
      (.of false) escapedSample 1 (by decide) (by decide) (by decide) rfl rfl
    refine ⟨writes, iff.mpr ?_⟩
    intro before n after split
    rcases before with _ | ⟨first, _ | ⟨second, before⟩⟩
    · cases split
      decide
    · cases split
      decide
    · cases before <;> cases split
  · obtain ⟨_, writes, iff⟩ := @line_openers_iff {} { depth := 0, inline := true } { line := 1 }
      (.of false) leakingSample 1 (by decide) (by decide) (by decide) rfl rfl
    refine ⟨writes, fun same => ?_⟩
    have kept := iff.mp same [] (sampleText "!\x7ba\x7d ") [sampleCode] rfl
    exact absurd kept (by decide)

/-- Not every line of text and code has the openers of its code alone: a text may bring the opener of
unescaped code, two texts may make one together, and a backslash before code takes one away. -/
theorem not_all_line_openers_of_code :
    ¬ (∀ (style : Style) (spot : Spot) (loc : Location) (nodes : List Node) (line : Int),
      2 ≤ nodes.length → (∀ n ∈ nodes, n.line? = some line) →
      (∀ n ∈ nodes, n.isLinePart = true) → spot.inline = true →
      Text.openers false 0 none
          (Piece.render [] (emit style spot (.block loc .plain (.of false) nodes)).out) =
        Node.codeStarts 0 nodes) ∧
    (sourceOfTree .standard (sampleParagraph leakingSample)).result =
      .ok "p !\x7ba\x7d #\x7bx\x7d" ∧
    (sourceOfTree .standard (sampleParagraph borderSample)).result = .ok "p #\x7ba\x7d" ∧
    (sourceOfTree .standard (sampleParagraph backslashSample)).result = .ok "p a\\#\x7bx\x7d" := by
  refine ⟨?_, rfl, rfl, rfl⟩
  intro all
  have same := all {} { depth := 0, inline := true } { line := 1 } leakingSample 1 (by decide)
    (by decide) (by decide) rfl
  exact absurd same (by decide)

end PugPrinter
