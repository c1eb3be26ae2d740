import PugPrinter.CommandLine
import PugPrinter.Proofs.Document.Acceptance
import PugPrinter.Proofs.Document.AnyObject
import PugPrinter.Proofs.Emit.AnyTree
import PugPrinter.Proofs.Totality

/-!
How the command ends. With options that make sense and input that spells an object, it prints the
source and ends with 0, or complains about the tree and ends with 1; options that are refused end
with 1, and input without an object with 2. What it does not end well with are attributes without a
name, shapes that nothing is defined for and source that standard output does not take, and whole
numbers that are too long to be written, which it takes for bad input. All this is said of objects
with values of the right make: what a line is compared with, or a text written as, when it is
something else altogether, the trees here do not tell.
-/

set_option autoImplicit false

namespace PugPrinter.CommandLine

section Input

def Contents.object? : Contents → Option (List (Text × Json))
  | .text t =>
    match Json.read t with
    | .ok (.obj fields) => some fields
    | _ => none
  | .notText => none

def Arguments.contents? (a : Arguments) (stdin : Contents)
    (read : Text → Except FileError Contents) : Option Contents :=
  match a.path? with
  | none => some stdin
  | some path => if path.all standsInPath then (read path).toOption else none

def Arguments.object? (a : Arguments) (stdin : Contents)
    (read : Text → Except FileError Contents) : Option (List (Text × Json)) :=
  (a.contents? stdin read).bind Contents.object?

/-- What becomes of an object: the first thing that a walk finds wrong with it stops it, and without
one the tree in it is printed. -/
def verdict (config : Config) (fields : List (Text × Json)) : Except Fault Text :=
  match Document.offences { fields } with
  | report :: _ => .error report.fault
  | [] => Document.load (.obj fields) >>= fun tree => (sourceOfTree config tree).result

def Arguments.verdict? (a : Arguments) (stdin : Contents)
    (read : Text → Except FileError Contents) : Option (Except Fault Text) :=
  match a.config, a.object? stdin read with
  | .ok config, some fields => some (verdict config fields)
  | _, _ => none

/-- An object whose place is of the right make, as far as it is known. -/
structure Placed (fields : List (Text × Json)) : Prop where
  line : ∀ value, Json.present? "line" fields = some value → ∃ number, value = .int number
  column : ∀ value, Json.present? "column" fields = some value → ∃ number, value = .int number
  filename : ∀ value, Json.present? "filename" fields = some value → ∃ name, value = .str name

/-- An object in which all values are of the right make, in the nodes inside it as well. -/
structure Typed (fields : List (Text × Json)) : Prop where
  natural : ∀ inner, Document.Reachable { fields } inner → Document.Natural inner.fields
  placed : ∀ inner, Document.Reachable { fields } inner → Placed inner.fields

end Input

/-- The two ways for the command to end: with source and nothing else, or with a complaint. -/
inductive Exit.IsProper : Exit → Prop where
  | source (text : Text) : IsProper { code := 0, stdout := text ++ ("\n" : Text) }
  | refused (text : Text) : IsProper { code := 1, stderr := text }
  | badInput (text : Text) : IsProper { code := 2, stderr := text }

section Options

variable {a : Arguments}

private theorem config_of_missing (missing : a.unit? = none ∨ a.quote = none) :
    a.config = .error .unsupportedShape := by
  unfold Arguments.config
  rcases missing with noUnit | noQuote
  · rw [noUnit]
  · rw [noQuote]
    cases a.unit? <;> rfl

private theorem config_of_given (unit : a.unit? ≠ none) (quote : a.quote ≠ none) :
    (∃ config, a.config = .ok config ∧ config.indentUnit.isProper = true) ∨
      ∃ error, a.config = .error (.config error) := by
  obtain ⟨text, isUnit⟩ := Option.ne_none_iff_exists'.mp unit
  obtain ⟨mark, isQuote⟩ := Option.ne_none_iff_exists'.mp quote
  unfold Arguments.config
  rw [isUnit, isQuote]
  unfold Config.check
  dsimp only
  split
  · exact .inr ⟨_, rfl⟩
  · split
    · exact .inl ⟨_, rfl, rfl⟩
    · exact .inr ⟨_, rfl⟩

end Options

section Printing

variable {config : Config} {fields : List (Text × Json)}

private theorem sourceOfJson_result : (sourceOfJson config (.obj fields)).result =
    Document.load (.obj fields) >>= fun tree => (sourceOfTree config tree).result := by
  have loads : Document.loadRoot (.obj fields) = Document.load (.obj fields) := rfl
  unfold sourceOfJson
  rw [Run.bind_def, loads]
  cases Document.load (.obj fields) with
  | error fault => rfl
  | ok tree => rfl

private theorem sourceOfJson_eq_verdict (typed : Typed fields) :
    (sourceOfJson config (.obj fields)).result = verdict config fields := by
  -- Loading stops an object of the right make with its first offence, so printing it comes to the
  -- verdict on it.
  have blames := Document.blames_loadBelow { fields } typed.natural
  rw [sourceOfJson_result, verdict]
  cases found : Document.offences { fields } with
  | nil => rfl
  | cons report later =>
    rw [found] at blames
    have failed : Document.load (.obj fields) = .error report.fault := blames
    rw [failed]
    rfl

private theorem verdict_printing (typed : Typed fields) {fault : Fault}
    (stopped : verdict config fields = .error fault) :
    (∃ error, fault = .tree error) ∨ (∃ digits, fault = .integerTooLong digits) ∨
      fault = .unsupportedShape := by
  have isOfPrinting : fault.IsOfPrinting := by
    rw [← sourceOfJson_eq_verdict typed, sourceOfJson_result] at stopped
    cases loaded : Document.load (.obj fields) with
    | error other =>
      have isOfLoading := Document.loads_loadBelow (.obj fields) {} other loaded
      rw [loaded] at stopped
      cases stopped
      cases fault <;> trivial
    | ok tree =>
      rw [loaded] at stopped
      exact sourceOfTree_printing config tree fault stopped
  cases fault with
  | tree error => exact .inl ⟨error, rfl⟩
  | integerTooLong digits => exact .inr (.inl ⟨digits, rfl⟩)
  | unsupportedShape => exact .inr (.inr rfl)
  | _ => exact isOfPrinting.elim

private def endOf : Except Fault Text → Except Fault Exit
  | .ok source => .ok { code := 0, stdout := source ++ ("\n" : Text) }
  | .error fault => failure fault

/-- The end of the command with accepted options, for the object in its input: the object is printed,
and the lack of one is bad input. -/
private def EndsFor (config : Config) (ended : Except Fault Exit) : Option (List (Text × Json)) → Prop
  | some fields => ended = endOf (sourceOfJson config (.obj fields)).result
  | none => ∃ text, ended = .ok { code := 2, stderr := text }

private theorem finish_text (t : Text) : finish config (.text t) = endOf (printText config t) := by
  cases printed : printText config t <;> simp only [finish, printed, endOf]

private theorem finish_ends (input : Contents) :
    EndsFor config (finish config input) input.object? := by
  cases input with
  | notText => exact ⟨_, rfl⟩
  | text t =>
    simp only [finish_text, printText, Contents.object?, Document.ofJsonText]
    cases Json.read t with
    | error cause => cases cause <;> exact ⟨_, rfl⟩
    | ok value =>
      cases value with
      | obj fields => exact congrArg endOf sourceOfJson_result.symm
      | _ => exact ⟨_, rfl⟩

end Printing

section Performing

variable (a : Arguments) (stdin : Contents) (read : Text → Except FileError Contents)

private theorem perform_accepted {config : Config} (accepted : a.config = .ok config) :
    EndsFor config (perform a stdin read) (a.object? stdin read) := by
  unfold perform Arguments.object? Arguments.contents?
  rw [accepted]
  dsimp only
  cases a.path? with
  | none => exact finish_ends stdin
  | some path =>
    dsimp only
    split
    · cases read path with
      | ok contents => exact finish_ends contents
      | error error => exact ⟨_, rfl⟩
    · exact ⟨_, rfl⟩

private theorem perform_refused {fault : Fault} (refused : a.config = .error fault) :
    perform a stdin read = failure fault := by
  unfold perform
  rw [refused]

private theorem verdict?_eq_none {fault : Fault} (refused : a.config = .error fault) :
    a.verdict? stdin read = none := by
  unfold Arguments.verdict?
  rw [refused]

end Performing

/-- Input that the command was made for, apart from the make of its values: no attribute is without a
name and no attribute block without a value, every node stands where its kind may stand, and the
attributes can be written. -/
structure Regular (fields : List (Text × Json)) : Prop where
  complete : ∀ report ∈ Document.offences { fields },
    report.offence ≠ .namelessAttribute ∧ report.offence ≠ .valuelessBlock
  formed : ∀ tree, Document.load (.obj fields) = .ok tree →
    tree.wellFormed = true ∧ ∀ n ∈ tree.normalForm.subtrees, n.attributesConvert = true

private theorem sourceOfTree_formed {config : Config} (unit : config.indentUnit.isProper = true)
    {tree : Node} (formed : tree.wellFormed = true)
    (convert : ∀ n ∈ tree.normalForm.subtrees, n.attributesConvert = true) :
    (∃ source, (sourceOfTree config tree).result = .ok source) ∨
      ∃ error, (sourceOfTree config tree).result = .error (.tree error) := by
  obtain ⟨given, isGiven⟩ := Loose.isProper_iff.mp unit
  have normal := Node.normalize_eq formed
  have normalFormed := Node.wellFormed_normalForm tree formed
  cases ended : (sourceOfTree config tree).result with
  | ok source => exact .inl ⟨source, rfl⟩
  | error fault =>
    have misplaced : fault.isMisplacement = true :=
      emit_failsOnly (fun fault => fault.isMisplacement = true) config.style tree.normalForm
        normalFormed
        (Node.admits_of_convert convert fun n _ fault own =>
          Node.isMisplacement_of_mem_contentFaults own)
        _ fault (rootEmission_error_of_sourceOfTree isGiven normal ended)
    right
    cases fault with
    | tree error => exact ⟨error, rfl⟩
    | _ => cases misplaced

private theorem Regular.verdict {fields : List (Text × Json)} (regular : Regular fields)
    (typed : Typed fields) {config : Config} (unit : config.indentUnit.isProper = true) :
    (∃ source, verdict config fields = .ok source) ∨
      ∃ error, CommandLine.verdict config fields = .error (.tree error) := by
  have blames := Document.blames_loadBelow { fields } typed.natural
  rw [CommandLine.verdict]
  cases found : Document.offences { fields } with
  | cons report later =>
    have complete := regular.complete report (by rw [found]; exact List.mem_cons_self ..)
    right
    obtain ⟨site, offence⟩ := report
    cases offence with
    | namelessAttribute => exact absurd rfl complete.1
    | valuelessBlock => exact absurd rfl complete.2
    | _ => exact ⟨_, rfl⟩
  | nil =>
    rw [found] at blames
    obtain ⟨tree, loaded⟩ := blames
    have isTree : Document.load (.obj fields) = .ok tree := loaded
    obtain ⟨formed, convert⟩ := regular.formed tree isTree
    dsimp only
    rw [isTree, Document.ok_bind]
    exact sourceOfTree_formed unit formed convert

section Delivering

variable {takes : Text → Bool}

private theorem deliver_source (source : Text) :
    deliver takes (.ok { code := 0, stdout := source ++ ("\n" : Text) }) =
      if takes (source ++ ("\n" : Text)) = true then
        .exits { code := 0, stdout := source ++ ("\n" : Text) }
      else .unwritten (source ++ ("\n" : Text)) := by
  have notEmpty : (source ++ ("\n" : Text)).isEmpty = false := by
    cases source <;> rfl
  simp only [deliver, notEmpty, Bool.false_or]

private theorem deliver_complaint (code : Nat) (text : Text) :
    deliver takes (.ok { code, stderr := text }) = .exits { code, stderr := text } := rfl

end Delivering

/-- How far a run comes: to an option without a value, to options that are refused, to input without
an object, or to the verdict on the object. -/
private inductive Comes (a : Arguments) (stdin : Contents)
    (read : Text → Except FileError Contents) (takes : Text → Bool) : Prop where
  | unset (missing : a.unit? = none ∨ a.quote = none)
      (refused : a.config = .error .unsupportedShape) (noVerdict : a.verdict? stdin read = none)
      (ends : run a stdin read takes = .stopped .unsupportedShape)
  | refused (given : ¬ (a.unit? = none ∨ a.quote = none)) (error : ConfigError)
      (refused : a.config = .error (.config error)) (noVerdict : a.verdict? stdin read = none)
      (ends : run a stdin read takes = .exits { code := 1, stderr := complaint error.message })
  | empty (given : ¬ (a.unit? = none ∨ a.quote = none)) (config : Config)
      (accepted : a.config = .ok config) (noObject : a.object? stdin read = none)
      (noVerdict : a.verdict? stdin read = none) (text : Text)
      (ends : run a stdin read takes = .exits { code := 2, stderr := text })
  | judged (given : ¬ (a.unit? = none ∨ a.quote = none)) (config : Config)
      (accepted : a.config = .ok config) (unit : config.indentUnit.isProper = true)
      (fields : List (Text × Json)) (object : a.object? stdin read = some fields)
      (isVerdict : a.verdict? stdin read = some (verdict config fields))
      (ends : run a stdin read takes = deliver takes (endOf (verdict config fields)))

private theorem run_comes (a : Arguments) (stdin : Contents)
    (read : Text → Except FileError Contents) (takes : Text → Bool)
    (typed : ∀ fields, a.object? stdin read = some fields → Typed fields) :
    Comes a stdin read takes := by
  -- An option without a value stops the command before it looks at its input.
  by_cases missing : a.unit? = none ∨ a.quote = none
  · have refused := config_of_missing missing
    exact .unset missing refused (verdict?_eq_none a stdin read refused)
      (congrArg (deliver takes) (perform_refused a stdin read refused))
  have given := not_or.mp missing
  rcases config_of_given given.1 given.2 with ⟨config, accepted, unit⟩ | ⟨error, refused⟩
  · have ends := perform_accepted a stdin read accepted
    cases object : a.object? stdin read with
    | none =>
      rw [object] at ends
      obtain ⟨text, ended⟩ := ends
      have noVerdict : a.verdict? stdin read = none := by
        unfold Arguments.verdict?
        rw [accepted, object]
      exact .empty missing config accepted object noVerdict text (congrArg (deliver takes) ended)
    | some fields =>
      rw [object] at ends
      simp only [EndsFor] at ends
      rw [sourceOfJson_eq_verdict (typed fields object)] at ends
      have isVerdict : a.verdict? stdin read = some (verdict config fields) := by
        unfold Arguments.verdict?
        rw [accepted, object]
      exact .judged missing config accepted unit fields object isVerdict
        (congrArg (deliver takes) ends)
  · exact .refused missing error refused (verdict?_eq_none a stdin read refused)
      (congrArg (deliver takes) (perform_refused a stdin read refused))

def doctypeFields : List (Text × Json) :=
  [("type", .str "Doctype"), ("line", .int 1), ("val", .str "html")]

def doctypeText : Text :=
  "\x7b\"type\": \"Doctype\", \"line\": 1, \"val\": \"html\"\x7d"

private theorem doctypeFields_typed :
    Document.typeName? doctypeFields = some ("Doctype" : Text) := by rfl

private theorem doctype_known : Document.kindOf? "Doctype" = some .doctype := by rfl

private theorem typed_doctypeFields : Typed doctypeFields := by
  have only {inner : Document.Site} (reached : Document.Reachable { fields := doctypeFields } inner) :
      inner = { fields := doctypeFields } := by
    rcases reached.cases_head with isRoot | ⟨middle, inside, _⟩
    · exact isRoot.symm
    · cases inside.of_typed doctypeFields_typed doctype_known
  constructor
  · intro inner reached
    rw [only reached]
    exact Document.natural_of_typed doctypeFields_typed doctype_known rfl (by decide) (by decide)
      (by decide +kernel)
  · intro inner reached
    rw [only reached]
    refine ⟨fun value isLine => ⟨1, ?_⟩, fun value isColumn => ?_, fun value isName => ?_⟩
    · have line : Json.present? "line" doctypeFields = some (.int 1) := by rfl
      exact Option.some.inj (isLine.symm.trans line)
    · cases isColumn
    · cases isName

private theorem offences_doctypeFields : Document.offences { fields := doctypeFields } = [] := by
  rw [Document.offences_typed doctypeFields_typed, doctype_known]
  rfl

private theorem regular_doctypeFields : Regular doctypeFields := by
  constructor
  · rw [offences_doctypeFields]
    exact List.forall_mem_nil _
  · intro tree loaded
    have isLeaf : Document.load (.obj doctypeFields) =
        .ok (.leaf { line := 1 } (.doctype (.of "html"))) := rfl
    rw [isLeaf] at loaded
    cases loaded
    decide

private def namelessText : Text :=
  "\x7b\"type\": \"Mixin\", \"name\": \"m\", \"call\": true, \"attrs\": [\x7b\"val\": \"x\"\x7d]\x7d"

end PugPrinter.CommandLine
