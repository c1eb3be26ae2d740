import PugPrinter.Config.Session
import PugPrinter.Proofs.Runs

/-!
Sessions keep their regions apart. The configurations to come back to are those that were active when
the regions that are still open were entered, the innermost first: a step either leaves this stack
alone, or pushes what is active, or brings back what was pushed last. So whatever happens in a region,
leaving it restores what was active before; and printers have their configuration from when they were
built.
-/

set_option autoImplicit false

namespace PugPrinter

namespace Config

/-- A configuration that can be active: its unit of indentation is not empty, its quote is one of the
two marks, and its options are accepted as they stand. -/
structure Valid (c : Config) : Prop where
  unit : c.settings.indentUnit.truthy = true
  quote : c.settings.preferredQuote = .str "'" ∨ c.settings.preferredQuote = .str "\""
  accepted : check c.settings = .ok c

private theorem ofText?_mark (quote : Quote) : Quote.ofText? [quote.mark] = some quote := by
  cases quote <;> rfl

private theorem ofText_textJson (value : Json) :
    Loose.ofText (Loose.ofText value).textJson = Loose.ofText value := by
  cases value <;> rfl

private theorem ofFlag_flagJson (value : Json) :
    Loose.ofFlag (Loose.ofFlag value).flagJson = Loose.ofFlag value := by
  cases value <;> rfl

private theorem valid_of_check {s : Settings} {c : Config} (checked : check s = .ok c) :
    c.Valid := by
  unfold check at checked
  split at checked
  · cases checked
  · rename_i quote _
    split at checked
    · rename_i given
      cases checked
      refine ⟨given, ?_, ?_⟩
      · cases quote
        · exact .inl rfl
        · exact .inr rfl
      · simp only [check, settings, quoteOf?, ofText?_mark, ofText_textJson, ofFlag_flagJson,
          dif_pos given]
    · cases checked

private theorem valid_standard : standard.Valid :=
  valid_of_check (s := standard.settings) rfl

private theorem valid_of_ofOptions {options : List (Text × Json)} {c : Config}
    (given : ofOptions options = .ok c) : c.Valid := by
  unfold ofOptions override at given
  split at given
  · exact valid_of_check given
  · cases given

private theorem valid_of_ofDictionary {options : List (Text × Json)} {c : Config}
    (given : ofDictionary options = .ok c) : c.Valid :=
  valid_of_check given

end Config

namespace Session

def after (s : Session) (actions : List Action) : Session :=
  actions.foldl (fun s action => (s.step action).1) s

@[simp] theorem after_nil (s : Session) : s.after [] = s := rfl

@[simp] theorem after_cons (s : Session) (action : Action) (rest : List Action) :
    s.after (action :: rest) = (s.step action).1.after rest := rfl

private theorem after_append (s : Session) (first second : List Action) :
    s.after (first ++ second) = (s.after first).after second := by
  unfold after
  rw [List.foldl_append]

def Action.builds : Action → Bool
  | .make _ _ => true
  | _ => false

def Action.prints : Action → Bool
  | .make _ _ => true
  | .run _ => true
  | .print _ _ _ => true
  | _ => false

/-- Whether an action enters a region. It does not when its options are refused. -/
def Action.enters : Action → Bool
  | .enter options => (Config.ofOptions options).toOption.isSome
  | _ => false

def Action.answersSource : Action → Bool
  | .run _ => true
  | .print _ _ _ => true
  | _ => false

/-- The configuration that an action asks for, which can be refused. -/
def Action.config? : Action → Option (Except Fault Config)
  | .set options => some (Config.ofOptions options)
  | .setDictionary options => some (Config.ofDictionary options)
  | .reset => some (.ok .standard)
  | .enter options => some (Config.ofOptions options)
  | _ => none

/-- What a step does to the configurations: it leaves all of them alone, puts a valid one in the place
of the active one, enters a region, or leaves one. -/
inductive Turns (s : Session) (action : Action) (t : Session) : Prop where
  | kept (stays : action.enters = false) (active : t.active = s.active) (outer : t.outer = s.outer)
  | replaced (quiet : action.prints = false) (stays : action.enters = false) (valid : t.active.Valid)
      (outer : t.outer = s.outer)
  | entered (enters : action.enters = true) (valid : t.active.Valid)
      (outer : t.outer = s.active :: s.outer)
  | left (leaves : action = .leave) (outer : s.outer = t.active :: t.outer)

private theorem step_turns (s : Session) (action : Action) : Turns s action (s.step action).1 := by
  cases action with
  | set options =>
    simp only [step]
    split
    · rename_i config given
      exact .replaced rfl rfl (Config.valid_of_ofOptions given) rfl
    · exact .kept rfl rfl rfl
  | setDictionary options =>
    simp only [step]
    split
    · rename_i config given
      exact .replaced rfl rfl (Config.valid_of_ofDictionary given) rfl
    · exact .kept rfl rfl rfl
  | reset => exact .replaced rfl rfl Config.valid_standard rfl
  | enter options =>
    simp only [step]
    split
    · rename_i config given
      exact .entered (by simp [Action.enters, given, Except.toOption])
        (Config.valid_of_ofOptions given) rfl
    · rename_i fault refused
      exact .kept (by simp [Action.enters, refused, Except.toOption]) rfl rfl
  | leave =>
    simp only [step]
    split
    · rename_i previous outer isOuter
      exact .left rfl isOuter
    · exact .kept rfl rfl rfl
  | make tree options =>
    simp only [step]
    split <;> exact .kept rfl rfl rfl
  | run number =>
    simp only [step]
    split <;> exact .kept rfl rfl rfl
  | print tree options overrides => exact .kept rfl rfl rfl

private theorem step_of_error {s : Session} {action : Action} {fault : Fault}
    (fails : (s.step action).2 = .error fault) : (s.step action).1 = s := by
  cases action with
  | set options | setDictionary options | enter options | leave | make tree options =>
    simp only [step] at fails ⊢
    split at fails
    · cases fails
    · rfl
  | reset => cases fails
  | run number =>
    simp only [step]
    split <;> rfl
  | print tree options overrides => rfl

private theorem active_of_config? {s : Session} {action : Action} {asked : Except Fault Config}
    (asks : action.config? = some asked) :
    (s.step action).1.active = asked.toOption.getD s.active ∧
      (s.step action).2 = asked.map fun _ => .nothing := by
  cases action with
  | set options | setDictionary options | enter options =>
    cases asks
    simp only [step]
    split
    · rename_i config given
      rw [given]
      exact ⟨rfl, rfl⟩
    · rename_i fault refused
      rw [refused]
      exact ⟨rfl, rfl⟩
  | reset =>
    cases asks
    exact ⟨rfl, rfl⟩
  | leave | make tree options | run number | print tree options overrides => cases asks

private theorem exists_source_of_ok {s : Session} {action : Action} {reply : Reply}
    (answers : action.answersSource = true) (ended : (s.step action).2 = .ok reply) :
    ∃ text, reply = .source text := by
  have mapped {source : Except Fault Text} (ended : source.map Reply.source = .ok reply) :
      ∃ text, reply = .source text := by
    cases source with
    | error fault => cases ended
    | ok text => exact ⟨text, (Except.ok.inj ended).symm⟩
  cases action with
  | run number =>
    simp only [step] at ended
    split at ended
    · exact mapped ended
    · cases ended
  | print tree options overrides => exact mapped ended
  | set options | setDictionary options | reset | enter options | leave | make tree options =>
    cases answers

private theorem active_of_prints {s : Session} {action : Action} (prints : action.prints = true) :
    (s.step action).1.active = s.active := by
  cases step_turns s action with
  | kept _ active _ => exact active
  | replaced quiet _ _ _ => simp [prints] at quiet
  | entered enters _ _ => cases action <;> simp [Action.prints, Action.enters] at prints enters
  | left leaves _ => simp [leaves, Action.prints] at prints

def AllValid (s : Session) : Prop :=
  ∀ c ∈ s.active :: s.outer, c.Valid

private theorem AllValid.step {s : Session} (valid : s.AllValid) (action : Action) :
    (s.step action).1.AllValid := by
  have active : s.active.Valid := valid _ (List.mem_cons_self ..)
  have outer : ∀ c ∈ s.outer, c.Valid := fun c member => valid c (List.mem_cons_of_mem _ member)
  unfold AllValid
  rw [List.forall_mem_cons]
  cases step_turns s action with
  | kept _ sameActive sameOuter => rw [sameActive, sameOuter]; exact ⟨active, outer⟩
  | replaced _ _ now sameOuter => rw [sameOuter]; exact ⟨now, outer⟩
  | entered _ now pushed => rw [pushed]; exact ⟨now, valid⟩
  | left _ popped =>
    rw [popped, List.forall_mem_cons] at outer
    exact outer

private theorem AllValid.after {s : Session} (valid : s.AllValid) (actions : List Action) :
    (s.after actions).AllValid := by
  induction actions generalizing s with
  | nil => exact valid
  | cons action rest ih => exact ih (valid.step action)

private theorem allValid_initial : ({} : Session).AllValid := by
  intro c member
  rw [List.mem_singleton.mp member]
  exact Config.valid_standard

/-- Actions that leave every region that they enter, and no other one. -/
inductive Balanced : List Action → Prop where
  | nil : Balanced []
  | quiet {action : Action} {rest : List Action} (stays : action.enters = false)
      (remains : action ≠ .leave) (balanced : Balanced rest) : Balanced (action :: rest)
  | region {action : Action} {inside rest : List Action} (enters : action.enters = true)
      (within : Balanced inside) (balanced : Balanced rest) :
      Balanced (action :: (inside ++ .leave :: rest))

private theorem Balanced.append {first second : List Action} (balanced : Balanced first)
    (others : Balanced second) : Balanced (first ++ second) := by
  induction balanced with
  | nil => exact others
  | quiet stays remains _ ih => exact .quiet stays remains ih
  | region enters within _ _ ih =>
    rw [List.cons_append, List.append_assoc, List.cons_append]
    exact .region enters within ih

private theorem outer_of_enters (s : Session) {action : Action} (enters : action.enters = true) :
    (s.step action).1.outer = s.active :: s.outer := by
  cases step_turns s action with
  | kept stays _ _ => simp [enters] at stays
  | replaced _ stays _ _ => simp [enters] at stays
  | entered _ _ outer => exact outer
  | left leaves _ => simp [leaves, Action.enters] at enters

private theorem outer_of_quiet (s : Session) {action : Action} (stays : action.enters = false)
    (remains : action ≠ .leave) : (s.step action).1.outer = s.outer := by
  cases step_turns s action with
  | kept _ _ outer => exact outer
  | replaced _ _ _ outer => exact outer
  | entered enters _ _ => simp [stays] at enters
  | left leaves _ => exact absurd leaves remains

private theorem step_leave {s : Session} {previous : Config} {outer : List Config}
    (isOuter : s.outer = previous :: outer) :
    (s.step .leave).1.active = previous ∧ (s.step .leave).1.outer = outer := by
  simp only [step, isOuter, and_self]

private theorem Balanced.outer_after {actions : List Action} (balanced : Balanced actions)
    (s : Session) :
    (s.after actions).outer = s.outer := by
  induction balanced generalizing s with
  | nil => rfl
  | quiet stays remains _ ih => rw [after_cons, ih, outer_of_quiet s stays remains]
  | region enters _ _ within ih =>
    rw [after_cons, after_append, after_cons, ih]
    exact (step_leave ((within _).trans (outer_of_enters s enters))).2

private theorem leave_restores (s : Session) {action : Action} {inside : List Action}
    (enters : action.enters = true) (balanced : Balanced inside) :
    ((s.after (action :: inside)).step .leave).1.active = s.active ∧
      ((s.after (action :: inside)).step .leave).1.outer = s.outer :=
  step_leave ((balanced.outer_after _).trans (outer_of_enters s enters))

structure EndsWithin (actions first : List Action) (opener : Action) (inside : List Action) :
    Prop where
  split : actions = first ++ opener :: inside
  enters : opener.enters = true
  balanced : Balanced inside

private theorem EndsWithin.outer_after {actions first inside : List Action} {opener : Action}
    (within : EndsWithin actions first opener inside) (s : Session) :
    (s.after actions).outer = (s.after first).active :: (s.after first).outer := by
  rw [within.split, after_append, after_cons, within.balanced.outer_after,
    outer_of_enters _ within.enters]

private theorem outer_nil_or_endsWithin (actions : List Action) :
    (({} : Session).after actions).outer = [] ∨
      ∃ first opener inside, EndsWithin actions first opener inside := by
  induction length : actions.length using Nat.strongRecOn generalizing actions with
  | _ n ih =>
    subst length
    rcases List.eq_nil_or_concat actions with rfl | ⟨before, action, rfl⟩
    · exact .inl rfl
    · rw [List.concat_eq_append] at ih ⊢
      have shorter := ih before.length (by simp) before rfl
      by_cases enters : action.enters = true
      · exact .inr ⟨before, action, [], rfl, enters, .nil⟩
      · rw [Bool.not_eq_true] at enters
        by_cases leaves : action = .leave
        · subst leaves
          rcases shorter with none | ⟨first, opener, inside, within⟩
          · left
            rw [after_append, after_cons, after_nil]
            simp only [step, none]
          · -- The region that was open is left, so it belongs to the body of the one around it.
            have restored : (({} : Session).after (before ++ [.leave])).outer =
                (({} : Session).after first).outer := by
              rw [after_append, after_cons, after_nil]
              exact (step_leave (within.outer_after {})).2
            have isShorter : first.length < (before ++ [Action.leave]).length := by
              rw [within.split]
              simp only [List.length_append, List.length_cons]
              omega
            rcases ih first.length isShorter first rfl with
              none | ⟨start, around, between, outward⟩
            · exact .inl (restored.trans none)
            · refine .inr ⟨start, around, between ++ (opener :: (inside ++ [.leave])), ?_,
                outward.enters, outward.balanced.append (.region within.enters within.balanced .nil)⟩
              rw [within.split, outward.split]
              simp
        · rcases shorter with none | ⟨first, opener, inside, within⟩
          · left
            rw [after_append, after_cons, after_nil, outer_of_quiet _ enters leaves, none]
          · refine .inr ⟨first, opener, inside ++ [action], ?_, within.enters,
              within.balanced.append (.quiet enters leaves .nil)⟩
            rw [within.split]
            simp

private theorem exists_kept_step (s : Session) (action : Action) :
    ∃ more, (s.step action).1.kept = s.kept ++ more ∧ (action.builds = false → more = []) := by
  have same : ∃ more, s.kept = s.kept ++ more ∧ (action.builds = false → more = []) :=
    ⟨[], (List.append_nil _).symm, fun _ => rfl⟩
  cases action with
  | set options | setDictionary options | enter options | leave | run number =>
    simp only [step]
    split <;> exact same
  | reset | print tree options overrides => exact same
  | make tree options =>
    simp only [step]
    split
    · exact ⟨_, rfl, nofun⟩
    · exact same

private theorem exists_kept_after (s : Session) (actions : List Action) :
    ∃ more, (s.after actions).kept = s.kept ++ more ∧
      ((∀ action ∈ actions, action.builds = false) → more = []) := by
  induction actions generalizing s with
  | nil => exact ⟨[], (List.append_nil _).symm, fun _ => rfl⟩
  | cons action rest ih =>
    obtain ⟨now, keptNow, quietNow⟩ := exists_kept_step s action
    obtain ⟨later, keptLater, quietLater⟩ := ih (s.step action).1
    refine ⟨now ++ later, ?_, fun quiet => ?_⟩
    · rw [after_cons, keptLater, keptNow, List.append_assoc]
    · rw [List.forall_mem_cons] at quiet
      rw [quietNow quiet.1, quietLater quiet.2, List.append_nil]

private theorem exists_printer_of_make {s : Session} {tree : Json}
    {options : Option (List (Text × Json))} {reply : Reply}
    (made : (s.step (.make tree options)).2 = .ok reply) :
    ∃ p : Printer, (s.step (.make tree options)).1.kept = s.kept ++ [p] ∧
      p.print.result.map .source = (s.step (.print tree options [])).2 := by
  simp only [step] at made ⊢
  split at made
  · rename_i p built
    refine ⟨p, rfl, ?_⟩
    cases chosen : s.configOf options with
    | error fault =>
      rw [chosen] at built
      cases built
    | ok config =>
      cases loaded : Document.loadRoot tree with
      | error fault =>
        simp only [chosen, loaded] at built
        cases built
      | ok root =>
        have prepared : (Printer.ofTree config root).result = .ok p := by
          rw [chosen, loaded] at built
          exact built
        have printed : (sourceOfJson config tree).result = p.print.result := by
          simp [sourceOfJson, sourceOfTree, Run.ofExcept, Run.bind_def, Run.andThen, loaded, prepared]
        rw [← printed]
        rfl
  · cases made

private theorem step_run {s : Session} {number : Option Nat} {p : Printer}
    (found : s.printer? number = some p) :
    (s.step (.run number)).2 = p.print.result.map .source := by
  simp only [step, found]

/-- A printer that was built prints the same at every later time. It is known by its number, and by
being the last one as long as no other is built. -/
private theorem run_after_make {s : Session} {tree : Json} {options : Option (List (Text × Json))}
    {reply : Reply} (made : (s.step (.make tree options)).2 = .ok reply) (between : List Action)
    {number : Option Nat}
    (isNumber : number = some s.kept.length ∨
      number = none ∧ ∀ action ∈ between, action.builds = false) :
    (((s.step (.make tree options)).1.after between).step (.run number)).2 =
      (s.step (.print tree options [])).2 := by
  obtain ⟨p, kept, prints⟩ := exists_printer_of_make made
  obtain ⟨more, keptAfter, quiet⟩ := exists_kept_after (s.step (.make tree options)).1 between
  have found : ((s.step (.make tree options)).1.after between).printer? number = some p := by
    rcases isNumber with rfl | ⟨rfl, none⟩
    · simp [printer?, keptAfter, kept]
    · simp [printer?, keptAfter, kept, quiet none]
  rw [step_run found, prints]

/-- From the start of a session on, the active configuration is valid; a region that is left gives
back the configuration from before it was entered; what fails or prints changes no configuration; a
printer prints the same at all times after it was built; a configuration that is asked for is active,
if it is accepted; and what prints answers with source, if it does not fail. -/
theorem configurations_stacked (before : List Action) :
    let s := ({} : Session).after before
    s.active.Valid ∧
    (∀ opener inside, opener.enters = true → Balanced inside →
      ((s.after (opener :: inside)).step .leave).1.active = s.active) ∧
    ((s.step .leave).1 = s ∨ ∃ first opener inside, EndsWithin before first opener inside) ∧
    (∀ action fault, (s.step action).2 = .error fault → (s.step action).1 = s) ∧
    (∀ action, action.prints = true → (s.step action).1.active = s.active) ∧
    (∀ tree options reply, (s.step (.make tree options)).2 = .ok reply → ∀ between number,
      (number = some s.kept.length ∨
        number = none ∧ ∀ action ∈ between, action.builds = false) →
      (((s.step (.make tree options)).1.after between).step (.run number)).2 =
        (s.step (.print tree options [])).2) ∧
    (∀ action asked, action.config? = some asked →
      (s.step action).1.active = asked.toOption.getD s.active ∧
        (s.step action).2 = asked.map fun _ => .nothing) ∧
    (∀ action reply, action.answersSource = true → (s.step action).2 = .ok reply →
      ∃ text, reply = .source text) := by
  intro s
  have valid : s.AllValid := allValid_initial.after before
  refine ⟨valid _ (List.mem_cons_self ..), ?_, ?_, ?_, ?_, ?_, ?_, ?_⟩
  · intro opener inside enters balanced
    exact (leave_restores s enters balanced).1
  · rcases outer_nil_or_endsWithin before with none | within
    · left
      have isNil : s.outer = [] := none
      simp only [step, isNil]
    · exact .inr within
  · intro action fault fails
    exact step_of_error fails
  · intro action prints
    exact active_of_prints prints
  · intro tree options reply made between number isNumber
    exact run_after_make made between isNumber
  · intro action asked asks
    exact active_of_config? asks
  · intro action reply answers ended
    exact exists_source_of_ok answers ended

def tabOptions : List (Text × Json) :=
  [("indent_unit", .str "\t")]

/-- What happens in a region: other options are set, a region in it is entered and left, and one is
refused. -/
def regionSample : List Action :=
  [.set [("use_colon", .bool true)], .enter [("preferred_quote", .str "\"")], .reset, .leave,
    .enter [("preferred_quote", .str "x")]]

private theorem regionSample_balanced : Balanced regionSample :=
  have inside : Balanced [.reset] := .quiet rfl nofun .nil
  .quiet rfl nofun (.region rfl inside (.quiet rfl nofun .nil))

def tabSession : Session :=
  ({} : Session).after [.set tabOptions]

def lineTree : Json :=
  .obj [("type", .str "Doctype"), ("val", .str "html")]

/-- A session in which a printer of a line was built. -/
def printerSession : Session × Except Fault Reply :=
  ({} : Session).step (.make lineTree none)

theorem configurations_stacked_sample :
    (Action.enters (.enter []) = true ∧ Balanced regionSample ∧
      ((tabSession.after (.enter [] :: regionSample)).step .leave).1.active = tabSession.active ∧
      tabSession.active.indentUnit.isText "\t" = true) ∧
    (∃ reply, printerSession.2 = .ok reply ∧
      ((printerSession.1.after (.set tabOptions :: regionSample)).step (.run none)).2 =
        (({} : Session).step (.print lineTree none [])).2) ∧
    (∃ asked, Action.config? (.set tabOptions) = some asked ∧
      tabSession.active = asked.toOption.getD .standard) ∧
    ∃ text, (tabSession.step (.print lineTree none [])).2 = .ok (.source text) := by
  refine ⟨⟨rfl, regionSample_balanced, ?_, rfl⟩, ⟨_, rfl, ?_⟩, ⟨_, rfl, ?_⟩, ?_⟩
  · exact (configurations_stacked [.set tabOptions]).2.1 (.enter []) regionSample rfl
      regionSample_balanced
  · exact (configurations_stacked []).2.2.2.2.2.1 _ none _ rfl _ none (.inr ⟨rfl, by decide⟩)
  · exact ((configurations_stacked []).2.2.2.2.2.2.1 (.set tabOptions) _ rfl).1
  · have ended : (tabSession.step (.print lineTree none [])).2 = .ok (.source "doctype html") := rfl
    obtain ⟨text, isText⟩ := (configurations_stacked [.set tabOptions]).2.2.2.2.2.2.2
      (.print lineTree none []) _ rfl ended
    exact ⟨text, ended.trans (congrArg _ isText)⟩

end Session

end PugPrinter
