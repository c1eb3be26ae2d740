import PugPrinter.Run

/-!
Laws of runs. One run after another puts out the items of both as long as the first ends well,
changing the items one by one does not change how a run ends, and a run in parts can only be stopped
by what stops one of the parts.
-/

set_option autoImplicit false

namespace PugPrinter.Run

variable {ω ω' α β : Type}

theorem bind_def (first : Run ω α) (next : α → Run ω β) : first >>= next = first.andThen next := rfl

theorem bind_result_eq_ok_iff (first : Run ω α) (next : α → Run ω β) (b : β) :
    (first >>= next).result = .ok b ↔
      ∃ a, first.result = .ok a ∧ (next a).result = .ok b := by
  rcases first with ⟨out, _ | a⟩ <;> simp [bind_def, andThen]

theorem bind_out_of_ok {first : Run ω α} {a : α} (ended : first.result = .ok a)
    (next : α → Run ω β) : (first >>= next).out = first.out ++ (next a).out := by
  simp [bind_def, andThen, ended]

theorem prefix_bind (first : Run ω α) (next : α → Run ω β) : first.out <+: (first >>= next).out := by
  cases ended : first.result <;> simp [bind_def, andThen, ended]

theorem bind_assoc {γ : Type} (first : Run ω α) (next : α → Run ω β) (last : β → Run ω γ) :
    first >>= next >>= last = first >>= fun a => next a >>= last := by
  rcases first with ⟨out, _ | a⟩
  · rfl
  · rcases ended : next a with ⟨more, _ | b⟩ <;> simp [bind_def, andThen, ended]

theorem pure_bind (a : α) (next : α → Run ω β) : pure a >>= next = next a := by
  simp [bind_def, andThen, pure, done]

theorem ofExcept_map (f : α → β) (result : Except Fault α) :
    (ofExcept (result.map f) : Run ω β) = ofExcept result >>= fun a => pure (f a) := by
  cases result <;> rfl

@[simp] theorem mapOut_bind (f : ω → ω') (first : Run ω α) (next : α → Run ω β) :
    (first >>= next).mapOut f = first.mapOut f >>= fun a => (next a).mapOut f := by
  rcases first with ⟨out, _ | a⟩ <;> simp [bind_def, andThen, mapOut]

@[simp] theorem mapOut_out (f : ω → ω') (run : Run ω α) :
    (run.mapOut f).out = run.out.map f := rfl

def FailsOnly (allowed : Fault → Prop) (run : Run ω α) : Prop :=
  ∀ fault, run.result = .error fault → allowed fault

variable {allowed : Fault → Prop}

theorem FailsOnly.bind {first : Run ω α} {next : α → Run ω β} (firstOnly : first.FailsOnly allowed)
    (nextOnly : ∀ a, first.result = .ok a → (next a).FailsOnly allowed) :
    (first >>= next).FailsOnly allowed := by
  intro fault stopped
  cases ended : first.result with
  | error cause =>
    have same : cause = fault := by simpa [bind_def, andThen, ended] using stopped
    exact same ▸ firstOnly cause ended
  | ok a =>
    have later : (next a).result = .error fault := by
      simpa [bind_def, andThen, ended] using stopped
    exact nextOnly a ended fault later

theorem failsOnly_of_ok {run : Run ω α} {a : α} (ended : run.result = .ok a) :
    run.FailsOnly allowed := by
  intro fault stopped
  rw [ended] at stopped
  cases stopped

theorem failsOnly_pure (a : α) : (pure a : Run ω α).FailsOnly allowed :=
  failsOnly_of_ok rfl

theorem failsOnly_put (items : List ω) : (put items).FailsOnly allowed :=
  failsOnly_of_ok rfl

theorem failsOnly_fail {fault : Fault} (can : allowed fault) :
    (fail fault : Run ω α).FailsOnly allowed := by
  intro other stopped
  cases stopped
  exact can

theorem FailsOnly.mapOut {run : Run ω α} (only : run.FailsOnly allowed) (f : ω → ω') :
    (run.mapOut f).FailsOnly allowed := only

theorem FailsOnly.ite {c : Prop} [Decidable c] {yes no : Run ω α}
    (yesOnly : c → yes.FailsOnly allowed) (noOnly : ¬ c → no.FailsOnly allowed) :
    (if c then yes else no).FailsOnly allowed := by
  split
  · exact yesOnly ‹c›
  · exact noOnly ‹¬ c›

/-- A run that puts out only items of a sort, and ends with a value of a sort, if it ends well. -/
structure Yields (P : ω → Prop) (Q : α → Prop) (run : Run ω α) : Prop where
  out : ∀ item ∈ run.out, P item
  value : ∀ a, run.result = .ok a → Q a

variable {P : ω → Prop} {Q : α → Prop} {R : β → Prop}

theorem Yields.bind {first : Run ω α} {next : α → Run ω β} (begins : first.Yields P Q)
    (goesOn : ∀ a, Q a → (next a).Yields P R) : (first >>= next).Yields P R := by
  cases ended : first.result with
  | error fault =>
    refine ⟨fun item mem => begins.out item ?_, fun b yields => ?_⟩
    · simpa [bind_def, andThen, ended] using mem
    · simp [bind_def, andThen, ended] at yields
  | ok a =>
    have later := goesOn a (begins.value a ended)
    refine ⟨?_, fun b yields => ?_⟩
    · rw [bind_out_of_ok ended]
      exact List.forall_mem_append.mpr ⟨begins.out, later.out⟩
    · obtain ⟨a', ended', yields⟩ := (bind_result_eq_ok_iff _ _ _).mp yields
      rw [ended] at ended'
      cases ended'
      exact later.value b yields

theorem yields_pure {a : α} (holds : Q a) : (pure a : Run ω α).Yields P Q :=
  ⟨nofun, fun b same => by cases same; exact holds⟩

theorem yields_fail (fault : Fault) : (fail fault : Run ω α).Yields P Q :=
  ⟨nofun, nofun⟩

theorem yields_ofExcept {result : Except Fault α} (holds : ∀ a, result = .ok a → Q a) :
    (ofExcept result : Run ω α).Yields P Q :=
  ⟨nofun, holds⟩

theorem Yields.ite {c : Prop} [Decidable c] {yes no : Run ω α} (yesYields : c → yes.Yields P Q)
    (noYields : ¬ c → no.Yields P Q) : (if c then yes else no).Yields P Q := by
  split
  · exact yesYields ‹c›
  · exact noYields ‹¬ c›

end PugPrinter.Run
