import PugPrinter.Proofs.Constant.Evaluation

/-!
What a whole run of the evaluator needs. Less budget only cuts a run short, and a budget that grows with
the number of tokens is always enough. Main statement: a run goes forward within the tokens, ends on every
input, and comes to the value of the parsed expression.
-/

set_option autoImplicit false

namespace PugPrinter.Constant.Evaluator

open Reading

variable {α β : Type}

def CutShort (reading full : Reading α) : Prop :=
  ∀ position, (reading position).result = .error .tooDeep ∨ reading position = full position

namespace CutShort

private theorem refl (reading : Reading α) : CutShort reading reading :=
  fun _ => .inr rfl

private theorem bind {first full : Reading α} {rest fullRest : α → Reading β}
    (cut : CutShort first full)
    (restCut : ∀ a, CutShort (rest a) (fullRest a)) : CutShort (first >>= rest) (full >>= fullRest) := by
  intro position
  cases isFirst : first position with
  | mk events result =>
    have atFirst := cut position
    rw [isFirst] at atFirst
    rcases atFirst with short | same
    · subst short
      exact .inl (by rw [bind_of_error isFirst])
    · cases result with
      | error why => exact .inr (by rw [bind_of_error isFirst, bind_of_error same.symm])
      | ok found =>
        rw [bind_of_ok isFirst, bind_of_ok same.symm]
        exact (restCut found.1 found.2).imp_right fun sameRest => by rw [sameRest]

private theorem call {level : Level} {body full : Reading α} (cut : CutShort body full) :
    CutShort (Reading.call level body) (Reading.call level full) := by
  intro position
  refine (cut position).imp_right fun same => ?_
  rw [Reading.call, Reading.call, same]

private theorem ite {condition : Bool} {passing other fullPassing fullOther : Reading α}
    (cutPassing : CutShort passing fullPassing) (cutOther : CutShort other fullOther) :
    CutShort (if condition then passing else other) (if condition then fullPassing else fullOther) := by
  cases condition with
  | true => exact cutPassing
  | false => exact cutOther

private theorem halted {level : Level} {full : Reading α} :
    CutShort (Reading.call level (halt .tooDeep)) full :=
  fun _ => .inl rfl

end CutShort

section Loops

variable {entries : List Entry} {operand full : Reading Value} (cut : CutShort operand full)

include cut

private theorem operands_cutShort (level : Level) (fuel : Nat) (left : Value) :
    CutShort (operands entries operand level fuel left) (operands entries full level fuel left) := by
  induction fuel generalizing left with
  | zero => exact .refl _
  | succ fuel ih =>
    unfold operands
    refine .bind (.refl _) fun _ => .bind (.refl _) fun entry => ?_
    cases operatorAt? level entry with
    | none => exact .refl _
    | some op => exact .bind (.refl _) fun _ => .bind cut fun _ => .bind (.refl _) fun value => ih value

private theorem items_cutShort (fuel : Nat) :
    CutShort (items entries operand fuel) (items entries full fuel) := by
  induction fuel with
  | zero => exact .refl _
  | succ fuel ih =>
    have more (f : List Value → List Value) : CutShort (do return f (← items entries operand fuel))
        (do return f (← items entries full fuel)) := .bind ih fun _ => .refl _
    unfold items
    refine .bind (.refl _) fun _ => .bind (.refl _) fun closed => .ite (.refl _) ?_
    refine .bind (.refl _) fun hole => .ite (more _) ?_
    exact .bind cut fun _ => .bind (.refl _) fun goesOn => .ite (more _) (.refl _)

private theorem fields_cutShort (fuel : Nat) (set : List (Text × Value)) :
    CutShort (fields entries operand fuel set) (fields entries full fuel set) := by
  induction fuel generalizing set with
  | zero => exact .refl _
  | succ fuel ih =>
    unfold fields
    refine .bind (.refl _) fun _ => .bind (.refl _) fun closed => .ite (.refl _) ?_
    refine .bind (.refl _) fun entry => ?_
    cases keyAt? entry with
    | none => exact .refl _
    | some key =>
      refine .bind (.refl _) fun _ => .bind cut fun _ => .bind (.refl _) fun _ => ?_
      exact .bind (.refl _) fun goesOn => .ite (ih _) (.refl _)

end Loops

private theorem evaluate_cutShort (entries : List Entry) (bound budget more : Nat) (level : Level) :
    CutShort (evaluate entries bound budget level) (evaluate entries bound (budget + more) level) := by
  -- Both take the same steps; they part only where the smaller budget has run out.
  induction budget generalizing level with
  | zero =>
    rw [evaluate]
    exact .halted
  | succ budget ih =>
    rw [Nat.succ_add]
    cases level with
    | conditional =>
      rw [evaluate, evaluate]
      refine .call (.bind (ih _) fun _ => .bind (.refl _) fun asks => .ite ?_ (.refl _))
      exact .bind (ih _) fun _ => .bind (.refl _) fun _ => .bind (ih _) fun _ => .refl _
    | exponent =>
      rw [evaluate, evaluate]
      refine .call (.bind (ih _) fun _ => .bind (.refl _) fun raises => .ite ?_ (.refl _))
      exact .bind (ih _) fun _ => .refl _
    | unary =>
      rw [evaluate, evaluate]
      refine .call (.bind (.refl _) fun entry => ?_)
      cases unaryAt? entry with
      | none => exact ih _
      | some op => exact .bind (.refl _) fun _ => .bind (ih _) fun _ => .refl _
    | primary =>
      rw [evaluate, evaluate]
      refine .call (.bind (.refl _) fun entry => ?_)
      rcases entry with ⟨_ | _ | s⟩ | _
      · exact .refl _
      · exact .refl _
      · cases s with
        | openParen => exact .bind (ih _) fun _ => .refl _
        | openBracket => exact .bind (items_cutShort (ih _) _) fun _ => .refl _
        | openBrace => exact .bind (fields_cutShort (ih _) _ _) fun _ => .refl _
        | _ => exact .refl _
      · exact .refl _
    | _ =>
      unfold evaluate
      exact .call (.bind (ih _) fun _ => operands_cutShort (ih _) _ _ _)

def Outcome.value? (outcome : Outcome α) : Option α :=
  outcome.result.toOption.map Prod.fst

/-- A run over tokens within a budget, from the first one. -/
def runWithin (tokens : List Token) (budget : Nat) : Outcome Value :=
  run (entriesOf tokens) budget 0

/-- A run over tokens with as much budget as calls can be nested. -/
def fullRun (tokens : List Token) : Outcome Value :=
  runWithin tokens (callsFrom tokens.length .conditional 0)

section Run

variable (tokens : List Token) (budget : Nat)

private theorem runWithin_forward :
    (∀ event ∈ (runWithin tokens budget).events, event.Forward tokens.length) ∧
      Ends tokens.length budget .conditional 0 (runWithin tokens budget).result := by
  have enough : tokens.length < (entriesOf tokens).length := by
    rw [length_entriesOf]
    exact Nat.lt_succ_self _
  obtain ⟨inner, noted, forward, ends⟩ :=
    evaluate_isCall enough budget .conditional 0 (Nat.zero_le _)
  cases isOutcome : evaluate (entriesOf tokens) (entriesOf tokens).length budget .conditional 0 with
  | mk events result =>
    rw [isOutcome] at noted ends
    subst noted
    cases result with
    | error why =>
      rw [runWithin, run, bind_of_error isOutcome]
      exact ⟨List.forall_mem_singleton.mpr forward, ends⟩
    | ok found =>
      have looked : ∀ event ∈ [Event.call .conditional 0 inner, .look found.2],
          event.Forward tokens.length :=
        List.forall_mem_cons.mpr ⟨forward, List.forall_mem_singleton.mpr (.look ends.2)⟩
      rw [runWithin, run, bind_of_ok isOutcome, bind_of_ok (peek_eq ends.2)]
      cases entryAt tokens found.2 with
      | finish => exact ⟨looked, ends⟩
      | token token => exact ⟨looked, trivial⟩

private theorem runWithin_value? : (runWithin tokens budget).value? =
    (Grammar.parse? tokens budget).bind Expr.eval := by
  have agrees := evaluate_agrees (Nat.lt_succ_self tokens.length) budget .conditional 0
    (Nat.zero_le _)
  rw [List.drop_zero] at agrees
  rw [runWithin, run, length_entriesOf, Grammar.parse?]
  cases isOutcome : evaluate (entriesOf tokens) (tokens.length + 1) budget .conditional 0 with
  | mk events result =>
    rw [isOutcome] at agrees
    revert agrees
    generalize Grammar.expression (tokens.length + 1) budget .conditional tokens = parsed
    intro agrees
    cases agrees with
    | found isValue inRange =>
      -- The value stands if the mark follows; a token too many spoils both the run and the parse.
      rw [bind_of_ok isOutcome, bind_of_ok (peek_eq inRange)]
      rcases entry_cases inRange with ⟨-, finished, starts⟩ | ⟨token, -, -, here, starts⟩
      · rw [finished, starts]
        exact isValue.symm
      · rw [here, starts]
        rfl
    | halted valueless =>
      rw [bind_of_error isOutcome]
      split
      · exact (valueless _ rfl).symm
      · rfl

private theorem run_cutShort (entries : List Entry) (budget more : Nat) :
    CutShort (run entries budget) (run entries (budget + more)) :=
  .bind (evaluate_cutShort entries _ budget more .conditional) fun _ => .refl _

private theorem fullRun_result_ne : (fullRun tokens).result ≠ .error .tooDeep := by
  intro short
  have ends := (runWithin_forward tokens (callsFrom tokens.length .conditional 0)).2
  rw [fullRun] at short
  rw [short] at ends
  exact Nat.lt_irrefl _ ends

private theorem runWithin_eq_fullRun : runWithin tokens budget = fullRun tokens ∨
    budget < callsFrom tokens.length .conditional 0 ∧
      (runWithin tokens budget).result = .error .tooDeep := by
  rcases Nat.lt_or_ge budget (callsFrom tokens.length .conditional 0) with less | enough
  · obtain ⟨more, isMore⟩ := Nat.exists_eq_add_of_le (Nat.le_of_lt less)
    rcases run_cutShort (entriesOf tokens) budget more 0 with short | same
    · exact .inr ⟨less, short⟩
    · rw [← isMore] at same
      exact .inl same
  · obtain ⟨more, rfl⟩ := Nat.exists_eq_add_of_le enough
    rcases run_cutShort (entriesOf tokens) (callsFrom tokens.length .conditional 0) more 0
      with short | same
    · exact absurd short (fullRun_result_ne tokens)
    · exact .inl same.symm

end Run

/-- Whatever the tokens are, every run over them goes forward within them: no entry is looked at that is
not there, the position is never beyond the mark at the end, each turn of a loop begins beyond the one
before, and each call that goes back to a looser level is made beyond the calls that it is nested in. So
loops end and calls are nested only so deeply, on every input: more budget than that changes nothing, and
less can only cut a run short. Runs come to the values of the parsed expressions. -/
theorem run_goesForward (tokens : List Token) :
    (∀ budget : Nat,
      (∀ event ∈ (runWithin tokens budget).events, event.Forward tokens.length) ∧
      Ends tokens.length budget .conditional 0 (runWithin tokens budget).result ∧
      (runWithin tokens budget = fullRun tokens ∨
        budget < callsFrom tokens.length .conditional 0 ∧
          (runWithin tokens budget).result = .error .tooDeep) ∧
      (runWithin tokens budget).value? = (Grammar.parse? tokens budget).bind Expr.eval) ∧
    (fullRun tokens).result ≠ .error .tooDeep :=
  ⟨fun budget => ⟨(runWithin_forward tokens budget).1, (runWithin_forward tokens budget).2,
      runWithin_eq_fullRun tokens budget, runWithin_value? tokens budget⟩,
    fullRun_result_ne tokens⟩

/-- The tokens of an array that is cut off: `[1,`. -/
def cutOffArray : List Token :=
  [.symbol .openBracket, .literal (.num (.int 1)), .symbol .comma]

theorem run_goesForward_cutOff :
    (fullRun cutOffArray).result = .error .notConstant ∧
      ∃ inner, (fullRun cutOffArray).events = [.call .conditional 0 inner] ∧
        (Event.call .conditional 0 inner).Forward 3 := by
  have noted : (fullRun cutOffArray).events = [.call .conditional 0 _] := rfl
  have goesForward := ((run_goesForward cutOffArray).1 (callsFrom 3 .conditional 0)).1
  exact ⟨rfl, _, noted, goesForward _ (List.mem_singleton.mpr rfl)⟩

end PugPrinter.Constant.Evaluator
