import PugPrinter.Proofs.Constant.Evaluator

/-!
The evaluator goes forward. Whatever tokens it reads, well-formed or not, it looks at no entry behind the
mark at the end; each turn of a loop begins beyond the last one, and each call that goes back to a looser
level is made beyond the call that makes it. So no loop and no nesting of calls goes on for longer than
the tokens allow.
-/

set_option autoImplicit false

namespace PugPrinter.Constant.Evaluator

/-- The order of what is noted down during one call: turns begin one beyond the other, and so do the
calls that are made. -/
def Event.Precedes : Event → Event → Prop
  | .turn position, .turn later => position < later
  | .call _ position _, .call _ later _ => position < later
  | _, _ => True

/-- What is noted down during a call of a level at a position: turns begin beyond the position, and calls
are made beyond it or, at the position itself, of tighter levels only. -/
def Event.BelongsTo (level : Level) (start : Nat) : Event → Prop
  | .turn position => start < position
  | .call inner position _ => start < position ∨ start = position ∧ level.rank < inner.rank
  | _ => True

/-- No position of an event is beyond the last one, and whatever is noted down during calls goes
forward. -/
inductive Event.Forward (last : Nat) : Event → Prop
  | look {position : Nat} (inRange : position ≤ last) : Forward last (.look position)
  | move {position : Nat} (inRange : position ≤ last) : Forward last (.move position)
  | turn {position : Nat} (inRange : position ≤ last) : Forward last (.turn position)
  | call {level : Level} {position : Nat} {inner : List Event} (inRange : position ≤ last)
      (ordered : inner.Pairwise Event.Precedes)
      (belongs : ∀ event ∈ inner, event.BelongsTo level position)
      (forward : ∀ event ∈ inner, Forward last event) : Forward last (.call level position inner)

/-- How many calls can be nested in a call of a level at a position, that call included: eleven for each
entry that is left, less those of the looser levels. -/
def callsFrom (last : Nat) (level : Level) (position : Nat) : Nat :=
  11 * (last - position) + (11 - level.rank)

def Permits (last budget : Nat) (level : Level) (position : Nat) : Halt → Prop
  | .notConstant => True
  | .noValue => True
  | .outOfRange => False
  | .tooLong => False
  | .tooDeep => budget < callsFrom last level position

/-- How a call of a level at a position can end: beyond the position, or halted. -/
def Ends {α : Type} (last budget : Nat) (level : Level) (start : Nat) : Except Halt (α × Nat) → Prop
  | .ok (_, reached) => start < reached ∧ reached ≤ last
  | .error why => Permits last budget level start why

private theorem Permits.outer {last budget : Nat} {level inner : Level} {start position : Nat}
    {why : Halt} (permits : Permits last budget inner position why) (inRange : position ≤ last)
    (belongs : start < position ∨ start = position ∧ level.rank < inner.rank) :
    Permits last (budget + 1) level start why := by
  have low := level.rank_lt
  cases why with
  | tooDeep =>
    -- A passed entry makes room for all eleven levels, a tighter level at the same entry for one.
    unfold Permits callsFrom at permits ⊢
    rcases belongs with beyond | ⟨rfl, tighter⟩
    · omega
    · omega
  | _ => exact permits

def Event.IsFrom (turns calls : Nat) : Event → Prop
  | .turn position => turns ≤ position
  | .call _ position _ => calls ≤ position
  | _ => True

/-- What is left of a call of a level: what is noted down belongs to the call and goes forward, turns
begin and calls are made from given positions on, and it ends as the call can. -/
structure Inside (last budget : Nat) (level : Level) (start turns calls : Nat) {α : Type}
    (outcome : Outcome α) : Prop where
  ordered : outcome.events.Pairwise Event.Precedes
  belongs : ∀ event ∈ outcome.events, event.BelongsTo level start
  forward : ∀ event ∈ outcome.events, event.Forward last
  isFrom : ∀ event ∈ outcome.events, event.IsFrom turns calls
  ends : Ends last budget level start outcome.result

/-- A reading is a call of a level: it notes down one call, which goes forward, and ends as a call can. -/
def IsCall (last budget : Nat) (level : Level) (reading : Reading Value) : Prop :=
  ∀ position ≤ last, ∃ inner, (reading position).events = [.call level position inner] ∧
    (Event.call level position inner).Forward last ∧
    Ends last budget level position (reading position).result

namespace Inside

open Reading

variable {tokens : List Token} {budget : Nat} {level : Level} {start turns calls position : Nat}
  {α β : Type}

section Notes

variable {last : Nat} {event : Event} {events : List Event} {result : Except Halt (α × Nat)}

private theorem cons {laterTurns laterCalls : Nat}
    (inside : Inside last budget level start laterTurns laterCalls (⟨events, result⟩ : Outcome α))
    (belongs : event.BelongsTo level start) (forward : event.Forward last)
    (isFrom : event.IsFrom turns calls)
    (later : ∀ other : Event, other.IsFrom laterTurns laterCalls →
      event.Precedes other ∧ other.IsFrom turns calls) :
    Inside last budget level start turns calls (⟨event :: events, result⟩ : Outcome α) where
  ordered := List.pairwise_cons.mpr
    ⟨fun other member => (later other (inside.isFrom other member)).1, inside.ordered⟩
  belongs := List.forall_mem_cons.mpr ⟨belongs, inside.belongs⟩
  forward := List.forall_mem_cons.mpr ⟨forward, inside.forward⟩
  isFrom := List.forall_mem_cons.mpr
    ⟨isFrom, fun other member => (later other (inside.isFrom other member)).2⟩
  ends := inside.ends

variable (inside : Inside last budget level start turns calls (⟨events, result⟩ : Outcome α))

include inside

private theorem cons_look (inRange : position ≤ last) :
    Inside last budget level start turns calls (⟨.look position :: events, result⟩ : Outcome α) :=
  inside.cons trivial (.look inRange) trivial fun _ isFrom => ⟨trivial, isFrom⟩

private theorem cons_move (inRange : position ≤ last) :
    Inside last budget level start turns calls (⟨.move position :: events, result⟩ : Outcome α) :=
  inside.cons trivial (.move inRange) trivial fun _ isFrom => ⟨trivial, isFrom⟩

end Notes

private theorem of_ends {last : Nat} {result : Except Halt (α × Nat)}
    (ends : Ends last budget level start result) :
    Inside last budget level start turns calls (⟨[], result⟩ : Outcome α) where
  ordered := .nil
  belongs := fun _ member => nomatch member
  forward := fun _ member => nomatch member
  isFrom := fun _ member => nomatch member
  ends := ends

private theorem pure {a : α} (beyond : start < position) (inRange : position ≤ tokens.length) :
    Inside tokens.length budget level start turns calls ((Pure.pure a : Reading α) position) :=
  of_ends ⟨beyond, inRange⟩

private theorem halt {why : Halt} (permits : Permits tokens.length budget level start why) :
    Inside tokens.length budget level start turns calls (⟨[], .error why⟩ : Outcome α) :=
  of_ends permits

private theorem refuse :
    Inside tokens.length budget level start turns calls (⟨[], .error .notConstant⟩ : Outcome α) :=
  of_ends trivial

private theorem map {first : Reading α} {f : α → β}
    (inside : Inside tokens.length budget level start turns calls (first position)) :
    Inside tokens.length budget level start turns calls
      ((first >>= fun a => Pure.pure (f a)) position) := by
  cases isFirst : first position with
  | mk events result =>
    rw [isFirst] at inside
    obtain ⟨ordered, belongs, forward, isFrom, ends⟩ := inside
    cases result with
    | ok found =>
      rw [bind_of_ok isFirst]
      simp only [Pure.pure, done, List.append_nil]
      exact ⟨ordered, belongs, forward, isFrom, ends⟩
    | error why =>
      rw [bind_of_error isFirst]
      exact ⟨ordered, belongs, forward, isFrom, ends⟩

variable {rest : α → Reading β}

private theorem compute {value? : Option α}
    (goesOn : ∀ value, Inside tokens.length budget level start turns calls (rest value position)) :
    Inside tokens.length budget level start turns calls ((Reading.compute value? >>= rest) position) := by
  cases value? with
  | none => exact of_ends trivial
  | some value => exact goesOn value

theorem look {rest : Entry → Reading β} (inRange : position ≤ tokens.length)
    (goesOn : Inside tokens.length budget level start turns calls
      (rest (entryAt tokens position) position)) :
    Inside tokens.length budget level start turns calls
      ((peek (entriesOf tokens) >>= rest) position) := by
  rw [bind_of_ok (peek_eq inRange)]
  exact goesOn.cons_look inRange

private theorem advance {rest : Unit → Reading β} (inRange : position < tokens.length)
    (goesOn : Inside tokens.length budget level start turns calls (rest () (position + 1))) :
    Inside tokens.length budget level start turns calls ((Reading.advance >>= rest) position) :=
  goesOn.cons_move inRange

private theorem next {rest : Entry → Reading β} (inRange : position ≤ tokens.length)
    (passed : ∀ token, position < tokens.length →
      Inside tokens.length budget level start turns calls (rest (.token token) (position + 1)))
    (finished : Inside tokens.length budget level start turns calls (rest .finish position)) :
    Inside tokens.length budget level start turns calls
      ((Reading.next (entriesOf tokens) >>= rest) position) := by
  rcases Nat.lt_or_eq_of_le inRange with before | atEnd
  · rw [bind_of_ok (next_of_token (List.getElem?_eq_getElem before))]
    exact ((passed _ before).cons_move before).cons_look inRange
  · rw [bind_of_ok (next_of_finish atEnd)]
    exact finished.cons_look inRange

private theorem accept {rest : Bool → Reading β} {s : Symbol} (inRange : position ≤ tokens.length)
    (passed : position < tokens.length →
      Inside tokens.length budget level start turns calls (rest true (position + 1)))
    (refused : Inside tokens.length budget level start turns calls (rest false position)) :
    Inside tokens.length budget level start turns calls
      ((Reading.accept (entriesOf tokens) s >>= rest) position) := by
  by_cases found : tokens[position]? = some (.symbol s)
  · have before := (List.getElem?_eq_some_iff.mp found).1
    rw [bind_of_ok (accept_of_eq found)]
    exact ((passed before).cons_move before).cons_look inRange
  · rw [bind_of_ok (accept_of_ne inRange found)]
    exact refused.cons_look inRange

private theorem expect {rest : Unit → Reading β} {s : Symbol} (inRange : position ≤ tokens.length)
    (passed : position < tokens.length →
      Inside tokens.length budget level start turns calls (rest () (position + 1))) :
    Inside tokens.length budget level start turns calls
      ((Reading.expect (entriesOf tokens) s >>= rest) position) := by
  rw [Reading.expect, bind_assoc]
  exact accept inRange passed refuse

theorem turn {rest : Unit → Reading β} (inRange : position ≤ tokens.length)
    (beyond : start < position) (isFrom : turns ≤ position)
    (goesOn : Inside tokens.length budget level start (position + 1) calls (rest () position)) :
    Inside tokens.length budget level start turns calls ((Reading.turn >>= rest) position) := by
  refine goesOn.cons beyond (.turn inRange) isFrom fun other later => ?_
  cases other with
  | turn next => exact ⟨later, Nat.le_trans isFrom (Nat.le_of_succ_le later)⟩
  | _ => exact ⟨trivial, later⟩

private theorem called {operand : Reading Value} {rest : Value → Reading β} {inner : Level}
    (isCall : IsCall tokens.length budget inner operand) (inRange : position ≤ tokens.length)
    (isFrom : calls ≤ position)
    (belongs : start < position ∨ start = position ∧ level.rank < inner.rank)
    (goesOn : ∀ value reached, position < reached → reached ≤ tokens.length →
      Inside tokens.length (budget + 1) level start turns (position + 1) (rest value reached)) :
    Inside tokens.length (budget + 1) level start turns calls ((operand >>= rest) position) := by
  obtain ⟨events, noted, forward, ends⟩ := isCall position inRange
  have later (other : Event) (isLater : other.IsFrom turns (position + 1)) :
      (Event.call inner position events).Precedes other ∧ other.IsFrom turns calls := by
    cases other with
    | call _ next => exact ⟨isLater, Nat.le_trans isFrom (Nat.le_of_succ_le isLater)⟩
    | _ => exact ⟨trivial, isLater⟩
  cases isOutcome : operand position with
  | mk allEvents result =>
    rw [isOutcome] at noted ends
    subst noted
    cases result with
    | ok found =>
      rw [bind_of_ok isOutcome]
      exact (goesOn _ _ ends.1 ends.2).cons belongs forward isFrom later
    | error why =>
      rw [bind_of_error isOutcome]
      exact (halt (ends.outer inRange belongs)).cons belongs forward isFrom later

private theorem calledLast {operand : Reading Value} {inner : Level}
    (isCall : IsCall tokens.length budget inner operand) (inRange : position ≤ tokens.length)
    (isFrom : calls ≤ position)
    (belongs : start < position ∨ start = position ∧ level.rank < inner.rank) :
    Inside tokens.length (budget + 1) level start turns calls (operand position) := by
  rw [← bind_pure operand]
  exact called isCall inRange isFrom belongs fun value reached later reachedInRange =>
    pure (by omega) reachedInRange

private theorem computeLast {value? : Option α} (beyond : start < position)
    (inRange : position ≤ tokens.length) :
    Inside tokens.length budget level start turns calls (Reading.compute value? position) := by
  rw [← bind_pure (Reading.compute value?)]
  exact compute fun _ => pure beyond inRange

end Inside

section Calls

open Reading

variable {tokens : List Token} {budget bound : Nat} {level : Level} {start : Nat}
  {operand : Reading Value}

private theorem operands_inside (isCall : IsCall tokens.length budget level.next operand)
    {fuel : Nat} {left : Value} {turns calls position : Nat} (fresh : turns ≤ position)
    (freshCalls : calls ≤ position) (beyond : start < position) (inRange : position ≤ tokens.length)
    (enough : tokens.length < fuel + position) :
    Inside tokens.length (budget + 1) level start turns calls
      (operands (entriesOf tokens) operand level fuel left position) := by
  -- Each turn passes an operator and an operand, so the next one begins beyond it, and there are no
  -- more turns than entries.
  -- What is left of the bound is more than the entries that are left, so it is never used up.
  induction fuel generalizing left turns calls position with
  | zero => omega
  | succ fuel ih =>
    unfold operands
    refine .turn inRange beyond fresh (.look inRange ?_)
    cases joins : operatorAt? level (entryAt tokens position) with
    | none => exact .pure beyond inRange
    | some op =>
      have before : position < tokens.length := lt_length_of_entryAt fun finished => by
        rw [finished] at joins
        cases joins
      refine .advance before (.called isCall before (by omega) (.inl (by omega)) ?_)
      intro right reached later reachedInRange
      exact .compute fun value => ih (by omega) (by omega) (by omega) reachedInRange (by omega)

private theorem items_inside (isCall : IsCall tokens.length budget .conditional operand)
    {fuel : Nat} {turns calls position : Nat} (fresh : turns ≤ position)
    (freshCalls : calls ≤ position)
    (beyond : start < position) (inRange : position ≤ tokens.length)
    (enough : tokens.length < fuel + position) :
    Inside tokens.length (budget + 1) level start turns calls
      (items (entriesOf tokens) operand fuel position) := by
  induction fuel generalizing turns calls position with
  | zero => omega
  | succ fuel ih =>
    unfold items
    refine .turn inRange beyond fresh (.accept inRange ?_ (.accept inRange ?_ ?_))
    · exact fun before => .pure (by omega) before
    · exact fun before => .map (ih (by omega) (by omega) (by omega) before (by omega))
    · refine .called isCall inRange freshCalls (.inl beyond) ?_
      intro first reached later reachedInRange
      refine .accept reachedInRange ?_ (.expect reachedInRange ?_)
      · exact fun before => .map (ih (by omega) (by omega) (by omega) before (by omega))
      · exact fun before => .pure (by omega) before

private theorem fields_inside (isCall : IsCall tokens.length budget .conditional operand)
    {fuel : Nat} {set : List (Text × Value)} {turns calls position : Nat} (fresh : turns ≤ position)
    (freshCalls : calls ≤ position) (beyond : start < position) (inRange : position ≤ tokens.length)
    (enough : tokens.length < fuel + position) :
    Inside tokens.length (budget + 1) level start turns calls
      (fields (entriesOf tokens) operand fuel set position) := by
  induction fuel generalizing set turns calls position with
  | zero => omega
  | succ fuel ih =>
    unfold fields
    refine .turn inRange beyond fresh (.accept inRange ?_ (.next inRange ?_ ?_))
    · exact fun before => .pure (by omega) before
    · intro token before
      cases isKey : keyAt? (.token token) with
      | none => exact .refuse
      | some key =>
        refine .expect before fun beforeColon => ?_
        refine .called isCall beforeColon (by omega) (.inl (by omega)) ?_
        intro value reached later reachedInRange
        refine .compute fun name => .accept reachedInRange ?_ (.expect reachedInRange ?_)
        · exact fun beforeComma => ih (by omega) (by omega) (by omega) beforeComma (by omega)
        · exact fun beforeBrace => .pure (by omega) beforeBrace
    · exact .refuse

private theorem isCall_call {last : Nat} {body : Reading Value}
    (inside : ∀ position ≤ last,
      Inside last budget level position position position (body position)) :
    IsCall last budget level (call level body) := by
  intro position inRange
  obtain ⟨ordered, belongs, forward, -, ends⟩ := inside position inRange
  exact ⟨_, rfl, .call inRange ordered belongs forward, ends⟩

section Levels

variable (calls : ∀ inner,
  IsCall tokens.length budget inner (evaluate (entriesOf tokens) bound budget inner))

include calls

private theorem evaluate_conditional_isCall :
    IsCall tokens.length (budget + 1) .conditional
      (evaluate (entriesOf tokens) bound (budget + 1) .conditional) := by
  refine isCall_call fun position inRange => ?_
  refine .called (calls .nullish) inRange (Nat.le_refl _) (.inr ⟨rfl, by decide⟩) ?_
  intro test afterTest laterTest inRangeTest
  refine .accept inRangeTest (fun before => ?_) (.pure laterTest inRangeTest)
  refine .called (calls .conditional) before (by omega) (.inl (by omega)) ?_
  intro yes afterYes laterYes inRangeYes
  refine .expect inRangeYes fun beforeColon => ?_
  refine .called (calls .conditional) beforeColon (by omega) (.inl (by omega)) ?_
  exact fun no afterNo laterNo inRangeNo => .pure (by omega) inRangeNo

private theorem evaluate_exponent_isCall :
    IsCall tokens.length (budget + 1) .exponent
      (evaluate (entriesOf tokens) bound (budget + 1) .exponent) := by
  refine isCall_call fun position inRange => ?_
  refine .called (calls .unary) inRange (Nat.le_refl _) (.inr ⟨rfl, by decide⟩) ?_
  intro base afterBase laterBase inRangeBase
  refine .accept inRangeBase (fun before => ?_) (.pure laterBase inRangeBase)
  refine .called (calls .exponent) before (by omega) (.inl (by omega)) ?_
  intro power afterPower laterPower inRangePower
  exact .computeLast (by omega) inRangePower

private theorem evaluate_unary_isCall :
    IsCall tokens.length (budget + 1) .unary
      (evaluate (entriesOf tokens) bound (budget + 1) .unary) := by
  refine isCall_call fun position inRange => .look inRange ?_
  cases applies : unaryAt? (entryAt tokens position) with
  | none =>
    exact .calledLast (calls .primary) inRange (Nat.le_refl _) (.inr ⟨rfl, by decide⟩)
  | some op =>
    have before : position < tokens.length := lt_length_of_entryAt fun finished => by
      rw [finished] at applies
      cases applies
    refine .advance before (.called (calls .unary) before (by omega) (.inl (by omega)) ?_)
    intro operand reached later reachedInRange
    exact .computeLast (by omega) reachedInRange

private theorem evaluate_primary_isCall (enough : tokens.length < bound) :
    IsCall tokens.length (budget + 1) .primary
      (evaluate (entriesOf tokens) bound (budget + 1) .primary) := by
  refine isCall_call fun position inRange => .next inRange (fun token before => ?_) .refuse
  have beyond : position < position + 1 := Nat.lt_succ_self _
  cases token with
  | literal value => exact .pure beyond before
  | name text =>
    dsimp only
    cases isWord : Keyword.ofName? text with
    | none => exact .refuse
    | some word => exact .pure beyond before
  | symbol s =>
    cases s with
    | openParen =>
      refine .called (calls .conditional) before (by omega) (.inl beyond) ?_
      intro inner reached later reachedInRange
      exact .expect reachedInRange fun beforeClose => .pure (by omega) beforeClose
    | openBracket =>
      exact .map (items_inside (calls .conditional) (by omega) (by omega) beyond before (by omega))
    | openBrace =>
      exact .map (fields_inside (calls .conditional) (by omega) (by omega) beyond before (by omega))
    | _ => exact .refuse

private theorem evaluate_groupsLeft_isCall (level : Level) (tighter : level.rank < level.next.rank)
    (enough : tokens.length < bound) :
    IsCall tokens.length (budget + 1) level (call level do
      let left ← evaluate (entriesOf tokens) bound budget level.next
      operands (entriesOf tokens) (evaluate (entriesOf tokens) bound budget level.next) level bound
        left) := by
  refine isCall_call fun position inRange => ?_
  refine .called (calls level.next) inRange (Nat.le_refl _) (.inr ⟨rfl, tighter⟩) ?_
  intro left reached later reachedInRange
  exact operands_inside (calls level.next) (by omega) (by omega) later reachedInRange (by omega)

end Levels

/-- Whatever the tokens are, the evaluator calls a level as a call can be. -/
theorem evaluate_isCall (enough : tokens.length < bound) (budget : Nat) (level : Level) :
    IsCall tokens.length budget level (evaluate (entriesOf tokens) bound budget level) := by
  -- By induction on the budget: a call spends one of it on whatever it calls.
  induction budget generalizing level with
  | zero =>
    have low := level.rank_lt
    unfold evaluate
    refine isCall_call fun position inRange => .halt ?_
    unfold Permits callsFrom
    omega
  | succ budget ih =>
    cases level with
    | conditional => exact evaluate_conditional_isCall ih
    | exponent => exact evaluate_exponent_isCall ih
    | unary => exact evaluate_unary_isCall ih
    | primary => exact evaluate_primary_isCall ih enough
    | _ => exact evaluate_groupsLeft_isCall ih _ (by decide) enough

end Calls

end PugPrinter.Constant.Evaluator
