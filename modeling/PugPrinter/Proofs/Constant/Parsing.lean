import PugPrinter.Proofs.Constant.Unambiguous

/-!
The parser of constant expressions against the grammar. Whatever it takes off a list of tokens is
spelled by a phrase within its budget, and it takes every such phrase off when what follows does not
go on. Main statement: a list of tokens has a value exactly when a phrase that is not nested too deeply
spells it and has this value.
-/

set_option autoImplicit false

namespace PugPrinter.Constant

mutual

def Phrase.expr : {level : Level} → Phrase level → Expr
  | _, .step _ inner => inner.expr
  | _, .conditional test yes no => .conditional test.expr yes.expr no.expr
  | _, .joined op _ left right => op.expr left.expr right.expr
  | _, .power base exponent => .binary .pow base.expr exponent.expr
  | _, .applied op operand => .unary op operand.expr
  | _, .literal value => .literal value
  | _, .keyword word => .keyword word
  | _, .parenthesized inner => inner.expr
  | _, .array items => .array items.exprs
  | _, .object fields => .object fields.exprs

def Items.exprs : Items → List Expr
  | .closed => []
  | .hole rest => .hole :: rest.exprs
  | .last item => [item.expr]
  | .item first rest => first.expr :: rest.exprs

def Fields.exprs : Fields → List (Key × Expr)
  | .closed => []
  | .last key value => [(key, value.expr)]
  | .field key value rest => (key, value.expr) :: rest.exprs

end

theorem Operator.eval_expr (op : Operator) (left right : Expr) :
    (op.expr left right).eval = (do op.apply (← left.eval) (← right.eval)) := by
  cases op with
  | logical op => simp only [expr, Expr.eval, apply]; rfl
  | binary op => simp only [expr, Expr.eval, apply]

mutual

theorem Phrase.eval_expr : ∀ {level : Level} (p : Phrase level), p.expr.eval = p.value?
  | _, .step _ inner => by
    rw [Phrase.expr, Phrase.value?, inner.eval_expr]
  | _, .conditional test yes no => by
    rw [Phrase.expr, Phrase.value?, Expr.eval, test.eval_expr, yes.eval_expr, no.eval_expr]
  | _, .joined op _ left right => by
    rw [Phrase.expr, Phrase.value?, op.eval_expr, left.eval_expr, right.eval_expr]
  | _, .power base exponent => by
    rw [Phrase.expr, Phrase.value?, Expr.eval, base.eval_expr, exponent.eval_expr]
  | _, .applied op operand => by
    rw [Phrase.expr, Phrase.value?, Expr.eval, operand.eval_expr]
  | _, .literal value => by rw [Phrase.expr, Phrase.value?, Expr.eval]
  | _, .keyword word => by rw [Phrase.expr, Phrase.value?, Expr.eval]
  | _, .parenthesized inner => by rw [Phrase.expr, Phrase.value?, inner.eval_expr]
  | _, .array items => by rw [Phrase.expr, Phrase.value?, Expr.eval, items.evalItems_exprs]
  | _, .object fields => by rw [Phrase.expr, Phrase.value?, Expr.eval, fields.evalFields_exprs]

private theorem Items.evalItems_exprs : ∀ items : Items, Expr.evalItems items.exprs = items.values?
  | .closed => by rw [Items.exprs, Items.values?, Expr.evalItems]
  | .hole rest => by
    rw [Items.exprs, Items.values?, Expr.evalItems, Expr.eval, rest.evalItems_exprs]
    rfl
  | .last item => by
    rw [Items.exprs, Items.values?, Expr.evalItems, Expr.evalItems, item.eval_expr]
    rfl
  | .item first rest => by
    rw [Items.exprs, Items.values?, Expr.evalItems, first.eval_expr, rest.evalItems_exprs]

private theorem Fields.evalFields_exprs : ∀ (fields : Fields) (before : List (Text × Value)),
    Expr.evalFields before fields.exprs = fields.values? before
  | .closed, before => by rw [Fields.exprs, Fields.values?, Expr.evalFields]
  | .last key value, before => by
    simp only [Fields.exprs, Fields.values?, Expr.evalFields, value.eval_expr]
    rfl
  | .field key value rest, before => by
    simp only [Fields.exprs, Fields.values?, Expr.evalFields, value.eval_expr, rest.evalFields_exprs]

end

namespace Grammar

-- As for phrases: the equations of the parser are derived before the proofs.
attribute [grind =] expression

/-! ### What the parser takes off is a phrase -/

private theorem unaryOp?_eq_some_iff {token : Token} {op : UnaryOp} :
    unaryOp? token = some op ↔ token = op.token := by
  constructor
  · intro found
    unfold unaryOp? at found
    split at found
    · cases found; rfl
    · cases found; rfl
    · cases found; rfl
    · split at found
      · rename_i text spelled
        cases found
        exact congrArg Token.name (beq_iff_eq.mp spelled)
      · cases found
    · cases found
  · rintro rfl
    cases op <;> rfl

private theorem key?_eq_some_iff {token : Token} {key : Key} :
    key? token = some key ↔ token = key.token := by
  constructor
  · intro found
    cases token <;> cases found <;> rfl
  · rintro rfl
    cases key <;> rfl

private theorem ofName?_eq_some_iff {text : Text} {word : Keyword} :
    Keyword.ofName? text = some word ↔ text = word.spelling := by
  constructor
  · intro found
    obtain ⟨entry, isEntry, isWord⟩ := Option.map_eq_some_iff.mp found
    have spelled : entry.1 = text := by simpa using List.find?_some isEntry
    have member := List.mem_of_find?_eq_some isEntry
    have paired : ∀ entry ∈ Keyword.spellings, entry.1 = entry.2.spelling := by
      simp [Keyword.spellings, Keyword.spelling]
    rw [← spelled, ← isWord]
    exact paired entry member
  · rintro rfl
    cases word <;> rfl

def Derived (n : Nat) (level : Level) (tokens : List Token) (e : Expr) (rest : List Token) : Prop :=
  ∃ p : Phrase level, tokens = p.tokens ++ rest ∧ p.expr = e ∧ p.height ≤ n

private def SoundTo (n : Nat) (level : Level) (parser : Parser Expr) : Prop :=
  ∀ {tokens : List Token} {e : Expr} {rest : List Token}, parser tokens = some (e, rest) →
    Derived n level tokens e rest

variable {n : Nat} {operand : Parser Expr} {tokens rest : List Token} {e : Expr}

private theorem Derived.step {level : Level} (derived : Derived n level.next tokens e rest)
    (loose : level ≠ .primary) : Derived (n + 1) level tokens e rest := by
  obtain ⟨p, spelled, isExpr, low⟩ := derived
  refine ⟨.step loose p, ?_, ?_, ?_⟩
  · rwa [Phrase.tokens]
  · rwa [Phrase.expr]
  · rw [Phrase.height]
    omega

private theorem chain_sound {level : Level} (sound : SoundTo n level.next operand) {fuel : Nat}
    {left : Phrase level} (low : left.height ≤ n + 1)
    (parsed : chain operand level.join? fuel left.expr tokens = some (e, rest)) :
    Derived (n + 1) level (left.tokens ++ tokens) e rest := by
  induction fuel generalizing left tokens with
  | zero =>
    cases parsed
    exact ⟨left, rfl, rfl, low⟩
  | succ fuel ih =>
    have ended (stopped : some (left.expr, tokens) = some (e, rest)) :
        Derived (n + 1) level (left.tokens ++ tokens) e rest := by
      cases stopped
      exact ⟨left, rfl, rfl, low⟩
    rcases tokens with _ | ⟨_ | _ | s, tokens⟩
    · exact ended parsed
    · exact ended parsed
    · exact ended parsed
    · rw [chain] at parsed
      cases joins : level.join? s with
      | none =>
        rw [joins] at parsed
        exact ended parsed
      | some join =>
        rw [joins] at parsed
        obtain ⟨⟨right, tail⟩, ofRight, more⟩ := Option.bind_eq_some_iff.mp parsed
        obtain ⟨op, isLevel, rfl, rfl⟩ := Operator.join?_eq_some_iff.mp joins
        obtain ⟨p, rfl, rfl, lowRight⟩ := sound ofRight
        have lowJoined : (Phrase.joined op isLevel left p).height ≤ n + 1 := by
          rw [Phrase.height]
          omega
        have goesOn : chain operand level.join? fuel (Phrase.joined op isLevel left p).expr tail =
            some (e, rest) := by
          rw [Phrase.expr]
          exact more
        obtain ⟨q, spelled, rest⟩ := ih lowJoined goesOn
        refine ⟨q, ?_, rest⟩
        rw [← spelled, Phrase.tokens]
        simp only [List.append_assoc, List.cons_append]

private theorem items_sound (sound : SoundTo n .conditional operand) {fuel : Nat} {es : List Expr}
    (parsed : items operand fuel tokens = some (es, rest)) :
    ∃ items : Items, tokens = items.tokens ++ rest ∧ items.exprs = es ∧ items.height ≤ n := by
  induction fuel generalizing tokens es with
  | zero => cases parsed
  | succ fuel ih =>
    unfold items at parsed
    split at parsed
    · cases parsed
    · cases parsed
      exact ⟨.closed, rfl, rfl, by rw [Items.height]; omega⟩
    · rename_i sameFuel
      cases sameFuel
      obtain ⟨⟨more, tail⟩, ofMore, ended⟩ := Option.bind_eq_some_iff.mp parsed
      cases ended
      obtain ⟨items, rfl, rfl, low⟩ := ih ofMore
      exact ⟨.hole items, rfl, rfl, by rw [Items.height]; exact low⟩
    · rename_i sameFuel _ _
      cases sameFuel
      obtain ⟨⟨first, tail⟩, ofFirst, ended⟩ := Option.bind_eq_some_iff.mp parsed
      obtain ⟨p, rfl, rfl, low⟩ := sound ofFirst
      dsimp only at ended
      split at ended
      · obtain ⟨⟨more, tail⟩, ofMore, ended⟩ := Option.bind_eq_some_iff.mp ended
        cases ended
        obtain ⟨items, rfl, rfl, lowMore⟩ := ih ofMore
        refine ⟨.item p items, ?_, rfl, by rw [Items.height]; omega⟩
        simp only [Items.tokens, List.append_assoc, List.cons_append]
      · cases ended
        refine ⟨.last p, ?_, rfl, by rw [Items.height]; exact low⟩
        simp only [Items.tokens, List.append_assoc, List.cons_append, List.nil_append]
      · cases ended

private theorem fields_sound (sound : SoundTo n .conditional operand) {fuel : Nat}
    {es : List (Key × Expr)} (parsed : fields operand fuel tokens = some (es, rest)) :
    ∃ fields : Fields, tokens = fields.tokens ++ rest ∧ fields.exprs = es ∧ fields.height ≤ n := by
  induction fuel generalizing tokens es with
  | zero => cases parsed
  | succ fuel ih =>
    unfold fields at parsed
    split at parsed
    · cases parsed
    · cases parsed
      exact ⟨.closed, rfl, rfl, by rw [Fields.height]; omega⟩
    · rename_i sameFuel
      cases sameFuel
      obtain ⟨key, isKey, parsed⟩ := Option.bind_eq_some_iff.mp parsed
      obtain ⟨⟨value, tail⟩, ofValue, ended⟩ := Option.bind_eq_some_iff.mp parsed
      obtain ⟨p, rfl, rfl, low⟩ := sound ofValue
      obtain rfl := key?_eq_some_iff.mp isKey
      dsimp only at ended
      split at ended
      · obtain ⟨⟨more, tail⟩, ofMore, ended⟩ := Option.bind_eq_some_iff.mp ended
        cases ended
        obtain ⟨fields, rfl, rfl, lowMore⟩ := ih ofMore
        refine ⟨.field key p fields, ?_, rfl, by rw [Fields.height]; omega⟩
        simp only [Fields.tokens, List.append_assoc, List.cons_append]
      · cases ended
        refine ⟨.last key p, ?_, rfl, by rw [Fields.height]; exact low⟩
        simp only [Fields.tokens, List.append_assoc, List.cons_append, List.nil_append]
      · cases ended
    · cases parsed

theorem expression_of_groupsLeft {level : Level} (groups : level.groupsLeft = true)
    (bound budget : Nat) (tokens : List Token) :
    expression bound (budget + 1) level tokens =
      (do
        let (left, rest) ← expression bound budget level.next tokens
        chain (expression bound budget level.next) level.join? bound left rest) := by
  cases level with
  | conditional | exponent | unary | primary => cases groups
  | _ => rfl

section Sound

variable {bound budget : Nat} (sound : ∀ level, SoundTo budget level (expression bound budget level))

include sound

private theorem expression_sound_groupsLeft {level : Level} (groups : level.groupsLeft = true)
    (loose : level ≠ .primary) : SoundTo (budget + 1) level (expression bound (budget + 1) level) := by
  intro tokens e rest parsed
  rw [expression_of_groupsLeft groups] at parsed
  obtain ⟨⟨left, tail⟩, ofLeft, more⟩ := Option.bind_eq_some_iff.mp parsed
  obtain ⟨p, rfl, rfl, low⟩ := sound _ ofLeft
  have lowStep : (Phrase.step loose p).height ≤ budget + 1 := by
    rw [Phrase.height]
    omega
  exact chain_sound (sound level.next) lowStep more

private theorem expression_sound_conditional :
    SoundTo (budget + 1) .conditional (expression bound (budget + 1) .conditional) := by
  intro tokens e rest parsed
  rw [expression] at parsed
  obtain ⟨⟨test, tail⟩, ofTest, parsed⟩ := Option.bind_eq_some_iff.mp parsed
  obtain ⟨p, rfl, rfl, low⟩ := sound _ ofTest
  dsimp only at parsed
  split at parsed
  · obtain ⟨⟨yes, tail⟩, ofYes, parsed⟩ := Option.bind_eq_some_iff.mp parsed
    obtain ⟨q, rfl, rfl, lowYes⟩ := sound _ ofYes
    dsimp only at parsed
    split at parsed
    · obtain ⟨⟨no, tail⟩, ofNo, parsed⟩ := Option.bind_eq_some_iff.mp parsed
      obtain ⟨r, rfl, rfl, lowNo⟩ := sound _ ofNo
      cases parsed
      refine ⟨.conditional p q r, ?_, rfl, by rw [Phrase.height]; omega⟩
      simp only [Phrase.tokens, List.append_assoc, List.cons_append]
    · cases parsed
  · cases parsed
    exact Derived.step ⟨p, rfl, rfl, low⟩ (by decide)

private theorem expression_sound_exponent :
    SoundTo (budget + 1) .exponent (expression bound (budget + 1) .exponent) := by
  intro tokens e rest parsed
  rw [expression] at parsed
  obtain ⟨⟨base, tail⟩, ofBase, parsed⟩ := Option.bind_eq_some_iff.mp parsed
  obtain ⟨p, rfl, rfl, low⟩ := sound _ ofBase
  dsimp only at parsed
  split at parsed
  · obtain ⟨⟨exponent, tail⟩, ofExponent, parsed⟩ := Option.bind_eq_some_iff.mp parsed
    obtain ⟨q, rfl, rfl, lowExponent⟩ := sound _ ofExponent
    cases parsed
    refine ⟨.power p q, ?_, rfl, by rw [Phrase.height]; omega⟩
    simp only [Phrase.tokens, List.append_assoc, List.cons_append]
  · cases parsed
    exact Derived.step ⟨p, rfl, rfl, low⟩ (by decide)

private theorem expression_sound_unary :
    SoundTo (budget + 1) .unary (expression bound (budget + 1) .unary) := by
  intro tokens e rest parsed
  unfold expression at parsed
  split at parsed
  · split at parsed
    · rename_i op isOp
      obtain ⟨⟨operand, tail⟩, ofOperand, parsed⟩ := Option.bind_eq_some_iff.mp parsed
      obtain ⟨p, rfl, rfl, low⟩ := sound _ ofOperand
      obtain rfl := unaryOp?_eq_some_iff.mp isOp
      cases parsed
      exact ⟨.applied op p, rfl, rfl, by rw [Phrase.height]; omega⟩
    · exact Derived.step (sound _ parsed) (by decide)
  · cases parsed

private theorem expression_sound_primary :
    SoundTo (budget + 1) .primary (expression bound (budget + 1) .primary) := by
  intro tokens e rest parsed
  unfold expression at parsed
  split at parsed
  · rename_i value tail
    cases parsed
    exact ⟨.literal value, rfl, rfl, by rw [Phrase.height]; omega⟩
  · rename_i text tail
    obtain ⟨word, isWord, ended⟩ := Option.map_eq_some_iff.mp parsed
    obtain rfl := ofName?_eq_some_iff.mp isWord
    cases ended
    exact ⟨.keyword word, rfl, rfl, by rw [Phrase.height]; omega⟩
  · obtain ⟨⟨inner, tail⟩, ofInner, parsed⟩ := Option.bind_eq_some_iff.mp parsed
    obtain ⟨p, rfl, rfl, low⟩ := sound _ ofInner
    dsimp only at parsed
    split at parsed
    · cases parsed
      refine ⟨.parenthesized p, ?_, rfl, by rw [Phrase.height]; omega⟩
      simp only [Phrase.tokens, List.append_assoc, List.cons_append, List.nil_append]
    · cases parsed
  · obtain ⟨⟨es, tail⟩, ofItems, ended⟩ := Option.bind_eq_some_iff.mp parsed
    obtain ⟨items, rfl, rfl, low⟩ := items_sound (sound _) ofItems
    cases ended
    exact ⟨.array items, rfl, rfl, by rw [Phrase.height]; omega⟩
  · obtain ⟨⟨es, tail⟩, ofFields, ended⟩ := Option.bind_eq_some_iff.mp parsed
    obtain ⟨fields, rfl, rfl, low⟩ := fields_sound (sound _) ofFields
    cases ended
    exact ⟨.object fields, rfl, rfl, by rw [Phrase.height]; omega⟩
  · cases parsed

end Sound

private theorem expression_sound (bound budget : Nat) (level : Level) :
    SoundTo budget level (expression bound budget level) := by
  induction budget generalizing level with
  | zero =>
    intro tokens e rest parsed
    cases parsed
  | succ budget ih =>
    cases level with
    | conditional => exact expression_sound_conditional ih
    | exponent => exact expression_sound_exponent ih
    | unary => exact expression_sound_unary ih
    | primary => exact expression_sound_primary ih
    | _ => exact expression_sound_groupsLeft ih rfl (by decide)

/-! ### The parser takes every phrase off -/

/-- A parser takes off every phrase of a level up to a height and a length, when what follows does not
go on. -/
private def CompleteTo (n bound : Nat) (level : Level) (parser : Parser Expr) : Prop :=
  ∀ (p : Phrase level) {rest : List Token}, p.height ≤ n → p.tokens.length ≤ bound →
    Stops level rest → parser (p.tokens ++ rest) = some (p.expr, rest)

variable {bound fuel : Nat}

private theorem chain_of_stops {level : Level} (stops : Stops level rest) (left : Expr) :
    chain operand level.join? fuel left rest = some (left, rest) := by
  cases fuel with
  | zero => rfl
  | succ fuel =>
    rcases rest with _ | ⟨_ | _ | s, rest⟩
    · rfl
    · rfl
    · rfl
    · cases joins : level.join? s with
      | none => rw [chain, joins]
      | some join =>
        obtain ⟨op, isLevel, rfl, _⟩ := Operator.join?_eq_some_iff.mp joins
        exact (not_stops (op.continues?_symbol isLevel) stops).elim

private theorem chain_complete {level : Level} (complete : CompleteTo n bound level.next operand)
    {links : List (Link level)} (low : ∀ link ∈ links, link.right.height ≤ n)
    (enough : (Link.allTokens links).length ≤ fuel)
    (short : (Link.allTokens links).length ≤ bound) (left : Phrase level)
    (stops : Stops level rest) :
    chain operand level.join? fuel left.expr (Link.allTokens links ++ rest) =
      some ((left.extend links).expr, rest) := by
  -- Every join makes the next left operand, so the left one grows along the links.
  induction links generalizing left fuel with
  | nil => exact chain_of_stops stops left.expr
  | cons link links ih =>
    have length : (Link.allTokens (link :: links)).length =
        link.right.tokens.length + (Link.allTokens links).length + 1 := by
      simp [Link.allTokens, Link.tokens]
    have joins : level.join? link.op.symbol = some link.op.expr :=
      Operator.join?_eq_some_iff.mpr ⟨link.op, link.joins, rfl, rfl⟩
    obtain ⟨lowRight, lowOthers⟩ := List.forall_mem_cons.mp low
    obtain ⟨fuel, rfl⟩ := Nat.exists_eq_add_of_le' (show 1 ≤ fuel by omega)
    have right := complete link.right lowRight (by omega) (Link.stops_next links stops)
    have others := @ih fuel lowOthers (by omega) (by omega) (.joined link.op link.joins left link.right)
    rw [Phrase.expr] at others
    rw [Link.allTokens_cons_append, chain, joins]
    dsimp only
    rw [right]
    exact others

private theorem items_of_phrase (p : Phrase .conditional) (more : List Token) :
    items operand (fuel + 1) (p.tokens ++ more) =
      (do
        let (first, rest) ← operand (p.tokens ++ more)
        match rest with
        | .symbol .comma :: rest =>
          let (more, rest) ← items operand fuel rest
          return (first :: more, rest)
        | .symbol .closeBracket :: rest => return ([first], rest)
        | _ => none) := by
  obtain ⟨token, tail, tokens, starts⟩ := p.exists_start
  rw [tokens, List.cons_append]
  cases token with
  | literal value => rfl
  | name text => rfl
  | symbol s => cases s <;> first | rfl | cases starts

private theorem items_complete (complete : CompleteTo n bound .conditional operand) :
    ∀ (these : Items) {fuel : Nat}, these.height ≤ n → these.tokens.length ≤ fuel →
      these.tokens.length ≤ bound →
        items operand fuel (these.tokens ++ rest) = some (these.exprs, rest)
  | .closed, fuel, _, enough, _ => by
    obtain ⟨fuel, rfl⟩ := Nat.exists_eq_add_of_le' enough
    rfl
  | .hole others, fuel, low, enough, short => by
    rw [Items.height] at low
    rw [Items.tokens, List.length_cons] at enough short
    obtain ⟨fuel, rfl⟩ := Nat.exists_eq_add_of_le' (show 1 ≤ fuel by omega)
    have more := items_complete complete others low (Nat.le_of_succ_le_succ enough) (by omega)
    rw [Items.tokens, List.cons_append, items, more]
    rfl
  | .last p, fuel, low, enough, short => by
    rw [Items.height] at low
    rw [Items.tokens, List.length_append, List.length_singleton] at enough short
    obtain ⟨fuel, rfl⟩ := Nat.exists_eq_add_of_le' (show 1 ≤ fuel by omega)
    have ends : Stops .conditional (.symbol .closeBracket :: rest) := stops_of_none rfl
    rw [Items.tokens, List.append_assoc, items_of_phrase, List.singleton_append,
      complete p low (by omega) ends]
    rfl
  | .item p others, fuel, low, enough, short => by
    rw [Items.height, Nat.max_le] at low
    rw [Items.tokens, List.length_append, List.length_cons] at enough short
    obtain ⟨fuel, rfl⟩ := Nat.exists_eq_add_of_le' (show 1 ≤ fuel by omega)
    have ends : Stops .conditional (.symbol .comma :: (others.tokens ++ rest)) := stops_of_none rfl
    have more := items_complete complete others low.2 (show _ ≤ fuel by omega) (by omega)
    rw [Items.tokens, List.append_assoc, items_of_phrase, List.cons_append,
      complete p low.1 (by omega) ends]
    dsimp only [Bind.bind, Option.bind]
    rw [more]
    rfl

private theorem fields_of_key (key : Key) (tokens : List Token) :
    fields operand (fuel + 1) (key.token :: .symbol .colon :: tokens) =
      (do
        let (value, rest) ← operand tokens
        match rest with
        | .symbol .comma :: rest =>
          let (more, rest) ← fields operand fuel rest
          return ((key, value) :: more, rest)
        | .symbol .closeBrace :: rest => return ([(key, value)], rest)
        | _ => none) := by
  cases key <;> rfl

private theorem fields_complete (complete : CompleteTo n bound .conditional operand) :
    ∀ (these : Fields) {fuel : Nat}, these.height ≤ n → these.tokens.length ≤ fuel →
      these.tokens.length ≤ bound →
        fields operand fuel (these.tokens ++ rest) = some (these.exprs, rest)
  | .closed, fuel, _, enough, _ => by
    obtain ⟨fuel, rfl⟩ := Nat.exists_eq_add_of_le' enough
    rfl
  | .last key p, fuel, low, enough, short => by
    rw [Fields.height] at low
    rw [Fields.tokens, List.length_cons, List.length_cons, List.length_append] at enough short
    obtain ⟨fuel, rfl⟩ := Nat.exists_eq_add_of_le' (show 1 ≤ fuel by omega)
    have ends : Stops .conditional (.symbol .closeBrace :: rest) := stops_of_none rfl
    rw [Fields.tokens, List.cons_append, List.cons_append, List.append_assoc, fields_of_key,
      List.singleton_append, complete p low (by omega) ends]
    rfl
  | .field key p others, fuel, low, enough, short => by
    rw [Fields.height, Nat.max_le] at low
    rw [Fields.tokens, List.length_cons, List.length_cons, List.length_append, List.length_cons]
      at enough short
    obtain ⟨fuel, rfl⟩ := Nat.exists_eq_add_of_le' (show 1 ≤ fuel by omega)
    have ends : Stops .conditional (.symbol .comma :: (others.tokens ++ rest)) := stops_of_none rfl
    have more := fields_complete complete others low.2 (show _ ≤ fuel by omega) (by omega)
    rw [Fields.tokens, List.cons_append, List.cons_append, List.append_assoc, fields_of_key,
      List.cons_append, complete p low.1 (by omega) ends]
    dsimp only [Bind.bind, Option.bind]
    rw [more]
    rfl

section Complete

variable {budget : Nat}
  (complete : ∀ level, CompleteTo budget bound level (expression bound budget level))

include complete

private theorem expression_complete_groupsLeft {level : Level} (groups : level.groupsLeft = true) :
    CompleteTo (budget + 1) bound level (expression bound (budget + 1) level) := by
  intro p rest low short stops
  obtain ⟨loose, first, links, rfl⟩ := p.exists_links groups
  obtain ⟨lowFirst, lowLinks⟩ := Phrase.height_extend_le.mp low
  rw [Phrase.tokens_extend, Phrase.tokens, List.length_append] at short
  rw [Phrase.height, Nat.add_le_add_iff_right] at lowFirst
  have ofFirst := complete _ first lowFirst (by omega) (Link.stops_next links stops)
  have ofLinks := chain_complete (complete _) lowLinks (show _ ≤ bound by omega) (by omega)
    (.step loose first) stops
  rw [Phrase.tokens_extend, Phrase.tokens, List.append_assoc, expression_of_groupsLeft groups, ofFirst]
  exact ofLinks

private theorem expression_complete_conditional :
    CompleteTo (budget + 1) bound .conditional (expression bound (budget + 1) .conditional) := by
  have goesOn : (Token.symbol .question).continues? = some .conditional := rfl
  intro p rest low short stops
  cases p using Phrase.conditionalCases with
  | step loose test =>
    rw [Phrase.height, Nat.add_le_add_iff_right] at low
    rw [Phrase.tokens] at short
    have ofTest : expression bound budget .nullish (test.tokens ++ rest) = some (test.expr, rest) :=
      complete _ test low short stops.next
    rw [Phrase.tokens, Phrase.expr, expression, ofTest]
    dsimp only [Bind.bind, Option.bind]
    split
    · exact (not_stops goesOn stops).elim
    · rfl
  | conditional test yes no =>
    rw [Phrase.height, Nat.add_le_add_iff_right, Nat.max_le, Nat.max_le] at low
    simp only [Phrase.tokens, List.length_append, List.length_cons] at short
    have testEnds : Stops .nullish
        (.symbol .question :: (yes.tokens ++ .symbol .colon :: (no.tokens ++ rest))) :=
      stops_of_lt goesOn (by decide)
    have yesEnds : Stops .conditional (.symbol .colon :: (no.tokens ++ rest)) := stops_of_none rfl
    have ofTest := complete _ test low.1 (by omega) testEnds
    have ofYes := complete _ yes low.2.1 (by omega) yesEnds
    have ofNo := complete _ no low.2.2 (by omega) stops
    simp only [Phrase.tokens, Phrase.expr, List.append_assoc, List.cons_append, expression, ofTest,
      ofYes, ofNo, Bind.bind, Option.bind]
    rfl

private theorem expression_complete_exponent :
    CompleteTo (budget + 1) bound .exponent (expression bound (budget + 1) .exponent) := by
  have goesOn : (Token.symbol .power).continues? = some .exponent := rfl
  intro p rest low short stops
  cases p using Phrase.exponentCases with
  | step loose base =>
    rw [Phrase.height, Nat.add_le_add_iff_right] at low
    rw [Phrase.tokens] at short
    have ofBase : expression bound budget .unary (base.tokens ++ rest) = some (base.expr, rest) :=
      complete _ base low short stops.next
    rw [Phrase.tokens, Phrase.expr, expression, ofBase]
    dsimp only [Bind.bind, Option.bind]
    split
    · exact (not_stops goesOn stops).elim
    · rfl
  | power base exponent =>
    rw [Phrase.height, Nat.add_le_add_iff_right, Nat.max_le] at low
    simp only [Phrase.tokens, List.length_append, List.length_cons] at short
    have baseEnds : Stops .unary (.symbol .power :: (exponent.tokens ++ rest)) :=
      stops_of_lt goesOn (by decide)
    have ofBase := complete _ base low.1 (by omega) baseEnds
    have ofExponent := complete _ exponent low.2 (by omega) stops
    simp only [Phrase.tokens, Phrase.expr, List.append_assoc, List.cons_append, expression, ofBase,
      ofExponent, Bind.bind, Option.bind]
    rfl

private theorem expression_complete_unary :
    CompleteTo (budget + 1) bound .unary (expression bound (budget + 1) .unary) := by
  intro p rest low short stops
  cases p using Phrase.unaryCases with
  | step loose inner =>
    rw [Phrase.height, Nat.add_le_add_iff_right] at low
    rw [Phrase.tokens] at short
    have ofInner : expression bound budget .primary (inner.tokens ++ rest) =
        some (inner.expr, rest) :=
      complete _ inner low short stops.next
    obtain ⟨token, tail, tokens, _⟩ := inner.exists_start
    have notOp : unaryOp? token = none := by
      cases isOp : unaryOp? token with
      | none => rfl
      | some op =>
        rw [unaryOp?_eq_some_iff.mp isOp] at tokens
        exact (Phrase.ne_of_operator inner op (tokens.symm.trans (List.append_nil _).symm)).elim
    rw [Phrase.tokens, Phrase.expr]
    rw [tokens, List.cons_append] at ofInner ⊢
    rw [expression, notOp]
    exact ofInner
  | applied op operand =>
    rw [Phrase.height, Nat.add_le_add_iff_right] at low
    rw [Phrase.tokens, List.length_cons] at short
    have isOp : unaryOp? op.token = some op := unaryOp?_eq_some_iff.mpr rfl
    have ofOperand := complete _ operand low (by omega) stops
    rw [Phrase.tokens, Phrase.expr, List.cons_append, expression, isOp]
    dsimp only
    rw [ofOperand]
    rfl

private theorem expression_complete_primary :
    CompleteTo (budget + 1) bound .primary (expression bound (budget + 1) .primary) := by
  intro p rest low short stops
  cases p using Phrase.primaryCases with
  | literal value => rfl
  | keyword word =>
    rw [Phrase.tokens, Phrase.expr, List.singleton_append, expression, ofName?_eq_some_iff.mpr rfl]
    rfl
  | parenthesized inner =>
    rw [Phrase.height, Nat.add_le_add_iff_right] at low
    simp only [Phrase.tokens, List.length_append, List.length_cons] at short
    have ends : Stops .conditional (.symbol .closeParen :: rest) := stops_of_none rfl
    have ofInner := complete _ inner low (by omega) ends
    rw [Phrase.tokens, Phrase.expr, List.cons_append, List.append_assoc, List.singleton_append,
      expression, ofInner]
    rfl
  | array these =>
    rw [Phrase.height, Nat.add_le_add_iff_right] at low
    rw [Phrase.tokens, List.length_cons] at short
    have ofItems : items (expression bound budget .conditional) bound (these.tokens ++ rest) =
        some (these.exprs, rest) :=
      items_complete (complete _) these low (by omega) (by omega)
    rw [Phrase.tokens, Phrase.expr, List.cons_append, expression, ofItems]
    rfl
  | object these =>
    rw [Phrase.height, Nat.add_le_add_iff_right] at low
    rw [Phrase.tokens, List.length_cons] at short
    have ofFields : fields (expression bound budget .conditional) bound (these.tokens ++ rest) =
        some (these.exprs, rest) :=
      fields_complete (complete _) these low (by omega) (by omega)
    rw [Phrase.tokens, Phrase.expr, List.cons_append, expression, ofFields]
    rfl

end Complete

private theorem expression_complete (bound budget : Nat) (level : Level) :
    CompleteTo budget bound level (expression bound budget level) := by
  induction budget generalizing level with
  | zero => exact fun p _ low => absurd p.height_pos (by omega)
  | succ budget ih =>
    cases level with
    | conditional => exact expression_complete_conditional ih
    | exponent => exact expression_complete_exponent ih
    | unary => exact expression_complete_unary ih
    | primary => exact expression_complete_primary ih
    | _ => exact expression_complete_groupsLeft ih rfl

/-- A list of tokens spells an expression exactly when it is that of a phrase within the limit. -/
theorem parse?_eq_some_iff {tokens : List Token} {limit : Nat} {e : Expr} :
    parse? tokens limit = some e ↔
      ∃ p : Phrase .conditional, p.tokens = tokens ∧ p.expr = e ∧ p.height ≤ limit := by
  constructor
  · intro parsed
    unfold parse? at parsed
    split at parsed
    · rename_i whole
      cases parsed
      obtain ⟨p, spelled, isExpr, low⟩ := expression_sound _ _ _ whole
      exact ⟨p, by rw [spelled, List.append_nil], isExpr, low⟩
    · cases parsed
  · rintro ⟨p, rfl, rfl, low⟩
    have whole := expression_complete (p.tokens.length + 1) limit .conditional p low
      (Nat.le_succ _) (stops_nil _)
    rw [List.append_nil] at whole
    rw [parse?, whole]

end Grammar

/-- With any limit on nesting, a list of tokens has a value exactly when a phrase within the limit
spells it and has this value; a source text has the value of its tokens. No list of tokens is spelled
by two phrases. -/
theorem evaluates_iff_phrase :
    (∀ (tokens : List Token) (limit : Nat) (v : Value),
      (Grammar.parse? tokens limit).bind Expr.eval = some v ↔
        ∃ p : Phrase .conditional, p.tokens = tokens ∧ p.height ≤ limit ∧ p.value? = some v) ∧
    (∀ (source : Text) (limit : Nat) (v : Value),
      fold? source limit = some v ↔
        ∃ tokens, Token.tokenize? source = some tokens ∧
          (Grammar.parse? tokens limit).bind Expr.eval = some v) ∧
    ∀ (level : Level) (p q : Phrase level), p.tokens = q.tokens → p = q := by
  refine ⟨fun tokens limit v => ?_, fun source limit v => Option.bind_eq_some_iff,
    fun _ _ _ => Phrase.eq_of_tokens_eq⟩
  rw [Option.bind_eq_some_iff]
  constructor
  · rintro ⟨e, parsed, evaluated⟩
    obtain ⟨p, spelled, rfl, low⟩ := Grammar.parse?_eq_some_iff.mp parsed
    exact ⟨p, spelled, low, p.eval_expr ▸ evaluated⟩
  · rintro ⟨p, spelled, low, evaluated⟩
    exact ⟨p.expr, Grammar.parse?_eq_some_iff.mpr ⟨p, spelled, rfl, low⟩, p.eval_expr.trans evaluated⟩

namespace Phrase

def loosenedPower (p : Phrase .exponent) : Phrase .conditional :=
  .step (by decide) (.step (by decide) (.step (by decide) (.step (by decide) (.step (by decide)
    (.step (by decide) (.step (by decide) (.step (by decide) p)))))))

def loosened (p : Phrase .unary) : Phrase .conditional :=
  loosenedPower (.step (by decide) p)

def sampleNumber (n : Int) : Phrase .multiplicative :=
  .step (by decide) (.step (by decide) (.step (by decide) (.literal (.num (.int n)))))

/-- The phrase of `8 - 4 - 2`, grouped to the left. -/
def sample : Phrase .conditional :=
  .step (by decide) (.step (by decide) (.step (by decide) (.step (by decide) (.step (by decide)
    (.step (by decide) (.joined (.binary .sub) rfl
      (.joined (.binary .sub) rfl (.step (by decide) (sampleNumber 8)) (sampleNumber 4))
      (sampleNumber 2)))))))

def sampleOperand (n : Int) : Phrase .unary :=
  .step (by decide) (.literal (.num (.int n)))

/-- The phrase of `[, -2 ** 3 ** 2]`: an item is left out, the sign belongs to the base, and powers
are grouped to the right. -/
def samplePowers : Phrase .conditional :=
  loosened (.step (by decide) (.array (.hole (.last (loosenedPower
    (.power (.applied .neg (sampleOperand 2))
      (.power (sampleOperand 3) (.step (by decide) (sampleOperand 2)))))))))

end Phrase

theorem evaluates_iff_phrase_sample :
    (Phrase.sample.tokens = [.literal (.num (.int 8)), .symbol .minus, .literal (.num (.int 4)),
        .symbol .minus, .literal (.num (.int 2))] ∧
      (Grammar.parse? Phrase.sample.tokens).bind Expr.eval = some (.num (.int 2)) ∧
      (Grammar.parse? Phrase.sample.tokens 9).bind Expr.eval = none ∧
      ∀ p : Phrase .conditional, p.tokens = Phrase.sample.tokens → p = Phrase.sample) ∧
    Phrase.samplePowers.tokens = [.symbol .openBracket, .symbol .comma, .symbol .minus,
      .literal (.num (.int 2)), .symbol .power, .literal (.num (.int 3)), .symbol .power,
      .literal (.num (.int 2)), .symbol .closeBracket] ∧
    ∀ inner outer, Number.pow (.int 3) (.int 2) = some inner →
      Number.pow (.int (-2)) inner = some outer →
      (Grammar.parse? Phrase.samplePowers.tokens).bind Expr.eval =
        some (.arr [.undefined, .num outer]) := by
  obtain ⟨evaluates, _, unique⟩ := evaluates_iff_phrase
  refine ⟨⟨rfl, ?_, ?_, fun p spelled => unique _ p Phrase.sample spelled⟩, rfl, ?_⟩
  · exact (evaluates _ _ _).mpr ⟨Phrase.sample, rfl, by decide, rfl⟩
  · rw [Option.eq_none_iff_forall_ne_some]
    intro v found
    obtain ⟨p, spelled, low, -⟩ := (evaluates _ _ _).mp found
    rw [unique _ p Phrase.sample spelled] at low
    exact absurd low (by decide)
  · intro inner outer isInner isOuter
    refine (evaluates _ _ _).mpr ⟨Phrase.samplePowers, rfl, by decide, ?_⟩
    have exponent : BinaryOp.pow.apply (.num (.int 3)) (.num (.int 2)) = some (.num inner) := by
      simp [BinaryOp.apply, BinaryOp.arithmetic, Value.toNumber?, isInner]
    have power : BinaryOp.pow.apply (.num (.int (-2))) (.num inner) = some (.num outer) := by
      simp [BinaryOp.apply, BinaryOp.arithmetic, Value.toNumber?, isOuter]
    have sign : UnaryOp.neg.apply (.num (.int 2)) = some (.num (.int (-2))) := rfl
    simp [Phrase.samplePowers, Phrase.loosened, Phrase.loosenedPower, Phrase.sampleOperand,
      Phrase.value?, Items.values?, Literal.value, exponent, power, sign]

end PugPrinter.Constant
