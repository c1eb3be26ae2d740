import PugPrinter.Proofs.Constant.Parsing
import PugPrinter.Proofs.Constant.Progress

/-!
The evaluator by positions against the parser. Both come to the same values: the evaluator computes with
the operands as it goes, the parser builds an expression that is evaluated after it.
-/

set_option autoImplicit false

namespace PugPrinter.Constant

namespace Evaluator

open Reading

variable {α β γ δ : Type}

def Valueless (value? : β → Option α) (parsed : Option (β × List Token)) : Prop :=
  ∀ found, parsed = some found → value? found.1 = none

private theorem valueless_none {value? : β → Option α} : Valueless value? none :=
  fun _ found => nomatch found

private theorem valueless_some {value? : β → Option α} {b : β} {rest : List Token}
    (valueless : value? b = none) : Valueless value? (some (b, rest)) := by
  rintro _ ⟨rfl⟩
  exact valueless

private theorem Valueless.bind {value? : δ → Option γ} {parsed : Option (β × List Token)}
    {parser : β × List Token → Option (δ × List Token)}
    (valueless : ∀ b rest, Valueless value? (parser (b, rest))) :
    Valueless value? (parsed >>= parser) := by
  cases parsed with
  | none => exact valueless_none
  | some found => exact valueless found.1 found.2

/-- A run and a parse agree when the run ends with the value of what was parsed, before the same tokens,
and halts when nothing was parsed or what was parsed has no value. -/
inductive Agrees (tokens : List Token) (value? : β → Option α) :
    Except Halt (α × Nat) → Option (β × List Token) → Prop
  | found {a : α} {b : β} {reached : Nat} (isValue : value? b = some a)
      (inRange : reached ≤ tokens.length) :
      Agrees tokens value? (.ok (a, reached)) (some (b, tokens.drop reached))
  | halted {why : Halt} {parsed : Option (β × List Token)} (valueless : Valueless value? parsed) :
      Agrees tokens value? (.error why) parsed

namespace Agrees

variable {tokens : List Token} {position : Nat} {value? : β → Option α} {whole? : δ → Option γ}

theorem bind {first : Reading α} {rest : α → Reading γ} {parsed : Option (β × List Token)}
    {parser : β × List Token → Option (δ × List Token)}
    (agrees : Agrees tokens value? (first position).result parsed)
    (goesOn : ∀ a b reached, (first position).result = .ok (a, reached) → value? b = some a →
      reached ≤ tokens.length →
        Agrees tokens whole? (rest a reached).result (parser (b, tokens.drop reached)))
    (strict : ∀ b tail, value? b = none → Valueless whole? (parser (b, tail))) :
    Agrees tokens whole? ((first >>= rest) position).result (parsed >>= parser) := by
  cases isFirst : first position with
  | mk events result =>
    rw [isFirst] at agrees goesOn
    cases agrees with
    | found isValue inRange =>
      rw [bind_of_ok isFirst]
      exact goesOn _ _ _ rfl isValue inRange
    | halted valueless =>
      rw [bind_of_error isFirst]
      refine .halted ?_
      cases parsed with
      | none => exact valueless_none
      | some found => exact strict _ _ (valueless found rfl)

private theorem map {whole? : δ → Option α} {result : Except Halt (α × Nat)}
    {parsed : Option (β × List Token)} {parser : β × List Token → Option (δ × List Token)}
    (agrees : Agrees tokens value? result parsed)
    (same : ∀ b rest, ∃ d, parser (b, rest) = some (d, rest) ∧ whole? d = value? b) :
    Agrees tokens whole? result (parsed >>= parser) := by
  cases agrees with
  | found isValue inRange =>
    obtain ⟨d, formed, sameValue⟩ := same _ _
    rw [Option.bind_eq_bind, Option.bind_some, formed]
    exact .found (sameValue.trans isValue) inRange
  | halted valueless =>
    refine .halted ?_
    cases parsed with
    | none => exact valueless_none
    | some found =>
      obtain ⟨d, formed, sameValue⟩ := same found.1 found.2
      rw [Option.bind_eq_bind, Option.bind_some, formed]
      exact valueless_some (sameValue.trans (valueless found rfl))

private theorem accept {rest : Bool → Reading γ} {s : Symbol} {parsed : Option (δ × List Token)}
    (inRange : position ≤ tokens.length)
    (passed : tokens.drop position = .symbol s :: tokens.drop (position + 1) →
      position < tokens.length → Agrees tokens whole? (rest true (position + 1)).result parsed)
    (refused : (∀ tail, tokens.drop position ≠ .symbol s :: tail) →
      Agrees tokens whole? (rest false position).result parsed) :
    Agrees tokens whole? ((Reading.accept (entriesOf tokens) s >>= rest) position).result parsed := by
  by_cases found : tokens[position]? = some (.symbol s)
  · obtain ⟨before, isSymbol⟩ := List.getElem?_eq_some_iff.mp found
    rw [bind_of_ok (accept_of_eq found)]
    exact passed (by rw [List.drop_eq_getElem_cons before, isSymbol]) before
  · rw [bind_of_ok (accept_of_ne inRange found)]
    refine refused fun tail starts => found ?_
    rw [← Nat.add_zero position, ← List.getElem?_drop, starts]
    rfl

private theorem branch {passing other : Reading γ} {s : Symbol} {parsed : Option (δ × List Token)}
    (inRange : position ≤ tokens.length)
    (passed : tokens.drop position = .symbol s :: tokens.drop (position + 1) →
      position < tokens.length → Agrees tokens whole? (passing (position + 1)).result parsed)
    (refused : (∀ tail, tokens.drop position ≠ .symbol s :: tail) →
      Agrees tokens whole? (other position).result parsed) :
    Agrees tokens whole? ((do
      if ← Reading.accept (entriesOf tokens) s then passing else other) position).result parsed :=
  accept inRange passed refused

private theorem expect {rest : Unit → Reading γ} {s : Symbol} {parsed : Option (δ × List Token)}
    (inRange : position ≤ tokens.length)
    (passed : tokens.drop position = .symbol s :: tokens.drop (position + 1) →
      position < tokens.length → Agrees tokens whole? (rest () (position + 1)).result parsed)
    (refused : (∀ tail, tokens.drop position ≠ .symbol s :: tail) → Valueless whole? parsed) :
    Agrees tokens whole? ((Reading.expect (entriesOf tokens) s >>= rest) position).result parsed := by
  rw [Reading.expect, bind_assoc]
  exact accept inRange passed fun other => .halted (refused other)

private theorem computed {b : β} {computed? : Option α} (isValue : value? b = computed?)
    (inRange : position ≤ tokens.length) :
    Agrees tokens value? (Reading.compute computed? position).result
      (some (b, tokens.drop position)) := by
  cases computed? with
  | none => exact .halted (valueless_some isValue)
  | some a => exact .found isValue inRange

end Agrees

section Results

variable {tokens : List Token} {position : Nat}

private theorem result_look {rest : Entry → Reading γ} (inRange : position ≤ tokens.length) :
    ((peek (entriesOf tokens) >>= rest) position).result =
      (rest (entryAt tokens position) position).result := by
  rw [bind_of_ok (peek_eq inRange)]

private theorem result_turn {rest : Unit → Reading γ} :
    ((turn >>= rest) position).result = (rest () position).result := rfl

private theorem result_advance {rest : Unit → Reading γ} :
    ((advance >>= rest) position).result = (rest () (position + 1)).result := rfl

end Results

section Loops

variable {tokens : List Token} {budget : Nat} {level : Level} {operand : Reading Value}
  {parser : Grammar.Parser Expr}

private theorem chain_valueless {fuel : Nat} {left : Expr} (valueless : left.eval = none)
    (rest : List Token) :
    Valueless Expr.eval (Grammar.chain parser level.join? fuel left rest) := by
  induction fuel generalizing left rest with
  | zero => exact valueless_some valueless
  | succ fuel ih =>
    rcases rest with _ | ⟨_ | _ | s, rest⟩
    · exact valueless_some valueless
    · exact valueless_some valueless
    · exact valueless_some valueless
    · rw [Grammar.chain]
      cases joins : level.join? s with
      | none => exact valueless_some valueless
      | some join =>
        obtain ⟨op, -, -, rfl⟩ := Operator.join?_eq_some_iff.mp joins
        exact .bind fun right tail => ih (by rw [Operator.eval_expr, valueless]; rfl) tail

private theorem operands_agrees (isCall : IsCall tokens.length budget level.next operand)
    (agrees : ∀ position ≤ tokens.length,
      Agrees tokens Expr.eval (operand position).result (parser (tokens.drop position)))
    {fuel : Nat} {left : Value} {e : Expr} {position : Nat} (isValue : e.eval = some left)
    (inRange : position ≤ tokens.length) (enough : tokens.length < fuel + position) :
    Agrees tokens Expr.eval (operands (entriesOf tokens) operand level fuel left position).result
      (Grammar.chain parser level.join? fuel e (tokens.drop position)) := by
  induction fuel generalizing left e position with
  | zero => omega
  | succ fuel ih =>
    have stopped : Agrees tokens Expr.eval (.ok (left, position)) (some (e, tokens.drop position)) :=
      .found isValue inRange
    unfold operands
    rw [result_turn, result_look inRange]
    rcases entry_cases inRange with ⟨-, finished, starts⟩ | ⟨token, before, -, here, starts⟩
    · rw [finished]
      rw [starts] at stopped ⊢
      exact stopped
    · rw [here]
      rw [starts] at stopped ⊢
      cases token with
      | literal value => exact stopped
      | name text => exact stopped
      | symbol s =>
        rw [Grammar.chain, Operator.join?_eq, operatorAt?]
        cases s.operator?.filter fun op => op.level? = some level with
        | none => exact stopped
        | some op =>
          dsimp only [Option.map]
          rw [result_advance]
          refine .bind (agrees _ before) ?_ ?_
          · intro right rightExpr reached ofRight isRight reachedInRange
            obtain ⟨_, _, _, ends⟩ := isCall _ before
            rw [ofRight] at ends
            cases applied : op.apply left right with
            | none =>
              refine .halted (chain_valueless ?_ _)
              rw [Operator.eval_expr, isValue, isRight]
              exact applied
            | some value =>
              refine ih ?_ reachedInRange (by have := ends.1; omega)
              rw [Operator.eval_expr, isValue, isRight]
              exact applied
          · intro rightExpr tail valueless
            refine chain_valueless ?_ _
            rw [Operator.eval_expr, isValue, valueless]
            rfl

private theorem items_of_other {fuel : Nat} {rest : List Token}
    (notClosed : ∀ tail, rest ≠ .symbol .closeBracket :: tail)
    (notHole : ∀ tail, rest ≠ .symbol .comma :: tail) :
    Grammar.items parser (fuel + 1) rest =
      (do
        let (first, rest) ← parser rest
        match rest with
        | .symbol .comma :: rest =>
          let (more, rest) ← Grammar.items parser fuel rest
          return (first :: more, rest)
        | .symbol .closeBracket :: rest => return ([first], rest)
        | _ => none) := by
  rewrite [Grammar.items]
  · rfl
  · exact notClosed
  · exact notHole

private theorem items_agrees
    (agrees : ∀ position ≤ tokens.length,
      Agrees tokens Expr.eval (operand position).result (parser (tokens.drop position)))
    {fuel : Nat} {position : Nat} (inRange : position ≤ tokens.length) :
    Agrees tokens Expr.evalItems (items (entriesOf tokens) operand fuel position).result
      (Grammar.items parser fuel (tokens.drop position)) := by
  induction fuel generalizing position with
  | zero => exact .halted valueless_none
  | succ fuel ih =>
    unfold items
    rw [result_turn]
    refine .branch inRange (fun starts before => ?_) fun notClosed =>
      .branch inRange (fun starts before => ?_) fun notHole => ?_
    · rw [starts]
      exact .found rfl before
    · rw [starts, Grammar.items]
      refine .bind (ih before) ?_ ?_
      · intro values es reached _ areValues reachedInRange
        exact .found (by rw [Expr.evalItems, areValues]; rfl) reachedInRange
      · intro es tail valueless
        exact valueless_some (by rw [Expr.evalItems, valueless]; rfl)
    · rw [items_of_other notClosed notHole]
      refine .bind (agrees _ inRange) ?_ ?_
      · intro first e reached _ isFirst reachedInRange
        refine .branch reachedInRange (fun starts before => ?_) fun notComma => ?_
        · dsimp only
          rw [starts]
          refine .bind (ih before) ?_ ?_
          · intro values es reached _ areValues reachedInRange
            exact .found (by rw [Expr.evalItems, isFirst, areValues]; rfl) reachedInRange
          · intro es tail valueless
            exact valueless_some (by rw [Expr.evalItems, isFirst, valueless]; rfl)
        · refine .expect reachedInRange (fun starts before => ?_) fun notClosed => ?_
          · dsimp only
            rw [starts]
            exact .found (by rw [Expr.evalItems, isFirst]; rfl) before
          · dsimp only
            split
            · exact absurd ‹_› (notComma _)
            · exact absurd ‹_› (notClosed _)
            · exact valueless_none
      · intro e tail valueless
        have lost (es : List Expr) : Expr.evalItems (e :: es) = none := by
          rw [Expr.evalItems, valueless]
          rfl
        dsimp only
        split
        · exact .bind fun es rest => valueless_some (lost _)
        · exact valueless_some (lost _)
        · exact valueless_none

private theorem fields_of_other {fuel : Nat} {token : Token} {rest : List Token}
    (notClosed : token ≠ .symbol .closeBrace) :
    Grammar.fields parser (fuel + 1) (token :: rest) =
      match rest with
      | .symbol .colon :: rest => do
        let key ← Grammar.key? token
        let (value, rest) ← parser rest
        match rest with
        | .symbol .comma :: rest =>
          let (more, rest) ← Grammar.fields parser fuel rest
          return ((key, value) :: more, rest)
        | .symbol .closeBrace :: rest => return ([(key, value)], rest)
        | _ => none
      | _ => none := by
  split
  · rewrite [Grammar.fields]
    · rfl
    · exact notClosed
  · rename_i notColon
    rewrite [Grammar.fields]
    · rfl
    · exact fun _ same => notClosed (List.cons.inj same).1
    · exact fun _ _ same => notColon _ (List.cons.inj same).2

private theorem fields_end_valueless {fuel : Nat} {set : List (Text × Value)} {key : Key} {e : Expr}
    (lost : ∀ es, Expr.evalFields set ((key, e) :: es) = none) (rest : List Token) :
    Valueless (Expr.evalFields set)
      (match rest with
      | .symbol .comma :: rest => do
        let (more, rest) ← Grammar.fields parser fuel rest
        return ((key, e) :: more, rest)
      | .symbol .closeBrace :: rest => return ([(key, e)], rest)
      | _ => none) := by
  split
  · exact .bind fun es rest => valueless_some (lost _)
  · exact valueless_some (lost _)
  · exact valueless_none

private theorem field_agrees
    (agrees : ∀ position ≤ tokens.length,
      Agrees tokens Expr.eval (operand position).result (parser (tokens.drop position)))
    {fuel : Nat} (more : ∀ set, ∀ position ≤ tokens.length,
      Agrees tokens (Expr.evalFields set) (fields (entriesOf tokens) operand fuel set position).result
        (Grammar.fields parser fuel (tokens.drop position)))
    (key : Key) {set : List (Text × Value)} {position : Nat} (inRange : position ≤ tokens.length) :
    Agrees tokens (Expr.evalFields set)
      ((do
        let value ← operand
        let name ← compute key.codes?
        if ← accept (entriesOf tokens) .comma then
          fields (entriesOf tokens) operand fuel (putField name value set)
        else
          expect (entriesOf tokens) .closeBrace
          return putField name value set) position).result
      (do
        let (e, rest) ← parser (tokens.drop position)
        match rest with
        | .symbol .comma :: rest =>
          let (es, rest) ← Grammar.fields parser fuel rest
          return ((key, e) :: es, rest)
        | .symbol .closeBrace :: rest => return ([(key, e)], rest)
        | _ => none) := by
  refine .bind (agrees _ inRange) ?_ ?_
  · intro value e reached _ isValue reachedInRange
    dsimp only
    cases codes : key.codes? with
    | none =>
      have lost (es : List (Key × Expr)) : Expr.evalFields set ((key, e) :: es) = none := by
        rw [Expr.evalFields, isValue, codes]
        rfl
      exact .halted (fields_end_valueless lost _)
    | some name =>
      have goesOn (es : List (Key × Expr)) : Expr.evalFields set ((key, e) :: es) =
          Expr.evalFields (putField name value set) es := by
        rw [Expr.evalFields, isValue, codes]
        rfl
      refine .branch reachedInRange (fun comma before => ?_) fun notComma => ?_
      · rw [comma]
        exact .map (more _ _ before) fun es rest => ⟨_, rfl, goesOn es⟩
      · refine .expect reachedInRange (fun brace before => ?_) fun notBrace => ?_
        · rw [brace]
          exact .found (goesOn []) before
        · split
          · exact absurd ‹_› (notComma _)
          · exact absurd ‹_› (notBrace _)
          · exact valueless_none
  · intro e tail valueless
    have lost (es : List (Key × Expr)) : Expr.evalFields set ((key, e) :: es) = none := by
      rw [Expr.evalFields, valueless]
      rfl
    exact fields_end_valueless lost tail

private theorem fields_agrees
    (agrees : ∀ position ≤ tokens.length,
      Agrees tokens Expr.eval (operand position).result (parser (tokens.drop position)))
    (fuel : Nat) (set : List (Text × Value)) (position : Nat) (inRange : position ≤ tokens.length) :
    Agrees tokens (Expr.evalFields set) (fields (entriesOf tokens) operand fuel set position).result
      (Grammar.fields parser fuel (tokens.drop position)) := by
  induction fuel generalizing set position with
  | zero => exact .halted valueless_none
  | succ fuel ih =>
    unfold fields
    rw [result_turn]
    refine .branch inRange (fun starts before => ?_) fun notClosed => ?_
    · rw [starts]
      exact .found rfl before
    · rcases entry_cases inRange with ⟨atEnd, -, starts⟩ | ⟨token, before, found, -, starts⟩
      · rw [starts, bind_of_ok (next_of_finish atEnd)]
        exact .halted valueless_none
      · have notBrace : token ≠ .symbol .closeBrace := by
          rintro rfl
          exact notClosed _ starts
        rw [starts, fields_of_other notBrace, bind_of_ok (next_of_token found), keyAt?]
        cases isKey : Grammar.key? token with
        | none =>
          -- The run stops at the key, the parse after the colon.
          refine .halted ?_
          split
          · exact valueless_none
          · exact valueless_none
        | some key =>
          refine .expect before (fun colon beforeColon => ?_) fun notColon => ?_
          · rw [colon]
            exact field_agrees agrees ih key beforeColon
          · split
            · exact absurd ‹_› (notColon _)
            · exact valueless_none

end Loops

section Levels

variable {tokens : List Token} {bound budget : Nat}
  (agrees : ∀ level, ∀ position ≤ tokens.length,
    Agrees tokens Expr.eval (evaluate (entriesOf tokens) bound budget level position).result
      (Grammar.expression bound budget level (tokens.drop position)))

include agrees

private theorem evaluate_conditional_agrees {position : Nat} (inRange : position ≤ tokens.length) :
    Agrees tokens Expr.eval (evaluate (entriesOf tokens) bound (budget + 1) .conditional position).result
      (Grammar.expression bound (budget + 1) .conditional (tokens.drop position)) := by
  rw [Grammar.expression]
  refine .bind (agrees .nullish _ inRange) ?_ ?_
  · intro test testExpr reached _ isTest reachedInRange
    refine .branch reachedInRange (fun question before => ?_) fun notQuestion => ?_
    · dsimp only
      rw [question]
      refine .bind (agrees .conditional _ before) ?_ ?_
      · intro yes yesExpr reached _ isYes reachedInRange
        refine .expect reachedInRange (fun colon before => ?_) fun notColon => ?_
        · dsimp only
          rw [colon]
          refine .bind (agrees .conditional _ before) ?_ ?_
          · intro no noExpr reached _ isNo reachedInRange
            exact .found (by rw [Expr.eval, isTest, isYes, isNo]; rfl) reachedInRange
          · intro noExpr tail valueless
            exact valueless_some (by rw [Expr.eval, isTest, isYes, valueless]; rfl)
        · dsimp only
          split
          · exact absurd ‹_› (notColon _)
          · exact valueless_none
      · intro yesExpr tail valueless
        dsimp only
        split
        · exact .bind fun noExpr rest => valueless_some (by rw [Expr.eval, isTest, valueless]; rfl)
        · exact valueless_none
    · dsimp only
      split
      · exact absurd ‹_› (notQuestion _)
      · exact .found isTest reachedInRange
  · intro testExpr tail valueless
    dsimp only
    split
    · refine .bind fun yesExpr rest => ?_
      dsimp only
      split
      · exact .bind fun noExpr rest => valueless_some (by rw [Expr.eval, valueless]; rfl)
      · exact valueless_none
    · exact valueless_some valueless

private theorem evaluate_exponent_agrees {position : Nat} (inRange : position ≤ tokens.length) :
    Agrees tokens Expr.eval (evaluate (entriesOf tokens) bound (budget + 1) .exponent position).result
      (Grammar.expression bound (budget + 1) .exponent (tokens.drop position)) := by
  rw [Grammar.expression]
  refine .bind (agrees .unary _ inRange) ?_ ?_
  · intro base baseExpr reached _ isBase reachedInRange
    refine .branch reachedInRange (fun operator before => ?_) fun notPower => ?_
    · dsimp only
      rw [operator]
      refine .bind (agrees .exponent _ before) ?_ ?_
      · intro power powerExpr reached _ isPower reachedInRange
        have joined : (Expr.binary .pow baseExpr powerExpr).eval = BinaryOp.pow.apply base power := by
          rw [Expr.eval, isBase, isPower]
          rfl
        exact .computed joined reachedInRange
      · intro powerExpr tail valueless
        exact valueless_some (by rw [Expr.eval, isBase, valueless]; rfl)
    · dsimp only
      split
      · exact absurd ‹_› (notPower _)
      · exact .found isBase reachedInRange
  · intro baseExpr tail valueless
    dsimp only
    split
    · exact .bind fun powerExpr rest => valueless_some (by rw [Expr.eval, valueless]; rfl)
    · exact valueless_some valueless

private theorem evaluate_unary_agrees {position : Nat} (inRange : position ≤ tokens.length) :
    Agrees tokens Expr.eval (evaluate (entriesOf tokens) bound (budget + 1) .unary position).result
      (Grammar.expression bound (budget + 1) .unary (tokens.drop position)) := by
  have primary := agrees .primary _ inRange
  change Agrees tokens Expr.eval ((peek (entriesOf tokens) >>= _) position).result _
  rw [result_look inRange]
  rcases entry_cases inRange with ⟨-, finished, starts⟩ | ⟨token, before, -, here, starts⟩
  · have nothing : Grammar.expression bound budget .primary [] = none := by cases budget <;> rfl
    rw [starts, nothing] at primary
    rw [finished, starts]
    exact primary
  · rw [here, starts, Grammar.expression, unaryAt?]
    cases applies : Grammar.unaryOp? token with
    | none =>
      rw [starts] at primary
      exact primary
    | some op =>
      dsimp only
      rw [result_advance]
      refine .bind (agrees .unary _ before) ?_ ?_
      · intro operand e reached _ isOperand reachedInRange
        have applied : (Expr.unary op e).eval = op.apply operand := by
          rw [Expr.eval, isOperand]
          rfl
        exact .computed applied reachedInRange
      · intro e tail valueless
        exact valueless_some (by rw [Expr.eval, valueless]; rfl)

private theorem evaluate_primary_agrees {position : Nat} (inRange : position ≤ tokens.length) :
    Agrees tokens Expr.eval (evaluate (entriesOf tokens) bound (budget + 1) .primary position).result
      (Grammar.expression bound (budget + 1) .primary (tokens.drop position)) := by
  change Agrees tokens Expr.eval ((next (entriesOf tokens) >>= _) position).result _
  rcases entry_cases inRange with ⟨atEnd, -, starts⟩ | ⟨token, before, found, -, starts⟩
  · rw [starts, bind_of_ok (next_of_finish atEnd)]
    exact .halted valueless_none
  · rw [starts, bind_of_ok (next_of_token found)]
    cases token with
    | literal value => exact .found rfl before
    | name text =>
      rw [Grammar.expression]
      dsimp only
      cases Keyword.ofName? text with
      | none => exact .halted valueless_none
      | some word => exact .found rfl before
    | symbol s =>
      cases s with
      | openParen =>
        rw [Grammar.expression]
        refine .bind (agrees .conditional _ before) ?_ ?_
        · intro inner e reached _ isInner reachedInRange
          refine .expect reachedInRange (fun close beforeClose => ?_) fun notClosed => ?_
          · dsimp only
            rw [close]
            exact .found isInner beforeClose
          · dsimp only
            split
            · exact absurd ‹_› (notClosed _)
            · exact valueless_none
        · intro e tail valueless
          dsimp only
          split
          · exact valueless_some valueless
          · exact valueless_none
      | openBracket =>
        rw [Grammar.expression]
        refine .bind (items_agrees (agrees .conditional) before) ?_ ?_
        · intro values es reached _ areValues reachedInRange
          exact .found (by rw [Expr.eval, areValues]; rfl) reachedInRange
        · intro es tail valueless
          exact valueless_some (by rw [Expr.eval, valueless]; rfl)
      | openBrace =>
        rw [Grammar.expression]
        refine .bind (fields_agrees (agrees .conditional) _ _ _ before) ?_ ?_
        · intro set es reached _ areSet reachedInRange
          exact .found (by rw [Expr.eval, areSet]; rfl) reachedInRange
        · intro es tail valueless
          exact valueless_some (by rw [Expr.eval, valueless]; rfl)
      | _ => exact .halted valueless_none

private theorem evaluate_groupsLeft_agrees {level : Level} (groups : level.groupsLeft = true)
    (enough : tokens.length < bound) {position : Nat} (inRange : position ≤ tokens.length) :
    Agrees tokens Expr.eval
      ((do
        let left ← evaluate (entriesOf tokens) bound budget level.next
        operands (entriesOf tokens) (evaluate (entriesOf tokens) bound budget level.next) level bound
          left) position).result
      (Grammar.expression bound (budget + 1) level (tokens.drop position)) := by
  rw [Grammar.expression_of_groupsLeft groups]
  refine .bind (agrees level.next _ inRange) ?_ ?_
  · intro left e reached _ isLeft reachedInRange
    exact operands_agrees (evaluate_isCall enough budget level.next) (agrees level.next) isLeft
      reachedInRange (by omega)
  · exact fun e tail valueless => chain_valueless valueless tail

end Levels

/-- The evaluator and the parser agree at every level, position and budget. -/
theorem evaluate_agrees {tokens : List Token} {bound : Nat} (enough : tokens.length < bound)
    (budget : Nat) (level : Level) :
    ∀ position ≤ tokens.length,
      Agrees tokens Expr.eval (evaluate (entriesOf tokens) bound budget level position).result
        (Grammar.expression bound budget level (tokens.drop position)) := by
  induction budget generalizing level with
  | zero =>
    intro position _
    cases level <;> exact .halted valueless_none
  | succ budget ih =>
    intro position inRange
    cases level with
    | conditional => exact evaluate_conditional_agrees ih inRange
    | exponent => exact evaluate_exponent_agrees ih inRange
    | unary => exact evaluate_unary_agrees ih inRange
    | primary => exact evaluate_primary_agrees ih inRange
    | _ => exact evaluate_groupsLeft_agrees ih rfl enough inRange

end Evaluator

end PugPrinter.Constant
