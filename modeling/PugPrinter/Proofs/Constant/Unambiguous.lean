import PugPrinter.Proofs.Constant.Phrase

/-!
No list of tokens is spelled by two phrases. A phrase of a level that groups to the left is a first
operand, followed by links of an operator and one more operand; in this form two phrases can be
compared from the left, operand by operand.
-/

set_option autoImplicit false

namespace PugPrinter.Constant

structure Link (level : Level) where
  op : Operator
  joins : op.level? = some level
  right : Phrase level.next

def Link.tokens {level : Level} (link : Link level) : List Token :=
  .symbol link.op.symbol :: link.right.tokens

def Link.allTokens {level : Level} (links : List (Link level)) : List Token :=
  links.flatMap Link.tokens

def Phrase.extend {level : Level} (p : Phrase level) (links : List (Link level)) : Phrase level :=
  links.foldl (fun left link => .joined link.op link.joins left link.right) p

section Links

variable {level : Level} {link : Link level} {links : List (Link level)} {rest : List Token}

theorem Link.allTokens_cons_append :
    allTokens (link :: links) ++ rest =
      .symbol link.op.symbol :: (link.right.tokens ++ (allTokens links ++ rest)) := by
  simp [allTokens, tokens]

theorem Link.stops_next (links : List (Link level)) (stops : Stops level rest) :
    Stops level.next (allTokens links ++ rest) := by
  cases links with
  | nil => exact stops.next
  | cons link links =>
    rw [allTokens_cons_append]
    exact stops_of_lt (link.op.continues?_symbol link.joins) (link.op.rank_lt_next link.joins)

namespace Phrase

theorem tokens_extend (p : Phrase level) (links : List (Link level)) :
    (p.extend links).tokens = p.tokens ++ Link.allTokens links := by
  induction links generalizing p with
  | nil => exact (List.append_nil _).symm
  | cons link links ih =>
    have first := ih (.joined link.op link.joins p link.right)
    rw [Phrase.tokens, List.append_assoc] at first
    exact first

theorem height_extend_le {n : Nat} {p : Phrase level} {links : List (Link level)} :
    (p.extend links).height ≤ n + 1 ↔ p.height ≤ n + 1 ∧ ∀ link ∈ links, link.right.height ≤ n := by
  induction links generalizing p with
  | nil => simp [extend]
  | cons link links ih =>
    have first := @ih (.joined link.op link.joins p link.right)
    rw [Phrase.height, Nat.max_le, Nat.add_le_add_iff_right, and_assoc] at first
    rw [List.forall_mem_cons]
    exact first

theorem exists_links : ∀ {level : Level} (p : Phrase level), level.groupsLeft = true →
    ∃ (loose : level ≠ .primary) (first : Phrase level.next) (links : List (Link level)),
      p = (step loose first).extend links
  | _, .step loose inner, _ => ⟨loose, inner, [], rfl⟩
  | _, .joined op joins left right, groups => by
    obtain ⟨loose, first, links, same⟩ := left.exists_links groups
    refine ⟨loose, first, links ++ [⟨op, joins, right⟩], ?_⟩
    rw [extend, List.foldl_append]
    exact congrArg (joined op joins · right) same
  | _, .conditional _ _ _, groups | _, .power _ _, groups | _, .applied _ _, groups
  | _, .literal _, groups | _, .keyword _, groups | _, .parenthesized _, groups
  | _, .array _, groups | _, .object _, groups => nomatch groups

end Phrase

end Links

def UniqueTo (n : Nat) (level : Level) : Prop :=
  ∀ (p q : Phrase level) {after after' : List Token}, p.height ≤ n → Stops level after →
    Stops level after' → p.tokens ++ after = q.tokens ++ after' → p = q ∧ after = after'

variable {n : Nat} {after after' : List Token}

private theorem Link.unique {level : Level} (unique : UniqueTo n level.next)
    {links links' : List (Link level)} (low : ∀ link ∈ links, link.right.height ≤ n)
    (stops : Stops level after)
    (stops' : Stops level after') (same : allTokens links ++ after = allTokens links' ++ after') :
    links = links' ∧ after = after' := by
  induction links generalizing links' with
  | nil =>
    cases links' with
    | nil => exact ⟨rfl, same⟩
    | cons link' links' =>
      have goesOn : after = _ := same.trans allTokens_cons_append
      exact (not_stops (link'.op.continues?_symbol link'.joins) (goesOn ▸ stops)).elim
  | cons link links ih =>
    cases links' with
    | nil =>
      have goesOn : after' = _ := same.symm.trans allTokens_cons_append
      exact (not_stops (link.op.continues?_symbol link.joins) (goesOn ▸ stops')).elim
    | cons link' links' =>
      rw [allTokens_cons_append, allTokens_cons_append] at same
      obtain ⟨sameSymbol, sameRest⟩ := List.cons.inj same
      have lowFirst := (List.forall_mem_cons.mp low).1
      have lowOthers := (List.forall_mem_cons.mp low).2
      have sameOp : link.op = link'.op := Operator.symbol_injective (Token.symbol.inj sameSymbol)
      obtain ⟨sameRight, sameLinks⟩ := unique link.right link'.right lowFirst
        (stops_next links stops) (stops_next links' stops') sameRest
      obtain ⟨rfl, sameAfter⟩ := ih lowOthers sameLinks
      cases link
      cases link'
      cases sameOp
      cases sameRight
      exact ⟨rfl, sameAfter⟩

namespace Phrase

private theorem ne_of_not_starts {level : Level} (p : Phrase level) {token : Token}
    (not : token.startsPhrase = false) {rest more : List Token} : token :: rest ≠ p.tokens ++ more := by
  obtain ⟨first, others, tokens, starts⟩ := p.exists_start
  intro same
  rw [tokens] at same
  have sameFirst : token = first := (List.cons.inj same).1
  rw [sameFirst, starts] at not
  cases not

private theorem unique_of_groupsLeft {level : Level} (groups : level.groupsLeft = true)
    (unique : UniqueTo n level.next) : UniqueTo (n + 1) level := by
  intro p q after after' low stops stops' same
  obtain ⟨loose, first, links, rfl⟩ := p.exists_links groups
  obtain ⟨_, first', links', rfl⟩ := q.exists_links groups
  obtain ⟨lowFirst, lowLinks⟩ := height_extend_le.mp low
  rw [tokens_extend, tokens_extend, List.append_assoc, List.append_assoc, Phrase.tokens,
    Phrase.tokens] at same
  rw [Phrase.height, Nat.add_le_add_iff_right] at lowFirst
  obtain ⟨rfl, sameLinks⟩ := unique first first' lowFirst (Link.stops_next links stops)
    (Link.stops_next links' stops') same
  obtain ⟨rfl, sameAfter⟩ := Link.unique unique lowLinks stops stops' sameLinks
  exact ⟨rfl, sameAfter⟩

private theorem unique_conditional (unique : ∀ level, UniqueTo n level) :
    UniqueTo (n + 1) .conditional := by
  have goesOn : (Token.symbol .question).continues? = some .conditional := rfl
  have testEnds (rest : List Token) : Stops .nullish (.symbol .question :: rest) :=
    stops_of_lt goesOn (by decide)
  have ends (rest : List Token) : Stops .conditional (.symbol .colon :: rest) := stops_of_none rfl
  intro p q after after' low stops stops' same
  cases p using conditionalCases with
  | step loose test =>
    rw [Phrase.height, Nat.add_le_add_iff_right] at low
    cases q using conditionalCases with
    | step loose' test' =>
      rw [Phrase.tokens, Phrase.tokens] at same
      obtain ⟨rfl, sameAfter⟩ := unique _ test test' low stops.next stops'.next same
      exact ⟨rfl, sameAfter⟩
    | conditional test' yes' no' =>
      rw [Phrase.tokens, Phrase.tokens, List.append_assoc] at same
      obtain ⟨rfl, rfl⟩ := unique _ test test' low stops.next (testEnds _) same
      exact (not_stops goesOn stops).elim
  | conditional test yes no =>
    rw [Phrase.height, Nat.add_le_add_iff_right, Nat.max_le, Nat.max_le] at low
    obtain ⟨lowTest, lowYes, lowNo⟩ := low
    cases q using conditionalCases with
    | step loose' test' =>
      rw [Phrase.tokens, Phrase.tokens, List.append_assoc] at same
      obtain ⟨rfl, rfl⟩ := unique _ test test' lowTest (testEnds _) stops'.next same
      exact (not_stops goesOn stops').elim
    | conditional test' yes' no' =>
      simp only [Phrase.tokens, List.append_assoc, List.cons_append] at same
      obtain ⟨rfl, sameArms⟩ := unique _ test test' lowTest (testEnds _) (testEnds _) same
      obtain ⟨rfl, sameNo⟩ := unique _ yes yes' lowYes (ends _) (ends _) (List.cons.inj sameArms).2
      obtain ⟨rfl, sameAfter⟩ := unique _ no no' lowNo stops stops' (List.cons.inj sameNo).2
      exact ⟨rfl, sameAfter⟩

private theorem unique_exponent (unique : ∀ level, UniqueTo n level) :
    UniqueTo (n + 1) .exponent := by
  have goesOn : (Token.symbol .power).continues? = some .exponent := rfl
  have baseEnds (rest : List Token) : Stops .unary (.symbol .power :: rest) :=
    stops_of_lt goesOn (by decide)
  intro p q after after' low stops stops' same
  cases p using exponentCases with
  | step loose base =>
    rw [Phrase.height, Nat.add_le_add_iff_right] at low
    cases q using exponentCases with
    | step loose' base' =>
      simp only [Phrase.tokens] at same
      obtain ⟨rfl, sameAfter⟩ := unique _ base base' low stops.next stops'.next same
      exact ⟨rfl, sameAfter⟩
    | power base' exponent' =>
      simp only [Phrase.tokens, List.append_assoc, List.cons_append] at same
      obtain ⟨rfl, rfl⟩ := unique _ base base' low stops.next (baseEnds _) same
      exact (not_stops goesOn stops).elim
  | power base exponent =>
    rw [Phrase.height, Nat.add_le_add_iff_right, Nat.max_le] at low
    cases q using exponentCases with
    | step loose' base' =>
      simp only [Phrase.tokens, List.append_assoc, List.cons_append] at same
      obtain ⟨rfl, rfl⟩ := unique _ base base' low.1 (baseEnds _) stops'.next same
      exact (not_stops goesOn stops').elim
    | power base' exponent' =>
      simp only [Phrase.tokens, List.append_assoc, List.cons_append] at same
      obtain ⟨rfl, sameExponent⟩ := unique _ base base' low.1 (baseEnds _) (baseEnds _) same
      obtain ⟨rfl, sameAfter⟩ := unique _ exponent exponent' low.2 stops stops'
        (List.cons.inj sameExponent).2
      exact ⟨rfl, sameAfter⟩

theorem ne_of_operator (p : Phrase .primary) (op : UnaryOp) {rest more : List Token} :
    op.token :: rest ≠ p.tokens ++ more := by
  intro same
  cases p using primaryCases with
  | keyword word =>
    rw [Phrase.tokens] at same
    exact op.token_ne_spelling word (List.cons.inj same).1
  | _ =>
    rw [Phrase.tokens] at same
    have first := (List.cons.inj same).1
    cases op <;> cases first

private theorem unique_unary (unique : ∀ level, UniqueTo n level) : UniqueTo (n + 1) .unary := by
  intro p q after after' low stops stops' same
  cases p using unaryCases with
  | step loose inner =>
    rw [Phrase.height, Nat.add_le_add_iff_right] at low
    cases q using unaryCases with
    | step loose' inner' =>
      simp only [Phrase.tokens] at same
      obtain ⟨rfl, sameAfter⟩ := unique _ inner inner' low stops.next stops'.next same
      exact ⟨rfl, sameAfter⟩
    | applied op' operand' =>
      simp only [Phrase.tokens, List.cons_append] at same
      exact (inner.ne_of_operator op' same.symm).elim
  | applied op operand =>
    rw [Phrase.height, Nat.add_le_add_iff_right] at low
    cases q using unaryCases with
    | step loose' inner' =>
      simp only [Phrase.tokens, List.cons_append] at same
      exact (inner'.ne_of_operator op same).elim
    | applied op' operand' =>
      simp only [Phrase.tokens, List.cons_append] at same
      obtain ⟨sameToken, sameRest⟩ := List.cons.inj same
      have sameOp : op = op' := by cases op <;> cases op' <;> first | rfl | cases sameToken
      obtain ⟨rfl, sameAfter⟩ := unique _ operand operand' low stops stops' sameRest
      exact ⟨sameOp ▸ rfl, sameAfter⟩

end Phrase

private theorem Items.unique (unique : UniqueTo n .conditional) : ∀ items items' :
    Items, items.height ≤ n → items.tokens ++ after = items'.tokens ++ after' → items = items' ∧ after = after'
  | .closed, .closed, _, same => by
    simp only [Items.tokens, List.cons_append] at same
    exact ⟨rfl, (List.cons.inj same).2⟩
  | .hole rest, .hole rest', low, same => by
    rw [Items.height] at low
    simp only [Items.tokens, List.cons_append] at same
    obtain ⟨rfl, sameAfter⟩ := Items.unique unique rest rest' low (List.cons.inj same).2
    exact ⟨rfl, sameAfter⟩
  | .last p, .last p', low, same => by
    rw [Items.height] at low
    simp only [Items.tokens, List.append_assoc] at same
    obtain ⟨rfl, sameRest⟩ := unique p p' low (stops_of_none rfl) (stops_of_none rfl) same
    exact ⟨rfl, (List.cons.inj sameRest).2⟩
  | .item p rest, .item p' rest', low, same => by
    rw [Items.height, Nat.max_le] at low
    simp only [Items.tokens, List.append_assoc] at same
    obtain ⟨rfl, sameRest⟩ := unique p p' low.1 (stops_of_none rfl) (stops_of_none rfl) same
    obtain ⟨rfl, sameAfter⟩ := Items.unique unique rest rest' low.2 (List.cons.inj sameRest).2
    exact ⟨rfl, sameAfter⟩
  | .closed, .hole _, _, same | .hole _, .closed, _, same => by
    simp only [Items.tokens, List.cons_append] at same
    cases same
  | .closed, .last p, _, same | .closed, .item p _, _, same | .hole _, .last p, _, same
  | .hole _, .item p _, _, same => by
    simp only [Items.tokens, List.cons_append, List.append_assoc] at same
    exact (p.ne_of_not_starts rfl same).elim
  | .last p, .closed, _, same | .item p _, .closed, _, same | .last p, .hole _, _, same
  | .item p _, .hole _, _, same => by
    simp only [Items.tokens, List.cons_append, List.append_assoc] at same
    exact (p.ne_of_not_starts rfl same.symm).elim
  | .last p, .item p' _, low, same => by
    rw [Items.height] at low
    simp only [Items.tokens, List.append_assoc] at same
    obtain ⟨_, sameRest⟩ := unique p p' low (stops_of_none rfl) (stops_of_none rfl) same
    cases sameRest
  | .item p _, .last p', low, same => by
    rw [Items.height, Nat.max_le] at low
    simp only [Items.tokens, List.append_assoc] at same
    obtain ⟨_, sameRest⟩ := unique p p' low.1 (stops_of_none rfl) (stops_of_none rfl) same
    cases sameRest

private theorem Key.token_injective {key key' : Key} (same : key.token = key'.token) :
    key = key' := by
  cases key <;> cases key' <;> cases same <;> rfl

private theorem Key.token_ne_symbol (key : Key) (s : Symbol) : key.token ≠ .symbol s := by
  cases key <;> exact fun same => nomatch same

private theorem Fields.unique (unique : UniqueTo n .conditional) : ∀ fields fields' : Fields,
    fields.height ≤ n → fields.tokens ++ after = fields'.tokens ++ after' →
      fields = fields' ∧ after = after'
  | .closed, .closed, _, same => by
    simp only [Fields.tokens, List.cons_append] at same
    exact ⟨rfl, (List.cons.inj same).2⟩
  | .last key p, .last key' p', low, same => by
    rw [Fields.height] at low
    simp only [Fields.tokens, List.cons_append, List.append_assoc] at same
    obtain ⟨sameKey, same⟩ := List.cons.inj same
    obtain ⟨rfl, sameRest⟩ := unique p p' low (stops_of_none rfl) (stops_of_none rfl)
      (List.cons.inj same).2
    rw [Key.token_injective sameKey]
    exact ⟨rfl, (List.cons.inj sameRest).2⟩
  | .field key p rest, .field key' p' rest', low, same => by
    rw [Fields.height, Nat.max_le] at low
    simp only [Fields.tokens, List.cons_append, List.append_assoc] at same
    obtain ⟨sameKey, same⟩ := List.cons.inj same
    obtain ⟨rfl, sameRest⟩ := unique p p' low.1 (stops_of_none rfl) (stops_of_none rfl)
      (List.cons.inj same).2
    obtain ⟨rfl, sameAfter⟩ := Fields.unique unique rest rest' low.2 (List.cons.inj sameRest).2
    rw [Key.token_injective sameKey]
    exact ⟨rfl, sameAfter⟩
  | .closed, .last key _, _, same | .closed, .field key _ _, _, same => by
    simp only [Fields.tokens, List.cons_append] at same
    exact (key.token_ne_symbol _ (List.cons.inj same).1.symm).elim
  | .last key _, .closed, _, same | .field key _ _, .closed, _, same => by
    simp only [Fields.tokens, List.cons_append] at same
    exact (key.token_ne_symbol _ (List.cons.inj same).1).elim
  | .last _ p, .field _ p' _, low, same => by
    rw [Fields.height] at low
    simp only [Fields.tokens, List.cons_append, List.append_assoc] at same
    obtain ⟨_, sameRest⟩ := unique p p' low (stops_of_none rfl) (stops_of_none rfl)
      (List.cons.inj (List.cons.inj same).2).2
    cases sameRest
  | .field _ p _, .last _ p', low, same => by
    rw [Fields.height, Nat.max_le] at low
    simp only [Fields.tokens, List.cons_append, List.append_assoc] at same
    obtain ⟨_, sameRest⟩ := unique p p' low.1 (stops_of_none rfl) (stops_of_none rfl)
      (List.cons.inj (List.cons.inj same).2).2
    cases sameRest

namespace Phrase

private theorem unique_primary (unique : UniqueTo n .conditional) : UniqueTo (n + 1) .primary := by
  intro p q after after' low _ _ same
  cases p using primaryCases with
  | literal value =>
    cases q using primaryCases with
    | literal value' =>
      simp only [Phrase.tokens, List.cons_append] at same
      cases same
      exact ⟨rfl, rfl⟩
    | _ =>
      simp only [Phrase.tokens, List.cons_append] at same
      cases same
  | keyword word =>
    cases q using primaryCases with
    | keyword word' =>
      simp only [Phrase.tokens, List.cons_append] at same
      obtain ⟨sameName, sameAfter⟩ := List.cons.inj same
      rw [Keyword.spelling_injective (Token.name.inj sameName)]
      exact ⟨rfl, sameAfter⟩
    | _ =>
      simp only [Phrase.tokens, List.cons_append] at same
      cases same
  | parenthesized inner =>
    rw [Phrase.height, Nat.add_le_add_iff_right] at low
    cases q using primaryCases with
    | parenthesized inner' =>
      simp only [Phrase.tokens, List.cons_append, List.append_assoc] at same
      obtain ⟨rfl, sameRest⟩ := unique inner inner' low (stops_of_none rfl) (stops_of_none rfl)
        (List.cons.inj same).2
      exact ⟨rfl, (List.cons.inj sameRest).2⟩
    | _ =>
      simp only [Phrase.tokens, List.cons_append] at same
      cases same
  | array items =>
    rw [Phrase.height, Nat.add_le_add_iff_right] at low
    cases q using primaryCases with
    | array items' =>
      simp only [Phrase.tokens, List.cons_append] at same
      obtain ⟨rfl, sameAfter⟩ := Items.unique unique items items' low (List.cons.inj same).2
      exact ⟨rfl, sameAfter⟩
    | _ =>
      simp only [Phrase.tokens, List.cons_append] at same
      cases same
  | object fields =>
    rw [Phrase.height, Nat.add_le_add_iff_right] at low
    cases q using primaryCases with
    | object fields' =>
      simp only [Phrase.tokens, List.cons_append] at same
      obtain ⟨rfl, sameAfter⟩ := Fields.unique unique fields fields' low (List.cons.inj same).2
      exact ⟨rfl, sameAfter⟩
    | _ =>
      simp only [Phrase.tokens, List.cons_append] at same
      cases same

theorem height_pos : ∀ {level : Level} (p : Phrase level), 0 < p.height
  | _, .joined _ _ left _ => by
    have := left.height_pos
    rw [Phrase.height]
    omega
  | _, .step _ _ | _, .conditional _ _ _ | _, .power _ _ | _, .applied _ _ | _, .literal _
  | _, .keyword _ | _, .parenthesized _ | _, .array _ | _, .object _ => by
    rw [Phrase.height]
    omega

private theorem uniqueTo (n : Nat) (level : Level) : UniqueTo n level := by
  -- On the height and not on the phrase: the operands of a chain are no direct parts of its last join.
  induction n generalizing level with
  | zero => exact fun p _ _ _ low => absurd p.height_pos (by omega)
  | succ n ih =>
    cases level with
    | conditional => exact unique_conditional ih
    | exponent => exact unique_exponent ih
    | unary => exact unique_unary ih
    | primary => exact unique_primary (ih _)
    | _ => exact unique_of_groupsLeft rfl (ih _)

/-- No list of tokens is spelled by two phrases of a level. -/
theorem eq_of_tokens_eq {level : Level} {p q : Phrase level} (same : p.tokens = q.tokens) : p = q := by
  have follow : p.tokens ++ [] = q.tokens ++ [] := congrArg (· ++ []) same
  exact (uniqueTo p.height level p q (Nat.le_refl _) (stops_nil level) (stops_nil level) follow).1

end Phrase

end PugPrinter.Constant
