import PugPrinter.Proofs.Emit.Openers

/-!
Escaping of interpolation openers as a normal form. A text is escaped by taking away the backslash
directly before each opener, where there is one, and putting one before each of them. So what is left
of a text without these backslashes decides what it is escaped to, and the texts that stay as they are
are those whose openers all have a backslash already.
-/

set_option autoImplicit false

namespace PugPrinter.Text

def startsOpener : Text → Bool
  | c :: rest => c == '#' && continuesOpener rest
  | [] => false

/-- Every opener of a text has a backslash directly before it. -/
def OpenersEscaped (t : Text) : Prop :=
  ∀ before opener : Text, t = before ++ opener → startsOpener opener = true →
    before.getLast? = some (CodePoint.scalar '\\')

/-- A text without the backslash directly before each opener, where there is one. -/
def dropEscapes : Text → Text
  | [] => []
  | c :: rest => if c == '\\' && startsOpener rest then dropEscapes rest else c :: dropEscapes rest

private def addEscapes : Text → Text
  | [] => []
  | c :: rest => if startsOpener (c :: rest) then '\\' :: c :: addEscapes rest else c :: addEscapes rest

/-- Whether every opener of a text has a backslash directly before it, when the text itself comes after
a backslash or not. -/
private def openersEscaped (slash : Bool) : Text → Bool
  | [] => true
  | c :: rest => !(!slash && startsOpener (c :: rest)) && openersEscaped (c == '\\') rest

private theorem openersEscaped_iff_endsInSlash (slash : Bool) (t : Text) :
    openersEscaped slash t = true ↔ ∀ before opener : Text, t = before ++ opener →
      startsOpener opener = true → endsInSlash slash before = true := by
  induction t generalizing slash with
  | nil =>
    refine iff_of_true rfl fun before opener split opens => ?_
    obtain ⟨-, rfl⟩ := List.append_eq_nil_iff.mp split.symm
    cases opens
  | cons c t ih =>
    rw [openersEscaped, Bool.and_eq_true, ih]
    constructor
    · rintro ⟨here, later⟩ before opener split opens
      cases before with
      | nil =>
        have whole : opener = c :: t := split.symm
        subst whole
        simpa [opens, endsInSlash] using here
      | cons d before =>
        obtain ⟨rfl, rest⟩ := List.cons.inj split
        exact later before opener rest opens
    · intro all
      constructor
      · cases opens : startsOpener (c :: t) with
        | false => simp
        | true =>
          have first : slash = true := all [] (c :: t) rfl opens
          simp [first]
      · intro before opener split opens
        exact all (c :: before) opener (congrArg _ split) opens

private theorem endsInSlash_iff (t : Text) :
    endsInSlash false t = true ↔ t.getLast? = some (CodePoint.scalar '\\') := by
  rcases List.eq_nil_or_concat t with rfl | ⟨before, c, rfl⟩
  · exact iff_of_false Bool.false_ne_true nofun
  · simp [endsInSlash_append, endsInSlash]

private theorem openersEscaped_iff (t : Text) :
    openersEscaped false t = true ↔ OpenersEscaped t := by
  simp only [openersEscaped_iff_endsInSlash, OpenersEscaped, endsInSlash_iff]

private theorem startsOpener_slash (t : Text) :
    startsOpener (CodePoint.scalar '\\' :: t) = false := rfl

private theorem continuesOpener_escapeAfter (slash : Bool) (t : Text) :
    continuesOpener (escapeAfter slash t) = continuesOpener t := by
  cases t with
  | nil => rfl
  | cons c t =>
    unfold escapeAfter
    split
    · rename_i opens
      have hash : c = '#' := by
        simp only [Bool.and_eq_true, beq_iff_eq] at opens
        exact opens.1.1
      subst hash
      rfl
    · rfl

private theorem escapeAfter_cons (slash : Bool) (c : CodePoint) (t : Text) :
    escapeAfter slash (c :: t) =
      (if !slash && startsOpener (c :: t) then CodePoint.scalar '\\' :: c :: escapeAfter false t
      else c :: escapeAfter (c == '\\') t) := by
  have same : (c == '#' && !slash && continuesOpener t) = (!slash && startsOpener (c :: t)) := by
    rw [startsOpener, Bool.and_comm (c == '#'), Bool.and_assoc]
  rw [escapeAfter.eq_def]
  simp only [same]

private theorem startsOpener_cons_escapeAfter (c : CodePoint) (slash : Bool) (t : Text) :
    startsOpener (c :: escapeAfter slash t) = startsOpener (c :: t) := by
  rw [startsOpener, startsOpener, continuesOpener_escapeAfter]

private theorem not_slash_of_startsOpener {c : CodePoint} {t : Text}
    (opens : startsOpener (c :: t) = true) :
    (c == '\\') = false := by
  have hash : c = '#' := beq_iff_eq.mp (Bool.and_eq_true_iff.mp opens).1
  subst hash
  rfl

private theorem openersEscaped_escapeAfter (slash : Bool) (t : Text) :
    openersEscaped slash (escapeAfter slash t) = true := by
  induction t generalizing slash with
  | nil => rfl
  | cons c t ih =>
    rw [escapeAfter_cons]
    split
    · rename_i opens
      have notSlash := not_slash_of_startsOpener (Bool.and_eq_true_iff.mp opens).2
      have rest := ih false
      simp [openersEscaped, startsOpener_slash, notSlash, rest]
    · rename_i plain
      rw [openersEscaped, startsOpener_cons_escapeAfter, ih, Bool.and_true, Bool.not_eq_true']
      exact Bool.eq_false_iff.mpr plain

private theorem escapeAfter_eq_self {slash : Bool} {t : Text}
    (escaped : openersEscaped slash t = true) :
    escapeAfter slash t = t := by
  induction t generalizing slash with
  | nil => rfl
  | cons c t ih =>
    obtain ⟨here, later⟩ := Bool.and_eq_true_iff.mp escaped
    rw [Bool.not_eq_true'] at here
    rw [escapeAfter_cons, here, ih later]
    rfl

private theorem slash_cons_escapeAfter (t : Text) :
    CodePoint.scalar '\\' :: escapeAfter true t =
      if startsOpener t then escapeAfter false t
      else CodePoint.scalar '\\' :: escapeAfter false t := by
  -- After a backslash an opener is left as it is, and then this backslash is the one that it gets
  -- where none is before it.
  cases t with
  | nil => rfl
  | cons c t =>
    rw [escapeAfter_cons, escapeAfter_cons]
    cases opens : startsOpener (c :: t) with
    | false => simp
    | true => simp [not_slash_of_startsOpener opens]

private theorem continuesOpener_dropEscapes (t : Text) :
    continuesOpener (dropEscapes t) = continuesOpener t := by
  cases t with
  | nil => rfl
  | cons c t =>
    unfold dropEscapes
    split
    · -- A mark comes to stand where the backslash was; neither of them goes on with an opener.
      rename_i dropped
      obtain ⟨slash, opens⟩ := Bool.and_eq_true_iff.mp dropped
      cases t with
      | nil => cases opens
      | cons d t =>
        have notSlash := not_slash_of_startsOpener opens
        have hash : d = '#' := beq_iff_eq.mp (Bool.and_eq_true_iff.mp opens).1
        rw [beq_iff_eq.mp slash, hash]
        rfl
    · rfl

private theorem startsOpener_cons_dropEscapes (c : CodePoint) (t : Text) :
    startsOpener (c :: dropEscapes t) = startsOpener (c :: t) := by
  rw [startsOpener, startsOpener, continuesOpener_dropEscapes]

private theorem escapeAfter_false_eq (t : Text) :
    escapeAfter false t = addEscapes (dropEscapes t) := by
  induction t with
  | nil => rfl
  | cons c t ih =>
    rw [escapeAfter_cons, dropEscapes]
    cases opens : startsOpener (c :: t) with
    | true =>
      have notSlash := not_slash_of_startsOpener opens
      simp [notSlash, addEscapes, startsOpener_cons_dropEscapes, opens, ih]
    | false =>
      by_cases slash : c = '\\'
      · subst slash
        simp only [Bool.and_false, Bool.false_eq_true, if_false, beq_self_eq_true, Bool.true_and,
          slash_cons_escapeAfter, ih]
        split
        · rfl
        · rw [addEscapes, startsOpener_slash]
          rfl
      · have notSlash : (c == '\\') = false := beq_eq_false_iff_ne.mpr slash
        simp [notSlash, addEscapes, startsOpener_cons_dropEscapes, opens, ih]

private theorem dropEscapes_escapeAfter (slash : Bool) (t : Text) :
    dropEscapes (escapeAfter slash t) = dropEscapes t := by
  induction t generalizing slash with
  | nil => rfl
  | cons c t ih =>
    rw [escapeAfter_cons]
    split
    · rename_i opens
      have opens := (Bool.and_eq_true_iff.mp opens).2
      have notSlash := not_slash_of_startsOpener opens
      simp [dropEscapes, startsOpener_cons_escapeAfter, opens, notSlash, ih]
    · rw [dropEscapes, dropEscapes, ih]
      by_cases isSlash : c = '\\'
      · subst isSlash
        have same : startsOpener (escapeAfter true t) = startsOpener t := by
          cases t with
          | nil => rfl
          | cons d t => simp [escapeAfter_cons, startsOpener_cons_escapeAfter]
        simp [same]
      · have notSlash : (c == '\\') = false := beq_eq_false_iff_ne.mpr isSlash
        simp [notSlash]

/-- Escaping brings a text into a normal form: all its openers have a backslash, a second escape changes
nothing, and only the texts whose openers have one already stay as they are. Two texts have the same
normal form exactly when they differ in nothing but the backslashes directly before their openers. -/
theorem escapeInterpolation_isNormalForm :
    (∀ t : Text, OpenersEscaped t.escapeInterpolation) ∧
    (∀ t : Text, t.escapeInterpolation.escapeInterpolation = t.escapeInterpolation) ∧
    (∀ t : Text, t.escapeInterpolation = t ↔ OpenersEscaped t) ∧
    ∀ s t : Text, s.escapeInterpolation = t.escapeInterpolation ↔ dropEscapes s = dropEscapes t := by
  have escaped (t : Text) : OpenersEscaped t.escapeInterpolation :=
    (openersEscaped_iff _).mp (openersEscaped_escapeAfter false t)
  have stays {t : Text} (all : OpenersEscaped t) : t.escapeInterpolation = t :=
    escapeAfter_eq_self ((openersEscaped_iff t).mpr all)
  refine ⟨escaped, fun t => stays (escaped t), fun t => ⟨fun same => ?_, stays⟩, fun s t => ?_⟩
  · rw [← same]
    exact escaped t
  · constructor
    · intro same
      calc dropEscapes s
          = dropEscapes s.escapeInterpolation := (dropEscapes_escapeAfter false s).symm
        _ = dropEscapes t.escapeInterpolation := by rw [same]
        _ = dropEscapes t := dropEscapes_escapeAfter false t
    · intro same
      calc s.escapeInterpolation
          = addEscapes (dropEscapes s) := escapeAfter_false_eq s
        _ = addEscapes (dropEscapes t) := by rw [same]
        _ = t.escapeInterpolation := (escapeAfter_false_eq t).symm

/-- A backslash in its own right stays before the one that escapes, and a mark before a mark opens
nothing. -/
example :
    escapeInterpolation "\\#{a} ##[b] \\\\#{c}" = "\\#{a} #\\#[b] \\\\#{c}" ∧
      dropEscapes "\\#{a} ##[b] \\\\#{c}" = "#{a} ##[b] \\#{c}" := by decide

end PugPrinter.Text
