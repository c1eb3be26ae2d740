import PugPrinter.Layout
import PugPrinter.Proofs.Subtrees

/-!
What the layout says about the children of a block: for well-formed children every choice has a
result, and a dot block holds nothing but text and code without a block.
-/

set_option autoImplicit false

namespace PugPrinter.Layout

def isDotChild : Node → Bool
  | .leaf _ (.text (.of _) _) => true
  | .stem _ (.code _) none => true
  | _ => false

private theorem isDotChild_of_counted {count total : DotCount} {before : Option Node}
    {beforeStarts : Bool} {nodes : List Node}
    (counted : countDot count before beforeStarts nodes = .counted total) :
    ∀ n ∈ nodes, isDotChild n = true := by
  fun_induction countDot count before beforeStarts nodes with
  | case1 => simp
  | case2 _ _ _ _ _ _ _ _ ih => exact List.forall_mem_cons.mpr ⟨rfl, ih counted⟩
  | case4 _ _ _ _ _ _ _ _ ih => exact List.forall_mem_cons.mpr ⟨rfl, ih counted⟩
  | case3 => cases counted
  | case5 => cases counted

private theorem countDot_ne_noText {count : DotCount} {before : Option Node} {beforeStarts : Bool}
    {nodes : List Node} (formed : ∀ n ∈ nodes, n.wellFormed = true) :
    countDot count before beforeStarts nodes ≠ .noText := by
  fun_induction countDot count before beforeStarts nodes with
  | case1 => simp
  | case2 _ _ _ _ _ _ _ _ ih => exact ih (List.forall_mem_cons.mp formed).2
  | case3 => cases (List.forall_mem_cons.mp formed).1
  | case4 _ _ _ _ _ _ _ _ ih => exact ih (List.forall_mem_cons.mp formed).2
  | case5 => simp

theorem isDotChild_of_usesDot {parent : Option Node} {nodes : List Node}
    (dot : usesDot? parent nodes = some true) : ∀ n ∈ nodes, isDotChild n = true := by
  cases nodes with
  | nil => simp
  | cons first rest =>
    simp only [usesDot?, bind, Option.bind_eq_some_iff] at dot
    obtain ⟨lastLine, _, firstLine, _, dot⟩ := dot
    split at dot
    · cases dot
    · split at dot
      · exact isDotChild_of_counted ‹_›
      · cases dot
      · cases dot

/-- Whether well-formed children make a dot block is never left open. -/
theorem exists_usesDot {nodes : List Node} (formed : ∀ n ∈ nodes, n.wellFormed = true)
    (parent : Option Node) : ∃ dot, usesDot? parent nodes = some dot := by
  cases nodes with
  | nil => exact ⟨false, rfl⟩
  | cons first rest =>
    have last : (first :: rest).getLast (List.cons_ne_nil first rest) ∈ first :: rest :=
      List.getLast_mem _
    obtain ⟨lastLine, lastAt⟩ := Node.exists_line_of_wellFormed (formed _ last)
    obtain ⟨firstLine, firstAt⟩ :=
      Node.exists_line_of_wellFormed (formed first List.mem_cons_self)
    simp only [usesDot?, lastAt, firstAt, Option.bind_eq_bind, Option.bind_some]
    split
    · exact ⟨false, rfl⟩
    · split
      · exact ⟨_, rfl⟩
      · exact ⟨_, rfl⟩
      · exact absurd ‹_› (countDot_ne_noText formed)

theorem usesDot?_only {n : Node} {line : Int} (stands : n.line? = some line) (parent : Option Node) :
    usesDot? parent [n] = some false := by
  have one : line - line + 1 < 2 := by omega
  simp only [usesDot?, List.getLast_singleton, stands, Option.bind_eq_bind, Option.bind_some, one,
    if_true]
  rfl

theorem usesDot?_singleton {n : Node} (formed : n.wellFormed = true) (parent : Option Node) :
    usesDot? parent [n] = some false := by
  obtain ⟨line, stands⟩ := Node.exists_line_of_wellFormed formed
  exact usesDot?_only stands parent

theorem exists_startsOnSameLine {nodes : List Node} (formed : ∀ n ∈ nodes, n.wellFormed = true)
    (colon : Bool) (owner : Node) (own : Bool) :
    ∃ same, startsOnSameLine? colon owner own nodes = some same := by
  cases nodes with
  | nil => exact ⟨false, rfl⟩
  | cons first rest =>
    obtain ⟨line, stands⟩ := Node.exists_line_of_wellFormed (formed first List.mem_cons_self)
    obtain ⟨dot, decided⟩ := exists_usesDot formed (some owner)
    simp only [startsOnSameLine?, stands, decided, Option.bind_eq_bind, Option.bind_some]
    split
    · exact ⟨false, rfl⟩
    · split
      · exact ⟨false, rfl⟩
      · exact ⟨!dot, rfl⟩

end PugPrinter.Layout
