import Mathlib.Data.List.Basic

/-!
# Lines that keep their ends

A list is cut behind every end mark; the last line may lack it.

Results:
1. `lines_flatten`: the lines make up the list.
2. `isLine_of_mem`: the lines of a list that ends with the mark are whole.
3. `lines_of_flatten`: whole lines are the lines of what they make up.
-/

universe u

namespace Lines

variable {α : Type u} [DecidableEq α] {nl : α} {l line : List α} {ls : List (List α)}

/-- The lines of a list. -/
def lines (nl : α) : List α → List (List α)
  | [] => []
  | c :: rest =>
    if c = nl then [nl] :: lines nl rest
    else
      match lines nl rest with
      | [] => [[c]]
      | line :: more => (c :: line) :: more

/-- A line with its end mark, and no other. -/
def IsLine (nl : α) (line : List α) : Prop := ∃ body, nl ∉ body ∧ line = body ++ [nl]

/-- The list is empty or ends with the mark. -/
def Terminated (nl : α) (l : List α) : Prop := l = [] ∨ l.getLast? = some nl

theorem lines_flatten (nl : α) (l : List α) : (lines nl l).flatten = l := by
  induction l with
  | nil => rfl
  | cons c l ih =>
    rw [lines]
    split
    · next hc => rw [List.flatten_cons, ih, hc, List.singleton_append]
    · cases hlines : lines nl l with
      | nil =>
        rw [hlines] at ih
        rw [← ih]
        rfl
      | cons line more =>
        rw [hlines] at ih
        rw [← ih]
        rfl

theorem lines_eq_nil_iff : lines nl l = [] ↔ l = [] := by
  constructor
  · intro h
    rw [← lines_flatten nl l, h]
    rfl
  · rintro rfl
    rfl

omit [DecidableEq α] in
theorem terminated_tail {c : α} (h : Terminated nl (c :: l)) :
    Terminated nl l ∧ (l = [] → c = nl) := by
  rcases h with h | h
  · cases h
  · cases l with
    | nil => exact ⟨.inl rfl, fun _ => Option.some.inj h⟩
    | cons d l =>
      rw [List.getLast?_cons_cons] at h
      exact ⟨.inr h, nofun⟩

/-- The lines of a list that ends with the mark are whole. -/
theorem isLine_of_mem (h : Terminated nl l) (hmem : line ∈ lines nl l) : IsLine nl line := by
  induction l generalizing line with
  | nil => cases hmem
  | cons c l ih =>
    obtain ⟨htail, hlast⟩ := terminated_tail h
    rw [lines] at hmem
    split at hmem
    · rcases List.mem_cons.mp hmem with rfl | hmem
      · exact ⟨[], List.not_mem_nil, rfl⟩
      · exact ih htail hmem
    next hc =>
    cases hlines : lines nl l with
    | nil => exact absurd (hlast (lines_eq_nil_iff.mp hlines)) hc
    | cons first more =>
      rw [hlines] at hmem ih
      rcases List.mem_cons.mp hmem with rfl | hmem
      · obtain ⟨body, hbody, rfl⟩ := ih htail List.mem_cons_self
        refine ⟨c :: body, ?_, rfl⟩
        rw [List.mem_cons, not_or]
        exact ⟨Ne.symm hc, hbody⟩
      · exact ih htail (List.mem_cons_of_mem _ hmem)

theorem lines_append_line (h : IsLine nl line) (l : List α) :
    lines nl (line ++ l) = line :: lines nl l := by
  obtain ⟨body, hbody, rfl⟩ := h
  induction body with
  | nil =>
    rw [List.nil_append, List.singleton_append, lines, if_pos rfl]
  | cons c body ih =>
    obtain ⟨hc, hrest⟩ := not_or.mp (mt List.mem_cons.mpr hbody)
    rw [List.cons_append, List.cons_append, lines, if_neg (Ne.symm hc), ih hrest]

/-- Whole lines are the lines of what they make up. -/
theorem lines_of_flatten (h : ∀ line ∈ ls, IsLine nl line) : lines nl ls.flatten = ls := by
  induction ls with
  | nil => rfl
  | cons line ls ih =>
    obtain ⟨hline, hrest⟩ := List.forall_mem_cons.mp h
    rw [List.flatten_cons, lines_append_line hline, ih hrest]

theorem ne_nil_of_mem (h : line ∈ lines nl l) : line ≠ [] := by
  induction l generalizing line with
  | nil => cases h
  | cons c l ih =>
    rw [lines] at h
    split at h
    · rcases List.mem_cons.mp h with rfl | hmem
      · exact List.cons_ne_nil _ _
      · exact ih hmem
    · cases hlines : lines nl l with
      | nil =>
        rw [hlines] at h
        exact List.mem_singleton.mp h ▸ List.cons_ne_nil _ _
      | cons first more =>
        rw [hlines] at h ih
        rcases List.mem_cons.mp h with rfl | hmem
        · exact List.cons_ne_nil _ _
        · exact ih (List.mem_cons_of_mem _ hmem)

end Lines
