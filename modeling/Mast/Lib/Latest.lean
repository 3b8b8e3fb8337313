import Mathlib.Order.Defs.LinearOrder
import Mathlib.Data.List.Sort
import Mathlib.Data.List.Basic

/-!
# The newest value that was offered

A holder keeps one value and replaces it only by one with a greater key. Its log has the values
that it adopted.

Results:
1. `Latest.offer_spec`: what is held after an offer is at least as new as the offered value and
   as what was held before.
2. `Latest.Log.offer`: the log stays sorted and ends with the value that is held.
3. `Latest.sublist_of_sorted`: a sorted list of members of a sorted list is a sublist of it.
-/

namespace Latest

variable {α κ : Type*} [LinearOrder κ] (key : α → κ)

/-- A value is adopted over nothing and over an older one. -/
def adopts (current : Option α) (x : α) : Bool :=
  match current with
  | none => true
  | some c => decide (key c < key x)

def offer (current : Option α) (x : α) : Option α :=
  if adopts key current x then some x else current

/-- The log of a holder: in ascending order, the value that is held at the end. -/
structure Log (current : Option α) (log : List α) : Prop where
  sorted : log.Pairwise fun a b => key a < key b
  last : log.getLast? = current

variable {key}

theorem offer_spec (key : α → κ) (current : Option α) (x : α) :
    ∃ c, offer key current x = some c ∧ key x ≤ key c ∧ (∀ b ∈ current, key b ≤ key c) ∧
      (c = x ∨ current = some c) := by
  cases current with
  | none => exact ⟨x, rfl, le_rfl, by simp, .inl rfl⟩
  | some b =>
    by_cases h : key b < key x
    · exact ⟨x, by simp [offer, adopts, h], le_rfl, by simpa using h.le, .inl rfl⟩
    · exact ⟨b, by simp [offer, adopts, h], not_lt.mp h, by simp, .inr rfl⟩

/-- Every entry of a log is at most as new as its last. -/
theorem Log.le_last {log : List α} {c : α} (h : Log key (some c) log) :
    ∀ b ∈ log, key b ≤ key c := by
  obtain ⟨front, rfl⟩ := List.getLast?_eq_some_iff.mp h.last
  intro b hb
  rcases List.mem_append.mp hb with hb | hb
  · exact ((List.pairwise_append.mp h.sorted).2.2 b hb c (List.mem_singleton_self c)).le
  · rw [List.mem_singleton.mp hb]

theorem log_start (current : Option α) : Log key current current.toList := by
  cases current <;> exact ⟨by simp, rfl⟩

theorem Log.offer {current : Option α} {log : List α} (h : Log key current log) (x : α) :
    Log key (Latest.offer key current x) (if adopts key current x then log ++ [x] else log) := by
  by_cases hx : adopts key current x = true
  · rw [Latest.offer, if_pos hx, if_pos hx]
    refine ⟨List.pairwise_append.mpr ⟨h.sorted, List.pairwise_singleton _ _, fun b hb y hy => ?_⟩,
      by simp⟩
    rw [List.mem_singleton.mp hy]
    cases current with
    | none =>
      have hlog : log = [] := List.getLast?_eq_none_iff.mp h.last
      simp [hlog] at hb
    | some c => exact (h.le_last b hb).trans_lt (of_decide_eq_true hx)
  · rw [Latest.offer, if_neg hx, if_neg hx]
    exact h

theorem sublist_of_sorted (key : α → κ) {xs ys : List α}
    (hxs : xs.Pairwise fun a b => key a < key b)
    (hys : ys.Pairwise fun a b => key a < key b) (h : ∀ x ∈ xs, x ∈ ys) : xs.Sublist ys := by
  induction ys generalizing xs with
  | nil =>
    rw [List.eq_nil_iff_forall_not_mem.mpr fun x hx => List.not_mem_nil (h x hx)]
  | cons y ys ih =>
    obtain ⟨hy, hrest⟩ := List.pairwise_cons.mp hys
    cases xs with
    | nil => exact List.nil_sublist _
    | cons x xs =>
      obtain ⟨hx, hxs'⟩ := List.pairwise_cons.mp hxs
      -- what comes after the head is greater, so it is not the head of the other list
      have hlater : ∀ z ∈ xs, z ∈ ys := by
        intro z hz
        rcases List.mem_cons.mp (h z (List.mem_cons_of_mem x hz)) with rfl | hz'
        · rcases List.mem_cons.mp (h x List.mem_cons_self) with rfl | hmem
          · exact absurd (hx x hz) (lt_irrefl _)
          · exact absurd (hx z hz) (not_lt.mpr (hy x hmem).le)
        · exact hz'
      rcases List.mem_cons.mp (h x List.mem_cons_self) with rfl | hmem
      · exact (ih hxs' hrest hlater).cons_cons x
      · refine (ih hxs hrest fun z hz => ?_).cons y
        rcases List.mem_cons.mp hz with rfl | hz
        · exact hmem
        · exact hlater z hz

end Latest
