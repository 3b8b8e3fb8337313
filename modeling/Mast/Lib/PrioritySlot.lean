import Mathlib.Data.List.Nodup

/-!
# A status slot with one priority status

Many reporters share one slot, which shows the status of the last reporter that
was let in. While the slot shows the status `top`, only another `top`, or the
reporter that set it, is let in. Withdrawing a reporter resets the slot it set.

Reports do not commute, but whether the slot shows `top` after a round, in which
each reporter reports at most once, does not depend on their order.

Results:
1. `reportAll_eq_top_iff`: when the slot shows `top` after a round.
2. `reportAll_eq_top_perm`: the order of a round does not matter for that.
-/

universe u v

/-- What is shown, and the reporter that set it. -/
structure PrioritySlot (K : Type u) (S : Type v) where
  status : S
  source : Option K

namespace PrioritySlot

variable {K : Type u} {S : Type v}

section Report

variable [DecidableEq K] [DecidableEq S] (top : S)

/-- Whether a report is let in. -/
def Allows (slot : PrioritySlot K S) (k : K) (s : S) : Prop :=
  slot.status ≠ top ∨ s = top ∨ slot.source = some k

instance (slot : PrioritySlot K S) (k : K) (s : S) : Decidable (slot.Allows top k s) :=
  inferInstanceAs (Decidable (_ ∨ _ ∨ _))

def report (slot : PrioritySlot K S) (k : K) (s : S) : PrioritySlot K S :=
  if slot.Allows top k s then ⟨s, some k⟩ else slot

/-- A round of reports, in order. -/
def reportAll (reports : List (K × S)) (slot : PrioritySlot K S) : PrioritySlot K S :=
  reports.foldl (fun slot r => slot.report top r.1 r.2) slot

variable {top} {reports : List (K × S)} {slot : PrioritySlot K S}

/-- After a round the slot shows `top` when somebody reported it, or when it
showed `top` before and its source did not report. -/
theorem reportAll_eq_top_iff (h : (reports.map Prod.fst).Nodup) :
    (slot.reportAll top reports).status = top ↔
      (∃ r ∈ reports, r.2 = top) ∨
        (slot.status = top ∧ ∀ r ∈ reports, slot.source ≠ some r.1) := by
  induction reports generalizing slot with
  | nil => simp [reportAll]
  | cons r reports ih =>
    rw [List.map_cons, List.nodup_cons] at h
    have hround : slot.reportAll top (r :: reports) =
        (slot.report top r.1 r.2).reportAll top reports := rfl
    rw [hround, ih h.2, List.exists_mem_cons_iff, List.forall_mem_cons, or_assoc]
    by_cases hallowed : slot.Allows top r.1 r.2
    · -- the report is let in; its reporter does not report again
      have hagain : ∀ r' ∈ reports, some r.1 ≠ some r'.1 := fun r' hr' heq =>
        h.1 (Option.some_inj.mp heq ▸ List.mem_map_of_mem hr')
      rw [report, if_pos hallowed]
      have hdrop : ¬ (r.2 ≠ top ∧ slot.status = top ∧ slot.source ≠ some r.1) := by
        rintro ⟨hne, htop, hsource⟩
        rcases hallowed with h | h | h
        · exact h htop
        · exact hne h
        · exact hsource h
      constructor
      · rintro (hex | ⟨htop, _⟩)
        · exact .inr (.inl hex)
        · exact .inl htop
      · rintro (htop | hex | ⟨htop, hsource, _⟩)
        · exact .inr ⟨htop, hagain⟩
        · exact .inl hex
        · by_cases hr : r.2 = top
          · exact .inr ⟨hr, hagain⟩
          · exact absurd ⟨hr, htop, hsource⟩ hdrop
    · rw [report, if_neg hallowed]
      simp only [Allows, not_or, not_not] at hallowed
      obtain ⟨htop, hne, hsource⟩ := hallowed
      simp only [htop, hne, hsource, true_and, false_or, ne_eq, not_false_eq_true]

/-- The order of a round does not decide whether the slot shows `top`. -/
theorem reportAll_eq_top_perm {reports' : List (K × S)} (hperm : reports'.Perm reports)
    (h : (reports.map Prod.fst).Nodup) :
    (slot.reportAll top reports').status = top ↔ (slot.reportAll top reports).status = top := by
  have h' : (reports'.map Prod.fst).Nodup := (hperm.map Prod.fst).nodup_iff.mpr h
  rw [reportAll_eq_top_iff h, reportAll_eq_top_iff h']
  simp only [hperm.mem_iff]

end Report

section Withdraw

variable (idle : S)

/-- Reset the slot if one of the given reporters set it. -/
def withdraw [DecidableEq K] (ks : List K) (slot : PrioritySlot K S) : PrioritySlot K S :=
  if ∃ k ∈ ks, slot.source = some k then ⟨idle, none⟩ else slot

variable {idle} [DecidableEq K] {ks : List K} {slot : PrioritySlot K S}

theorem withdraw_nil : slot.withdraw idle [] = slot := by
  simp [withdraw]

theorem withdraw_cons (k : K) :
    slot.withdraw idle (k :: ks) = (slot.withdraw idle [k]).withdraw idle ks := by
  unfold withdraw
  by_cases hk : slot.source = some k
  · simp [hk]
  · simp [hk]

end Withdraw

end PrioritySlot
