import Mast.Model

/-!
# The split tree under its operations

What `splitLeaf`, `setRatio` and `remove` do to the leaves, to the split ids and
to the ratios of a tree, up to order.

Results:
1. `splitLeaf_leaves`, `splitLeaf_splitIds`: a split adds one leaf and one split.
2. `remove_leaves`, `remove_splitIds`: a removal takes one leaf and one split out.
3. `setRatio_of_not_found`: a search that fails changes nothing.
4. `ratioInvalid_eq_false_iff`: the ratio test of the validation means that the
   ratio is a number strictly between 0 and 1.
-/

namespace Mast

namespace SplitTree

/-- The ratios of the split nodes, parents first. -/
def ratios : SplitTree → List F64
  | leaf _ => []
  | split _ _ ratio first second => ratio :: (first.ratios ++ second.ratios)

/-- Every ratio passes the test of the validation. -/
def RatiosValid (t : SplitTree) : Prop := ∀ r ∈ t.ratios, ratioInvalid r = false

/-! ## Ratios -/

theorem ratioInvalid_eq_false_iff {r : F64} :
    ratioInvalid r = false ↔ r.isFinite = true ∧ 0 < r.value ∧ r.value < 1 := by
  have hzero : F64.zero.isFinite = true := by decide
  have hone : F64.one.isFinite = true := by decide
  simp only [ratioInvalid, Bool.or_eq_false_iff, Bool.not_eq_false']
  constructor
  · rintro ⟨⟨hr, hlow⟩, hhigh⟩
    rw [F64.le_eq_not_lt hr hzero, Bool.not_eq_false', F64.lt_iff hzero hr,
      F64.value_zero] at hlow
    rw [F64.le_eq_not_lt hone hr, Bool.not_eq_false', F64.lt_iff hr hone, F64.value_one] at hhigh
    exact ⟨hr, hlow, hhigh⟩
  · rintro ⟨hr, hlow, hhigh⟩
    refine ⟨⟨hr, ?_⟩, ?_⟩
    · rw [F64.le_eq_not_lt hr hzero, Bool.not_eq_false', F64.lt_iff hzero hr, F64.value_zero]
      exact hlow
    · rw [F64.le_eq_not_lt hone hr, Bool.not_eq_false', F64.lt_iff hr hone, F64.value_one]
      exact hhigh

theorem half_valid : ratioInvalid F64.half = false := by decide

theorem validateRatios_eq_ok_iff {t : SplitTree} :
    t.validateRatios = .ok () ↔ t.RatiosValid := by
  induction t with
  | leaf pane => simp [validateRatios, RatiosValid, ratios]
  | split id d ratio first second ih₁ ih₂ =>
    simp only [RatiosValid, ratios, List.forall_mem_cons, List.forall_mem_append] at ih₁ ih₂ ⊢
    rw [← ih₁, ← ih₂, validateRatios]
    cases hr : ratioInvalid ratio with
    | true => simp
    | false =>
      cases hf : first.validateRatios with
      | error e => simp [bind, Except.bind]
      | ok u => simp [bind, Except.bind]

/-! ## Leaves -/

theorem splitLeaf_found {target newPane : PaneId} {d : SplitDirection} {splitId : SplitId}
    {t : SplitTree} : (splitLeaf target d newPane splitId t).2 = true ↔ target ∈ t.leaves := by
  induction t with
  | leaf pane =>
    simp only [splitLeaf, leaves, List.mem_singleton]
    split <;> simp_all [eq_comm]
  | split id d' ratio first second ih₁ ih₂ =>
    simp only [splitLeaf, leaves, List.mem_append]
    split
    next h => simp [ih₁.mp h]
    next h => rw [ih₂, ← ih₁, or_iff_right h]

theorem splitLeaf_of_not_found {target newPane : PaneId} {d : SplitDirection} {splitId : SplitId}
    {t : SplitTree} (h : (splitLeaf target d newPane splitId t).2 = false) :
    (splitLeaf target d newPane splitId t).1 = t := by
  induction t with
  | leaf pane =>
    simp only [splitLeaf] at h ⊢
    split at h
    · simp at h
    next hne => rw [if_neg hne]
  | split id d' ratio first second ih₁ ih₂ =>
    simp only [splitLeaf] at h ⊢
    split at h
    · simp at h
    next hf => rw [if_neg hf, ih₁ (by simpa using hf), ih₂ h]

theorem splitLeaf_leaves {target : PaneId} (newPane : PaneId) (d : SplitDirection)
    (splitId : SplitId) {t : SplitTree} (h : target ∈ t.leaves) :
    (splitLeaf target d newPane splitId t).1.leaves.Perm (newPane :: t.leaves) := by
  induction t with
  | leaf pane =>
    obtain rfl : target = pane := by simpa [leaves] using h
    simpa [splitLeaf, leaves] using List.Perm.swap newPane target []
  | split id d' ratio first second ih₁ ih₂ =>
    simp only [splitLeaf]
    split
    next hf => exact (ih₁ (splitLeaf_found.mp hf)).append_right _
    next hf =>
      have hsecond : target ∈ second.leaves :=
        (List.mem_append.mp h).resolve_left fun hm => hf (splitLeaf_found.mpr hm)
      simp only [leaves, splitLeaf_of_not_found (by simpa using hf)]
      exact ((ih₂ hsecond).append_left _).trans List.perm_middle

theorem splitLeaf_splitIds {target : PaneId} (newPane : PaneId) (d : SplitDirection)
    (splitId : SplitId) {t : SplitTree} (h : target ∈ t.leaves) :
    (splitLeaf target d newPane splitId t).1.splitIds.Perm (splitId :: t.splitIds) := by
  induction t with
  | leaf pane =>
    obtain rfl : target = pane := by simpa [leaves] using h
    simp [splitLeaf, splitIds]
  | split id d' ratio first second ih₁ ih₂ =>
    simp only [splitLeaf]
    split
    next hf =>
      have ih := (ih₁ (splitLeaf_found.mp hf)).append_right second.splitIds
      exact (ih.cons id).trans (List.Perm.swap splitId id _)
    next hf =>
      have hsecond : target ∈ second.leaves :=
        (List.mem_append.mp h).resolve_left fun hm => hf (splitLeaf_found.mpr hm)
      simp only [splitIds, splitLeaf_of_not_found (by simpa using hf)]
      have ih := ((ih₂ hsecond).append_left first.splitIds).trans List.perm_middle
      exact (ih.cons id).trans (List.Perm.swap splitId id _)

theorem splitLeaf_ratios {target newPane : PaneId} {d : SplitDirection} {splitId : SplitId}
    {t : SplitTree} (h : t.RatiosValid) :
    (splitLeaf target d newPane splitId t).1.RatiosValid := by
  induction t with
  | leaf pane =>
    simp only [splitLeaf]
    split
    · simp [RatiosValid, ratios, half_valid]
    · exact h
  | split id d' ratio first second ih₁ ih₂ =>
    simp only [RatiosValid, ratios, List.forall_mem_cons, List.forall_mem_append] at h ih₁ ih₂
    simp only [splitLeaf]
    split <;> simp only [RatiosValid, ratios, List.forall_mem_cons, List.forall_mem_append]
    · exact ⟨h.1, ih₁ h.2.1, h.2.2⟩
    · exact ⟨h.1, ih₁ h.2.1, ih₂ h.2.2⟩

/-! ## Removal -/

theorem remove_found {target : PaneId} {t : SplitTree} (h : target ∈ t.leaves)
    (hne : t ≠ leaf target) : (remove target t).2 = true := by
  induction t with
  | leaf pane =>
    obtain rfl : target = pane := by simpa [leaves] using h
    exact absurd rfl hne
  | split id d ratio first second ih₁ ih₂ =>
    simp only [remove]
    split
    · rfl
    split
    · rfl
    next hfirst hsecond =>
      split
      · rfl
      next hf =>
        refine ih₂ ((List.mem_append.mp h).resolve_left fun hm => ?_) hsecond
        exact hf (ih₁ hm hfirst)

theorem remove_of_not_found {target : PaneId} {t : SplitTree} (h : (remove target t).2 = false) :
    (remove target t).1 = t := by
  induction t with
  | leaf pane => rfl
  | split id d ratio first second ih₁ ih₂ =>
    simp only [remove] at h ⊢
    split at h
    · simp at h
    split at h
    · simp at h
    next hfirst hsecond =>
      split at h
      · simp at h
      next hf => rw [if_neg hfirst, if_neg hsecond, if_neg hf, ih₁ (by simpa using hf), ih₂ h]

theorem remove_leaves {target : PaneId} {t : SplitTree} (h : (remove target t).2 = true) :
    t.leaves.Perm (target :: (remove target t).1.leaves) := by
  induction t with
  | leaf pane => simp [remove] at h
  | split id d ratio first second ih₁ ih₂ =>
    simp only [remove] at h ⊢
    split at h
    next hfirst => simp [hfirst, leaves]
    split at h
    next hfirst hsecond =>
      simp only [hsecond, leaves, if_neg hfirst, if_pos]
      exact List.perm_append_singleton target first.leaves
    next hfirst hsecond =>
      simp only [if_neg hfirst, if_neg hsecond]
      split at h
      next hf =>
        simp only [if_pos hf, leaves]
        exact (ih₁ hf).append_right second.leaves
      next hf =>
        simp only [if_neg hf, leaves, remove_of_not_found (by simpa using hf)]
        exact ((ih₂ h).append_left first.leaves).trans List.perm_middle

theorem remove_splitIds {target : PaneId} {t : SplitTree} (h : (remove target t).2 = true) :
    ∃ removed, t.splitIds.Perm (removed :: (remove target t).1.splitIds) := by
  induction t with
  | leaf pane => simp [remove] at h
  | split id d ratio first second ih₁ ih₂ =>
    simp only [remove] at h ⊢
    split at h
    next hfirst => exact ⟨id, by simp [hfirst, splitIds]⟩
    split at h
    next hfirst hsecond => exact ⟨id, by simp [hfirst, hsecond, splitIds]⟩
    next hfirst hsecond =>
      simp only [if_neg hfirst, if_neg hsecond]
      split at h
      next hf =>
        obtain ⟨removed, ih⟩ := ih₁ hf
        refine ⟨removed, ?_⟩
        simp only [if_pos hf, splitIds]
        exact ((ih.append_right second.splitIds).cons id).trans (List.Perm.swap removed id _)
      next hf =>
        obtain ⟨removed, ih⟩ := ih₂ h
        refine ⟨removed, ?_⟩
        simp only [if_neg hf, splitIds, remove_of_not_found (by simpa using hf)]
        have ih' := (ih.append_left first.splitIds).trans List.perm_middle
        exact (ih'.cons id).trans (List.Perm.swap removed id _)

theorem remove_ratios {target : PaneId} {t : SplitTree} (h : t.RatiosValid) :
    (remove target t).1.RatiosValid := by
  induction t with
  | leaf pane => exact h
  | split id d ratio first second ih₁ ih₂ =>
    simp only [RatiosValid, ratios, List.forall_mem_cons, List.forall_mem_append] at h ih₁ ih₂
    simp only [remove]
    split
    · exact h.2.2
    split
    · exact h.2.1
    split <;> simp only [RatiosValid, ratios, List.forall_mem_cons, List.forall_mem_append]
    · exact ⟨h.1, ih₁ h.2.1, h.2.2⟩
    · exact ⟨h.1, ih₁ h.2.1, ih₂ h.2.2⟩

/-! ## Ratios of single splits -/

theorem setRatio_of_not_found {target : SplitId} {ratio : F64} {t : SplitTree}
    (h : (setRatio target ratio t).2 = false) : (setRatio target ratio t).1 = t := by
  induction t with
  | leaf pane => rfl
  | split id d r first second ih₁ ih₂ =>
    simp only [setRatio] at h ⊢
    split at h
    · simp at h
    next hid =>
      split at h
      · simp at h
      next hf => rw [if_neg hid, if_neg hf, ih₁ (by simpa using hf), ih₂ h]

theorem setRatio_leaves (target : SplitId) (ratio : F64) (t : SplitTree) :
    (setRatio target ratio t).1.leaves = t.leaves := by
  induction t with
  | leaf pane => rfl
  | split id d r first second ih₁ ih₂ =>
    simp only [setRatio]
    split
    · rfl
    split
    · simp only [leaves, ih₁]
    next hf => simp only [leaves, ih₁, ih₂]

theorem setRatio_splitIds (target : SplitId) (ratio : F64) (t : SplitTree) :
    (setRatio target ratio t).1.splitIds = t.splitIds := by
  induction t with
  | leaf pane => rfl
  | split id d r first second ih₁ ih₂ =>
    simp only [setRatio]
    split
    · rfl
    split
    · simp only [splitIds, ih₁]
    · simp only [splitIds, ih₁, ih₂]

theorem setRatio_ratios {target : SplitId} {ratio : F64} {t : SplitTree}
    (hr : ratioInvalid ratio = false) (h : t.RatiosValid) :
    (setRatio target ratio t).1.RatiosValid := by
  induction t with
  | leaf pane => exact h
  | split id d r first second ih₁ ih₂ =>
    simp only [RatiosValid, ratios, List.forall_mem_cons, List.forall_mem_append] at h ih₁ ih₂
    simp only [setRatio]
    split
    · simp only [RatiosValid, ratios, List.forall_mem_cons, List.forall_mem_append]
      exact ⟨hr, h.2⟩
    split <;> simp only [RatiosValid, ratios, List.forall_mem_cons, List.forall_mem_append]
    · exact ⟨h.1, ih₁ h.2.1, h.2.2⟩
    · exact ⟨h.1, ih₁ h.2.1, ih₂ h.2.2⟩

end SplitTree

end Mast
