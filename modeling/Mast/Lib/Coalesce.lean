import Mathlib.Data.List.Nodup
import Mast.Lib.OrdMap

/-!
# Coalescing of keyed reports

Reports come under keys, and each changes the slot of its key; a report may also
have no slot. Slots act on a state. When the slots of different keys act
independently, and what a report adds to a slot acts after the slot, it makes no
difference whether all reports are gathered first and the slots applied once, or
each report is applied by itself.

Results:
1. `applyAll_perm`: slots of different keys are applied in any order.
2. `applyAll_upsert`: a report that is gathered is applied after the others.
3. `applyAll_gather`: applying the gathered slots is applying each report.
-/

universe u v w

namespace Coalesce

variable {K : Type u} {D : Type v} {S : Type w} [LinearOrder K]

/-! ## Gathering and applying -/

/-- Gather reports into slots; `z` is the slot of a key that has none yet. -/
def gather (z : D) (m : OrdMap K D) : List (K × Option (D → D)) → OrdMap K D
  | [] => m
  | (k, some f) :: reports => gather z (m.upsert k z f) reports
  | (_, none) :: reports => gather z m reports

/-- Apply slots one after another. -/
def applyAll (act : K → D → S → S) (entries : List (K × D)) (s : S) : S :=
  entries.foldl (fun s e => act e.1 e.2 s) s

/-- Apply each report by itself. -/
def applyEach (z : D) (act : K → D → S → S) : List (K × Option (D → D)) → S → S
  | [], s => s
  | (k, some f) :: reports, s => applyEach z act reports (act k (f z) s)
  | (_, none) :: reports, s => applyEach z act reports s

/-- Slots of different keys act independently. -/
def Independent (act : K → D → S → S) : Prop :=
  ∀ k k', k ≠ k' → ∀ d d' s, act k d (act k' d' s) = act k' d' (act k d s)

/-- What a report adds to a slot acts after the slot. -/
def Absorbed (z : D) (act : K → D → S → S) (f : D → D) : Prop :=
  ∀ k d s, act k (f d) s = act k (f z) (act k d s)

/-! ## Applying -/

section Apply

variable {act : K → D → S → S}

/-- Slots of different keys are applied in any order. -/
theorem applyAll_perm (h : Independent act) {entries entries' : List (K × D)}
    (hperm : entries'.Perm entries) (hkeys : (entries.map Prod.fst).Nodup) (s : S) :
    applyAll act entries' s = applyAll act entries s := by
  refine (List.Perm.foldl_eq' hperm.symm (fun e he e' he' s => ?_) s).symm
  by_cases hk : e.1 = e'.1
  · rw [List.inj_on_of_nodup_map hkeys he he' hk]
  · exact (h e.1 e'.1 hk e.2 e'.2 s).symm

/-- A slot may be applied last. -/
theorem applyAll_last (h : Independent act) {m : OrdMap K D} {k : K} {d : D}
    {rest : List (K × D)} (hperm : m.entries.Perm ((k, d) :: rest)) (s : S) :
    applyAll act m.entries s = act k d (applyAll act rest s) := by
  have hlast : m.entries.Perm (rest ++ [(k, d)]) :=
    hperm.trans (List.perm_append_singleton _ _).symm
  have hkeys : ((rest ++ [(k, d)]).map Prod.fst).Nodup :=
    (hlast.map Prod.fst).nodup_iff.mp m.keys_nodup
  rw [applyAll_perm h hlast hkeys]
  exact List.foldl_concat ..

/-- A report that is gathered is applied after the others. -/
theorem applyAll_upsert (h : Independent act) {z : D} {f : D → D} (hf : Absorbed z act f)
    (m : OrdMap K D) (k : K) (s : S) :
    applyAll act (m.upsert k z f).entries s = act k (f z) (applyAll act m.entries s) := by
  rw [OrdMap.upsert, applyAll_last h (m.insert_perm k _)]
  cases hget : m.get? k with
  | none => rw [Option.getD_none, OrdMap.erase_of_get?_eq_none hget]
  | some d => rw [Option.getD_some, hf, applyAll_last h (OrdMap.perm_erase hget)]

/-- Applying the gathered slots is applying each report. -/
theorem applyAll_gather (h : Independent act) {z : D} {reports : List (K × Option (D → D))}
    (hreports : ∀ r ∈ reports, ∀ f ∈ r.2, Absorbed z act f) (m : OrdMap K D) (s : S) :
    applyAll act (gather z m reports).entries s =
      applyEach z act reports (applyAll act m.entries s) := by
  induction reports generalizing m with
  | nil => rfl
  | cons r reports ih =>
    obtain ⟨k, f | f⟩ := r
    · exact ih (fun r hr => hreports r (List.mem_cons_of_mem _ hr)) m
    · have hf := hreports (k, some f) List.mem_cons_self f rfl
      rw [gather, ih (fun r hr => hreports r (List.mem_cons_of_mem _ hr)), applyAll_upsert h hf]
      rfl

end Apply

/-! ## Slots -/

section Slots

variable {z : D} {reports : List (K × Option (D → D))} {m : OrdMap K D}

/-- What every report keeps holds of every slot. -/
theorem forall_gather {P : D → Prop} (hz : P z)
    (hreports : ∀ r ∈ reports, ∀ f ∈ r.2, ∀ d, P d → P (f d))
    (hm : ∀ e ∈ m.entries, P e.2) : ∀ e ∈ (gather z m reports).entries, P e.2 := by
  induction reports generalizing m with
  | nil => exact hm
  | cons r reports ih =>
    have hrest := fun r hr => hreports r (List.mem_cons_of_mem _ hr)
    obtain ⟨k, f | f⟩ := r
    · exact ih hrest hm
    · refine ih hrest fun e he => ?_
      rcases OrdMap.mem_insert_entries.mp he with rfl | ⟨he, _⟩
      · refine hreports (k, some f) List.mem_cons_self f rfl _ ?_
        cases hget : m.get? k with
        | none => exact hz
        | some d => exact hm (k, d) (OrdMap.get?_eq_some_iff.mp hget)
      · exact hm e he

/-- No slot is opened exactly when no report has one. -/
theorem gather_eq_nil_iff : (gather z m reports).entries = [] ↔
    m.entries = [] ∧ ∀ r ∈ reports, r.2 = none := by
  induction reports generalizing m with
  | nil => simp [gather]
  | cons r reports ih =>
    obtain ⟨k, f | f⟩ := r
    · simp [gather, ih]
    · simp [gather, ih, OrdMap.upsert, OrdMap.insert]

end Slots

end Coalesce
