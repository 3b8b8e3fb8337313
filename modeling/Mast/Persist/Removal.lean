import Mast.Persist.Restore

/-!
# Tabs that are taken out

A state without some of its tabs, and what a restore makes of it. Taking tabs out in two
turns is the same as taking them out at once, and keeps what is checked. So a restore that
takes out more tabs ends with the same state, but for a counter above their ids.

Results:
1. `removeTabs_removeTabs`: two removals are one.
2. `sound_removeTabs`: a removal keeps a state sound.
3. `restore_of_sound`, `restore_of_unsound`: a restore checks the state before any tab is
   taken out, and then only the counter can be refused.
4. `restore_removeTabs`, `restore_full`: what becomes of the counter when more tabs go.
-/

namespace Mast

/-- The state without the tabs that have these ids. -/
def AppState.removeTabs (ids : List UInt64) (s : AppState) : AppState :=
  { s with workspaces := s.workspaces.map fun ws =>
      { ws with panes := ws.panes.mapValues (Pane.removeTabs ids) } }

/-- The structure of a state is intact: no id is used twice, and each workspace is valid. -/
structure AppState.Sound (s : AppState) : Prop where
  ids_nodup : s.ids.Nodup
  valid : ∀ ws ∈ s.workspaces, ws.Valid
  active : ∀ id, s.activeWorkspace = some id → ∃ ws ∈ s.workspaces, ws.id = id

/-- The state with a next id above these ids. -/
def AppState.reserving (ids : List UInt64) (s : AppState) : AppState :=
  match ids.max? with
  | none => s
  | some maxId => { s with nextId := max s.nextId (maxId + 1) }

/-- What a sanitised state becomes when the ids up to a number are taken. -/
def AppState.sanitizedAbove (maxId : UInt64) (s : AppState) : Except RestoreError AppState :=
  if maxId < s.nextId then .ok s.sanitized
  else
    match checkedAdd maxId 1 with
    | some nextId => .ok { s.sanitized with nextId }
    | none => .error (.noNextId maxId)

/-- The greatest number that an id can have; there is no next one. -/
def maxNumber : UInt64 := 0xffffffffffffffff

namespace RemovalLemmas

open ReachableLemmas RestoreLemmas

variable {s : AppState} {p : Pane} {a b : List UInt64}

/-! ## Panes -/

theorem removeTabs_congr (h : ∀ t ∈ p.tabs, t.id.val ∈ a ↔ t.id.val ∈ b) :
    p.removeTabs a = p.removeTabs b := by
  have htabs : (p.tabs.filter fun t => t.id.val ∉ a) = p.tabs.filter fun t => t.id.val ∉ b :=
    List.filter_congr fun t ht => by rw [decide_eq_decide, h t ht]
  have hany : (p.tabs.any fun t => t.id.val ∈ a && p.activeTab = some t.id) =
      p.tabs.any fun t => t.id.val ∈ b && p.activeTab = some t.id := by
    rw [Bool.eq_iff_iff, List.any_eq_true, List.any_eq_true]
    refine exists_congr fun t => and_congr_right fun ht => ?_
    simp [h t ht]
  unfold Pane.removeTabs
  simp only [htabs, hany]

theorem removeTabs_nil (p : Pane) : p.removeTabs [] = p := by
  simp [Pane.removeTabs]

/-- Two removals are one: an active tab that goes hands over to the first tab that is left
after both. -/
theorem removeTabs_removeTabs (p : Pane) (a b : List UInt64) :
    (p.removeTabs a).removeTabs b = p.removeTabs (a ++ b) := by
  have htabs : (p.tabs.filter fun t => t.id.val ∉ a ++ b) =
      (p.tabs.filter fun t => t.id.val ∉ a).filter fun t => t.id.val ∉ b := by
    rw [List.filter_filter]
    refine List.filter_congr fun t _ => ?_
    simp [List.mem_append, Bool.and_comm]
  have hany : (p.tabs.any fun t => t.id.val ∈ a ++ b && p.activeTab = some t.id) =
      ((p.tabs.any fun t => t.id.val ∈ a && p.activeTab = some t.id) ||
        p.tabs.any fun t => t.id.val ∈ b && p.activeTab = some t.id) := by
    rw [Bool.eq_iff_iff]
    simp only [List.mem_append, Bool.decide_or, Bool.and_or_distrib_right, Bool.or_eq_true,
      List.any_eq_true, and_or_left, exists_or]
  unfold Pane.removeTabs
  simp only [htabs, hany]
  generalize hleft : (p.tabs.filter fun t => t.id.val ∉ a) = left
  cases hfirst : p.tabs.any fun t => t.id.val ∈ a && p.activeTab = some t.id with
  | true =>
    -- the active tab went first: its place is taken by the first tab that was left
    cases left with
    | nil => simp
    | cons t rest => by_cases ht : t.id.val ∈ b <;> simp [ht]
  | false =>
    -- the active tab is still there, if it was one of the tabs
    have hkept : (left.any fun t => t.id.val ∈ b && p.activeTab = some t.id) =
        p.tabs.any fun t => t.id.val ∈ b && p.activeTab = some t.id := by
      rw [Bool.eq_iff_iff, List.any_eq_true, List.any_eq_true, ← hleft]
      refine exists_congr fun t => and_congr_left fun hshown => ?_
      have hnot := List.any_eq_false.mp hfirst t
      rw [List.mem_filter]
      refine ⟨And.left, fun ht => ⟨ht, ?_⟩⟩
      have hactive := (Bool.and_eq_true_iff.mp hshown).2
      simpa [hactive] using hnot ht
    simp [hkept]

/-! ## States -/

theorem removeTabs_removeTabs_state (s : AppState) (a b : List UInt64) :
    (s.removeTabs a).removeTabs b = s.removeTabs (a ++ b) := by
  unfold AppState.removeTabs
  refine congrArg (fun workspaces => { s with workspaces }) ?_
  rw [List.map_map]
  refine List.map_congr_left fun ws _ => congrArg (fun panes => { ws with panes }) ?_
  refine OrdMap.ext ?_
  simp [OrdMap.mapValues, Function.comp_def, removeTabs_removeTabs]

theorem removeTabs_congr_state (h : ∀ t ∈ s.tabs, t.id.val ∈ a ↔ t.id.val ∈ b) :
    s.removeTabs a = s.removeTabs b := by
  refine congrArg (fun workspaces => { s with workspaces }) ?_
  refine List.map_congr_left fun ws hws => congrArg (fun panes => { ws with panes }) ?_
  refine OrdMap.ext (List.map_congr_left fun e he => ?_)
  refine Prod.ext rfl (removeTabs_congr fun t ht => h t ?_)
  exact List.mem_flatMap.mpr ⟨ws, hws, List.mem_flatMap.mpr ⟨e.2, List.mem_map_of_mem he, ht⟩⟩

theorem removeUnknownTabs_eq (s : AppState) (removed : List RemovedUnknownTab) :
    removeUnknownTabs s removed = s.removeTabs (removed.map RemovedUnknownTab.id) := by
  unfold removeUnknownTabs
  split
  next h =>
    subst h
    refine congrArg (fun workspaces => { s with workspaces }) ?_
    refine (List.map_id' s.workspaces).symm.trans (List.map_congr_left fun ws _ => ?_)
    refine congrArg (fun panes => { ws with panes }) (OrdMap.ext ?_)
    simp [OrdMap.mapValues, removeTabs_nil]
  next => rfl

/-! ## Sound states -/

theorem sound_iff : s.Sound ↔ validateApp s = .ok () := by
  rw [validateApp_eq_ok_iff]
  exact ⟨fun h => ⟨h.ids_nodup, h.valid, h.active⟩, fun ⟨hids, hvalid, hactive⟩ =>
    ⟨hids, hvalid, hactive⟩⟩

theorem legal_removeTabs (h : p.Legal) : (p.removeTabs a).Legal := by
  intro tab htab
  unfold Pane.removeTabs at htab ⊢
  dsimp only at htab ⊢
  split at htab
  next =>
    obtain ⟨t, ht, rfl⟩ := Option.map_eq_some_iff.mp htab
    exact List.mem_map_of_mem (List.mem_of_mem_head? ht)
  next hkept =>
    obtain ⟨t, ht, rfl⟩ := List.mem_map.mp (h tab htab)
    refine List.mem_map_of_mem (List.mem_filter.mpr ⟨ht, ?_⟩)
    have hnot := List.any_eq_false.mp (Bool.not_eq_true _ ▸ hkept) t ht
    simpa [htab] using hnot

theorem ids_removeTabs_sublist : (s.removeTabs a).ids.Sublist s.ids := by
  show ((s.workspaces.map _).flatMap Workspace.ids).Sublist _
  rw [List.flatMap_map]
  refine List.Sublist.flatMap_right _ fun ws _ => List.Sublist.cons_cons _ (.append (.refl _) ?_)
  show ((ws.panes.entries.map _).flatMap _).Sublist _
  rw [List.flatMap_map]
  refine List.Sublist.flatMap_right _ fun e _ => List.Sublist.cons_cons _ ?_
  exact List.filter_sublist.map _

/-- A removal keeps a state sound. -/
theorem sound_removeTabs (h : s.Sound) : (s.removeTabs a).Sound where
  ids_nodup := h.ids_nodup.sublist ids_removeTabs_sublist
  valid w hw := by
    obtain ⟨ws, hws, rfl⟩ := List.mem_map.mp hw
    have hvalid := h.valid ws hws
    have hkeys : (ws.panes.mapValues (Pane.removeTabs a)).keys = ws.panes.keys :=
      OrdMap.mapValues_keys _ _
    exact
      { leaves_nodup := hvalid.leaves_nodup
        splitIds_nodup := hvalid.splitIds_nodup
        ratios := hvalid.ratios
        leaves_keys := fun pane => hkeys ▸ hvalid.leaves_keys pane
        activePane := hkeys ▸ hvalid.activePane
        panes := fun e he => by
          obtain ⟨e, hold, rfl⟩ := List.mem_map.mp he
          exact legal_removeTabs (hvalid.panes e hold) }
  active id hid := by
    obtain ⟨ws, hws, rfl⟩ := h.active id hid
    exact ⟨_, List.mem_map_of_mem hws, rfl⟩

/-! ## Restores -/

/-- A state that is not sound is refused before any tab is taken out. -/
theorem restore_of_unsound {removed : List RemovedUnknownTab} (h : ¬ s.Sound) :
    ∃ violation, restore s removed = .error (.invariant violation) := by
  rw [sound_iff] at h
  unfold restore
  cases hfirst : validateApp s with
  | ok u => exact absurd hfirst h
  | error violation => exact ⟨violation, rfl⟩

/-- In a sound state tabs are taken out, and only the counter can be refused. -/
theorem restore_of_sound {removed : List RemovedUnknownTab} (h : s.Sound) :
    restore s removed = (sanitize (s.removeTabs (removed.map RemovedUnknownTab.id))
      (removed.map RemovedUnknownTab.id).max?).map fun result =>
        (result.1, removed.map .removedTab ++ result.2) := by
  have hfirst := sound_iff.mp h
  have hsecond : validateApp (s.removeTabs (removed.map RemovedUnknownTab.id)) = .ok () :=
    sound_iff.mp (sound_removeTabs h)
  unfold restore
  rw [hfirst, removeUnknownTabs_eq]
  simp only [Except.mapError, bind, Except.bind, hsecond]
  cases sanitize (s.removeTabs (removed.map RemovedUnknownTab.id))
    (removed.map RemovedUnknownTab.id).max? <;> rfl

/-! ## The counter -/

theorem le_maxNumber (n : UInt64) : n ≤ maxNumber := by
  have hlt := n.toNat_lt
  have hmax : maxNumber.toNat = 2 ^ 64 - 1 := by decide
  rw [UInt64.le_iff_toNat_le, hmax]
  omega

theorem checkedAdd_one {n : UInt64} (h : n ≠ maxNumber) : checkedAdd n 1 = some (n + 1) := by
  refine if_pos ?_
  have hlt := n.toNat_lt
  have hmax : maxNumber.toNat = 2 ^ 64 - 1 := by decide
  rw [Ne, ← UInt64.toNat_inj, hmax] at h
  rw [UInt64.toNat_one]
  omega

theorem toNat_succ {n : UInt64} (h : n ≠ maxNumber) : (n + 1).toNat = n.toNat + 1 :=
  checkedAdd_eq_some.mp (checkedAdd_one h)

theorem succ_le_of_lt {m n : UInt64} (h : m < n) : m + 1 ≤ n := by
  rw [UInt64.le_iff_toNat_le, toNat_succ (h.trans_le (le_maxNumber n)).ne]
  exact UInt64.lt_iff_toNat_lt.mp h

theorem succ_le_succ {m n : UInt64} (h : m ≤ n) (hfree : n ≠ maxNumber) : m + 1 ≤ n + 1 := by
  have hm : m ≠ maxNumber := fun hm => hfree (le_antisymm (le_maxNumber n) (hm ▸ h))
  rw [UInt64.le_iff_toNat_le, toNat_succ hm, toNat_succ hfree]
  exact Nat.succ_le_succ (UInt64.le_iff_toNat_le.mp h)

theorem le_succ {m n : UInt64} (h : m ≤ n) (hfree : n ≠ maxNumber) : m ≤ n + 1 := by
  rw [UInt64.le_iff_toNat_le, toNat_succ hfree]
  exact Nat.le_succ_of_le (UInt64.le_iff_toNat_le.mp h)

section Above

variable {m n : UInt64}

theorem sanitizedAbove_of_lt (h : m < s.nextId) : s.sanitizedAbove m = .ok s.sanitized := if_pos h

theorem sanitizedAbove_of_le (h : s.nextId ≤ m) (hfree : m ≠ maxNumber) :
    s.sanitizedAbove m = .ok { s.sanitized with nextId := m + 1 } := by
  rw [AppState.sanitizedAbove, if_neg (not_lt.mpr h), checkedAdd_one hfree]

theorem sanitizedAbove_full (s : AppState) :
    s.sanitizedAbove maxNumber = .error (.noNextId maxNumber) :=
  if_neg (not_lt.mpr (le_maxNumber s.nextId))

theorem sanitize_fst (s : AppState) (reserved : Option UInt64) :
    (sanitize s reserved).map Prod.fst = s.sanitizedAbove (s.maxId reserved) := by
  unfold AppState.sanitizedAbove
  split
  next hlt => rw [sanitize_of_lt hlt]; rfl
  next hle =>
    cases hnext : checkedAdd (s.maxId reserved) 1 with
    | some nextId => rw [sanitize_of_le (not_lt.mp hle) hnext]; rfl
    | none => rw [sanitize_of_full (not_lt.mp hle) hnext]; rfl

/-- An id that is reserved on top of the others only raises the counter. -/
theorem sanitizedAbove_max (hfree : n ≠ maxNumber) :
    s.sanitizedAbove (max m n) = (s.sanitizedAbove m).map fun s =>
      { s with nextId := max s.nextId (n + 1) } := by
  rcases lt_or_ge (max m n) s.nextId with hlt | hge
  · -- the counter is above all of them
    have hkept : max s.nextId (n + 1) = s.nextId :=
      max_eq_left (succ_le_of_lt ((le_max_right m n).trans_lt hlt))
    rw [sanitizedAbove_of_lt hlt, sanitizedAbove_of_lt ((le_max_left m n).trans_lt hlt)]
    show _ = Except.ok { s.sanitized with nextId := max s.nextId (n + 1) }
    rw [hkept]
    rfl
  rcases le_total n m with hnm | hmn
  · -- the counter is repaired, and for the others alone in the same way
    rw [max_eq_left hnm] at hge ⊢
    by_cases hm : m = maxNumber
    · rw [hm, sanitizedAbove_full]
      rfl
    · rw [sanitizedAbove_of_le hge hm]
      show _ = Except.ok { s.sanitized with nextId := max (m + 1) (n + 1) }
      rw [max_eq_left (succ_le_succ hnm hm)]
  · -- the counter is repaired for the id on top
    rw [max_eq_right hmn] at hge ⊢
    rw [sanitizedAbove_of_le hge hfree]
    rcases lt_or_ge m s.nextId with hlt | hle
    · rw [sanitizedAbove_of_lt hlt]
      show _ = Except.ok { s.sanitized with nextId := max s.nextId (n + 1) }
      rw [max_eq_right (le_succ hge hfree)]
    · have hm : m ≠ maxNumber := fun hm => hfree (le_antisymm (le_maxNumber n) (hm ▸ hmn))
      rw [sanitizedAbove_of_le hle hm]
      show _ = Except.ok { s.sanitized with nextId := max (m + 1) (n + 1) }
      rw [max_eq_right (succ_le_succ hmn hfree)]

end Above

/-! ## Restores that take more out -/

theorem max?_le_iff {l : List UInt64} {n : UInt64} : l.max?.getD 0 ≤ n ↔ ∀ id ∈ l, id ≤ n := by
  cases hmax : l.max? with
  | none =>
    rw [List.max?_eq_none_iff.mp hmax]
    simp
  | some m =>
    obtain ⟨hmem, hle⟩ := List.max?_eq_some_iff.mp hmax
    exact ⟨fun h id hid => (hle id hid).trans h, fun h => h m hmem⟩

/-- The greatest of some ids is the greatest of those that pass a test or of the others. -/
theorem max?_partition (l : List UInt64) (p : UInt64 → Bool) :
    l.max?.getD 0 = max ((l.filter fun id => !p id).max?.getD 0) ((l.filter p).max?.getD 0) := by
  refine eq_of_forall_ge_iff fun n => ?_
  rw [max_le_iff, max?_le_iff, max?_le_iff, max?_le_iff]
  constructor
  · exact fun h => ⟨fun id hid => h id (List.mem_filter.mp hid).1,
      fun id hid => h id (List.mem_filter.mp hid).1⟩
  · rintro ⟨hout, hin⟩ id hid
    cases hp : p id with
    | true => exact hin id (List.mem_filter.mpr ⟨hid, hp⟩)
    | false => exact hout id (List.mem_filter.mpr ⟨hid, by simp [hp]⟩)

theorem sanitizedAbove_reserving {ids : List UInt64} {m : UInt64} (hfree : maxNumber ∉ ids) :
    s.sanitizedAbove (max m (ids.max?.getD 0)) = (s.sanitizedAbove m).map (.reserving ids) := by
  cases hmax : ids.max? with
  | none =>
    have hid : AppState.reserving ids = id := funext fun s => by simp [AppState.reserving, hmax]
    rw [hid, Option.getD_none, max_eq_left (UInt64.zero_le)]
    cases s.sanitizedAbove m <;> rfl
  | some n =>
    have hreserving : AppState.reserving ids = fun s => { s with nextId := max s.nextId (n + 1) } :=
      funext fun s => by simp [AppState.reserving, hmax]
    rw [hreserving, Option.getD_some]
    exact sanitizedAbove_max fun hn => hfree (hn ▸ (List.max?_eq_some_iff.mp hmax).1)

section Restore

variable {removed : List RemovedUnknownTab} {ids : List UInt64}

/-- Taking tabs out before a restore, or leaving it to the restore. -/
theorem removeTabs_split
    (hunknown : ∀ t ∈ s.tabs, t.id.val ∈ ids → t.id.val ∈ removed.map RemovedUnknownTab.id) :
    s.removeTabs (removed.map RemovedUnknownTab.id) =
      (s.removeTabs ids).removeTabs
        ((removed.map RemovedUnknownTab.id).filter fun id => !decide (id ∈ ids)) := by
  rw [removeTabs_removeTabs_state]
  refine removeTabs_congr_state fun t ht => ?_
  rw [List.mem_append, List.mem_filter]
  constructor
  · intro hmem
    by_cases hids : t.id.val ∈ ids
    · exact .inl hids
    · exact .inr ⟨hmem, by simpa using hids⟩
  · rintro (hids | ⟨hmem, -⟩)
    · exact hunknown t ht hids
    · exact hmem

/-- A restore that takes more tabs out ends with the same state, but for a counter above
their ids. -/
theorem restore_removeTabs (h : s.Sound)
    (hunknown : ∀ t ∈ s.tabs, t.id.val ∈ ids → t.id.val ∈ removed.map RemovedUnknownTab.id)
    (hfree : maxNumber ∉ (removed.map RemovedUnknownTab.id).filter (· ∈ ids)) :
    (restore s removed).map Prod.fst =
      ((restore (s.removeTabs ids) (removed.filter fun tab => tab.id ∉ ids)).map Prod.fst).map
        (.reserving ((removed.map RemovedUnknownTab.id).filter (· ∈ ids))) := by
  have hothers : (removed.filter fun tab => tab.id ∉ ids).map RemovedUnknownTab.id =
      (removed.map RemovedUnknownTab.id).filter fun id => !decide (id ∈ ids) := by
    rw [List.filter_map]
    exact congrArg _ (List.filter_congr fun tab _ => by simp)
  have hfst {x : Except RestoreError (AppState × List Repair)} (repairs : List Repair) :
      (x.map fun result => (result.1, repairs ++ result.2)).map Prod.fst = x.map Prod.fst := by
    cases x <;> rfl
  rw [restore_of_sound h, restore_of_sound (sound_removeTabs h), hfst, hfst, hothers,
    ← removeTabs_split hunknown, sanitize_fst, sanitize_fst, ← sanitizedAbove_reserving hfree]
  rw [AppState.maxId, AppState.maxId, max_assoc, ← max?_partition]

/-- With the greatest number among the ids that go, there is no next one. -/
theorem restore_full (h : s.Sound) (hfull : maxNumber ∈ removed.map RemovedUnknownTab.id) :
    restore s removed = .error (.noNextId maxNumber) := by
  have hmax : (s.removeTabs (removed.map RemovedUnknownTab.id)).maxId
      (removed.map RemovedUnknownTab.id).max? = maxNumber := by
    refine le_antisymm (le_maxNumber _) ((max?_le_iff.mp le_rfl _ hfull).trans (le_max_right _ _))
  have hnone : checkedAdd maxNumber 1 = none := by decide
  rw [restore_of_sound h, sanitize_of_full (hmax ▸ le_maxNumber _) (hmax ▸ hnone), hmax]
  rfl

end Restore

end RemovalLemmas

end Mast
