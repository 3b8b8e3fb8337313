import Mast.Command.Effect
import Mast.Structure.Operations

/-!
# Legal states

`AppState.Legal` is what every reachable state satisfies: each workspace is
valid, all stable ids are distinct and below the counter, and the active
workspace exists. `AppState.Settled` is what holds beyond that in a state that
the dispatcher built rather than loaded.

Results:
1. `Effect.legal`, `Effect.settled`: every command keeps both.
2. `SameShape.legal`, `SameShape.settled`: so does every change that leaves the
   shapes of the workspaces, the counter and the active workspace alone.
-/

namespace Mast

/-- The invariants of every reachable state. -/
structure AppState.Legal (s : AppState) : Prop where
  valid : ∀ ws ∈ s.workspaces, ws.Valid
  ids_nodup : s.ids.Nodup
  ids_lt : ∀ id ∈ s.ids, id < s.nextId
  active : ∀ id, s.activeWorkspace = some id → ∃ ws ∈ s.workspaces, ws.id = id

/-- The further invariants of a state that a dispatcher built. -/
structure AppState.Settled (s : AppState) : Prop where
  workspaces : ∀ ws ∈ s.workspaces, ws.Settled
  active : s.activeWorkspace = none ↔ s.workspaces = []

/-- A change that leaves the structure alone. -/
structure SameShape (s s' : AppState) : Prop where
  shapes : s'.workspaces.map Workspace.shape = s.workspaces.map Workspace.shape
  active : s'.activeWorkspace = s.activeWorkspace
  nextId : s'.nextId = s.nextId

namespace LegalLemmas

open WorkspaceLemmas

variable {s s' : AppState} {ws ws' : Workspace}

/-! ## Ids -/

theorem mem_ids_of_pane {pane : PaneId} (h : pane ∈ ws.panes.keys) : pane.val ∈ ws.ids := by
  obtain ⟨p, hp⟩ := OrdMap.mem_keys.mp h
  refine List.mem_cons_of_mem _ (List.mem_append_right _ ?_)
  exact List.mem_flatMap.mpr ⟨(pane, p), hp, List.mem_cons_self⟩

theorem mem_ids_of_split {split : SplitId} (h : split ∈ ws.layout.splitIds) :
    split.val ∈ ws.ids :=
  List.mem_cons_of_mem _ (List.mem_append_left _ (List.mem_map_of_mem h))

theorem mem_ids_of_tab {pane : PaneId} {p : Pane} {t : Tab} (hp : ws.panes.get? pane = some p)
    (ht : t ∈ p.tabs) : t.id.val ∈ ws.ids := by
  refine List.mem_cons_of_mem _ (List.mem_append_right _ ?_)
  refine List.mem_flatMap.mpr ⟨(pane, p), OrdMap.get?_eq_some_iff.mp hp, ?_⟩
  exact List.mem_cons_of_mem _ (List.mem_map_of_mem (f := fun t : Tab => t.id.val) ht)

theorem mem_ids_of_mem {id : UInt64} (hws : ws ∈ s.workspaces) (h : id ∈ ws.ids) : id ∈ s.ids :=
  List.mem_flatMap.mpr ⟨ws, hws, h⟩

/-- In a legal state every tab has an id of its own. -/
theorem tabIds_nodup (hs : s.Legal) : (s.tabs.map Tab.id).Nodup := by
  have hmap : ∀ tabs : List Tab, (tabs.map Tab.id).map TabId.val = tabs.map fun t => t.id.val := by
    intro tabs
    rw [List.map_map]
    rfl
  have hpanes : ∀ entries : List (PaneId × Pane),
      ((entries.map Prod.snd).flatMap fun p => p.tabs.map fun t => t.id.val).Sublist
        (entries.flatMap fun e => e.1.val :: e.2.tabs.map fun t => t.id.val) := by
    intro entries
    induction entries with
    | nil => exact List.Sublist.slnil
    | cons e entries ih => exact (List.sublist_cons_self _ _).append ih
  have hws : ∀ l : List Workspace,
      ((l.flatMap Workspace.tabs).map fun t => t.id.val).Sublist (l.flatMap Workspace.ids) := by
    intro l
    induction l with
    | nil => exact List.Sublist.slnil
    | cons ws l ih =>
      rw [List.flatMap_cons, List.flatMap_cons, List.map_append]
      refine List.Sublist.append ?_ ih
      rw [Workspace.tabs, List.map_flatMap, OrdMap.values]
      exact (hpanes _).trans ((List.sublist_append_right _ _).trans (List.sublist_cons_self _ _))
  refine List.Nodup.of_map TabId.val ?_
  rw [hmap]
  exact hs.ids_nodup.sublist (hws s.workspaces)

theorem ids_coe (s : AppState) : (s.ids : Multiset UInt64) =
    (s.workspaces : Multiset Workspace).bind fun ws => ws.ids := by
  rw [AppState.ids, ← Multiset.coe_bind]

theorem allocated_le {n n' : UInt64} {ids : List UInt64} (h : Allocated n ids n') : n ≤ n' := by
  rw [UInt64.le_iff_toNat_le, h.next]
  omega

theorem allocated_mem {n n' : UInt64} {ids : List UInt64} (h : Allocated n ids n') {id : UInt64}
    (hid : id ∈ ids) : n ≤ id ∧ id < n' := by
  have hmem : id.toNat ∈ ids.map UInt64.toNat := List.mem_map_of_mem hid
  rw [h.numbers, List.mem_range'_1] at hmem
  rw [UInt64.le_iff_toNat_le, UInt64.lt_iff_toNat_lt, h.next]
  exact hmem

theorem allocated_nodup {n n' : UInt64} {ids : List UInt64} (h : Allocated n ids n') :
    ids.Nodup := by
  refine List.Nodup.of_map UInt64.toNat ?_
  rw [h.numbers]
  exact List.nodup_range'

/-- Ids that were just allocated are not in use. -/
theorem allocated_fresh {n : UInt64} {ids : List UInt64} (hs : s.Legal)
    (h : Allocated s.nextId ids n) {id : UInt64} (hid : id ∈ ids) : id ∉ s.ids :=
  fun hmem => absurd (hs.ids_lt id hmem) (not_lt.mpr (allocated_mem h hid).1)

/-- The rule that every step follows: the ids after it are old ones, or were
just allocated. -/
theorem legal_of_bag (ids : List UInt64) (hs : s.Legal) (hids : Allocated s.nextId ids s'.nextId)
    (hvalid : ∀ ws ∈ s'.workspaces, ws.Valid)
    (hbag : (s'.ids : Multiset UInt64) ≤ (ids : Multiset UInt64) + (s.ids : Multiset UInt64))
    (hactive : ∀ id, s'.activeWorkspace = some id → ∃ ws ∈ s'.workspaces, ws.id = id) :
    s'.Legal where
  valid := hvalid
  ids_nodup := by
    refine Multiset.coe_nodup.mp (Multiset.nodup_of_le hbag ?_)
    refine Multiset.nodup_add.mpr ⟨Multiset.coe_nodup.mpr (allocated_nodup hids),
      Multiset.coe_nodup.mpr hs.ids_nodup, ?_⟩
    exact Multiset.disjoint_left.mpr fun hid => allocated_fresh hs hids hid
  ids_lt id hid := by
    rcases Multiset.mem_add.mp (Multiset.mem_of_le hbag (Multiset.mem_coe.mpr hid)) with h | h
    · exact (allocated_mem hids h).2
    · exact lt_of_lt_of_le (hs.ids_lt id h) (allocated_le hids)
  active := hactive

theorem legal_new : AppState.new.Legal where
  valid ws hws := by simp [AppState.new] at hws
  ids_nodup := List.nodup_nil
  ids_lt id hid := by simp [AppState.new, AppState.ids] at hid
  active id hid := by simp [AppState.new] at hid

theorem settled_new : AppState.new.Settled where
  workspaces ws hws := by simp [AppState.new] at hws
  active := by simp [AppState.new]

/-- Workspaces have distinct ids. -/
theorem workspace_ids_nodup (hs : s.Legal) : (s.workspaces.map Workspace.id).Nodup := by
  refine List.pairwise_map.mpr ((List.nodup_flatMap.mp hs.ids_nodup).2.imp ?_)
  intro ws ws' hdisjoint heq
  have hself : ws.id.val ∈ ws'.ids := heq ▸ List.mem_cons_self
  exact hdisjoint List.mem_cons_self hself

/-! ## One workspace -/

section Edit

variable {shown : Bool} {out : CommandOutput} {gone : List Tab}

theorem edit_id (h : Edit shown ws out gone ws') : ws'.id = ws.id := by
  cases h with
  | closePane _ hclose => exact id_closePane hclose
  | closeTab _ _ hclose => exact id_closeTab hclose
  | _ => rfl

theorem edit_valid (hv : ws.Valid) (hfresh : ∀ id ∈ out.ids, id ∉ ws.ids)
    (h : Edit shown ws out gone ws') : ws'.Valid := by
  cases h with
  | rename name => exact Valid.of_shape hv rfl
  | focus hpane => exact valid_focus hv hpane
  | resize split hratio => exact valid_setRatio hv (checkRatio_eq_ok_iff.mp hratio)
  | splitPane direction hpane _ _ =>
    refine valid_splitPane hv hpane (fun hnew => ?_) fun hsplit => ?_
    · exact hfresh _ List.mem_cons_self (mem_ids_of_pane hnew)
    · exact hfresh _ (List.mem_cons_of_mem _ List.mem_cons_self) (mem_ids_of_split hsplit)
  | closePane hsize hclose => exact valid_closePane hv hsize hclose
  | addTab hpane _ => exact valid_modify hv fun p _ => PaneLemmas.legal_pushActive _
  | activateTab hp ht =>
    refine valid_modify hv fun q hq => PaneLemmas.legal_activateTab ?_
    obtain rfl := Option.some_inj.mp (hp.symm.trans hq)
    exact List.mem_map_of_mem (List.mem_of_getElem? ht)
  | closeTab hp ht hclose => exact valid_closeTab hv hp ht hclose
  | viewer f hp ht hid => exact Valid.of_shape hv (shape_replaceTab hp ht hid).symm

theorem edit_settled (hs : ws.Settled) (h : Edit shown ws out gone ws') : ws'.Settled := by
  cases h with
  | rename name => exact Settled.of_shape hs rfl
  | focus hpane => exact { hs with }
  | resize split hratio => exact { hs with }
  | splitPane direction hpane _ _ => exact settled_splitPane hs
  | closePane hsize hclose => exact settled_closePane hs hclose
  | addTab hpane _ =>
    exact settled_modify hs (fun _ => rfl) fun p _ => PaneLemmas.shows_pushActive _
  | activateTab hp ht => exact settled_modify hs (fun _ => rfl) fun q _ _ => rfl
  | closeTab hp ht hclose => exact settled_closeTab hs hp ht hclose
  | viewer f hp ht hid => exact Settled.of_shape hs (shape_replaceTab hp ht hid).symm

/-- An edit keeps the old ids or drops some, and adds those it allocated. -/
theorem edit_ids (hv : ws.Valid) (hfresh : ∀ id ∈ out.ids, id ∉ ws.ids)
    (h : Edit shown ws out gone ws') :
    (ws'.ids : Multiset UInt64) ≤ (out.ids : Multiset UInt64) + (ws.ids : Multiset UInt64) := by
  have hdone : ∀ {m : Multiset UInt64}, m ≤ ws.ids →
      m ≤ ((CommandOutput.ids .done : List UInt64) : Multiset UInt64) + ws.ids :=
    fun hle => hle.trans (Multiset.le_add_left _ _)
  cases h with
  | rename name => exact hdone (le_of_eq rfl)
  | focus hpane => exact hdone (le_of_eq rfl)
  | resize split hratio =>
    refine hdone (le_of_eq (congrArg _ ?_))
    simp only [Workspace.ids, SplitTree.setRatio_splitIds]
  | splitPane direction hpane _ _ =>
    rw [ids_splitPane ((hv.leaves_keys _).mpr hpane) fun hnew =>
      hfresh _ List.mem_cons_self (mem_ids_of_pane hnew)]
    simp [CommandOutput.ids, Function.comp_def]
  | closePane hsize hclose => exact hdone (ids_closePane hv hsize hclose)
  | addTab hpane _ =>
    rw [ids_addTab hpane]
    exact le_of_eq rfl
  | activateTab hp ht => exact hdone (le_of_eq (congrArg _ (ids_activateTab _ _)))
  | closeTab hp ht hclose => exact hdone (ids_closeTab hv hp ht hclose)
  | viewer f hp ht hid => exact hdone (le_of_eq (congrArg _ (ids_of_shape
      (shape_replaceTab hp ht hid))))

end Edit

/-! ## The state -/

theorem mem_of_getElem {wi : Nat} (hws : s.workspaces[wi]? = some ws) : ws ∈ s.workspaces :=
  List.mem_of_getElem? hws

/-- The workspaces after an edit: the edited one and the others. -/
theorem mem_edited {wi : Nat} {l : List Workspace} (h : ws ∈ l.modify wi fun _ => ws') :
    ws = ws' ∨ ws ∈ l := by
  rcases ListEdit.mem_modify h with h | ⟨_, _, rfl⟩
  · exact .inr h
  · exact .inl rfl

/-- An edit keeps the ids of the workspaces, so an active workspace stays there. -/
theorem active_edited {wi : Nat} (ws' : Workspace) (hws : s.workspaces[wi]? = some ws)
    (hid : ws'.id = ws.id) {id : WorkspaceId} (h : ∃ w ∈ s.workspaces, w.id = id) :
    ∃ w ∈ s.workspaces.modify wi (fun _ => ws'), w.id = id := by
  have hids : (s.workspaces.modify wi fun _ => ws').map Workspace.id =
      s.workspaces.map Workspace.id :=
    ListEdit.map_modify _ Workspace.id fun w hw => by
      rw [hid, Option.some_inj.mp (hws.symm.trans hw)]
  obtain ⟨w, hw, rfl⟩ := h
  have hmem : w.id ∈ s.workspaces.map Workspace.id := List.mem_map_of_mem hw
  rw [← hids, List.mem_map] at hmem
  exact hmem

/-- What an edit does to the bag of all ids. -/
theorem ids_edited {wi : Nat} {ids : List UInt64} (hws : s.workspaces[wi]? = some ws)
    (hids : (ws'.ids : Multiset UInt64) ≤ (ids : Multiset UInt64) + (ws.ids : Multiset UInt64)) :
    (((s.workspaces.modify wi fun _ => ws').flatMap Workspace.ids : List UInt64) :
      Multiset UInt64) ≤ (ids : Multiset UInt64) + (s.ids : Multiset UInt64) := by
  obtain ⟨rest, hlist, _, hmodify⟩ := ListEdit.exists_rest hws
  rw [ids_coe, ← Multiset.coe_bind, hlist, hmodify, Multiset.cons_bind, Multiset.cons_bind,
    ← add_assoc]
  exact add_le_add_left hids _

theorem shapes_fallBack (workspace : WorkspaceId) :
    (s.fallBack workspace).workspaces.map Workspace.shape = s.workspaces.map Workspace.shape := by
  unfold AppState.fallBack
  split
  · exact ListEdit.map_modify _ _ fun ws _ => shape_clearVisibleUnread
  · rfl

/-- States of one structure are legal together. -/
theorem mem_of_shapes (h : s'.workspaces.map Workspace.shape = s.workspaces.map Workspace.shape)
    (hws : ws' ∈ s'.workspaces) : ∃ ws ∈ s.workspaces, ws.shape = ws'.shape := by
  have hmem : ws'.shape ∈ s'.workspaces.map Workspace.shape := List.mem_map_of_mem hws
  rw [h, List.mem_map] at hmem
  exact hmem

theorem ids_of_shapes (h : s'.workspaces.map Workspace.shape = s.workspaces.map Workspace.shape) :
    s'.ids = s.ids := by
  have hids : ∀ (l l' : List Workspace), l'.map Workspace.shape = l.map Workspace.shape →
      l'.flatMap Workspace.ids = l.flatMap Workspace.ids := by
    intro l
    induction l with
    | nil =>
      intro l' h
      rw [List.map_eq_nil_iff.mp h]
    | cons ws l ih =>
      intro l' h
      obtain ⟨ws', l'', rfl, hws, hl⟩ := List.map_eq_cons_iff.mp h
      rw [List.flatMap_cons, List.flatMap_cons, ids_of_shape hws, ih l'' hl]
  exact hids _ _ h

/-- After a workspace was closed the active one still exists. -/
theorem active_fallBack {wi : Nat} {id : WorkspaceId} (hs : s.Legal)
    (hws : s.workspaces[wi]? = some ws)
    (hid : (AppState.fallBack ws.id
      { s with workspaces := s.workspaces.eraseIdx wi }).activeWorkspace = some id) :
    ∃ w ∈ (AppState.fallBack ws.id { s with workspaces := s.workspaces.eraseIdx wi }).workspaces,
      w.id = id := by
  unfold AppState.fallBack at hid ⊢
  split at hid
  next hactive =>
    rw [if_pos hactive]
    dsimp only at hid ⊢
    cases hl : s.workspaces.eraseIdx wi with
    | nil => simp [hl] at hid
    | cons w l =>
      rw [hl] at hid
      exact ⟨w.clearVisibleUnread, by simp, by simpa [Workspace.clearVisibleUnread] using hid⟩
  next hactive =>
    rw [if_neg hactive]
    obtain ⟨w, hw, rfl⟩ := hs.active id hid
    refine ⟨w, ?_, rfl⟩
    obtain ⟨rest, hlist, herase, _⟩ := ListEdit.exists_rest hws
    have hmem : w ∈ ws ::ₘ rest := hlist ▸ Multiset.mem_coe.mpr hw
    rw [← Multiset.mem_coe, herase]
    refine (Multiset.mem_cons.mp hmem).resolve_left fun heq => hactive ?_
    rw [← heq]
    exact hid

end LegalLemmas

open LegalLemmas WorkspaceLemmas

/-- Every command keeps the invariants. -/
theorem Effect.legal {s s' : AppState} {cmd : Command} {out : CommandOutput} {gone : List Tab}
    (h : Effect cmd s out gone s') (hs : s.Legal) : s'.Legal := by
  cases h with
  | @edit wi ws ws' out gone n hws hids hedit =>
    have hmem := mem_of_getElem hws
    have hfresh : ∀ id ∈ out.ids, id ∉ ws.ids := fun id hid hin =>
      allocated_fresh hs hids hid (mem_ids_of_mem hmem hin)
    refine legal_of_bag _ hs hids (fun w hw => ?_)
      (ids_edited hws (edit_ids (hs.valid ws hmem) hfresh hedit)) fun id hid => ?_
    · rcases mem_edited hw with rfl | hw
      · exact edit_valid (hs.valid ws hmem) hfresh hedit
      · exact hs.valid w hw
    · exact active_edited ws' hws (edit_id hedit) (hs.active id hid)
  | @create workspace pane name rootPath distro tab session n _ _ hids =>
    refine legal_of_bag _ hs hids (fun w hw => ?_) (le_of_eq ?_) fun id hid => ?_
    · rcases List.mem_append.mp hw with hw | hw
      · exact hs.valid w hw
      · rw [List.mem_singleton.mp hw]
        exact valid_create _ _ _ _
    · rw [ids_coe, ids_coe]
      dsimp only
      rw [← Multiset.coe_add, Multiset.add_bind, add_comm]
      simp [ids_create, CommandOutput.ids, Function.comp_def]
    · exact ⟨_, List.mem_append_right _ (List.mem_singleton_self _), Option.some_inj.mp hid⟩
  | @switch wi ws hws =>
    have hmem := mem_of_getElem hws
    have hsame : ws.clearVisibleUnread.ids = ws.ids := ids_of_shape shape_clearVisibleUnread
    refine legal_of_bag [] hs ⟨rfl, rfl⟩ (fun w hw => ?_)
      (ids_edited hws (by rw [hsame]; exact Multiset.le_add_left _ _)) fun id hid => ?_
    · rcases mem_edited hw with rfl | hw
      · exact Valid.of_shape (hs.valid ws hmem) shape_clearVisibleUnread.symm
      · exact hs.valid w hw
    · exact active_edited ws.clearVisibleUnread hws rfl
        ⟨ws, hmem, Option.some_inj.mp hid⟩
  | @close wi ws hws =>
    -- Closing allocates nothing and only takes ids away.
    obtain ⟨rest, hlist, herase, _⟩ := ListEdit.exists_rest hws
    have hshapes := shapes_fallBack (s := { s with workspaces := s.workspaces.eraseIdx wi }) ws.id
    refine legal_of_bag [] hs ⟨rfl, ?_⟩ (fun w hw => ?_) ?_ fun id hid => ?_
    · unfold AppState.fallBack
      split <;> rfl
    · obtain ⟨w₀, hw₀, hshape⟩ := mem_of_shapes hshapes hw
      exact Valid.of_shape (hs.valid w₀ (List.mem_of_mem_eraseIdx hw₀)) hshape
    · rw [ids_of_shapes hshapes, ids_coe, ids_coe, herase, hlist, Multiset.cons_bind]
      exact (Multiset.le_add_left _ _).trans (Multiset.le_add_left _ _)
    · exact active_fallBack hs hws hid
  | @move workspaces hperm =>
    refine legal_of_bag [] hs ⟨rfl, rfl⟩ (fun w hw => hs.valid w (hperm.mem_iff.mp hw))
      ?_ fun id hid => ?_
    · -- A move permutes the workspaces and their ids.
      rw [ids_coe, ids_coe, Multiset.coe_eq_coe.mpr hperm]
      exact Multiset.le_add_left _ _
    · obtain ⟨w, hw, hwid⟩ := hs.active id hid
      exact ⟨w, hperm.mem_iff.mpr hw, hwid⟩

/-- Every command keeps what a dispatcher builds. -/
theorem Effect.settled {s s' : AppState} {cmd : Command} {out : CommandOutput} {gone : List Tab}
    (h : Effect cmd s out gone s') (hl : s.Legal) (hs : s.Settled) : s'.Settled := by
  cases h with
  | @edit wi ws ws' out gone n hws hids hedit =>
    refine ⟨fun w hw => ?_, ?_⟩
    · rcases mem_edited hw with rfl | hw
      · exact edit_settled (hs.workspaces ws (mem_of_getElem hws)) hedit
      · exact hs.workspaces w hw
    · simpa using hs.active
  | @create workspace pane name rootPath distro tab session n _ _ hids =>
    refine ⟨fun w hw => ?_, by simp⟩
    rcases List.mem_append.mp hw with hw | hw
    · exact hs.workspaces w hw
    · rw [List.mem_singleton.mp hw]
      exact settled_create _ _ _ _
  | @switch wi ws hws =>
    have hne : s.workspaces ≠ [] := List.ne_nil_of_mem (mem_of_getElem hws)
    refine ⟨fun w hw => ?_, by simpa using hne⟩
    rcases mem_edited hw with rfl | hw
    · exact Settled.of_shape (hs.workspaces ws (mem_of_getElem hws)) shape_clearVisibleUnread.symm
    · exact hs.workspaces w hw
  | @close wi ws hws =>
    have hshapes := shapes_fallBack (s := { s with workspaces := s.workspaces.eraseIdx wi }) ws.id
    refine ⟨fun w hw => ?_, ?_⟩
    · obtain ⟨w₀, hw₀, hshape⟩ := mem_of_shapes hshapes hw
      exact Settled.of_shape (hs.workspaces w₀ (List.mem_of_mem_eraseIdx hw₀)) hshape
    · unfold AppState.fallBack
      split
      · simp
      next hactive =>
        -- another workspace is active, so the list had two
        have hne : s.activeWorkspace ≠ none := fun hnone =>
          List.ne_nil_of_mem (mem_of_getElem hws) (hs.active.mp hnone)
        obtain ⟨id, hid⟩ := Option.ne_none_iff_exists'.mp hne
        have hactive' : (AppState.fallBack ws.id
            { s with workspaces := s.workspaces.eraseIdx wi }).activeWorkspace = some id := by
          rw [AppState.fallBack, if_neg hactive]
          exact hid
        obtain ⟨w, hw, _⟩ := active_fallBack hl hws hactive'
        rw [AppState.fallBack, if_neg hactive] at hw
        exact iff_of_false hne (List.ne_nil_of_mem hw)
  | @move workspaces hperm =>
    refine ⟨fun w hw => hs.workspaces w (hperm.mem_iff.mp hw), hs.active.trans ?_⟩
    constructor
    · exact fun h => List.perm_nil.mp (h ▸ hperm)
    · intro h
      obtain rfl : workspaces = [] := h
      exact List.nil_perm.mp hperm

/-! ## Changes that leave the structure alone -/

theorem SameShape.refl (s : AppState) : SameShape s s := ⟨rfl, rfl, rfl⟩

theorem SameShape.trans {s₁ s₂ s₃ : AppState} (h : SameShape s₁ s₂) (h' : SameShape s₂ s₃) :
    SameShape s₁ s₃ :=
  ⟨h'.shapes.trans h.shapes, h'.active.trans h.active, h'.nextId.trans h.nextId⟩

theorem SameShape.legal {s s' : AppState} (h : SameShape s s') (hs : s.Legal) : s'.Legal := by
  refine legal_of_bag [] hs ⟨rfl, by rw [h.nextId]; rfl⟩ (fun w hw => ?_) ?_ fun id hid => ?_
  · obtain ⟨w₀, hw₀, hshape⟩ := mem_of_shapes h.shapes hw
    exact Valid.of_shape (hs.valid w₀ hw₀) hshape
  · rw [ids_of_shapes h.shapes]
    exact Multiset.le_add_left _ _
  · obtain ⟨w, hw, rfl⟩ := hs.active id (h.active ▸ hid)
    obtain ⟨w', hw', hshape⟩ := mem_of_shapes h.shapes.symm hw
    exact ⟨w', hw', congrArg WorkspaceShape.id hshape⟩

theorem SameShape.settled {s s' : AppState} (h : SameShape s s') (hs : s.Settled) :
    s'.Settled where
  workspaces w hw := by
    obtain ⟨w₀, hw₀, hshape⟩ := mem_of_shapes h.shapes hw
    exact Settled.of_shape (hs.workspaces w₀ hw₀) hshape
  active := by
    rw [h.active, hs.active, ← List.map_eq_nil_iff (f := Workspace.shape), ← h.shapes,
      List.map_eq_nil_iff]

end Mast
