import Mast.Structure.Workspace

/-!
# The structure of a workspace under its operations

Results:
1. `valid_…`, `settled_…`: every operation that changes the shape of a workspace
   keeps `Workspace.Valid` and `Workspace.Settled`.
2. `ids_…`: it keeps the stable ids up to those it adds or drops.
-/

namespace Mast

namespace WorkspaceLemmas

open PaneLemmas

variable {ws ws' : Workspace} {pane : PaneId} {p removed : Pane}

/-! ## Changes of one pane -/

theorem valid_modify {f : Pane → Pane} (hv : ws.Valid)
    (hf : ∀ p, ws.panes.get? pane = some p → (f p).Legal) :
    Workspace.Valid { ws with panes := ws.panes.modify pane f } where
  leaves_nodup := hv.leaves_nodup
  splitIds_nodup := hv.splitIds_nodup
  ratios := hv.ratios
  leaves_keys k := by simpa using hv.leaves_keys k
  activePane := by simpa using hv.activePane
  panes e he := by
    rcases OrdMap.mem_modify_entries.mp he with ⟨he, _⟩ | ⟨p, hp, rfl⟩
    · exact hv.panes e he
    · exact hf p (OrdMap.get?_eq_some_iff.mpr hp)

theorem settled_modify {f : Pane → Pane} (hs : ws.Settled) (hid : ∀ p, (f p).id = p.id)
    (hf : ∀ p, ws.panes.get? pane = some p → (f p).Shows) :
    Workspace.Settled { ws with panes := ws.panes.modify pane f } where
  paneIds e he := by
    rcases OrdMap.mem_modify_entries.mp he with ⟨he, _⟩ | ⟨p, hp, rfl⟩
    · exact hs.paneIds e he
    · exact (hid p).trans (hs.paneIds _ hp)
  shows e he := by
    rcases OrdMap.mem_modify_entries.mp he with ⟨he, _⟩ | ⟨p, hp, rfl⟩
    · exact hs.shows e he
    · exact hf p (OrdMap.get?_eq_some_iff.mpr hp)

/-- The ids of the changed pane are exchanged. -/
theorem ids_modify {f : Pane → Pane} (hp : ws.panes.get? pane = some p) :
    (Workspace.ids { ws with panes := ws.panes.modify pane f } : Multiset UInt64) +
        (p.tabIds.map TabId.val : List UInt64) =
      (ws.ids : Multiset UInt64) + ((f p).tabIds.map TabId.val : List UInt64) := by
  have hcollect := OrdMap.collect_modify paneIdBag f hp
  simp only [paneIdBag, Multiset.add_cons, Multiset.cons_inj_right] at hcollect
  simp only [ids_eq, Multiset.cons_add, add_assoc, hcollect]

theorem ids_activateTab (ti : Nat) (tab : TabId) :
    (ws.activateTab pane ti tab).ids = ws.ids := by
  cases hp : ws.panes.get? pane with
  | none => rw [Workspace.activateTab, OrdMap.modify_of_get?_eq_none _ hp]
  | some p =>
    have hpanes : (ws.panes.modify pane (Pane.activateTab ti tab)).mapValues Pane.tabIds =
        ws.panes.mapValues Pane.tabIds :=
      OrdMap.mapValues_modify fun p _ => tabIds_activateTab ti tab
    have hids : ∀ m : OrdMap PaneId Pane,
        (m.entries.flatMap fun e => e.1.val :: e.2.tabs.map fun t => t.id.val) =
          (m.mapValues Pane.tabIds).entries.flatMap fun e => e.1.val :: e.2.map TabId.val := by
      intro m
      simp [OrdMap.mapValues, List.flatMap_map, Pane.tabIds, Function.comp_def]
    simp only [Workspace.ids, Workspace.activateTab, hids, hpanes]

theorem ids_addTab {tab : Tab} (h : pane ∈ ws.panes.keys) :
    ((ws.addTab pane tab).ids : Multiset UInt64) = tab.id.val ::ₘ (ws.ids : Multiset UInt64) := by
  obtain ⟨p, hp⟩ := OrdMap.mem_keys.mp h
  have hmodify := ids_modify (f := Pane.pushActive tab) (OrdMap.get?_eq_some_iff.mpr hp)
  rw [tabIds_pushActive, List.map_append, ← Multiset.coe_add, ← add_assoc,
    add_right_comm] at hmodify
  rw [Workspace.addTab, add_right_cancel hmodify, add_comm]
  rfl

/-! ## Splitting -/

variable {newPane : PaneId} {splitId : SplitId} {d : SplitDirection} {tab : Option Tab}

theorem valid_splitPane (hv : ws.Valid) (hpane : pane ∈ ws.panes.keys)
    (hnew : newPane ∉ ws.panes.keys) (hsplit : splitId ∉ ws.layout.splitIds) :
    (ws.splitPane pane d newPane splitId tab).Valid := by
  have hmem : pane ∈ ws.layout.leaves := (hv.leaves_keys pane).mpr hpane
  have hleaves := SplitTree.splitLeaf_leaves newPane d splitId hmem
  have hsplits := SplitTree.splitLeaf_splitIds newPane d splitId hmem
  exact
    { leaves_nodup := hleaves.nodup_iff.mpr
        (List.nodup_cons.mpr ⟨fun h => hnew ((hv.leaves_keys newPane).mp h), hv.leaves_nodup⟩)
      splitIds_nodup := hsplits.nodup_iff.mpr (List.nodup_cons.mpr ⟨hsplit, hv.splitIds_nodup⟩)
      ratios := SplitTree.splitLeaf_ratios hv.ratios
      leaves_keys := fun k => by
        simp only [Workspace.splitPane]
        rw [hleaves.mem_iff, List.mem_cons, OrdMap.mem_insert_keys, hv.leaves_keys k]
      activePane := OrdMap.mem_insert_keys.mpr (.inl rfl)
      panes := fun e he => by
        rcases OrdMap.mem_insert_entries.mp he with rfl | ⟨he, _⟩
        · exact legal_initialPane newPane tab
        · exact hv.panes e he }

theorem settled_splitPane (hs : ws.Settled) :
    (ws.splitPane pane d newPane splitId tab).Settled where
  paneIds e he := by
    rcases OrdMap.mem_insert_entries.mp he with rfl | ⟨he, _⟩
    · exact id_initialPane newPane tab
    · exact hs.paneIds e he
  shows e he := by
    rcases OrdMap.mem_insert_entries.mp he with rfl | ⟨he, _⟩
    · exact shows_initialPane newPane tab
    · exact hs.shows e he

theorem ids_splitPane (hpane : pane ∈ ws.layout.leaves) (hnew : newPane ∉ ws.panes.keys) :
    ((ws.splitPane pane d newPane splitId tab).ids : Multiset UInt64) =
      (newPane.val :: splitId.val :: (tab.map fun t => t.id.val).toList : List UInt64) +
        (ws.ids : Multiset UInt64) := by
  have hsplits := (SplitTree.splitLeaf_splitIds newPane d splitId hpane).map SplitId.val
  have hbag : paneIdBag newPane (initialPane newPane tab) =
      newPane.val ::ₘ ((tab.map fun t => t.id.val).toList : List UInt64) := by
    rw [paneIdBag, Pane.tabIds, tabs_initialPane]
    cases tab <;> rfl
  rw [ids_eq, ids_eq]
  simp only [Workspace.splitPane]
  rw [OrdMap.collect_insert _ _ hnew, hbag, Multiset.coe_eq_coe.mpr hsplits]
  simp only [List.map_cons, ← Multiset.cons_coe, Multiset.cons_add, Multiset.add_cons]
  rw [Multiset.cons_swap, add_left_comm, Multiset.cons_swap]

/-! ## Collapsing -/

/-- What a collapse did, when it did not panic. -/
theorem collapsePane_eq_some (h : ws.collapsePane pane = some (removed, ws')) :
    ws.panes.get? pane = some removed ∧
      ws'.panes = ws.panes.erase pane ∧ ws'.layout = (ws.layout.remove pane).1 ∧
      ws'.id = ws.id ∧
      ((ws.activePane ≠ pane ∧ ws'.activePane = ws.activePane) ∨
        ws'.activePane ∈ ws'.layout.leaves) := by
  dsimp only [Workspace.collapsePane] at h
  generalize hactive : (if ws.activePane = pane then (ws.layout.remove pane).1.leaves.head?
    else some ws.activePane) = active at h
  split at h
  next q active hp =>
    obtain ⟨rfl, rfl⟩ := Prod.mk.inj (Option.some_inj.mp h)
    refine ⟨hp, rfl, rfl, rfl, ?_⟩
    split at hactive
    · exact .inr (List.mem_of_head? hactive)
    next hne => exact .inl ⟨hne, (Option.some_inj.mp hactive).symm⟩
  next => simp at h

/-- A collapse changes the panes, the tree and the active pane only. -/
theorem collapsePane_frame (h : ws.collapsePane pane = some (removed, ws')) :
    ws' = { ws with panes := ws'.panes, layout := ws'.layout, activePane := ws'.activePane } := by
  dsimp only [Workspace.collapsePane] at h
  split at h
  · obtain ⟨rfl, rfl⟩ := Prod.mk.inj (Option.some_inj.mp h)
    rfl
  · simp at h

theorem remove_found_of_valid (hv : ws.Valid) (hpane : pane ∈ ws.panes.keys)
    (hsize : 1 < ws.panes.size) : (ws.layout.remove pane).2 = true := by
  refine SplitTree.remove_found ((hv.leaves_keys pane).mpr hpane) fun heq => ?_
  obtain ⟨other, hother, hne⟩ := OrdMap.exists_key_ne hsize pane
  have hleaf := (hv.leaves_keys other).mpr hother
  rw [heq] at hleaf
  exact hne (List.mem_singleton.mp hleaf)

theorem valid_collapsePane (hv : ws.Valid) (hsize : 1 < ws.panes.size)
    (h : ws.collapsePane pane = some (removed, ws')) : ws'.Valid := by
  obtain ⟨hp, hpanes, hlayout, _, hactive⟩ := collapsePane_eq_some h
  have hpane : pane ∈ ws.panes.keys := OrdMap.mem_keys.mpr ⟨_, OrdMap.get?_eq_some_iff.mp hp⟩
  have hfound := remove_found_of_valid hv hpane hsize
  have hleaves := SplitTree.remove_leaves hfound
  obtain ⟨split, hsplits⟩ := SplitTree.remove_splitIds hfound
  have hnodup := List.nodup_cons.mp (hleaves.nodup_iff.mp hv.leaves_nodup)
  have hkeys : ∀ k, k ∈ ws'.layout.leaves ↔ k ∈ ws'.panes.keys := by
    intro k
    rw [hlayout, hpanes, OrdMap.mem_erase_keys, ← hv.leaves_keys k, hleaves.mem_iff,
      List.mem_cons]
    constructor
    · exact fun hk => ⟨.inr hk, fun heq => hnodup.1 (heq ▸ hk)⟩
    · exact fun ⟨hk, hne⟩ => hk.resolve_left hne
  exact
    { leaves_nodup := hlayout ▸ hnodup.2
      splitIds_nodup :=
        hlayout ▸ (List.nodup_cons.mp (hsplits.nodup_iff.mp hv.splitIds_nodup)).2
      ratios := hlayout ▸ SplitTree.remove_ratios hv.ratios
      leaves_keys := hkeys
      activePane := by
        rcases hactive with ⟨hne, heq⟩ | hmem
        · rw [heq, hpanes]
          exact OrdMap.mem_erase_keys.mpr ⟨hv.activePane, hne⟩
        · exact (hkeys _).mp hmem
      panes := fun e he => by
        rw [hpanes] at he
        exact hv.panes e (OrdMap.mem_erase_entries.mp he).1 }

theorem settled_collapsePane (hs : ws.Settled) (h : ws.collapsePane pane = some (removed, ws')) :
    ws'.Settled := by
  obtain ⟨_, hpanes, _⟩ := collapsePane_eq_some h
  exact
    { paneIds := fun e he => hs.paneIds e (OrdMap.mem_erase_entries.mp (hpanes ▸ he)).1
      shows := fun e he => hs.shows e (OrdMap.mem_erase_entries.mp (hpanes ▸ he)).1 }

/-- A collapse drops the ids of the pane, of its tabs, and of one split. -/
theorem ids_collapsePane (hv : ws.Valid) (hsize : 1 < ws.panes.size)
    (h : ws.collapsePane pane = some (removed, ws')) :
    ∃ split : UInt64, (ws.ids : Multiset UInt64) =
      split ::ₘ (paneIdBag pane removed + (ws'.ids : Multiset UInt64)) := by
  obtain ⟨hp, hpanes, hlayout, hid, _⟩ := collapsePane_eq_some h
  have hpane : pane ∈ ws.panes.keys := OrdMap.mem_keys.mpr ⟨_, OrdMap.get?_eq_some_iff.mp hp⟩
  obtain ⟨split, hsplits⟩ := SplitTree.remove_splitIds (remove_found_of_valid hv hpane hsize)
  refine ⟨split.val, ?_⟩
  rw [ids_eq, ids_eq, hpanes, hlayout, hid, OrdMap.collect_erase paneIdBag hp,
    Multiset.coe_eq_coe.mpr (hsplits.map SplitId.val), List.map_cons, ← Multiset.cons_coe,
    Multiset.cons_add, Multiset.cons_swap, Multiset.add_cons, add_left_comm]

/-! ## Closing a pane -/

theorem closePane_eq_some (h : ws.closePane pane = some (removed, ws')) :
    ∃ ws₁, ws.collapsePane pane = some (removed, ws₁) ∧ ws' = ws₁.resetAll removed.tabIds := by
  obtain ⟨⟨q, ws₁⟩, hcollapse, heq⟩ := Option.map_eq_some_iff.mp h
  obtain ⟨rfl, rfl⟩ := Prod.mk.inj heq
  exact ⟨ws₁, hcollapse, rfl⟩

theorem id_closePane (h : ws.closePane pane = some (removed, ws')) : ws'.id = ws.id := by
  obtain ⟨ws₁, hcollapse, rfl⟩ := closePane_eq_some h
  have hid : (ws₁.resetAll removed.tabIds).id = ws₁.id :=
    congrArg WorkspaceShape.id (shape_resetAll _)
  exact hid.trans (collapsePane_eq_some hcollapse).2.2.2.1

theorem valid_closePane (hv : ws.Valid) (hsize : 1 < ws.panes.size)
    (h : ws.closePane pane = some (removed, ws')) : ws'.Valid := by
  obtain ⟨ws₁, hcollapse, rfl⟩ := closePane_eq_some h
  exact Valid.of_shape (valid_collapsePane hv hsize hcollapse) (shape_resetAll _).symm

theorem settled_closePane (hs : ws.Settled) (h : ws.closePane pane = some (removed, ws')) :
    ws'.Settled := by
  obtain ⟨ws₁, hcollapse, rfl⟩ := closePane_eq_some h
  exact Settled.of_shape (settled_collapsePane hs hcollapse) (shape_resetAll _).symm

theorem ids_closePane (hv : ws.Valid) (hsize : 1 < ws.panes.size)
    (h : ws.closePane pane = some (removed, ws')) :
    (ws'.ids : Multiset UInt64) ≤ (ws.ids : Multiset UInt64) := by
  obtain ⟨ws₁, hcollapse, rfl⟩ := closePane_eq_some h
  obtain ⟨split, hids⟩ := ids_collapsePane hv hsize hcollapse
  rw [ids_of_shape (shape_resetAll _), hids]
  exact (Multiset.le_add_left _ _).trans (Multiset.le_cons_self _ _)

/-! ## Closing a tab -/

variable {shown : Bool} {ti : Nat} {t : Tab}

/-- The workspace of CloseTab before the emptied pane is collapsed. -/
def withoutTab (shown : Bool) (pane : PaneId) (ti : Nat) (tab : TabId) (ws : Workspace) :
    Workspace :=
  { ws with panes := ws.panes.modify pane (Pane.closeTab shown ti tab) }

/-- What CloseTab did: the tab went, then the pane when that emptied it, then
the status it had reported. -/
theorem closeTab_eq_some {tab : TabId} (h : ws.closeTab shown pane ti tab = some ws') :
    ∃ ws₁, ws' = ws₁.resetAgentSource tab ∧
      (ws₁ = withoutTab shown pane ti tab ws ∨
        ∃ removed, (withoutTab shown pane ti tab ws).collapsePane pane = some (removed, ws₁) ∧
          removed.tabs = [] ∧ 1 < ws.panes.size) := by
  obtain ⟨ws₁, hcollapsed, rfl⟩ := Option.map_eq_some_iff.mp h
  refine ⟨ws₁, rfl, ?_⟩
  split at hcollapsed
  next hempty =>
    obtain ⟨⟨removed, ws₂⟩, hcollapse, rfl⟩ := Option.map_eq_some_iff.mp hcollapsed
    obtain ⟨hremoved, _⟩ := collapsePane_eq_some hcollapse
    rw [Bool.and_eq_true, hremoved, Option.any_some, List.isEmpty_iff, decide_eq_true_eq,
      OrdMap.modify_size] at hempty
    exact .inr ⟨removed, hcollapse, hempty.1, hempty.2⟩
  next => exact .inl (Option.some_inj.mp hcollapsed).symm

theorem valid_withoutTab (shown : Bool) (hv : ws.Valid) (hp : ws.panes.get? pane = some p)
    (ht : p.tabs[ti]? = some t) : (withoutTab shown pane ti t.id ws).Valid := by
  refine valid_modify hv fun q hq => ?_
  obtain rfl : p = q := Option.some_inj.mp (hp.symm.trans hq)
  exact legal_closeTab ht (hv.panes _ (OrdMap.get?_eq_some_iff.mp hp))

theorem id_closeTab {tab : TabId} (h : ws.closeTab shown pane ti tab = some ws') :
    ws'.id = ws.id := by
  obtain ⟨ws₁, rfl, hws₁⟩ := closeTab_eq_some h
  have hid : (ws₁.resetAgentSource tab).id = ws₁.id :=
    congrArg WorkspaceShape.id (shape_resetAgentSource _)
  rcases hws₁ with rfl | ⟨removed, hcollapse, _⟩
  · exact hid
  · exact hid.trans (collapsePane_eq_some hcollapse).2.2.2.1

theorem valid_closeTab (hv : ws.Valid) (hp : ws.panes.get? pane = some p)
    (ht : p.tabs[ti]? = some t) (h : ws.closeTab shown pane ti t.id = some ws') : ws'.Valid := by
  have hwithout := valid_withoutTab shown hv hp ht
  obtain ⟨ws₁, rfl, rfl | ⟨removed, hcollapse, _, hsize⟩⟩ := closeTab_eq_some h
  · exact Valid.of_shape hwithout (shape_resetAgentSource _).symm
  · refine Valid.of_shape (valid_collapsePane hwithout ?_ hcollapse) (shape_resetAgentSource _).symm
    rwa [withoutTab, OrdMap.modify_size]

theorem settled_closeTab (hs : ws.Settled) (hp : ws.panes.get? pane = some p)
    (ht : p.tabs[ti]? = some t) (h : ws.closeTab shown pane ti t.id = some ws') :
    ws'.Settled := by
  have hwithout : (withoutTab shown pane ti t.id ws).Settled := by
    refine settled_modify hs (fun q => congrArg PaneShape.id (shape_closeTab _ _ _)) fun q hq => ?_
    obtain rfl : p = q := Option.some_inj.mp (hp.symm.trans hq)
    exact shows_closeTab ht (hs.shows _ (OrdMap.get?_eq_some_iff.mp hp))
  obtain ⟨ws₁, rfl, rfl | ⟨removed, hcollapse, _⟩⟩ := closeTab_eq_some h
  · exact Settled.of_shape hwithout (shape_resetAgentSource _).symm
  · exact Settled.of_shape (settled_collapsePane hwithout hcollapse)
      (shape_resetAgentSource _).symm

theorem ids_closeTab (hv : ws.Valid) (hp : ws.panes.get? pane = some p)
    (ht : p.tabs[ti]? = some t) (h : ws.closeTab shown pane ti t.id = some ws') :
    (ws'.ids : Multiset UInt64) ≤ (ws.ids : Multiset UInt64) := by
  have hwithout : ((withoutTab shown pane ti t.id ws).ids : Multiset UInt64) ≤ ws.ids := by
    have hids := ids_modify (f := Pane.closeTab shown ti t.id) hp
    have hperm := (tabIds_perm_closeTab shown ht).map TabId.val
    rw [Multiset.coe_eq_coe.mpr hperm, List.map_cons, ← Multiset.cons_coe,
      Multiset.add_cons, ← Multiset.cons_add] at hids
    rw [← add_right_cancel hids]
    exact Multiset.le_cons_self _ _
  obtain ⟨ws₁, rfl, rfl | ⟨removed, hcollapse, _, hsize⟩⟩ := closeTab_eq_some h
  · rwa [ids_of_shape (shape_resetAgentSource _)]
  · obtain ⟨split, hids⟩ := ids_collapsePane (valid_withoutTab shown hv hp ht)
      (by rwa [withoutTab, OrdMap.modify_size]) hcollapse
    rw [ids_of_shape (shape_resetAgentSource _)]
    refine le_trans ?_ hwithout
    rw [hids]
    exact (Multiset.le_add_left _ _).trans (Multiset.le_cons_self _ _)

/-! ## The other commands -/

theorem valid_create (id : WorkspaceId) (name : String) (rootPath distro : Option String) :
    (Workspace.create id name rootPath distro newPane tab).Valid where
  leaves_nodup := List.nodup_singleton _
  splitIds_nodup := List.nodup_nil
  ratios r hr := by simp [Workspace.create, SplitTree.ratios] at hr
  leaves_keys k := by simp [Workspace.create, SplitTree.leaves, OrdMap.singleton, OrdMap.keys]
  activePane := by simp [Workspace.create, OrdMap.singleton, OrdMap.keys]
  panes e he := by
    obtain rfl := List.mem_singleton.mp he
    exact legal_initialPane newPane tab

theorem settled_create (id : WorkspaceId) (name : String) (rootPath distro : Option String) :
    (Workspace.create id name rootPath distro newPane tab).Settled where
  paneIds e he := by
    obtain rfl := List.mem_singleton.mp he
    exact id_initialPane newPane tab
  shows e he := by
    obtain rfl := List.mem_singleton.mp he
    exact shows_initialPane newPane tab

theorem ids_create (id : WorkspaceId) (name : String) (rootPath distro : Option String) :
    (Workspace.create id name rootPath distro newPane tab).ids =
      id.val :: newPane.val :: (tab.map fun t => t.id.val).toList := by
  cases tab <;> rfl

theorem valid_focus (hv : ws.Valid) (h : pane ∈ ws.panes.keys) :
    Workspace.Valid { ws with activePane := pane } :=
  { hv with activePane := h }

theorem valid_setRatio {split : SplitId} {ratio : F64} (hv : ws.Valid)
    (hratio : SplitTree.ratioInvalid ratio = false) :
    Workspace.Valid { ws with layout := (ws.layout.setRatio split ratio).1 } where
  leaves_nodup := by
    rw [SplitTree.setRatio_leaves]
    exact hv.leaves_nodup
  splitIds_nodup := by
    rw [SplitTree.setRatio_splitIds]
    exact hv.splitIds_nodup
  ratios := SplitTree.setRatio_ratios hratio hv.ratios
  leaves_keys k := by
    rw [SplitTree.setRatio_leaves]
    exact hv.leaves_keys k
  activePane := hv.activePane
  panes := hv.panes

/-- The check of ResizeSplit accepts exactly the ratios that the validation does. -/
theorem checkRatio_eq_ok_iff {ratio : F64} :
    checkRatio ratio = .ok () ↔ SplitTree.ratioInvalid ratio = false := by
  have hzero : F64.zero.isFinite = true := by decide
  have hone : F64.one.isFinite = true := by decide
  cases hr : ratio.isFinite with
  | false => simp [checkRatio, SplitTree.ratioInvalid, hr]
  | true =>
    simp only [checkRatio, SplitTree.ratioInvalid, hr, F64.le_eq_not_lt hr hzero,
      F64.le_eq_not_lt hone hr]
    cases F64.zero.lt ratio <;> cases ratio.lt F64.one <;> simp

end WorkspaceLemmas

end Mast
