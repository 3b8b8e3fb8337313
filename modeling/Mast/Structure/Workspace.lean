import Mast.Command.Mutations
import Mast.Lib.ListEdit
import Mast.Structure.Tree

/-!
# The structure of a workspace

`Workspace.Valid` is what `Workspace.validate` checks, as a proposition. A
workspace that a dispatcher built, rather than loaded, also satisfies
`Workspace.Settled`: panes carry the id they are stored under, and a pane with
tabs shows one.

Both depend only on the `shape` of the workspace: its tree, its panes, and the
ids of their tabs. Each operation is described by what it does to the two
conditions and to the bag of stable ids.

Results:
1. `validate_eq_ok_iff`: the check of the source is `Workspace.Valid`.
2. `Valid.…`, `Settled.…`: every operation on a workspace keeps both conditions.
3. `ids_…`: every operation keeps the old ids, drops some of them, or adds the
   ids it was given.
-/

namespace Mast

/-! ## Panes -/

namespace Pane

/-- The ids of the tabs, in order. -/
def tabIds (p : Pane) : List TabId := p.tabs.map Tab.id

/-- The active tab is one of the tabs. -/
def Legal (p : Pane) : Prop := ∀ t, p.activeTab = some t → t ∈ p.tabIds

/-- A pane with tabs shows one. -/
def Shows (p : Pane) : Prop := p.tabIds ≠ [] → p.activeTab.isSome

end Pane

/-- A pane without the contents of its tabs. -/
structure PaneShape where
  id : PaneId
  activeTab : Option TabId
  tabs : List TabId

def Pane.shape (p : Pane) : PaneShape := ⟨p.id, p.activeTab, p.tabIds⟩

namespace PaneLemmas

variable {p : Pane}

theorem legal_congr {q : Pane} (h : p.shape = q.shape) : p.Legal ↔ q.Legal := by
  simp only [Pane.shape, PaneShape.mk.injEq] at h
  simp only [Pane.Legal, h]

theorem shows_congr {q : Pane} (h : p.shape = q.shape) : p.Shows ↔ q.Shows := by
  simp only [Pane.shape, PaneShape.mk.injEq] at h
  simp only [Pane.Shows, h]

theorem shape_modify_tabs {ti : Nat} {f : Tab → Tab}
    (hf : ∀ t, p.tabs[ti]? = some t → (f t).id = t.id) :
    Pane.shape { p with tabs := p.tabs.modify ti f } = p.shape := by
  simp only [Pane.shape, Pane.tabIds]
  rw [ListEdit.map_modify f Tab.id hf]

theorem shape_map_tabs {f : Tab → Tab} (hf : ∀ t, (f t).id = t.id) :
    Pane.shape { p with tabs := p.tabs.map f } = p.shape := by
  simp only [Pane.shape, Pane.tabIds, List.map_map]
  congr 1
  exact List.map_congr_left fun t _ => hf t

theorem shape_clearActiveUnread : p.clearActiveUnread.shape = p.shape := by
  unfold Pane.clearActiveUnread
  split
  · exact shape_modify_tabs fun t _ => rfl
  · rfl

theorem tabIds_pushActive (tab : Tab) : (p.pushActive tab).tabIds = p.tabIds ++ [tab.id] := by
  simp [Pane.pushActive, Pane.tabIds]

theorem legal_pushActive (tab : Tab) : (p.pushActive tab).Legal := by
  intro t ht
  obtain rfl : tab.id = t := by simpa [Pane.pushActive] using ht
  simp [tabIds_pushActive]

theorem shows_pushActive (tab : Tab) : (p.pushActive tab).Shows := fun _ => rfl

theorem legal_initialPane (id : PaneId) (tab : Option Tab) : (initialPane id tab).Legal := by
  cases tab with
  | none => simp [initialPane, emptyPane, Pane.Legal]
  | some tab => exact legal_pushActive tab

theorem shows_initialPane (id : PaneId) (tab : Option Tab) : (initialPane id tab).Shows := by
  cases tab with
  | none => simp [initialPane, emptyPane, Pane.Shows, Pane.tabIds]
  | some tab => exact shows_pushActive tab

theorem tabs_initialPane (id : PaneId) (tab : Option Tab) :
    (initialPane id tab).tabs = tab.toList := by
  cases tab <;> rfl

theorem id_initialPane (id : PaneId) (tab : Option Tab) : (initialPane id tab).id = id := by
  cases tab <;> rfl

theorem tabIds_activateTab (ti : Nat) (tab : TabId) : (p.activateTab ti tab).tabIds = p.tabIds :=
  ListEdit.map_modify Tab.markRead Tab.id fun _ _ => rfl

theorem legal_activateTab {ti : Nat} {tab : TabId} (h : tab ∈ p.tabIds) :
    (p.activateTab ti tab).Legal := by
  intro t ht
  obtain rfl : tab = t := by simpa [Pane.activateTab] using ht
  rwa [tabIds_activateTab]

/-! ### Closing a tab -/

variable {shown : Bool} {ti : Nat} {tab : Tab}

theorem shape_closeTab (shown : Bool) (ti : Nat) (tab : TabId) :
    (p.closeTab shown ti tab).shape =
      ⟨p.id, if p.activeTab = some tab then (p.tabs.eraseIdx ti)[ti - 1]?.map Tab.id
        else p.activeTab, (p.tabs.eraseIdx ti).map Tab.id⟩ := by
  unfold Pane.closeTab
  split
  · dsimp only
    split
    · exact shape_clearActiveUnread
    · rfl
  · rfl

theorem tabIds_closeTab (shown : Bool) (ti : Nat) (tab : TabId) :
    (p.closeTab shown ti tab).tabIds = (p.tabs.eraseIdx ti).map Tab.id :=
  congrArg PaneShape.tabs (shape_closeTab shown ti tab)

theorem activeTab_closeTab (shown : Bool) (ti : Nat) (tab : TabId) :
    (p.closeTab shown ti tab).activeTab =
      if p.activeTab = some tab then (p.tabs.eraseIdx ti)[ti - 1]?.map Tab.id
      else p.activeTab :=
  congrArg PaneShape.activeTab (shape_closeTab shown ti tab)

theorem tabIds_perm_closeTab (shown : Bool) (h : p.tabs[ti]? = some tab) :
    p.tabIds.Perm (tab.id :: (p.closeTab shown ti tab.id).tabIds) := by
  obtain ⟨rest, hp, herase, _⟩ := ListEdit.exists_rest h
  rw [tabIds_closeTab, ← Multiset.coe_eq_coe, ← Multiset.cons_coe, Pane.tabIds, ← Multiset.map_coe,
    ← Multiset.map_coe, herase, hp, Multiset.map_cons]

theorem legal_closeTab (h : p.tabs[ti]? = some tab) (hp : p.Legal) :
    (p.closeTab shown ti tab.id).Legal := by
  intro t ht
  rw [activeTab_closeTab] at ht
  rw [tabIds_closeTab]
  split at ht
  next hactive =>
    obtain ⟨u, hu, rfl⟩ := Option.map_eq_some_iff.mp ht
    exact List.mem_map_of_mem (List.mem_of_getElem? hu)
  next hactive =>
    -- an active tab other than the closed one is still there
    have hmem := (tabIds_perm_closeTab shown h).mem_iff.mp (hp t ht)
    rw [tabIds_closeTab] at hmem
    refine (List.mem_cons.mp hmem).resolve_left fun hEq => hactive ?_
    rw [ht, hEq]

theorem shows_closeTab (h : p.tabs[ti]? = some tab) (hp : p.Shows) :
    (p.closeTab shown ti tab.id).Shows := by
  intro hne
  rw [activeTab_closeTab]
  split
  next hactive =>
    have hlt := (List.getElem?_eq_some_iff.mp h).1
    have hpos : (p.tabs.eraseIdx ti).length = p.tabs.length - 1 := List.length_eraseIdx_of_lt hlt
    have hpos' : 0 < (p.tabs.eraseIdx ti).length := by
      rw [tabIds_closeTab] at hne
      exact List.length_pos_iff.mpr fun hnil => hne (by rw [hnil, List.map_nil])
    have hindex : ti - 1 < (p.tabs.eraseIdx ti).length := by omega
    rw [List.getElem?_eq_getElem hindex]
    rfl
  next hactive =>
    refine hp fun hnil => ?_
    have htabs : p.tabs = [] := List.map_eq_nil_iff.mp hnil
    simp [htabs] at h

end PaneLemmas

/-! ## Workspaces -/

/-- A workspace without the contents of its tabs and without its status. -/
structure WorkspaceShape where
  id : WorkspaceId
  layout : SplitTree
  activePane : PaneId
  panes : OrdMap PaneId PaneShape

namespace Workspace

def shape (ws : Workspace) : WorkspaceShape :=
  ⟨ws.id, ws.layout, ws.activePane, ws.panes.mapValues Pane.shape⟩

/-- The structural invariants that the validation of the source checks. -/
structure Valid (ws : Workspace) : Prop where
  leaves_nodup : ws.layout.leaves.Nodup
  splitIds_nodup : ws.layout.splitIds.Nodup
  ratios : ws.layout.RatiosValid
  leaves_keys : ∀ pane, pane ∈ ws.layout.leaves ↔ pane ∈ ws.panes.keys
  activePane : ws.activePane ∈ ws.panes.keys
  panes : ∀ e ∈ ws.panes.entries, e.2.Legal

/-- What holds beyond `Valid` in a workspace that the dispatcher built. -/
structure Settled (ws : Workspace) : Prop where
  paneIds : ∀ e ∈ ws.panes.entries, e.2.id = e.1
  shows : ∀ e ∈ ws.panes.entries, e.2.Shows

end Workspace

namespace WorkspaceLemmas

open PaneLemmas

variable {ws : Workspace}

/-! ### The check of the source -/

theorem validateActiveTabs_eq_ok_iff {panes : List Pane} :
    Workspace.validateActiveTabs panes = .ok () ↔ ∀ p ∈ panes, p.Legal := by
  induction panes with
  | nil => simp [Workspace.validateActiveTabs]
  | cons p panes ih =>
    rw [Workspace.validateActiveTabs, List.forall_mem_cons, ← ih]
    cases hactive : p.activeTab with
    | none => simp [Pane.Legal, hactive]
    | some tab =>
      simp only [Pane.Legal, hactive, Option.some_inj, forall_eq', Pane.tabIds, List.mem_map]
      split
      next h => exact (and_iff_right (by simpa using h)).symm
      next h =>
        refine iff_of_false (by simp) fun hmem => h ?_
        simpa using hmem.1

theorem check_eq_ok_iff {p : Prop} [Decidable p] {e : Violation} {x : Except Violation Unit} :
    (if ¬ p then .error e else x) = .ok () ↔ p ∧ x = .ok () := by
  by_cases hp : p <;> simp [hp]

/-- The check of the source accepts exactly the valid workspaces. -/
theorem validate_eq_ok_iff : ws.validate = .ok () ↔ ws.Valid := by
  have hratios := SplitTree.validateRatios_eq_ok_iff (t := ws.layout)
  have hkeys : (∀ pane, pane ∈ ws.layout.leaves ↔ pane ∈ ws.panes.keys) ↔
      ws.layout.leaves ⊆ ws.panes.keys ∧ ws.panes.keys ⊆ ws.layout.leaves :=
    ⟨fun h => ⟨fun p => (h p).mp, fun p => (h p).mpr⟩,
      fun h p => ⟨fun hp => h.1 hp, fun hp => h.2 hp⟩⟩
  have hpanes : (∀ p ∈ ws.panes.values, p.Legal) ↔ ∀ e ∈ ws.panes.entries, e.2.Legal := by
    rw [OrdMap.values, List.forall_mem_map]
  have hvalid : ws.Valid ↔ ws.layout.leaves.Nodup ∧ ws.layout.splitIds.Nodup ∧
      ws.layout.RatiosValid ∧ (∀ pane, pane ∈ ws.layout.leaves ↔ pane ∈ ws.panes.keys) ∧
      ws.activePane ∈ ws.panes.keys ∧ ∀ e ∈ ws.panes.entries, e.2.Legal :=
    ⟨fun h => ⟨h.leaves_nodup, h.splitIds_nodup, h.ratios, h.leaves_keys, h.activePane, h.panes⟩,
      fun h => ⟨h.1, h.2.1, h.2.2.1, h.2.2.2.1, h.2.2.2.2.1, h.2.2.2.2.2⟩⟩
  rw [hvalid, hkeys, ← hpanes, ← validateActiveTabs_eq_ok_iff, ← OrdMap.contains_iff, ← hratios]
  unfold Workspace.validate
  dsimp only
  rw [check_eq_ok_iff, check_eq_ok_iff]
  refine and_congr_right fun _ => and_congr_right fun _ => ?_
  cases ws.layout.validateRatios with
  | error e => simp
  | ok u =>
    dsimp only
    rw [check_eq_ok_iff, check_eq_ok_iff]
    simp

/-! ### Changes that the shape does not see -/

theorem keys_of_shape {ws' : Workspace} (h : ws.shape = ws'.shape) :
    ws.panes.keys = ws'.panes.keys := by
  have hpanes := congrArg WorkspaceShape.panes h
  simp only [Workspace.shape] at hpanes
  rw [← OrdMap.mapValues_keys ws.panes Pane.shape, hpanes, OrdMap.mapValues_keys]

/-- Panes at the same place of two workspaces of one shape have one shape. -/
theorem pane_of_shape {ws' : Workspace} (h : ws.shape = ws'.shape) {e : PaneId × Pane}
    (he : e ∈ ws'.panes.entries) : ∃ p, (e.1, p) ∈ ws.panes.entries ∧ p.shape = e.2.shape := by
  have hpanes := congrArg (fun s => s.panes.entries) h
  simp only [Workspace.shape, OrdMap.mapValues] at hpanes
  have hmem : (e.1, e.2.shape) ∈ ws'.panes.entries.map fun e => (e.1, e.2.shape) :=
    List.mem_map_of_mem (f := fun e : PaneId × Pane => (e.1, e.2.shape)) he
  rw [← hpanes, List.mem_map] at hmem
  obtain ⟨e', he', heq⟩ := hmem
  obtain ⟨hkey, hshape⟩ := Prod.mk.inj heq
  exact ⟨e'.2, hkey ▸ he', hshape⟩

theorem Valid.of_shape {ws' : Workspace} (hv : ws.Valid) (h : ws.shape = ws'.shape) :
    ws'.Valid := by
  have hlayout : ws.layout = ws'.layout := congrArg WorkspaceShape.layout h
  have hactive : ws.activePane = ws'.activePane := congrArg WorkspaceShape.activePane h
  have hkeys := keys_of_shape h
  exact
    { leaves_nodup := hlayout ▸ hv.leaves_nodup
      splitIds_nodup := hlayout ▸ hv.splitIds_nodup
      ratios := hlayout ▸ hv.ratios
      leaves_keys := fun pane => hlayout ▸ hkeys ▸ hv.leaves_keys pane
      activePane := hactive ▸ hkeys ▸ hv.activePane
      panes := fun e he => by
        obtain ⟨p, hp, hshape⟩ := pane_of_shape h he
        exact (legal_congr hshape).mp (hv.panes _ hp) }

theorem Settled.of_shape {ws' : Workspace} (hs : ws.Settled) (h : ws.shape = ws'.shape) :
    ws'.Settled where
  paneIds e he := by
    obtain ⟨p, hp, hshape⟩ := pane_of_shape h he
    exact (congrArg PaneShape.id hshape).symm.trans (hs.paneIds _ hp)
  shows e he := by
    obtain ⟨p, hp, hshape⟩ := pane_of_shape h he
    exact (shows_congr hshape).mp (hs.shows _ hp)

/-- The bag of stable ids of a pane. -/
def paneIdBag (pane : PaneId) (p : Pane) : Multiset UInt64 :=
  pane.val ::ₘ ((p.tabIds.map TabId.val : List UInt64) : Multiset UInt64)

theorem ids_eq (ws : Workspace) :
    (ws.ids : Multiset UInt64) = ws.id.val ::ₘ
      ((ws.layout.splitIds.map SplitId.val : List UInt64) + ws.panes.collect paneIdBag) := by
  rw [Workspace.ids, ← Multiset.cons_coe, ← Multiset.coe_add, OrdMap.collect, ← Multiset.coe_bind]
  simp [paneIdBag, Pane.tabIds, Function.comp_def]

theorem ids_of_shape {ws' : Workspace} (h : ws.shape = ws'.shape) : ws.ids = ws'.ids := by
  have hid : ws.id = ws'.id := congrArg WorkspaceShape.id h
  have hlayout : ws.layout = ws'.layout := congrArg WorkspaceShape.layout h
  have hpanes := congrArg (fun s => s.panes.entries) h
  simp only [Workspace.shape, OrdMap.mapValues] at hpanes
  have hids : ∀ ws : Workspace,
      (ws.panes.entries.flatMap fun e => e.1.val :: e.2.tabs.map fun t => t.id.val) =
        (ws.panes.entries.map fun e => (e.1, e.2.shape)).flatMap fun e =>
          e.1.val :: e.2.tabs.map TabId.val := by
    intro ws
    simp [List.flatMap_map, Pane.shape, Pane.tabIds, Function.comp_def]
  rw [Workspace.ids, Workspace.ids, hids, hids, hid, hlayout, hpanes]

theorem shape_modify_panes {pane : PaneId} {f : Pane → Pane}
    (hf : ∀ p, ws.panes.get? pane = some p → (f p).shape = p.shape) :
    Workspace.shape { ws with panes := ws.panes.modify pane f } = ws.shape := by
  simp only [Workspace.shape]
  rw [OrdMap.mapValues_modify hf]

theorem shape_mapValues_panes {f : Pane → Pane} (hf : ∀ p, (f p).shape = p.shape) :
    Workspace.shape { ws with panes := ws.panes.mapValues f } = ws.shape := by
  simp only [Workspace.shape, OrdMap.mapValues, List.map_map]
  congr 2
  exact List.map_congr_left fun e _ => by simp [hf]

theorem shape_resetAgentSource (tab : TabId) : (ws.resetAgentSource tab).shape = ws.shape := by
  unfold Workspace.resetAgentSource
  split <;> rfl

theorem shape_resetAll (tabs : List TabId) : (ws.resetAll tabs).shape = ws.shape := by
  induction tabs generalizing ws with
  | nil => rfl
  | cons tab tabs ih => exact ih.trans (shape_resetAgentSource tab)

theorem shape_mapTabs {f : Tab → Tab} (hf : ∀ t, (f t).id = t.id) :
    (ws.mapTabs f).shape = ws.shape :=
  shape_mapValues_panes fun _ => shape_map_tabs hf

theorem shape_modifyTab {pane : PaneId} {ti : Nat} {f : Tab → Tab} (hf : ∀ t, (f t).id = t.id) :
    (ws.modifyTab pane ti f).shape = ws.shape :=
  shape_modify_panes fun _ _ => shape_modify_tabs fun t _ => hf t

/-- A tab that is replaced by one of the same id. -/
theorem shape_replaceTab {pane : PaneId} {p : Pane} {ti : Nat} {t t' : Tab}
    (hp : ws.panes.get? pane = some p) (ht : p.tabs[ti]? = some t) (hid : t'.id = t.id) :
    (ws.modifyTab pane ti fun _ => t').shape = ws.shape := by
  refine shape_modify_panes fun q hq => shape_modify_tabs fun u hu => ?_
  obtain rfl := Option.some_inj.mp (hp.symm.trans hq)
  obtain rfl := Option.some_inj.mp (ht.symm.trans hu)
  exact hid

theorem shape_clearVisibleUnread : ws.clearVisibleUnread.shape = ws.shape :=
  shape_mapValues_panes fun _ => shape_clearActiveUnread

end WorkspaceLemmas

end Mast
