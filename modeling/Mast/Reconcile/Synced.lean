import Mast.Lib.Machine
import Mast.Reconcile.Steps

/-!
# Views follow the snapshots

After every snapshot the terminal views are tabs of the active workspace, attached to the
sessions that the snapshot gives them, and every other session has been detached since it was
last attached.

Results:
1. `rendered_render`: a snapshot arrives.
2. `synced_of_rendered`, `attached_of_rendered`: the views are in accord with it.
3. `idle_render`: the same snapshot again changes no view.
4. `views_synced`: every run.
-/

namespace Mast

/-! ## Snapshots -/

/-- The ids of the tabs and of their sessions are unique. -/
structure AppState.UniqueIds (s : AppState) : Prop where
  tabs : (s.tabs.map Tab.id).Nodup
  sessions : ∀ t ∈ s.tabs, ∀ u ∈ s.tabs, ∀ x, t.session = some x → u.session = some x → t.id = u.id

/-- Every pane is stored under its own id. -/
def AppState.Keyed (s : AppState) : Prop :=
  ∀ ws ∈ s.workspaces, ∀ e ∈ ws.panes.entries, e.2.id = e.1

/-- Every pane is in the layout of its workspace. -/
def AppState.Placed (s : AppState) : Prop :=
  ∀ ws ∈ s.workspaces, ∀ e ∈ ws.panes.entries, e.1 ∈ ws.layout.leaves

instance (s : AppState) : Decidable s.Keyed :=
  inferInstanceAs (Decidable (∀ ws ∈ s.workspaces, ∀ e ∈ ws.panes.entries, e.2.id = e.1))

instance (s : AppState) : Decidable s.Placed :=
  inferInstanceAs
    (Decidable (∀ ws ∈ s.workspaces, ∀ e ∈ ws.panes.entries, e.1 ∈ ws.layout.leaves))

/-- A snapshot whose panes are all found by their ids in the layout. A restored state need not be
one: `validate_app` does not look at the ids inside of the panes. -/
structure AppState.Regular (s : AppState) : Prop extends s.UniqueIds where
  keyed : s.Keyed
  placed : s.Placed

namespace WorkspaceView

/-- A tab that has a view and is not in front does not change its session. -/
def HiddenKeep (v : WorkspaceView) (s : AppState) : Prop :=
  ∀ last ∈ v.lastSnapshot, ∀ t ∈ last.tabs, ∀ u ∈ s.tabs, u.id = t.id → t.id ∈ v.aliveTabs →
    ∀ x y, t.session = some x → u.session = some y → ¬ s.InFront u.id y → x = y

/-- A tab that has a terminal view is still a terminal. -/
def KindsKeep (v : WorkspaceView) (s : AppState) : Prop :=
  ∀ u ∈ s.tabs, u.id ∈ v.aliveTabs → u.kind.isTerminal = true

instance (v : WorkspaceView) (s : AppState) : Decidable (KindsKeep v s) :=
  inferInstanceAs (Decidable (∀ u ∈ s.tabs, u.id ∈ v.aliveTabs → u.kind.isTerminal = true))

/-- No session moves from one tab to another. -/
def SessionsStay (v : WorkspaceView) (s : AppState) : Prop :=
  ∀ last ∈ v.lastSnapshot, ∀ t ∈ last.tabs, ∀ u ∈ s.tabs, ∀ x, t.session = some x →
    u.session = some x → u.id = t.id

/-- Snapshots arrive, each with what is promised of it. -/
def machine (promised : WorkspaceView → AppState → Prop) : Machine WorkspaceView AppState where
  step := render
  admits v s := s.Regular ∧ promised v s

/-- The session was detached, and not attached after that. -/
def Detached (session : SessionId) (calls : List ChannelCall) : Prop :=
  Since (Newest (· ≠ .attach session)) (Newest (· = .detach session)) calls

/-- The session was attached, and not detached after that. -/
def Attached (session : SessionId) (calls : List ChannelCall) : Prop :=
  Since (Newest (· ≠ .detach session)) (Newest (· = .attach session)) calls

/-- The views are in accord with the snapshot. -/
structure Synced (v : WorkspaceView) (s : AppState) : Prop where
  once : v.aliveTabs.Nodup
  alive : ∀ tab session, (tab, session) ∈ v.views →
    ∃ t ∈ s.shownTabs, t.id = tab ∧ t.session = some session
  others : ∀ t ∈ s.tabs, ∀ session, t.session = some session → t.id ∉ v.aliveTabs →
    (∀ tab, (tab, session) ∉ v.views) ∧ Detached session v.calls
  visible : ∀ tab session, s.InFront tab session → (tab, session) ∈ v.views
  apart : ∀ tab ∈ v.aliveTabs, tab ∉ v.viewerViews

/-- What a snapshot that came before leaves as it is; sessions may be detached once more. -/
structure Idle (v v' : WorkspaceView) : Prop where
  views : v'.views = v.views
  viewers : v'.viewerViews = v.viewerViews
  calls : ∃ new, v'.calls = new ++ v.calls ∧ ∀ c ∈ new, ∃ x, c = .detach x

end WorkspaceView

/-- The panes of a structure. -/
def StructureKey.leaves : StructureKey → List PaneId
  | leaf pane => [pane]
  | split _ _ first second => first.leaves ++ second.leaves

namespace ReconcileLemmas

open WorkspaceView PastLemmas

variable {v v' w : WorkspaceView} {s : AppState} {tab : TabId} {x y : SessionId}
  {ws : Workspace} {p q : Pane} {mount : List VisibleViewer} {new : List ChannelCall}

theorem leaves_structureKey (t : SplitTree) : t.structureKey.leaves = t.leaves := by
  induction t with
  | leaf pane => rfl
  | split id direction ratio first second ih ih' =>
    rw [SplitTree.structureKey, StructureKey.leaves, ih, ih', SplitTree.leaves]

/-- The pane views are those of the structure that was built last. -/
def KeyOk (v : WorkspaceView) : Prop :=
  ∀ key ∈ v.lastKey, ∀ pane, pane ∈ v.paneViews ↔ pane ∈ key.leaves

theorem mem_foldl_addPane (leaves panes : List PaneId) (pane : PaneId) :
    pane ∈ leaves.foldl
      (fun panes pane => if pane ∈ panes then panes else panes ++ [pane]) panes ↔
      pane ∈ panes ∨ pane ∈ leaves := by
  induction leaves generalizing panes with
  | nil => simp
  | cons leaf leaves ih =>
    rw [List.foldl_cons, ih, List.mem_cons]
    split
    · next hleaf => grind
    · grind

theorem keyOk_syncStructure (h : KeyOk v) (layout : SplitTree) :
    KeyOk (v.syncStructure layout) ∧
      (v.syncStructure layout).lastKey = some layout.structureKey ∧
      ∀ pane, pane ∈ (v.syncStructure layout).paneViews ↔ pane ∈ layout.leaves := by
  have hpanes : ∀ pane, pane ∈ (v.syncStructure layout).paneViews ↔ pane ∈ layout.leaves := by
    intro pane
    unfold syncStructure
    split
    · next hkey => rw [h _ hkey, leaves_structureKey]
    · have hmem := mem_foldl_addPane layout.leaves
        (v.paneViews.filter fun pane => pane ∈ layout.leaves) pane
      refine hmem.trans ⟨?_, .inr⟩
      rintro (hkept | hleaf)
      · exact of_decide_eq_true (List.mem_filter.mp hkept).2
      · exact hleaf
  have hkey : (v.syncStructure layout).lastKey = some layout.structureKey := by
    unfold syncStructure
    split
    · next hkey => exact hkey
    · rfl
  refine ⟨fun key hkey' pane => ?_, hkey, hpanes⟩
  obtain rfl := Option.some.inj (hkey.symm.trans hkey')
  rw [hpanes, leaves_structureKey]

/-! ## What is in front -/

theorem shownTabs_eq (s : AppState) : s.shownTabs = s.shownPanes.flatMap Pane.tabs := by
  unfold AppState.shownTabs AppState.shownPanes
  cases s.shown? <;> rfl

theorem mem_tabs_of_shown {t : Tab} (h : t ∈ s.shownTabs) : t ∈ s.tabs := by
  unfold AppState.shownTabs at h
  cases hshown : s.shown? with
  | none =>
    rw [hshown] at h
    cases h
  | some ws =>
    rw [hshown] at h
    exact List.mem_flatMap.mpr ⟨ws, List.mem_of_find?_eq_some hshown, h⟩

theorem mem_shownTabs {t : Tab} (hp : p ∈ s.shownPanes) (ht : t ∈ p.tabs) : t ∈ s.shownTabs := by
  rw [shownTabs_eq]
  exact List.mem_flatMap.mpr ⟨p, hp, ht⟩

/-- Tabs with one id are one tab. -/
theorem tab_unique (h : s.Regular) {t u : Tab} (ht : t ∈ s.tabs) (hu : u ∈ s.tabs)
    (hid : t.id = u.id) : t = u :=
  List.inj_on_of_nodup_map h.tabs ht hu hid

theorem inFront_tab (h : s.InFront tab x) :
    ∃ t ∈ s.shownTabs, t.id = tab ∧ t.session = some x := by
  obtain ⟨p, hp, t, ht, -, hid, hsession⟩ := h
  exact ⟨t, mem_shownTabs hp ht, hid, hsession⟩

/-- A tab is in front with its session. -/
theorem inFront_fun (h : s.Regular) (hx : s.InFront tab x) (hy : s.InFront tab y) : y = x := by
  obtain ⟨t, ht, rfl, hsession⟩ := inFront_tab hx
  obtain ⟨u, hu, hid, hsession'⟩ := inFront_tab hy
  rw [tab_unique h (mem_tabs_of_shown hu) (mem_tabs_of_shown ht) hid] at hsession'
  exact Option.some.inj (hsession'.symm.trans hsession)

theorem mem_visibleViews {e : VisibleView} : e ∈ p.visibleViews ↔ e.pane = p.id ∧
    ∃ t ∈ p.tabs, p.activeTab = some t.id ∧ t.id = e.tab ∧ t.session = some e.session := by
  unfold Pane.visibleViews
  rw [List.mem_filterMap]
  constructor
  · rintro ⟨t, ht, he⟩
    split at he
    · next hactive =>
      obtain ⟨x, hx, rfl⟩ := Option.map_eq_some_iff.mp he
      exact ⟨rfl, t, ht, hactive, rfl, hx⟩
    · cases he
  · rintro ⟨hpane, t, ht, hactive, hid, hsession⟩
    refine ⟨t, ht, ?_⟩
    rw [if_pos hactive, hsession, hid, ← hpane]
    rfl

theorem mem_visibleViewers {e : VisibleViewer} : e ∈ p.visibleViewers ↔ e.pane = p.id ∧
    ∃ t ∈ p.tabs, p.activeTab = some t.id ∧ t.id = e.tab ∧ t.kind.viewerKind = some e.kind := by
  unfold Pane.visibleViewers
  rw [List.mem_filterMap]
  constructor
  · rintro ⟨t, ht, he⟩
    split at he
    · next hactive =>
      obtain ⟨kind, hkind, rfl⟩ := Option.map_eq_some_iff.mp he
      exact ⟨rfl, t, ht, hactive, rfl, hkind⟩
    · cases he
  · rintro ⟨hpane, t, ht, hactive, hid, hkind⟩
    refine ⟨t, ht, ?_⟩
    rw [if_pos hactive, hkind, hid, ← hpane]
    rfl

theorem inFront_of_visible {e : VisibleView} {alive : List TabId}
    (h : e ∈ (planViewSync alive s).visible) : s.InFront e.tab e.session := by
  obtain ⟨p, hp, he⟩ := List.mem_flatMap.mp h
  obtain ⟨-, t, ht, hactive, hid, hsession⟩ := mem_visibleViews.mp he
  exact ⟨p, hp, t, ht, hactive, hid, hsession⟩

theorem visible_of_inFront (alive : List TabId) (h : s.InFront tab x) :
    ∃ p ∈ s.shownPanes, p.activeTab = some tab ∧
      ⟨p.id, tab, x⟩ ∈ (planViewSync alive s).visible := by
  obtain ⟨p, hp, t, ht, hactive, rfl, hsession⟩ := h
  refine ⟨p, hp, hactive, List.mem_flatMap.mpr ⟨p, hp, ?_⟩⟩
  exact mem_visibleViews.mpr ⟨rfl, t, ht, hactive, rfl, hsession⟩

/-- The panes on screen are in the layout, under their ids. -/
theorem pane_of_shown (h : s.Regular) (hshown : s.shown? = some ws) (hp : p ∈ s.shownPanes) :
    (p.id, p) ∈ ws.panes.entries ∧ p.id ∈ ws.layout.leaves := by
  unfold AppState.shownPanes at hp
  rw [hshown] at hp
  obtain ⟨⟨key, q⟩, he, rfl⟩ := List.mem_map.mp hp
  have hmem := List.mem_of_find?_eq_some hshown
  have hid : q.id = key := h.keyed ws hmem _ he
  exact ⟨hid ▸ he, hid ▸ h.placed ws hmem _ he⟩

theorem pane_unique (h : s.Regular) (hp : p ∈ s.shownPanes) (hq : q ∈ s.shownPanes)
    (hid : p.id = q.id) : p = q := by
  cases hshown : s.shown? with
  | none =>
    unfold AppState.shownPanes at hp
    rw [hshown] at hp
    cases hp
  | some ws =>
    have hentry := (pane_of_shown h hshown hp).1
    rw [hid] at hentry
    exact ws.panes.entry_unique hentry (pane_of_shown h hshown hq).1

/-- The plan gives a pane its tab in front. -/
theorem frontOf_visible (h : s.Regular) {alive : List TabId} (hp : p ∈ s.shownPanes)
    (hactive : p.activeTab = some tab) (hmem : ⟨p.id, tab, x⟩ ∈ (planViewSync alive s).visible) :
    ∃ e, frontOf (planViewSync alive s).visible p.id = some e ∧ e.tab = tab ∧ e.session = x := by
  have hne : ((planViewSync alive s).visible.filter fun e => e.pane = p.id) ≠ [] :=
    List.ne_nil_of_mem (List.mem_filter.mpr ⟨hmem, decide_eq_true rfl⟩)
  refine ⟨_, List.getLast?_eq_some_getLast hne, ?_⟩
  generalize hlast : ((planViewSync alive s).visible.filter _).getLast hne = e
  obtain ⟨he, hpane⟩ := mem_of_frontOf
    ((List.getLast?_eq_some_getLast hne).trans (congrArg some hlast))
  obtain ⟨q, hq, heq⟩ := List.mem_flatMap.mp he
  obtain ⟨hpane', t, ht, hactive', hid, hsession⟩ := mem_visibleViews.mp heq
  obtain rfl := pane_unique h hp hq (hpane.symm.trans hpane')
  have htab : e.tab = tab := hid ▸ Option.some.inj (hactive'.symm.trans hactive)
  refine ⟨htab, inFront_fun h (inFront_of_visible hmem) ?_⟩
  exact htab ▸ inFront_of_visible he

/-! ## One snapshot -/

/-- What a snapshot does: the first half up to the layout, then the panes. -/
structure Rendered (v w v' : WorkspaceView) (s : AppState) (new₁ new₂ : List ChannelCall) :
    Prop where
  reconciled : Reconciled v w s new₁
  placing : Placing s (planViewerSync v.viewerViews s).mount w v' new₂
  keyOk : KeyOk v'
  front : ∀ tab x, s.InFront tab x → (tab, x) ∈ v'.views
  panes : ∀ ws, s.shown? = some ws → v'.lastKey = some ws.layout.structureKey ∧
    ∀ pane ∈ v'.paneViews, ws.panes.contains pane →
      PaneShown (planViewSync v.aliveTabs s).visible (planViewerSync v.viewerViews s).mount v' pane

theorem keyOk_reconcile (hnodup : v.aliveTabs.Nodup) (h : KeyOk v) (s : AppState) :
    KeyOk (v.reconcile s) := by
  obtain ⟨new, hnew⟩ := disposed_foldl (v := { v with lastSnapshot := some s }) hnodup
    (planViewSync v.aliveTabs s).dispose
  have hpanes : (v.reconcile s).paneViews = v.paneViews := hnew.panes
  have hkey : (v.reconcile s).lastKey = v.lastKey := hnew.key
  unfold KeyOk
  rw [hpanes, hkey]
  exact h

/-- The layout is no matter of the plans. -/
theorem reconciled_syncStructure (h : Reconciled v w s new) (layout : SplitTree) :
    Reconciled v (w.syncStructure layout) s new := by
  unfold syncStructure
  split
  · exact h
  · exact ⟨h.calls, h.views, h.once, h.detaches, h.disposed, h.swept, h.viewers, h.sessions,
      h.snapshot⟩

theorem rendered_render (hnodup : v.aliveTabs.Nodup) (hkey : KeyOk v) (hs : s.Regular) :
    ∃ w new₁ new₂, Rendered v w (v.render s) s new₁ new₂ := by
  obtain ⟨new₁, hrec⟩ := reconciled_reconcile hnodup s
  cases hshown : s.shown? with
  | none =>
    have hrender : v.render s = (v.reconcile s).clear := by
      rw [render, hshown]
    rw [hrender]
    refine ⟨(v.reconcile s).clear, new₁, [], ?_, placing_refl _ hrec.once, by nofun, ?_, ?_⟩
    · exact ⟨hrec.calls, hrec.views, hrec.once, hrec.detaches, hrec.disposed, hrec.swept,
        hrec.viewers, hrec.sessions, hrec.snapshot⟩
    · rintro tab x ⟨p, hp, -⟩
      rw [AppState.shownPanes, hshown] at hp
      cases hp
    · intro ws hws
      cases hshown.symm.trans hws
  | some ws =>
    have hrender : v.render s =
        ((v.reconcile s).syncStructure ws.layout).paneViews.foldl
          (updatePane ws (planViewSync v.aliveTabs s).visible
            (planViewerSync v.viewerViews s).mount)
          ((v.reconcile s).syncStructure ws.layout) := by
      rw [render, hshown]
    obtain ⟨hkeyOk, hbuilt, hleaves⟩ :=
      keyOk_syncStructure (keyOk_reconcile hnodup hkey s) ws.layout
    have hw := reconciled_syncStructure hrec ws.layout
    generalize (v.reconcile s).syncStructure ws.layout = w at hrender hkeyOk hbuilt hleaves hw
    obtain ⟨new₂, hplacing, -, hpanes⟩ := placing_panes ws
      (placing_refl (planViewerSync v.viewerViews s).mount hw.once)
      (fun e he => inFront_of_visible he) (fun _ _ _ hx hy => inFront_fun hs hx hy) w.paneViews
    rw [← hrender] at hplacing hpanes
    obtain ⟨-, hsame⟩ := Prod.mk.inj hplacing.still
    obtain ⟨hpaneViews, hsame⟩ := Prod.mk.inj hsame
    obtain ⟨hlastKey, -⟩ := Prod.mk.inj hsame
    have hpanes' : ∀ pane ∈ (v.render s).paneViews, ws.panes.contains pane →
        PaneShown (planViewSync v.aliveTabs s).visible (planViewerSync v.viewerViews s).mount
          (v.render s) pane := by
      rw [hpaneViews]
      exact hpanes
    refine ⟨w, new₁, new₂, hw, hplacing, ?_, fun tab x hfront => ?_, fun ws' hws' => ?_⟩
    · unfold KeyOk
      rw [hpaneViews, hlastKey]
      exact hkeyOk
    · obtain ⟨p, hp, hactive, hmem⟩ := visible_of_inFront v.aliveTabs hfront
      obtain ⟨e, he, rfl, rfl⟩ := frontOf_visible hs hp hactive hmem
      obtain ⟨hentry, hleaf⟩ := pane_of_shown hs hshown hp
      have hcontains := OrdMap.contains_iff.mpr (OrdMap.mem_keys.mpr ⟨p, hentry⟩)
      exact (hpanes p.id ((hleaves p.id).mpr hleaf) hcontains).front e he
    · obtain rfl := Option.some.inj (hshown.symm.trans hws')
      exact ⟨hlastKey.trans hbuilt, hpanes'⟩

/-! ## Every snapshot -/

/-- The views are of the snapshot before. -/
structure Known (v : WorkspaceView) : Prop where
  once : v.aliveTabs.Nodup
  key : KeyOk v
  regular : ∀ last ∈ v.lastSnapshot, last.Regular
  views : ∀ tab x, (tab, x) ∈ v.views →
    ∃ last ∈ v.lastSnapshot, ∃ t ∈ last.tabs, t.id = tab ∧ t.session = some x
  swept : ∀ x ∈ v.sweptSessions, Detached x v.calls

theorem known_init : Known WorkspaceView.init :=
  ⟨List.nodup_nil, nofun, nofun, nofun, nofun⟩

theorem Detached.append {calls new : List ChannelCall} (hnone : .attach x ∉ new)
    (h : .detach x ∈ new ∨ Detached x calls) : Detached x (new ++ calls) :=
  since_append (fun _ ha heq => hnone (heq ▸ ha)) (h.imp_left fun hmem => ⟨_, hmem, rfl⟩)

theorem Attached.append {calls new : List ChannelCall} (hnone : .detach x ∉ new)
    (h : .attach x ∈ new ∨ Attached x calls) : Attached x (new ++ calls) :=
  since_append (fun _ ha heq => hnone (heq ▸ ha)) (h.imp_left fun hmem => ⟨_, hmem, rfl⟩)

theorem mem_visible {alive : List TabId} :
    tab ∈ (planViewSync alive s).visible.map VisibleView.tab ↔ ∃ x, s.InFront tab x := by
  constructor
  · intro h
    obtain ⟨e, he, rfl⟩ := List.mem_map.mp h
    exact ⟨e.session, inFront_of_visible he⟩
  · rintro ⟨x, hx⟩
    obtain ⟨p, -, -, hmem⟩ := visible_of_inFront alive hx
    exact List.mem_map_of_mem (f := VisibleView.tab) hmem

theorem mem_detachSessions {alive : List TabId} : x ∈ (planViewSync alive s).detachSessions ↔
    ∃ t ∈ s.tabs, (t.id ∉ alive ∧ ∀ y, ¬ s.InFront t.id y) ∧ t.session = some x := by
  have hlist : (planViewSync alive s).detachSessions = s.tabs.filterMap fun t =>
      if t.id ∈ alive ∨ t.id ∈ (planViewSync alive s).visible.map VisibleView.tab then none
      else t.session := rfl
  rw [hlist, List.mem_filterMap]
  refine exists_congr fun t => and_congr_right fun _ => ?_
  split
  · next hkept =>
    refine ⟨nofun, fun h => ?_⟩
    rcases hkept with halive | hfront
    · exact absurd halive h.1.1
    · obtain ⟨y, hy⟩ := mem_visible.mp hfront
      exact absurd hy (h.1.2 y)
  · next hgone =>
    rw [not_or, mem_visible, not_exists] at hgone
    exact ⟨fun h => ⟨hgone, h⟩, fun h => h.2⟩

theorem exists_view (h : tab ∈ v.aliveTabs) : ∃ x, (tab, x) ∈ v.views := by
  obtain ⟨⟨_, x⟩, he, rfl⟩ := List.mem_map.mp h
  exact ⟨x, he⟩

theorem viewerKind_of_session {t : Tab} (h : t.session = some x) : t.kind.viewerKind = none := by
  unfold Tab.session at h
  split at h
  · next hkind =>
    rw [hkind, h]
    rfl
  · cases h

theorem kept_of_session {t : Tab} (ht : t ∈ s.shownTabs) (h : t.session = some x) :
    Kept s t.id := by
  refine ⟨t, ht, rfl, ?_⟩
  unfold Tab.session at h
  split at h
  · next hkind =>
    rw [hkind, h]
    rfl
  · cases h

/-- A terminal that keeps its view has a session. -/
theorem session_of_keepsAlive {t : Tab} (hterminal : t.kind.isTerminal = true)
    (hkeeps : t.kind.keepsAlive = true) : ∃ x, t.session = some x := by
  unfold Tab.session
  cases hkind : t.kind with
  | terminal session status cwd =>
    cases session with
    | none =>
      rw [hkind] at hkeeps
      cases hkeeps
    | some x => exact ⟨x, rfl⟩
  | _ =>
    rw [hkind] at hterminal
    cases hterminal

/-- The session that a view has is the one that the snapshot gives its tab. -/
theorem session_of_view {t : Tab} (h : Known v) (hhidden : HiddenKeep v s)
    (hview : (tab, x) ∈ v.views) (ht : t ∈ s.tabs) (hid : t.id = tab)
    (hsession : t.session = some y) (hback : ¬ s.InFront tab y) : x = y := by
  obtain ⟨last, hlast, t₀, ht₀, hid₀, hsession₀⟩ := h.views tab x hview
  have halive : t₀.id ∈ v.aliveTabs := hid₀ ▸ alive_of_mem hview
  have hback' : ¬ s.InFront t.id y := hid ▸ hback
  exact hhidden last hlast t₀ ht₀ t ht (hid.trans hid₀.symm) halive x y hsession₀ hsession hback'

section render

variable {new₁ new₂ : List ChannelCall} (hr : Rendered v w v' s new₁ new₂) (h : Known v)
  (hs : s.Regular) (hhidden : HiddenKeep v s)

include hr h hhidden

theorem alive_of_rendered (hkinds : KindsKeep v s) (hview : (tab, x) ∈ v'.views) :
    ∃ t ∈ s.shownTabs, t.id = tab ∧ t.session = some x := by
  rcases hr.placing.views tab x hview with hkept | ⟨hfront, -⟩
  · obtain ⟨hbefore, t, ht, rfl, hkeeps⟩ := (hr.reconciled.views tab x).mp hkept
    obtain ⟨y, hy⟩ := session_of_keepsAlive
      (hkinds t (mem_tabs_of_shown ht) (alive_of_mem hbefore)) hkeeps
    refine ⟨t, ht, rfl, ?_⟩
    by_cases hfront : s.InFront t.id y
    · rw [hy, view_unique hr.placing.once hview (hr.front _ _ hfront)]
    · rw [hy, session_of_view h hhidden hbefore (mem_tabs_of_shown ht) rfl hy hfront]
  · exact inFront_tab hfront

include hs

/-- A session whose tab has no view is detached. -/
theorem detached_of_rendered {t : Tab} (ht : t ∈ s.tabs) (hsession : t.session = some x)
    (hgone : t.id ∉ v'.aliveTabs) : Detached x v'.calls := by
  have hback (y : SessionId) : ¬ s.InFront t.id y :=
    fun hfront => hgone (alive_of_mem (hr.front _ _ hfront))
  have hnone₂ : .attach x ∉ new₂ := by
    intro hmem
    obtain ⟨tab, hfront⟩ := hr.placing.attached x hmem
    obtain ⟨u, hu, rfl, hsession'⟩ := inFront_tab hfront
    rw [hs.sessions u (mem_tabs_of_shown hu) t ht x hsession' hsession] at hfront
    exact hback x hfront
  have hnone₁ : .attach x ∉ new₁ := by
    intro hmem
    obtain ⟨y, hy, -⟩ := hr.reconciled.detaches _ hmem
    cases hy
  rw [hr.placing.calls, hr.reconciled.calls]
  refine Detached.append hnone₂ (.inr (Detached.append hnone₁ ?_))
  by_cases halive : t.id ∈ v.aliveTabs
  · obtain ⟨y, hview⟩ := exists_view halive
    obtain rfl := session_of_view h hhidden hview ht rfl hsession (hback x)
    refine .inl (hr.reconciled.disposed _ _ hview fun hkept => ?_)
    rcases hr.placing.stays _ _ ((hr.reconciled.views _ _).mpr ⟨hview, hkept⟩) with hmem | ⟨y, hy⟩
    · exact hgone (alive_of_mem hmem)
    · exact hback y hy
  · by_cases hswept : x ∈ v.sweptSessions
    · exact .inr (h.swept x hswept)
    · exact .inl (hr.reconciled.swept x (mem_detachSessions.mpr ⟨t, ht, ⟨halive, hback⟩, hsession⟩)
        hswept)

theorem synced_of_rendered (hkinds : KindsKeep v s) : Synced v' s := by
  have halive : ∀ tab x, (tab, x) ∈ v'.views →
      ∃ t ∈ s.shownTabs, t.id = tab ∧ t.session = some x :=
    fun _ _ hview => alive_of_rendered hr h hhidden hkinds hview
  constructor
  · exact hr.placing.once
  · exact halive
  · intro t ht x hsession hgone
    refine ⟨fun tab hview => ?_, detached_of_rendered hr h hs hhidden ht hsession hgone⟩
    obtain ⟨u, hu, rfl, hsession'⟩ := halive tab x hview
    rw [hs.sessions u (mem_tabs_of_shown hu) t ht x hsession' hsession] at hview
    exact hgone (alive_of_mem hview)
  · exact hr.front
  · intro tab hview hviewer
    obtain ⟨x, hmem⟩ := exists_view hview
    obtain ⟨t, ht, rfl, hsession⟩ := halive tab x hmem
    have hmount : t.id ∈ (planViewerSync v.viewerViews s).mount.map VisibleViewer.tab := by
      rcases hr.placing.viewers _ hviewer with hkept | hmount
      · exact ((hr.reconciled.viewers _).mp hkept).2
      · exact hmount
    obtain ⟨e, he, hid⟩ := List.mem_map.mp hmount
    obtain ⟨p, hp, hpane⟩ := List.mem_flatMap.mp he
    obtain ⟨-, u, hu, -, hid', hkind⟩ := mem_visibleViewers.mp hpane
    obtain rfl := tab_unique hs (mem_tabs_of_shown (mem_shownTabs hp hu)) (mem_tabs_of_shown ht)
      (hid'.trans hid)
    cases (viewerKind_of_session hsession).symm.trans hkind

theorem known_of_rendered (hkinds : KindsKeep v s) : Known v' := by
  obtain ⟨hswept, hsame⟩ := Prod.mk.inj hr.placing.still
  have hlast : v'.lastSnapshot = some s :=
    (Prod.mk.inj (Prod.mk.inj hsame).2).2.trans hr.reconciled.snapshot
  constructor
  · exact hr.placing.once
  · exact hr.keyOk
  · intro last hmem
    obtain rfl := Option.some.inj (hlast.symm.trans hmem)
    exact hs
  · intro tab x hview
    obtain ⟨t, ht, hid, hsession⟩ := alive_of_rendered hr h hhidden hkinds hview
    exact ⟨s, hlast, t, mem_tabs_of_shown ht, hid, hsession⟩
  · intro x hx
    rw [hswept, hr.reconciled.sessions] at hx
    obtain ⟨t, ht, ⟨halive, hback⟩, hsession⟩ := mem_detachSessions.mp hx
    refine detached_of_rendered hr h hs hhidden ht hsession fun hview => ?_
    obtain ⟨y, hmem⟩ := exists_view hview
    rcases hr.placing.views _ _ hmem with hkept | ⟨hfront, -⟩
    · exact halive (alive_of_mem ((hr.reconciled.views _ _).mp hkept).1)
    · exact hback y hfront

/-- Where no session moves, the session of a view is not detached under it. -/
theorem attached_of_rendered (hkinds : KindsKeep v s) (hstay : SessionsStay v s)
    (hattached : ∀ tab x, (tab, x) ∈ v.views → Attached x v.calls) (hview : (tab, x) ∈ v'.views) :
    Attached x v'.calls := by
  obtain ⟨t, ht, rfl, hsession⟩ := alive_of_rendered hr h hhidden hkinds hview
  have hmem := mem_tabs_of_shown ht
  have hold (u : TabId) (hu : (u, x) ∈ v.views) : u = t.id := by
    obtain ⟨last, hlast, t₀, ht₀, rfl, hsession₀⟩ := h.views u x hu
    exact (hstay last hlast t₀ ht₀ t hmem x hsession₀ hsession).symm
  have hnone₂ : .detach x ∉ new₂ := by
    intro hdetach
    obtain ⟨u, y, hu, hfront, hne⟩ := hr.placing.detached x hdetach
    obtain rfl := hold u ((hr.reconciled.views u x).mp hu).1
    exact hne (view_unique hr.placing.once hview (hr.front _ _ hfront))
  rw [hr.placing.calls, hr.reconciled.calls]
  rcases hr.placing.views _ _ hview with hkept | ⟨-, hattach⟩
  · obtain ⟨hbefore, hkept⟩ := (hr.reconciled.views _ _).mp hkept
    have hnone₁ : .detach x ∉ new₁ := by
      intro hdetach
      obtain ⟨y, hy, hcase⟩ := hr.reconciled.detaches _ hdetach
      cases hy
      rcases hcase with ⟨u, hu, hgone⟩ | hswept
      · exact hgone (hold u hu ▸ hkept)
      · obtain ⟨u, hu, ⟨halive, -⟩, hsession'⟩ := mem_detachSessions.mp hswept
        rw [hs.sessions u hu t hmem x hsession' hsession] at halive
        exact halive (alive_of_mem hbefore)
    exact Attached.append hnone₂ (.inr (Attached.append hnone₁ (.inr (hattached _ _ hbefore))))
  · exact Attached.append hnone₂ (.inl hattach)

end render

/-! ## The same snapshot again -/

theorem foldl_eq_self {α β : Type} (f : α → β → α) (a : α) (l : List β) (h : ∀ b ∈ l, f a b = a) :
    l.foldl f a = a := by
  induction l with
  | nil => rfl
  | cons b l ih =>
    obtain ⟨hb, hrest⟩ := List.forall_mem_cons.mp h
    rw [List.foldl_cons, hb, ih hrest]

theorem updatePane_eq_self {visible : List VisibleView} {pane : PaneId} (honce : v.aliveTabs.Nodup)
    (hshown : ws.panes.contains pane → PaneShown visible mount v pane) :
    updatePane ws visible mount v pane = v := by
  unfold updatePane
  split
  · rfl
  next hcontains =>
  have hpane := hshown (not_not.mp hcontains)
  split
  · next e he =>
    rw [ensureView, viewOf_of_mem honce (hpane.front e he)]
    exact if_pos rfl
  next hnone =>
  split
  · next e he => exact if_pos (hpane.viewer hnone e he)
  · rfl

theorem dispose_nil (hsynced : Synced v s) : (planViewSync v.aliveTabs s).dispose = [] := by
  refine List.eq_nil_iff_forall_not_mem.mpr fun tab hmem => ?_
  obtain ⟨halive, hgone⟩ := mem_dispose.mp hmem
  obtain ⟨x, hview⟩ := exists_view halive
  obtain ⟨t, ht, hid, hsession⟩ := hsynced.alive tab x hview
  exact hgone (hid ▸ kept_of_session ht hsession)

theorem viewerDispose_nil {new₁ new₂ : List ChannelCall} (hr : Rendered v w v' s new₁ new₂) :
    (planViewerSync v'.viewerViews s).dispose = [] := by
  refine List.eq_nil_iff_forall_not_mem.mpr fun e he => ?_
  obtain ⟨hviewer, hgone⟩ :=
    mem_viewerDispose.mp (List.mem_map_of_mem (f := ViewerDispose.tab) he)
  rcases hr.placing.viewers _ hviewer with hkept | hmount
  · exact hgone ((hr.reconciled.viewers _).mp hkept).2
  · exact hgone hmount

theorem idle_reconcile (hdispose : (planViewSync v.aliveTabs s).dispose = [])
    (hviewers : (planViewerSync v.viewerViews s).dispose = []) :
    Idle v (v.reconcile s) ∧ (v.reconcile s).paneViews = v.paneViews ∧
      (v.reconcile s).lastKey = v.lastKey := by
  unfold reconcile
  dsimp only
  rw [hdispose, hviewers]
  refine ⟨⟨rfl, List.filter_eq_self.mpr fun _ _ => rfl, _, rfl, fun c hc => ?_⟩, rfl, rfl⟩
  obtain ⟨x, -, rfl⟩ := List.mem_map.mp (List.mem_reverse.mp hc)
  exact ⟨x, rfl⟩

theorem idle_render {new₁ new₂ : List ChannelCall} (hr : Rendered v w v' s new₁ new₂)
    (hsynced : Synced v' s) : Idle v' (v'.render s) := by
  obtain ⟨hidle, hpaneViews, hkey⟩ := idle_reconcile (dispose_nil hsynced) (viewerDispose_nil hr)
  unfold render
  cases hshown : s.shown? with
  | none => exact ⟨hidle.views, hidle.viewers, hidle.calls⟩
  | some ws =>
    obtain ⟨hbuilt, hpanes⟩ := hr.panes ws hshown
    have hsame : (v'.reconcile s).syncStructure ws.layout = v'.reconcile s :=
      if_pos (hkey.trans hbuilt)
    dsimp only
    rw [hsame, foldl_eq_self]
    · exact hidle
    intro pane hpane
    refine updatePane_eq_self ?_ fun hcontains => ?_
    · rw [aliveTabs, hidle.views]
      exact hsynced.once
    · obtain ⟨hfront, hviewer⟩ := hpanes pane (hpaneViews ▸ hpane) hcontains
      refine ⟨?_, ?_⟩
      · rw [hidle.views]
        exact hfront
      · rw [hidle.viewers]
        exact hviewer

end ReconcileLemmas

open WorkspaceView ReconcileLemmas in
/-- In every run the views are in accord with the snapshot that arrived last, and the same
snapshot again changes none; where no session moves between tabs, no view has its session
detached under it. -/
theorem views_synced {v : WorkspaceView} {s : AppState}
    (h : (machine fun v s => HiddenKeep v s ∧ KindsKeep v s).Reach (· = WorkspaceView.init) v)
    (hs : s.Regular) (hhidden : HiddenKeep v s) (hkinds : KindsKeep v s) :
    Synced (v.render s) s ∧
    (∀ tab ∈ (planViewSync v.aliveTabs s).dispose, ∀ x, ¬ s.InFront tab x) ∧
    ((planViewSync (v.render s).aliveTabs s).dispose = [] ∧
      (planViewerSync (v.render s).viewerViews s).dispose = [] ∧
      Idle (v.render s) ((v.render s).render s)) ∧
    ((machine fun v s => (HiddenKeep v s ∧ KindsKeep v s) ∧ SessionsStay v s).Reach
        (· = WorkspaceView.init) v → SessionsStay v s →
      ∀ tab x, (tab, x) ∈ (v.render s).views → Attached x (v.render s).calls) := by
  have hknown {promised : WorkspaceView → AppState → Prop}
      (hpromised : ∀ v s, promised v s → HiddenKeep v s ∧ KindsKeep v s) {v : WorkspaceView}
      (h : (machine promised).Reach (· = WorkspaceView.init) v) : Known v := by
    refine Machine.Reach.invariant (I := fun v => Known v) ?_ (fun v s _ hv ha => ?_) h
    · rintro v rfl
      exact known_init
    · obtain ⟨hhidden, hkinds⟩ := hpromised v s ha.2
      obtain ⟨w, new₁, new₂, hr⟩ := rendered_render hv.once hv.key ha.1
      exact known_of_rendered hr hv ha.1 hhidden hkinds
  have hv := hknown (fun _ _ hp => hp) h
  obtain ⟨w, new₁, new₂, hr⟩ := rendered_render hv.once hv.key hs
  have hsynced := synced_of_rendered hr hv hs hhidden hkinds
  refine ⟨hsynced, ?_, ⟨dispose_nil hsynced, viewerDispose_nil hr, idle_render hr hsynced⟩, ?_⟩
  · intro tab hmem x hfront
    obtain ⟨t, ht, rfl, hsession⟩ := inFront_tab hfront
    exact (mem_dispose.mp hmem).2 (kept_of_session ht hsession)
  · intro hmoves hstay
    have hattached : ∀ tab x, (tab, x) ∈ v.views → Attached x v.calls := by
      refine Machine.Reach.invariant
        (I := fun v => ∀ tab x, (tab, x) ∈ v.views → Attached x v.calls) ?_
        (fun v s hreach hv' ha => ?_) hmoves
      · rintro v rfl
        exact nofun
      · obtain ⟨⟨hhidden, hkinds⟩, hstay⟩ := ha.2
        have hv := hknown (fun _ _ hp => hp.1) hreach
        obtain ⟨w, new₁, new₂, hr⟩ := rendered_render hv.once hv.key ha.1
        exact fun tab x => attached_of_rendered hr hv ha.1 hhidden hkinds hstay hv'
    exact fun tab x => attached_of_rendered hr hv hs hhidden hkinds hstay hattached

/-! ## Snapshots of two workspaces -/

namespace WorkspaceView

/-- A tab that runs a shell. -/
def shellTab (id : UInt64) (session : SessionId) : Tab :=
  { id := ⟨id⟩, title := "shell", kind := .terminal (some session) .running none,
    notification := .none, lastActivityMs := none }

def folderTab (id : UInt64) : Tab :=
  { id := ⟨id⟩, title := "folder", kind := .folderBrowser "/", notification := .none,
    lastActivityMs := none }

def onePane (id pane : UInt64) (tabs : List Tab) (activeTab : UInt64) : Workspace :=
  { id := ⟨id⟩, name := "w", rootPath := none, distro := none, gitBranch := none, gitDirty := none,
    layout := .leaf ⟨pane⟩
    panes := .singleton ⟨pane⟩ { id := ⟨pane⟩, tabs, activeTab := some ⟨activeTab⟩ }
    activePane := ⟨pane⟩, agentStatus := .idle, lastAgentMessage := none,
    agentStatusSource := none }

def twoPanes (id left right : UInt64) (h : (⟨left⟩ : PaneId) < ⟨right⟩) (tab tab' : Tab) :
    Workspace :=
  { id := ⟨id⟩, name := "w", rootPath := none, distro := none, gitBranch := none, gitDirty := none,
    layout := .split ⟨0⟩ .horizontal F64.half (.leaf ⟨left⟩) (.leaf ⟨right⟩)
    panes :=
      { entries :=
          [(⟨left⟩, { id := ⟨left⟩, tabs := [tab], activeTab := some tab.id }),
            (⟨right⟩, { id := ⟨right⟩, tabs := [tab'], activeTab := some tab'.id })]
        sorted := List.pairwise_pair.mpr h }
    activePane := ⟨left⟩, agentStatus := .idle, lastAgentMessage := none,
    agentStatusSource := none }

def snapshotOf (workspaces : List Workspace) (active : UInt64) : AppState :=
  { workspaces, activeWorkspace := some ⟨active⟩, nextId := 100, revision := 1 }

/-- Two shells in the first workspace, one in the second. -/
def twoWorkspaces (active : UInt64) : AppState :=
  snapshotOf [onePane 1 2 [shellTab 3 10, shellTab 4 11] 3, onePane 5 6 [shellTab 7 12] 7] active

/-- A shell, or a folder under the same id. -/
def oneTab (tab : Tab) : AppState := snapshotOf [onePane 1 2 [tab] 3] 1

/-- Two shells side by side. -/
def sideBySide (left right : SessionId) : AppState :=
  snapshotOf [twoPanes 1 2 4 (by decide) (shellTab 3 left) (shellTab 5 right)] 1

/-- A pane with a shell, which the layout, the workspace and the pane itself may know by
different ids. -/
def filedPane (leaf key id : UInt64) : AppState :=
  snapshotOf
    [{ onePane 1 key [shellTab 3 10] 3 with
        layout := .leaf ⟨leaf⟩
        panes := .singleton ⟨key⟩ { id := ⟨id⟩, tabs := [shellTab 3 10], activeTab := some ⟨3⟩ } }]
    1

/-- The shell is in front. -/
theorem not_synced_filedPane {leaf key id : UInt64} {v : WorkspaceView} (hviews : v.views = []) :
    ¬ Synced v (filedPane leaf key id) := by
  intro hsynced
  have hview := hsynced.visible ⟨3⟩ 10
    ⟨_, List.mem_singleton_self _, _, List.mem_singleton_self _, rfl, rfl, rfl⟩
  rw [hviews] at hview
  cases hview

theorem uniqueIds_of_check {s : AppState} (htabs : (s.tabs.map Tab.id).Nodup)
    (hsessions : ∀ t ∈ s.tabs, ∀ u ∈ s.tabs,
      t.session = none ∨ t.session ≠ u.session ∨ t.id = u.id) : s.UniqueIds := by
  refine ⟨htabs, fun t ht u hu x hx hy => ?_⟩
  rcases hsessions t ht u hu with hnone | hne | hid
  · cases hnone.symm.trans hx
  · exact absurd (hx.trans hy.symm) hne
  · exact hid

theorem regular_of_check {s : AppState} (htabs : (s.tabs.map Tab.id).Nodup)
    (hsessions : ∀ t ∈ s.tabs, ∀ u ∈ s.tabs,
      t.session = none ∨ t.session ≠ u.session ∨ t.id = u.id)
    (hkeyed : s.Keyed) (hplaced : s.Placed) : s.Regular :=
  { uniqueIds_of_check htabs hsessions with keyed := hkeyed, placed := hplaced }

/-- A tab keeps its session, or comes to the front. -/
theorem hiddenKeep_of_check {v : WorkspaceView} {s : AppState}
    (h : ∀ last ∈ v.lastSnapshot, ∀ t ∈ last.tabs, ∀ u ∈ s.tabs, u.id = t.id →
      t.session = u.session ∨ u.session = none ∨
        ∃ p ∈ s.shownPanes, u ∈ p.tabs ∧ p.activeTab = some u.id) : HiddenKeep v s := by
  intro last hlast t ht u hu hid _ x y hx hy hback
  rcases h last hlast t ht u hu hid with hsame | hnone | ⟨p, hp, hmem, hactive⟩
  · exact Option.some.inj (hx.symm.trans (hsame.trans hy))
  · cases hnone.symm.trans hy
  · exact absurd ⟨p, hp, u, hmem, hactive, rfl, hy⟩ hback

end WorkspaceView

open WorkspaceView in
theorem views_synced_switch :
    Synced ((init.render (twoWorkspaces 1)).render (twoWorkspaces 5)) (twoWorkspaces 5) := by
  have hfirst : (twoWorkspaces 1).Regular :=
    regular_of_check (by decide +kernel) (by decide +kernel) (by decide +kernel) (by decide +kernel)
  have hsecond : (twoWorkspaces 5).Regular :=
    regular_of_check (by decide +kernel) (by decide +kernel) (by decide +kernel) (by decide +kernel)
  have hreach : (machine fun v s => HiddenKeep v s ∧ KindsKeep v s).Reach (· = init)
      (init.render (twoWorkspaces 1)) :=
    .step (s := init) (a := twoWorkspaces 1) (.init rfl) ⟨hfirst, nofun, by decide +kernel⟩
  exact (views_synced hreach hsecond (hiddenKeep_of_check (by decide +kernel))
    (by decide +kernel)).1

/-- The ids that the panes have. -/
def AppState.paneIds (s : AppState) : List PaneId :=
  s.workspaces.flatMap fun ws => ws.panes.values.map Pane.id

open WorkspaceView in
/-- A tab with a view that becomes a folder keeps the view; where two tabs swap their sessions,
the first one has its new session detached under it; and a terminal in front has no view if its
pane is stored under another id, or is not in the layout. -/
theorem not_views_synced :
    (¬ ∀ v s, (machine HiddenKeep).Reach (· = WorkspaceView.init) v → s.Regular → HiddenKeep v s →
      Synced (v.render s) s) ∧
    (¬ ∀ v s, (machine fun v s => HiddenKeep v s ∧ KindsKeep v s).Reach
        (· = WorkspaceView.init) v → s.Regular → HiddenKeep v s → KindsKeep v s →
      ∀ tab x, (tab, x) ∈ (v.render s).views → Attached x (v.render s).calls) ∧
    (¬ ∀ s : AppState, s.UniqueIds → s.paneIds.Nodup → s.Placed →
      Synced (WorkspaceView.init.render s) s) ∧
    ¬ ∀ s : AppState, s.UniqueIds → s.paneIds.Nodup → s.Keyed →
      Synced (WorkspaceView.init.render s) s := by
  refine ⟨fun h => ?_, fun h => ?_, fun h => ?_, fun h => ?_⟩
  · have hshell : (oneTab (shellTab 3 10)).Regular := regular_of_check (by decide +kernel)
      (by decide +kernel) (by decide +kernel) (by decide +kernel)
    have hfolder : (oneTab (folderTab 3)).Regular := regular_of_check (by decide +kernel)
      (by decide +kernel) (by decide +kernel) (by decide +kernel)
    have hreach : (machine HiddenKeep).Reach (· = init) (init.render (oneTab (shellTab 3 10))) :=
      .step (s := init) (a := oneTab (shellTab 3 10)) (.init rfl) ⟨hshell, nofun⟩
    have hsynced := h _ (oneTab (folderTab 3)) hreach hfolder
      (hiddenKeep_of_check (by decide +kernel))
    exact hsynced.apart ⟨3⟩ (by decide +kernel) (by decide +kernel)
  · have hregular : (sideBySide 10 11).Regular := regular_of_check (by decide +kernel)
      (by decide +kernel) (by decide +kernel) (by decide +kernel)
    have hswapped : (sideBySide 11 10).Regular := regular_of_check (by decide +kernel)
      (by decide +kernel) (by decide +kernel) (by decide +kernel)
    have hreach : (machine fun v s => HiddenKeep v s ∧ KindsKeep v s).Reach (· = init)
        (init.render (sideBySide 10 11)) :=
      .step (s := init) (a := sideBySide 10 11) (.init rfl) ⟨hregular, nofun, by decide +kernel⟩
    have hattached := h _ (sideBySide 11 10) hreach hswapped
      (hiddenKeep_of_check (by decide +kernel)) (by decide +kernel) ⟨3⟩ 11 (by decide +kernel)
    have hcalls : ((init.render (sideBySide 10 11)).render (sideBySide 11 10)).calls =
        [.attach 10, .detach 11, .attach 11, .detach 10, .attach 11, .attach 10] := by
      decide +kernel
    rw [hcalls, Attached, PastLemmas.since_newest_iff, PastLemmas.since_newest_iff] at hattached
    rcases hattached with heq | ⟨-, heq | ⟨hne, -⟩⟩
    · exact absurd heq (by decide)
    · exact absurd heq (by decide)
    · exact hne rfl
  · refine not_synced_filedPane (by decide +kernel) (h (filedPane 2 2 9) ?_ ?_ ?_)
    · exact uniqueIds_of_check (by decide +kernel) (by decide +kernel)
    · decide +kernel
    · decide +kernel
  · refine not_synced_filedPane (by decide +kernel) (h (filedPane 5 2 2) ?_ ?_ ?_)
    · exact uniqueIds_of_check (by decide +kernel) (by decide +kernel)
    · decide +kernel
    · decide +kernel

end Mast
