import Mathlib.Data.List.Nodup
import Mast.Reconcile

/-!
# What a snapshot does to the views

A render in two halves: what is not kept is disposed and what is not attached is detached; then
each pane asks for the view of its tab in front.

Results:
1. `disposed_foldl`: disposing views detaches their sessions.
2. `reconciled_reconcile`: the first half.
3. `placing_ensureView`, `placing_panes`: the second half attaches what is in front.
-/

namespace Mast

/-- The tab is a terminal in front, with the session. -/
def AppState.InFront (s : AppState) (tab : TabId) (session : SessionId) : Prop :=
  ∃ p ∈ s.shownPanes, ∃ t ∈ p.tabs, p.activeTab = some t.id ∧ t.id = tab ∧ t.session = some session

namespace ReconcileLemmas

open WorkspaceView PastLemmas

variable {v v' : WorkspaceView} {s : AppState} {tab : TabId} {x y : SessionId}

/-! ## Views by tab -/

theorem viewOf_eq_some (h : v.viewOf tab = some x) : (tab, x) ∈ v.views := by
  obtain ⟨e, he, rfl⟩ := Option.map_eq_some_iff.mp h
  have htab : e.1 = tab := by simpa using List.find?_some he
  rw [← htab]
  exact List.mem_of_find?_eq_some he

theorem viewOf_eq_none : v.viewOf tab = none ↔ tab ∉ v.aliveTabs := by
  rw [viewOf, Option.map_eq_none_iff, List.find?_eq_none, aliveTabs, List.mem_map]
  constructor
  · rintro h ⟨e, he, htab⟩
    exact h e he (decide_eq_true htab)
  · exact fun h e he htab => h ⟨e, he, of_decide_eq_true htab⟩

theorem alive_of_mem (h : (tab, x) ∈ v.views) : tab ∈ v.aliveTabs :=
  List.mem_map_of_mem (f := Prod.fst) h

theorem viewOf_of_mem (hnodup : v.aliveTabs.Nodup) (h : (tab, x) ∈ v.views) :
    v.viewOf tab = some x := by
  cases hfind : v.viewOf tab with
  | none => exact absurd (alive_of_mem h) (viewOf_eq_none.mp hfind)
  | some y =>
    have heq := List.inj_on_of_nodup_map hnodup (viewOf_eq_some hfind) h rfl
    exact congrArg some (Prod.mk.inj heq).2

/-- A tab has one view. -/
theorem view_unique (hnodup : v.aliveTabs.Nodup) (h : (tab, x) ∈ v.views)
    (h' : (tab, y) ∈ v.views) : x = y :=
  (Prod.mk.inj (List.inj_on_of_nodup_map hnodup h h' rfl)).2

/-! ## Disposing -/

theorem disposeView_views (v : WorkspaceView) (tab : TabId) :
    (v.disposeView tab).views = v.views.filter fun e => e.1 ≠ tab := by
  unfold disposeView
  split
  · next hnone =>
    refine (List.filter_eq_self.mpr fun e he => ?_).symm
    simpa using fun htab : e.1 = tab => viewOf_eq_none.mp hnone (htab ▸ alive_of_mem he)
  · rfl

/-- What disposing the views of some tabs does: it detaches their sessions. -/
structure Disposed (tabs : List TabId) (v v' : WorkspaceView) (new : List ChannelCall) : Prop where
  calls : v'.calls = new ++ v.calls
  views : v'.views = v.views.filter fun e => e.1 ∉ tabs
  detaches : ∀ c ∈ new, ∃ tab x, c = .detach x ∧ (tab, x) ∈ v.views ∧ tab ∈ tabs
  detached : ∀ tab x, (tab, x) ∈ v.views → tab ∈ tabs → .detach x ∈ new
  viewers : v'.viewerViews = v.viewerViews
  swept : v'.sweptSessions = v.sweptSessions
  panes : v'.paneViews = v.paneViews
  key : v'.lastKey = v.lastKey
  snapshot : v'.lastSnapshot = v.lastSnapshot

theorem disposed_nil (v : WorkspaceView) : Disposed [] v v [] where
  calls := rfl
  views := (List.filter_eq_self.mpr fun _ _ => rfl).symm
  detaches := nofun
  detached := nofun
  viewers := rfl
  swept := rfl
  panes := rfl
  key := rfl
  snapshot := rfl

theorem Disposed.trans {tabs tabs' : List TabId} {v₁ v₂ : WorkspaceView}
    {new new' : List ChannelCall}
    (h : Disposed tabs v v₁ new) (h' : Disposed tabs' v₁ v₂ new') :
    Disposed (tabs ++ tabs') v v₂ (new' ++ new) where
  calls := by rw [h'.calls, h.calls, List.append_assoc]
  views := by
    rw [h'.views, h.views, List.filter_filter]
    refine List.filter_congr fun e _ => ?_
    simp [Bool.and_comm]
  detaches c hc := by
    rcases List.mem_append.mp hc with hc | hc
    · obtain ⟨tab, x, rfl, hview, htab⟩ := h'.detaches c hc
      rw [h.views] at hview
      exact ⟨tab, x, rfl, (List.mem_filter.mp hview).1, List.mem_append_right _ htab⟩
    · obtain ⟨tab, x, rfl, hview, htab⟩ := h.detaches c hc
      exact ⟨tab, x, rfl, hview, List.mem_append_left _ htab⟩
  detached tab x hview htab := by
    by_cases hin : tab ∈ tabs
    · exact List.mem_append_right _ (h.detached tab x hview hin)
    · refine List.mem_append_left _ (h'.detached tab x ?_ ?_)
      · rw [h.views]
        exact List.mem_filter.mpr ⟨hview, decide_eq_true hin⟩
      · exact (List.mem_append.mp htab).resolve_left hin
  viewers := h'.viewers.trans h.viewers
  swept := h'.swept.trans h.swept
  panes := h'.panes.trans h.panes
  key := h'.key.trans h.key
  snapshot := h'.snapshot.trans h.snapshot

theorem disposed_disposeView (hnodup : v.aliveTabs.Nodup) (tab : TabId) :
    ∃ new, Disposed [tab] v (v.disposeView tab) new := by
  have hviews : (v.disposeView tab).views = v.views.filter fun e => e.1 ∉ [tab] := by
    rw [disposeView_views]
    exact List.filter_congr fun e _ => by simp
  have hfound {x : SessionId} (u : TabId) (h : (u, x) ∈ v.views) (hu : u ∈ [tab]) :
      v.viewOf tab = some x := viewOf_of_mem hnodup (List.mem_singleton.mp hu ▸ h)
  unfold disposeView at hviews ⊢
  split at hviews
  · next hnone =>
    refine ⟨[], rfl, hviews, nofun, fun u x h hu => ?_, rfl, rfl, rfl, rfl, rfl⟩
    cases hnone.symm.trans (hfound u h hu)
  · next x hsome =>
    refine ⟨[.detach x], rfl, hviews, fun c hc => ?_, fun u y h hu => ?_, rfl, rfl, rfl, rfl, rfl⟩
    · exact ⟨tab, x, List.mem_singleton.mp hc, viewOf_eq_some hsome, List.mem_singleton.mpr rfl⟩
    · obtain rfl := Option.some.inj (hsome.symm.trans (hfound u h hu))
      exact List.mem_singleton.mpr rfl

theorem disposed_foldl (hnodup : v.aliveTabs.Nodup) (tabs : List TabId) :
    ∃ new, Disposed tabs v (tabs.foldl disposeView v) new := by
  induction tabs generalizing v with
  | nil => exact ⟨[], disposed_nil v⟩
  | cons tab tabs ih =>
    obtain ⟨new, hone⟩ := disposed_disposeView hnodup tab
    have hnodup' : (v.disposeView tab).aliveTabs.Nodup := by
      rw [aliveTabs, disposeView_views]
      exact hnodup.sublist (List.filter_sublist.map _)
    obtain ⟨new', hrest⟩ := ih hnodup'
    exact ⟨new' ++ new, hone.trans hrest⟩

/-! ## The first half of a render -/

/-- The tab keeps its view. -/
def Kept (s : AppState) (tab : TabId) : Prop :=
  ∃ t ∈ s.shownTabs, t.id = tab ∧ t.kind.keepsAlive = true

theorem mem_keepAlive :
    tab ∈ (s.shownTabs.filter fun t => t.kind.keepsAlive).map Tab.id ↔ Kept s tab := by
  constructor
  · intro h
    obtain ⟨t, ht, rfl⟩ := List.mem_map.mp h
    obtain ⟨hshown, hkeeps⟩ := List.mem_filter.mp ht
    exact ⟨t, hshown, rfl, hkeeps⟩
  · rintro ⟨t, ht, rfl, hkeeps⟩
    exact List.mem_map_of_mem (List.mem_filter.mpr ⟨ht, hkeeps⟩)

theorem mem_dispose {alive : List TabId} :
    tab ∈ (planViewSync alive s).dispose ↔ tab ∈ alive ∧ ¬ Kept s tab := by
  rw [planViewSync, List.mem_filter, ← mem_keepAlive]
  simp

theorem mem_viewerDispose {alive : List TabId} :
    tab ∈ (planViewerSync alive s).dispose.map ViewerDispose.tab ↔
      tab ∈ alive ∧ tab ∉ (planViewerSync alive s).mount.map VisibleViewer.tab := by
  have hdispose : (planViewerSync alive s).dispose.map ViewerDispose.tab =
      alive.filter fun tab => tab ∉ (planViewerSync alive s).mount.map VisibleViewer.tab := by
    rw [planViewerSync, List.map_map]
    exact List.map_id _
  rw [hdispose, List.mem_filter, decide_eq_true_iff]

/-- What the first half of a render does. -/
structure Reconciled (v v' : WorkspaceView) (s : AppState) (new : List ChannelCall) : Prop where
  calls : v'.calls = new ++ v.calls
  views : ∀ tab x, (tab, x) ∈ v'.views ↔ (tab, x) ∈ v.views ∧ Kept s tab
  once : v'.aliveTabs.Nodup
  detaches : ∀ c ∈ new, ∃ x, c = .detach x ∧
    ((∃ tab, (tab, x) ∈ v.views ∧ ¬ Kept s tab) ∨
      x ∈ (planViewSync v.aliveTabs s).detachSessions)
  disposed : ∀ tab x, (tab, x) ∈ v.views → ¬ Kept s tab → .detach x ∈ new
  swept : ∀ x ∈ (planViewSync v.aliveTabs s).detachSessions, x ∉ v.sweptSessions →
    .detach x ∈ new
  viewers : ∀ tab, tab ∈ v'.viewerViews ↔ tab ∈ v.viewerViews ∧
    tab ∈ (planViewerSync v.viewerViews s).mount.map VisibleViewer.tab
  sessions : v'.sweptSessions = (planViewSync v.aliveTabs s).detachSessions
  snapshot : v'.lastSnapshot = some s

theorem reconciled_reconcile (hnodup : v.aliveTabs.Nodup) (s : AppState) :
    ∃ new, Reconciled v (v.reconcile s) s new := by
  obtain ⟨new, hnew⟩ := disposed_foldl (v := { v with lastSnapshot := some s }) hnodup
    (planViewSync v.aliveTabs s).dispose
  refine ⟨(((planViewSync v.aliveTabs s).detachSessions.filter fun x => x ∉ v.sweptSessions).map
    ChannelCall.detach).reverse ++ new, ?_⟩
  have hviews (tab : TabId) (x : SessionId) :
      (tab, x) ∈ (v.reconcile s).views ↔ (tab, x) ∈ v.views ∧ Kept s tab := by
    have heq : (v.reconcile s).views = v.views.filter fun e =>
        e.1 ∉ (planViewSync v.aliveTabs s).dispose := hnew.views
    rw [heq, List.mem_filter, decide_eq_true_iff, mem_dispose, not_and_not_right]
    exact and_congr_right fun h => ⟨fun hk => hk (alive_of_mem h), fun hk _ => hk⟩
  constructor
  · have hcalls : (v.reconcile s).calls =
        (((planViewSync v.aliveTabs s).detachSessions.filter fun x => x ∉
          ((planViewSync v.aliveTabs s).dispose.foldl disposeView
            { v with lastSnapshot := some s }).sweptSessions).map ChannelCall.detach).reverse ++
        ((planViewSync v.aliveTabs s).dispose.foldl disposeView
          { v with lastSnapshot := some s }).calls := rfl
    rw [hcalls, hnew.swept, hnew.calls, List.append_assoc]
  · exact hviews
  · have heq : (v.reconcile s).views = v.views.filter fun e =>
        e.1 ∉ (planViewSync v.aliveTabs s).dispose := hnew.views
    rw [aliveTabs, heq]
    exact hnodup.sublist (List.filter_sublist.map _)
  · intro c hc
    rcases List.mem_append.mp hc with hc | hc
    · obtain ⟨x, hx, rfl⟩ := List.mem_map.mp (List.mem_reverse.mp hc)
      exact ⟨x, rfl, .inr (List.mem_filter.mp hx).1⟩
    · obtain ⟨tab, x, rfl, hview, htab⟩ := hnew.detaches c hc
      exact ⟨x, rfl, .inl ⟨tab, hview, (mem_dispose.mp htab).2⟩⟩
  · intro tab x hview hkept
    refine List.mem_append_right _ (hnew.detached tab x hview ?_)
    exact mem_dispose.mpr ⟨alive_of_mem hview, hkept⟩
  · intro x hx hswept
    refine List.mem_append_left _ (List.mem_reverse.mpr (List.mem_map_of_mem ?_))
    exact List.mem_filter.mpr ⟨hx, decide_eq_true hswept⟩
  · intro tab
    have heq : (v.reconcile s).viewerViews =
        ((planViewSync v.aliveTabs s).dispose.foldl disposeView
          { v with lastSnapshot := some s }).viewerViews.filter fun tab =>
            tab ∉ (planViewerSync v.viewerViews s).dispose.map ViewerDispose.tab := rfl
    rw [heq, hnew.viewers, List.mem_filter, decide_eq_true_iff]
    rw [mem_viewerDispose, not_and_not_right]
    exact and_congr_right fun htab => ⟨fun h => h htab, fun h _ => h⟩
  · rfl
  · exact hnew.snapshot

/-! ## The second half of a render -/

/-- What bringing tabs to the front leaves alone. -/
def still (v : WorkspaceView) :
    List SessionId × List PaneId × Option StructureKey × Option AppState :=
  (v.sweptSessions, v.paneViews, v.lastKey, v.lastSnapshot)

/-- How far the second half of a render is. -/
structure Placing (s : AppState) (mount : List VisibleViewer) (v v' : WorkspaceView)
    (new : List ChannelCall) : Prop where
  calls : v'.calls = new ++ v.calls
  once : v'.aliveTabs.Nodup
  views : ∀ tab x, (tab, x) ∈ v'.views → (tab, x) ∈ v.views ∨ s.InFront tab x ∧ .attach x ∈ new
  stays : ∀ tab x, (tab, x) ∈ v.views → (tab, x) ∈ v'.views ∨ ∃ y, s.InFront tab y
  attached : ∀ x, .attach x ∈ new → ∃ tab, s.InFront tab x
  detached : ∀ x, .detach x ∈ new → ∃ tab y, (tab, x) ∈ v.views ∧ s.InFront tab y ∧ x ≠ y
  viewers : ∀ tab ∈ v'.viewerViews, tab ∈ v.viewerViews ∨ tab ∈ mount.map VisibleViewer.tab
  still : still v' = still v

variable {mount : List VisibleViewer} {v₀ : WorkspaceView} {new : List ChannelCall}

theorem placing_refl (mount : List VisibleViewer) (hnodup : v.aliveTabs.Nodup) :
    Placing s mount v v [] where
  calls := rfl
  once := hnodup
  views _ _ h := .inl h
  stays _ _ h := .inl h
  attached := nofun
  detached := nofun
  viewers _ h := .inl h
  still := rfl

theorem placing_createView (h : Placing s mount v₀ v new) (hnone : tab ∉ v.aliveTabs)
    (hfront : s.InFront tab x) :
    Placing s mount v₀ (v.createView tab x) (.attach x :: new) where
  calls := congrArg (_ :: ·) h.calls
  once := by
    rw [aliveTabs, createView, List.map_append, List.nodup_append]
    refine ⟨h.once, List.nodup_singleton _, fun u hu w hw heq => ?_⟩
    obtain rfl : u = tab := heq.trans (List.mem_singleton.mp hw)
    exact hnone hu
  views u y hview := by
    rcases List.mem_append.mp hview with hview | hview
    · exact (h.views u y hview).imp_right fun hf => ⟨hf.1, List.mem_cons_of_mem _ hf.2⟩
    · obtain ⟨rfl, rfl⟩ := Prod.mk.inj (List.mem_singleton.mp hview)
      exact .inr ⟨hfront, List.mem_cons_self⟩
  stays u y hview := (h.stays u y hview).imp_left (List.mem_append_left _)
  attached y hy := by
    rcases List.mem_cons.mp hy with heq | hy
    · cases heq
      exact ⟨tab, hfront⟩
    · exact h.attached y hy
  detached y hy := h.detached y ((List.mem_cons.mp hy).resolve_left nofun)
  viewers := h.viewers
  still := h.still

/-- The session of a tab in front is replaced. -/
theorem placing_disposeView (h : Placing s mount v₀ v new) (hview : (tab, y) ∈ v.views)
    (hfront : s.InFront tab x) (hfun : ∀ z, s.InFront tab z → z = x) (hne : y ≠ x) :
    Placing s mount v₀ (v.disposeView tab) (.detach y :: new) := by
  have hold : (tab, y) ∈ v₀.views :=
    (h.views tab y hview).resolve_right fun hf => hne (hfun y hf.1)
  have hviews := disposeView_views v tab
  rw [disposeView, viewOf_of_mem h.once hview] at hviews ⊢
  dsimp only at hviews ⊢
  constructor
  · exact congrArg (_ :: ·) h.calls
  · exact h.once.sublist (List.filter_sublist.map _)
  · intro u z hz
    exact (h.views u z (List.mem_filter.mp hz).1).imp_right
      fun hf => ⟨hf.1, List.mem_cons_of_mem _ hf.2⟩
  · intro u z hz
    by_cases hu : u = tab
    · exact .inr ⟨x, hu ▸ hfront⟩
    · refine (h.stays u z hz).imp_left fun hmem => List.mem_filter.mpr ⟨hmem, ?_⟩
      exact decide_eq_true hu
  · exact fun z hz => h.attached z ((List.mem_cons.mp hz).resolve_left nofun)
  · intro z hz
    rcases List.mem_cons.mp hz with heq | hz
    · cases heq
      exact ⟨tab, x, hold, hfront, hne⟩
    · exact h.detached z hz
  · exact h.viewers
  · exact h.still

/-- No view of a tab in front is lost, and no viewer. -/
structure Grows (s : AppState) (v v' : WorkspaceView) : Prop where
  views : ∀ tab x, s.InFront tab x → (tab, x) ∈ v.views → (tab, x) ∈ v'.views
  viewers : ∀ tab ∈ v.viewerViews, tab ∈ v'.viewerViews

theorem grows_refl (s : AppState) (v : WorkspaceView) : Grows s v v :=
  ⟨fun _ _ _ h => h, fun _ h => h⟩

theorem Grows.trans {v₁ v₂ : WorkspaceView} (h : Grows s v v₁) (h' : Grows s v₁ v₂) :
    Grows s v v₂ :=
  ⟨fun u y hf hm => h'.views u y hf (h.views u y hf hm), fun u hm => h'.viewers u (h.viewers u hm)⟩

theorem disposeView_viewers (v : WorkspaceView) (tab : TabId) :
    (v.disposeView tab).viewerViews = v.viewerViews := by
  unfold disposeView
  split <;> rfl

/-- The tab in front has a view that is attached to its session. -/
theorem placing_ensureView (h : Placing s mount v₀ v new) (hfront : s.InFront tab x)
    (hfun : ∀ z, s.InFront tab z → z = x) :
    ∃ new', Placing s mount v₀ (v.ensureView tab x) new' ∧
      (tab, x) ∈ (v.ensureView tab x).views ∧ Grows s v (v.ensureView tab x) := by
  have hcreated (w : WorkspaceView) : (tab, x) ∈ (w.createView tab x).views :=
    List.mem_append_right _ (List.mem_singleton.mpr rfl)
  unfold ensureView
  split
  · next hnone =>
    exact ⟨_, placing_createView h (viewOf_eq_none.mp hnone) hfront, hcreated v,
      fun u y _ hview => List.mem_append_left _ hview, fun _ hu => hu⟩
  next y hsome =>
  have hview := viewOf_eq_some hsome
  split
  · next heq => exact ⟨new, h, heq ▸ hview, grows_refl s v⟩
  next hne =>
  have hgone : tab ∉ (v.disposeView tab).aliveTabs := by
    rw [aliveTabs, disposeView_views, List.mem_map]
    rintro ⟨e, he, htab⟩
    exact of_decide_eq_true (List.mem_filter.mp he).2 htab
  refine ⟨_, placing_createView (placing_disposeView h hview hfront hfun hne) hgone hfront,
    hcreated _, fun u z hz hmem => ?_, fun u hu => (disposeView_viewers v tab).symm ▸ hu⟩
  by_cases hu : u = tab
  · subst hu
    obtain rfl := hfun z hz
    exact hcreated _
  · refine List.mem_append_left _ ?_
    rw [disposeView_views]
    exact List.mem_filter.mpr ⟨hmem, decide_eq_true hu⟩

theorem placing_ensureViewerView (h : Placing s mount v₀ v new)
    (hmount : tab ∈ mount.map VisibleViewer.tab) :
    Placing s mount v₀ (v.ensureViewerView tab) new ∧
      tab ∈ (v.ensureViewerView tab).viewerViews ∧ Grows s v (v.ensureViewerView tab) := by
  unfold ensureViewerView
  split
  · next hmem => exact ⟨h, hmem, grows_refl s v⟩
  refine ⟨⟨h.calls, h.once, h.views, h.stays, h.attached, h.detached, fun u hu => ?_, h.still⟩,
    List.mem_append_right _ (List.mem_singleton.mpr rfl),
    fun _ _ _ hm => hm, fun _ hm => List.mem_append_left _ hm⟩
  rcases List.mem_append.mp hu with hu | hu
  · exact h.viewers u hu
  · exact .inr (List.mem_singleton.mp hu ▸ hmount)

/-! ### The panes -/

/-- The terminal that a pane has in front, by the plan. -/
def frontOf (visible : List VisibleView) (pane : PaneId) : Option VisibleView :=
  (visible.filter fun e => e.pane = pane).getLast?

def viewerOf (mount : List VisibleViewer) (pane : PaneId) : Option VisibleViewer :=
  (mount.filter fun e => e.pane = pane).getLast?

/-- The views that a pane asks for are there. -/
structure PaneShown (visible : List VisibleView) (mount : List VisibleViewer)
    (v : WorkspaceView) (pane : PaneId) : Prop where
  front : ∀ e ∈ frontOf visible pane, (e.tab, e.session) ∈ v.views
  viewer : frontOf visible pane = none → ∀ e ∈ viewerOf mount pane, e.tab ∈ v.viewerViews

variable {ws : Workspace} {visible : List VisibleView} {pane : PaneId} {panes : List PaneId}

theorem mem_of_frontOf {e : VisibleView} (h : frontOf visible pane = some e) :
    e ∈ visible ∧ e.pane = pane := by
  have hmem := List.mem_filter.mp (List.mem_of_getLast? h)
  exact ⟨hmem.1, of_decide_eq_true hmem.2⟩

theorem mem_of_viewerOf {e : VisibleViewer} (h : viewerOf mount pane = some e) :
    e ∈ mount ∧ e.pane = pane := by
  have hmem := List.mem_filter.mp (List.mem_of_getLast? h)
  exact ⟨hmem.1, of_decide_eq_true hmem.2⟩

theorem PaneShown.mono (h : PaneShown visible mount v pane)
    (hvisible : ∀ e ∈ visible, s.InFront e.tab e.session) (hgrows : Grows s v v') :
    PaneShown visible mount v' pane :=
  ⟨fun e he => hgrows.views _ _ (hvisible e (mem_of_frontOf he).1) (h.front e he),
    fun hnone e he => hgrows.viewers _ (h.viewer hnone e he)⟩

/-- One pane: what it asks for is there. -/
theorem placing_updatePane (h : Placing s mount v₀ v new)
    (hvisible : ∀ e ∈ visible, s.InFront e.tab e.session)
    (hfun : ∀ tab x y, s.InFront tab x → s.InFront tab y → y = x) (pane : PaneId) :
    ∃ new', Placing s mount v₀ (updatePane ws visible mount v pane) new' ∧
      Grows s v (updatePane ws visible mount v pane) ∧
      (ws.panes.contains pane →
        PaneShown visible mount (updatePane ws visible mount v pane) pane) := by
  unfold updatePane
  split
  · next hcontains => exact ⟨new, h, grows_refl s v, fun hc => absurd hc hcontains⟩
  split
  · next e he =>
    have hfront := hvisible e (mem_of_frontOf he).1
    obtain ⟨new', hplacing, hview, hgrows⟩ :=
      placing_ensureView h hfront fun z hz => hfun _ _ _ hfront hz
    refine ⟨new', hplacing, hgrows, fun _ => ⟨fun e' he' => ?_, fun hnone => ?_⟩⟩
    · obtain rfl := Option.some.inj (he.symm.trans he')
      exact hview
    · cases hnone.symm.trans he
  next hnone =>
  split
  · next e he =>
    obtain ⟨hplacing, hviewer, hgrows⟩ :=
      placing_ensureViewerView h (List.mem_map_of_mem (mem_of_viewerOf he).1)
    refine ⟨new, hplacing, hgrows, fun _ => ⟨fun e' he' => ?_, fun _ e' he' => ?_⟩⟩
    · cases hnone.symm.trans he'
    · obtain rfl := Option.some.inj (he.symm.trans he')
      exact hviewer
  · next hnone' =>
    refine ⟨new, h, grows_refl s v, fun _ => ⟨fun e' he' => ?_, fun _ e' he' => ?_⟩⟩
    · cases hnone.symm.trans he'
    · cases hnone'.symm.trans he'

theorem placing_panes (ws : Workspace) (h : Placing s mount v₀ v new)
    (hvisible : ∀ e ∈ visible, s.InFront e.tab e.session)
    (hfun : ∀ tab x y, s.InFront tab x → s.InFront tab y → y = x) (panes : List PaneId) :
    ∃ new', Placing s mount v₀ (panes.foldl (updatePane ws visible mount) v) new' ∧
      Grows s v (panes.foldl (updatePane ws visible mount) v) ∧
      ∀ pane ∈ panes, ws.panes.contains pane →
        PaneShown visible mount (panes.foldl (updatePane ws visible mount) v) pane := by
  induction panes generalizing v new with
  | nil => exact ⟨new, h, grows_refl s v, nofun⟩
  | cons pane panes ih =>
    obtain ⟨new₁, hone, hgrows, hshown⟩ := placing_updatePane h hvisible hfun pane
    obtain ⟨new₂, hrest, hgrows', hshown'⟩ := ih hone
    refine ⟨new₂, hrest, hgrows.trans hgrows', fun p hp hc => ?_⟩
    rcases List.mem_cons.mp hp with rfl | hp
    · exact (hshown hc).mono hvisible hgrows'
    · exact hshown' p hp hc

end ReconcileLemmas

end Mast
