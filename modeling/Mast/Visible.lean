import Mast.Board.Batch
import Mast.World

/-!
# What is on screen is read

The active tabs of the panes of the active workspace carry no unread dot. A tab
comes on screen when it is created, activated, promoted or its workspace becomes
active, and each of these clears the dot; while it is on screen, reports do not
set it.

Results:
1. `edit_activeRead`, `effect_visibleRead`: every command keeps what is on screen
   read.
2. `heard_visibleRead`: so does every report.
3. `visible_read`: no run shows an unread dot on a tab that is on screen.
-/

namespace Mast

/-- The tab that the pane shows has no unread dot. -/
def Pane.ActiveRead (p : Pane) : Prop :=
  ∀ t ∈ p.tabs, p.activeTab = some t.id → t.notification = .none

def Workspace.ActiveRead (ws : Workspace) : Prop := ∀ e ∈ ws.panes.entries, e.2.ActiveRead

/-- No tab on screen has an unread dot. -/
def AppState.VisibleRead (s : AppState) : Prop :=
  ∀ ws ∈ s.workspaces, s.activeWorkspace = some ws.id → ws.ActiveRead

/-- What decides whether a tab shows an unread dot. -/
def Tab.dot (t : Tab) : TabId × NotificationState := (t.id, t.notification)

namespace VisibleLemmas

open WorkspaceLemmas LegalLemmas

variable {s s' : AppState} {ws ws' : Workspace} {pane : PaneId} {p q : Pane} {t : Tab} {ti : Nat}

/-! ## Panes -/

theorem activeRead_of_dots (htabs : q.tabs.map Tab.dot = p.tabs.map Tab.dot)
    (hactive : q.activeTab = p.activeTab) (h : p.ActiveRead) : q.ActiveRead := by
  intro u hu hshown
  have hmem : u.dot ∈ q.tabs.map Tab.dot := List.mem_map_of_mem hu
  rw [htabs, List.mem_map] at hmem
  obtain ⟨t, ht, heq⟩ := hmem
  obtain ⟨hid, hnote⟩ := Prod.mk.inj heq
  rw [← hnote]
  exact h t ht (by rw [← hactive, hid, hshown])

/-- Tabs have ids of their own, so one read tab under the active id is enough. -/
theorem activeRead_of_shown (hnodup : p.tabIds.Nodup) (ht : t ∈ p.tabs)
    (hactive : p.activeTab = some t.id) (hread : t.notification = .none) : p.ActiveRead := by
  intro u hu hshown
  have hid : u.id = t.id := Option.some_inj.mp (hshown.symm.trans hactive)
  rw [List.inj_on_of_nodup_map hnodup hu ht hid]
  exact hread

theorem activeRead_pushActive (hnodup : (p.pushActive t).tabIds.Nodup)
    (hread : t.notification = .none) : (p.pushActive t).ActiveRead :=
  activeRead_of_shown hnodup (List.mem_append_right _ (List.mem_singleton_self t)) rfl hread

theorem activeRead_initialPane {id : PaneId} {tab : Option Tab}
    (hread : ∀ t ∈ tab, t.notification = .none) : (initialPane id tab).ActiveRead := by
  cases tab with
  | none => exact fun t ht => absurd ht List.not_mem_nil
  | some t => exact activeRead_pushActive (List.nodup_singleton t.id) (hread t rfl)

/-- The tab at an index that was marked is read. -/
theorem markRead_mem (ht : p.tabs[ti]? = some t) : t.markRead ∈ p.tabs.modify ti Tab.markRead := by
  refine List.mem_of_getElem? (i := ti) ?_
  simp [ht]

theorem activeRead_activateTab (hnodup : p.tabIds.Nodup) (ht : p.tabs[ti]? = some t) :
    (p.activateTab ti t.id).ActiveRead := by
  refine activeRead_of_shown ?_ (markRead_mem ht) rfl rfl
  rwa [PaneLemmas.tabIds_activateTab]

theorem activeRead_clearActiveUnread (hnodup : p.tabIds.Nodup) :
    p.clearActiveUnread.ActiveRead := by
  have hsame : p.clearActiveUnread.tabIds = p.tabIds :=
    congrArg PaneShape.tabs PaneLemmas.shape_clearActiveUnread
  rw [← hsame] at hnodup
  intro u hu
  have hmem : u.id ∈ p.tabIds := hsame ▸ List.mem_map_of_mem hu
  revert hu hnodup
  unfold Pane.clearActiveUnread
  split
  next active hactive =>
    intro hnodup hu hshown
    obtain rfl : active = u.id := Option.some_inj.mp (hactive.symm.trans hshown)
    obtain ⟨t, ht, hid⟩ := List.mem_map.mp hmem
    -- the first tab with the active id is the one that was marked
    have hlt : (p.tabs.findIdx fun t => t.id = u.id) < p.tabs.length :=
      List.findIdx_lt_length_of_exists ⟨t, ht, by simpa using hid⟩
    have hfirst : (p.tabs[p.tabs.findIdx fun t => t.id = u.id]).id = u.id := by
      simpa using List.findIdx_getElem (w := hlt)
    exact activeRead_of_shown hnodup (markRead_mem (List.getElem?_eq_getElem hlt))
      (hactive.trans (congrArg some hfirst.symm)) rfl u hu hshown
  next hnone =>
    intro _ _ hshown
    simp [hnone] at hshown

theorem activeRead_closeTab {tab : TabId} (hnodup : p.tabIds.Nodup) (h : p.ActiveRead) :
    (p.closeTab true ti tab).ActiveRead := by
  have hnodup' : ((p.tabs.eraseIdx ti).map Tab.id).Nodup :=
    hnodup.sublist ((List.eraseIdx_sublist _ _).map _)
  unfold Pane.closeTab
  split
  · exact activeRead_clearActiveUnread hnodup'
  · exact fun u hu => h u (List.mem_of_mem_eraseIdx hu)

/-! ## Workspaces -/

theorem activeRead_modify {f : Pane → Pane}
    (hf : ∀ p, ws.panes.get? pane = some p → (f p).ActiveRead) (h : ws.ActiveRead) :
    Workspace.ActiveRead { ws with panes := ws.panes.modify pane f } := by
  intro e he
  rcases OrdMap.mem_modify_entries.mp he with ⟨he, _⟩ | ⟨p, hp, rfl⟩
  · exact h e he
  · exact hf p (OrdMap.get?_eq_some_iff.mpr hp)

theorem activeRead_mapTabs {f : Tab → Tab} (hf : ∀ t, (f t).dot = t.dot) (h : ws.ActiveRead) :
    (ws.mapTabs f).ActiveRead := by
  intro e he
  obtain ⟨⟨pane, p⟩, hp, rfl⟩ := List.mem_map.mp he
  refine activeRead_of_dots (p := p) ?_ rfl (h _ hp)
  rw [List.map_map]
  exact List.map_congr_left fun t _ => hf t

theorem activeRead_replaceTab {t' : Tab} (hp : ws.panes.get? pane = some p)
    (ht : p.tabs[ti]? = some t) (hdot : t'.dot = t.dot) (h : ws.ActiveRead) :
    (ws.modifyTab pane ti fun _ => t').ActiveRead := by
  refine activeRead_modify (fun q hq => ?_) h
  obtain rfl := Option.some_inj.mp (hp.symm.trans hq)
  refine activeRead_of_dots (p := p) (ListEdit.map_modify _ _ fun u hu => ?_) rfl
    (h _ (OrdMap.get?_eq_some_iff.mp hp))
  rw [hdot, Option.some_inj.mp (ht.symm.trans hu)]

theorem activeRead_of_panes (hpanes : ws'.panes = ws.panes) (h : ws.ActiveRead) :
    ws'.ActiveRead := by
  unfold Workspace.ActiveRead
  rw [hpanes]
  exact h

theorem activeRead_collapsePane {removed : Pane} (h : ws.collapsePane pane = some (removed, ws'))
    (hread : ws.ActiveRead) : ws'.ActiveRead := by
  obtain ⟨_, hpanes, _⟩ := collapsePane_eq_some h
  exact fun e he => hread e (OrdMap.mem_erase_entries.mp (hpanes ▸ he)).1

/-- The tabs of each pane have ids of their own. -/
def TabsUnique (ws : Workspace) : Prop := ∀ e ∈ ws.panes.entries, e.2.tabIds.Nodup

theorem tabsUnique_of_legal (hs : s.Legal) (hws : ws ∈ s.workspaces) : TabsUnique ws := by
  intro e he
  have hnodup := tabIds_nodup hs
  rw [AppState.tabs, List.map_flatMap] at hnodup
  have htabs := (List.nodup_flatMap.mp hnodup).1 ws hws
  rw [Workspace.tabs, OrdMap.values, List.flatMap_map, List.map_flatMap] at htabs
  exact (List.nodup_flatMap.mp htabs).1 e he

theorem activeRead_clearVisibleUnread (hunique : TabsUnique ws) :
    ws.clearVisibleUnread.ActiveRead := by
  intro e he
  obtain ⟨e, hp, rfl⟩ := List.mem_map.mp he
  exact activeRead_clearActiveUnread (hunique e hp)

/-- An edit of the workspace on screen keeps it read. -/
theorem edit_activeRead {out : CommandOutput} {gone : List Tab} (hunique : TabsUnique ws)
    (hunique' : TabsUnique ws') (hread : ws.ActiveRead) (h : Edit true ws out gone ws') :
    ws'.ActiveRead := by
  cases h with
  | rename name => exact hread
  | focus hpane => exact hread
  | resize split hratio => exact hread
  | splitPane direction hpane hopened hnone =>
    intro e he
    rcases OrdMap.mem_insert_entries.mp he with rfl | ⟨he, _⟩
    · exact activeRead_initialPane fun t ht => (hopened t ht).read
    · exact hread e he
  | closePane hsize hclose =>
    obtain ⟨ws₁, hcollapse, rfl⟩ := closePane_eq_some hclose
    refine activeRead_of_panes (BoardLemmas.panes_resetAll _) ?_
    exact activeRead_collapsePane hcollapse hread
  | @addTab pane t session hpane hopened =>
    refine activeRead_modify (fun p hp => ?_) hread
    refine activeRead_pushActive (hunique' (pane, p.pushActive t) ?_) hopened.read
    refine OrdMap.get?_eq_some_iff.mp ?_
    rw [Workspace.addTab, OrdMap.get?_modify_self, hp]
    rfl
  | activateTab hp ht =>
    refine activeRead_modify (fun q hq => ?_) hread
    obtain rfl := Option.some_inj.mp (hp.symm.trans hq)
    exact activeRead_activateTab (hunique _ (OrdMap.get?_eq_some_iff.mp hp)) ht
  | @closeTab pane p ti t ws' hp ht hclose =>
    have hwithout : (withoutTab true pane ti t.id ws).ActiveRead :=
      activeRead_modify (fun q hq => activeRead_closeTab
        (hunique _ (OrdMap.get?_eq_some_iff.mp hq)) (hread _ (OrdMap.get?_eq_some_iff.mp hq))) hread
    obtain ⟨ws₁, rfl, hws₁⟩ := closeTab_eq_some hclose
    refine activeRead_of_panes (BoardLemmas.panes_resetAgentSource t.id) ?_
    rcases hws₁ with rfl | ⟨removed, hcollapse, _⟩
    · exact hwithout
    · exact activeRead_collapsePane hcollapse hwithout
  | viewer f hp ht hid hnote _ _ =>
    exact activeRead_replaceTab hp ht (Prod.ext hid hnote) hread

/-! ## Commands -/

/-- In a legal state a workspace is known by its id. -/
theorem ws_unique (hs : s.Legal) (hws : ws ∈ s.workspaces) (hws' : ws' ∈ s.workspaces)
    (hid : ws.id = ws'.id) : ws = ws' :=
  List.inj_on_of_nodup_map (workspace_ids_nodup hs) hws hws' hid

theorem visibleRead_edited {wi : Nat} (hws : s.workspaces[wi]? = some ws)
    (hlist : s'.workspaces = s.workspaces.modify wi fun _ => ws')
    (hactive : s'.activeWorkspace = s.activeWorkspace) (hid : ws'.id = ws.id)
    (hread : s.activeWorkspace = some ws.id → ws.ActiveRead → ws'.ActiveRead)
    (h : s.VisibleRead) : s'.VisibleRead := by
  intro w hw hshown
  rw [hactive] at hshown
  rw [hlist] at hw
  rcases mem_edited hw with rfl | hold
  · rw [hid] at hshown
    exact hread hshown (h ws (mem_of_getElem hws) hshown)
  · exact h w hold hshown

/-- Every command keeps what is on screen read. -/
theorem effect_visibleRead {cmd : Command} {out : CommandOutput} {gone : List Tab} (hs : s.Legal)
    (hs' : s'.Legal) (hread : s.VisibleRead) (h : Effect cmd s out gone s') : s'.VisibleRead := by
  cases h with
  | @edit wi ws ws' out gone n hws hids hedit htakes =>
    refine visibleRead_edited hws rfl rfl (edit_id hedit) (fun hshown hactive => ?_) hread
    rw [decide_eq_true hshown] at hedit
    have hmem : ws' ∈ s.workspaces.modify wi fun _ => ws' := by
      refine List.mem_of_getElem? (i := wi) ?_
      simp [hws]
    exact edit_activeRead (tabsUnique_of_legal hs (mem_of_getElem hws))
      (tabsUnique_of_legal hs' hmem) hactive hedit
  | @create workspace pane name rootPath distro tab session n hopened hnone hids =>
    intro w hw hshown
    have hnew := ws_unique hs' hw (List.mem_append_right _ (List.mem_singleton_self _))
      (Option.some_inj.mp hshown).symm
    subst hnew
    intro e he
    obtain rfl := List.mem_singleton.mp he
    exact activeRead_initialPane fun t ht => (hopened t ht).read
  | @switch wi ws hws =>
    intro w hw hshown
    have hmem : ws.clearVisibleUnread ∈ s.workspaces.modify wi fun _ => ws.clearVisibleUnread := by
      refine List.mem_of_getElem? (i := wi) ?_
      simp [hws]
    rw [ws_unique hs' hw hmem (Option.some_inj.mp hshown).symm]
    exact activeRead_clearVisibleUnread (tabsUnique_of_legal hs (mem_of_getElem hws))
  | @close wi ws hws =>
    intro w hw hshown
    unfold AppState.fallBack at hs' hw hshown
    split at hs'
    next hactive =>
      -- the first workspace that is left comes on screen
      rw [if_pos hactive] at hw hshown
      cases hl : s.workspaces.eraseIdx wi with
      | nil => simp [hl] at hw
      | cons first rest =>
        simp only [hl] at hs' hw hshown
        rw [ws_unique hs' hw List.mem_cons_self (Option.some_inj.mp hshown).symm]
        refine activeRead_clearVisibleUnread (tabsUnique_of_legal hs ?_)
        exact List.mem_of_mem_eraseIdx (hl ▸ List.mem_cons_self)
    next hactive =>
      rw [if_neg hactive] at hw hshown
      exact hread w (List.mem_of_mem_eraseIdx hw) hshown
  | move hperm => exact fun w hw => hread w (hperm.mem_iff.mp hw)

/-! ## Reports -/

/-- A tab on screen stays read when it is reported on. -/
theorem notification_applyDelta (delta : OscDelta) (nowMs : UInt64) (t : Tab) :
    (t.applyDelta true delta nowMs).notification = t.notification := by
  have hmark : t.markStarted.notification = t.notification := by
    unfold Tab.markStarted
    split <;> rfl
  have hcwd : ∀ (path : String) (u : Tab), (u.setCwd path).notification = u.notification := by
    intro path u
    unfold Tab.setCwd
    split <;> rfl
  unfold Tab.applyDelta
  cases delta.started <;> cases delta.title <;> cases delta.cwd <;> simp [hmark, hcwd]

theorem heard_visibleRead {nowMs : UInt64} {entry : SessionId × OscDelta}
    (h : BoardLemmas.Heard s nowMs entry s') (hread : s.VisibleRead) : s'.VisibleRead := by
  cases h with
  | missed hpos => exact hread
  | @located pos ws p t hpos hlookup hsession =>
    obtain ⟨hws, hp, ht⟩ := EffectLemmas.lookup_eq_some.mp hlookup
    refine visibleRead_edited hws rfl rfl (BoardLemmas.id_heard s ws p t pos entry.2 nowMs)
      (fun hshown hactive => ?_) hread
    refine activeRead_of_panes (BoardLemmas.panes_applyDelta _ _ _) ?_
    refine activeRead_modify (fun q hq u hu hu' => ?_) hactive
    obtain rfl := Option.some_inj.mp (hp.symm.trans hq)
    have hpane := hactive _ (OrdMap.get?_eq_some_iff.mp hp)
    rcases ListEdit.mem_modify hu with hu | ⟨t₀, ht₀, rfl⟩
    · exact hpane u hu hu'
    · obtain rfl := Option.some_inj.mp (ht.symm.trans ht₀)
      rw [ReachableLemmas.applyDelta_id] at hu'
      have hu' : p.activeTab = some t.id := hu'
      have hvisible : s.visible ws p t.id = true := by
        simp [AppState.visible, hshown, hu']
      rw [hvisible, notification_applyDelta]
      exact hpane t (List.mem_of_getElem? ht) hu'

theorem visibleRead_applyEntries (nowMs : UInt64) (entries : List (SessionId × OscDelta))
    {d : Dispatcher} (h : d.state.VisibleRead) :
    (d.applyEntries nowMs entries).2.state.VisibleRead := by
  induction entries generalizing d with
  | nil => exact h
  | cons entry entries ih =>
    exact ih (heard_visibleRead (BoardLemmas.applyEntry_heard nowMs entry d) h)

/-! ## Events and respawns -/

theorem dot_exitSession (session : SessionId) (code : Option UInt32) (endedAtMs : UInt64)
    (t : Tab) : (t.exitSession session code endedAtMs).dot = t.dot := by
  unfold Tab.exitSession
  split
  · split <;> rfl
  · rfl

theorem dot_startupTimeout (session : SessionId) (t : Tab) :
    (t.startupTimeout session).dot = t.dot := by
  unfold Tab.startupTimeout
  split
  · split <;> rfl
  · rfl

theorem dot_setTerminal (session : Option SessionId) (status : TerminalStatus) (t : Tab) :
    (t.setTerminal session status).dot = t.dot := by
  unfold Tab.setTerminal
  split <;> rfl

theorem visibleRead_map {f : Workspace → Workspace} {d : Dispatcher}
    (hid : ∀ ws, (f ws).id = ws.id) (hf : ∀ ws : Workspace, ws.ActiveRead → (f ws).ActiveRead)
    (h : d.state.VisibleRead) : (d.mapWorkspaces f).state.VisibleRead := by
  intro w hw hshown
  obtain ⟨ws, hws, rfl⟩ := List.mem_map.mp hw
  exact hf ws (h ws hws (by rw [← hid ws]; exact hshown))

theorem visibleRead_receive (ev : SessionEvent) {d : Dispatcher} (h : d.state.VisibleRead) :
    (d.receive ev).2.state.VisibleRead := by
  cases ev with
  | sessionExited session code endedAtMs =>
    refine visibleRead_map (d := { d with startedSessions := d.startedSessions.erase session })
      (fun ws => ?_) (fun ws hread => ?_) h
    · exact congrArg WorkspaceShape.id (ReachableLemmas.shape_exitSession session code endedAtMs ws)
    · exact activeRead_of_panes (BoardLemmas.panes_resetAll _)
        (activeRead_mapTabs (dot_exitSession session code endedAtMs) hread)
  | sessionStartupTimeout session =>
    unfold Dispatcher.receive
    dsimp only
    split
    · exact h
    · exact visibleRead_map (fun _ => rfl)
        (fun ws => activeRead_mapTabs (dot_startupTimeout session)) h

theorem visibleRead_step {d d' : Dispatcher} {a : Action} (hl : d.state.Legal)
    (hl' : d'.state.Legal) (hread : d.state.VisibleRead) (h : Stepped d a d') :
    d'.state.VisibleRead := by
  cases h with
  | @performed spawner cmd out gone d₁ revision h =>
    have hread' : d₁.state.VisibleRead :=
      effect_visibleRead hl (h.effect.legal hl) hread h.effect
    exact hread'
  | failed hframe =>
    have hstate : d'.state = d.state := congrArg Prod.fst hframe
    exact hstate ▸ hread
  | refused spawner tab => exact hread
  | @respawned spawner tab ws pos t session status _ h =>
    obtain ⟨p, hlookup⟩ := h.place
    obtain ⟨hws, hp, ht⟩ := EffectLemmas.lookup_eq_some.mp hlookup
    exact visibleRead_edited hws h.workspaces h.active rfl
      (fun _ => activeRead_replaceTab hp ht (dot_setTerminal session status t)) hread
  | event ev revision => exact visibleRead_receive ev hread
  | osc batch nowMs revision => exact visibleRead_applyEntries nowMs _ hread

theorem visibleRead_start {d : Dispatcher} (h : d.Start) : d.state.VisibleRead := by
  intro ws hws _ e he t ht _
  obtain ⟨ws₀, rfl⟩ := (WorldLemmas.start_sanitized h).2.2 ws hws
  obtain ⟨e₀, _, rfl⟩ := List.mem_map.mp he
  obtain ⟨t₀, _, rfl⟩ := List.mem_map.mp ht
  rfl

end VisibleLemmas

open VisibleLemmas in
/-- In every run a tab that is on screen is read. -/
theorem visible_read {d : Dispatcher} (h : Dispatcher.machine.Reach Dispatcher.Start d) :
    ∀ ws ∈ d.state.workspaces, ∀ p ∈ ws.panes.values, ∀ t ∈ p.tabs,
      d.state.visible ws p t.id = true → t.notification = .none := by
  have hread : d.state.VisibleRead := by
    refine h.invariant (I := fun d => d.state.VisibleRead) (fun d hd => visibleRead_start hd)
      fun d a hr hI ha => ?_
    have hstepped := Action.stepped ha
    exact visibleRead_step (legal_of_reach hr) (ReachableLemmas.legal_step hstepped
      (legal_of_reach hr)) hI hstepped
  intro ws hws p hp t ht hvisible
  obtain ⟨pane, hp⟩ := OrdMap.mem_values.mp hp
  simp only [AppState.visible, Bool.and_eq_true, decide_eq_true_eq] at hvisible
  exact hread ws hws hvisible.1 (pane, p) hp t ht hvisible.2

/-- A tab in the background gets a dot, and comes on screen when the other one is
closed. -/
def promotedTabTrace : List Action :=
  twoTerminalsTrace ++
    [.applyOsc (OscBatch.empty.mergeAll [(7, .osc777Notify "done" "build finished"),
        (8, .osc777Notify "done" "tests finished")]) 10,
      .dispatch (fun _ => .ok 9) (.closeTab ⟨4⟩)]

theorem visible_read_promoted :
    Dispatcher.machine.Admitted Dispatcher.new promotedTabTrace ∧
    ∀ ws ∈ (Dispatcher.machine.run Dispatcher.new promotedTabTrace).state.workspaces,
      ∀ p ∈ ws.panes.values, ∀ t ∈ p.tabs,
        (Dispatcher.machine.run Dispatcher.new promotedTabTrace).state.visible ws p t.id = true →
          t.notification = .none := by
  have hadmitted : Dispatcher.machine.Admitted Dispatcher.new promotedTabTrace := by decide
  have hreach : Dispatcher.machine.Reach Dispatcher.Start
      (Dispatcher.machine.run Dispatcher.new promotedTabTrace) :=
    .of_trace (.init (.inl rfl)) promotedTabTrace hadmitted
  exact ⟨hadmitted, visible_read hreach⟩

end Mast
