import Mast.Flush

/-!
# What a tab shows of its session

The title and the directory of a tab are what the last report of its session said.
Nothing but a report changes them while the tab holds the session: the other actions
only move such a tab, close it or take the session away.

Results:
1. `Stepped.faces`: after an action other than a batch, a tab with a session shows what a tab
   with that session showed before, or the session is new.
2. `faces_applyEntries`: what a batch does to the title and the directory.
-/

namespace Mast

/-- The recorded directory of a terminal tab. -/
def Tab.cwd (t : Tab) : Option String :=
  match t.kind with
  | .terminal _ _ cwd => cwd
  | _ => none

/-- The tabs show the same of the same session. -/
structure Tab.SameFace (t t' : Tab) : Prop where
  session : t'.session = t.session
  title : t'.title = t.title
  cwd : t'.cwd = t.cwd

/-- Tabs with a session other than the new one show what a tab with it showed before. -/
def KeepsFaces (fresh : Option SessionId) (tabs tabs' : List Tab) : Prop :=
  ∀ t' ∈ tabs', ∀ session, t'.session = some session →
    session ∈ fresh ∨ ∃ t ∈ tabs, t.SameFace t'

namespace FaceLemmas

open WorkspaceLemmas LegalLemmas BoardLemmas

variable {fresh : Option SessionId} {tabs tabs' tabs'' : List Tab} {s s' : AppState}
  {ws ws' : Workspace} {pane : PaneId} {p removed : Pane} {t : Tab}

theorem sameFace_refl (t : Tab) : t.SameFace t := ⟨rfl, rfl, rfl⟩

theorem keepsFaces_of_subset (h : tabs' ⊆ tabs) : KeepsFaces fresh tabs tabs' :=
  fun t' ht' _ _ => .inr ⟨t', h ht', sameFace_refl t'⟩

theorem keepsFaces_trans (h : KeepsFaces fresh tabs tabs') (h' : KeepsFaces fresh tabs' tabs'') :
    KeepsFaces fresh tabs tabs'' := by
  intro t'' ht'' session hsession
  rcases h' t'' ht'' session hsession with hnew | ⟨t', ht', hsame'⟩
  · exact .inl hnew
  · rcases h t' ht' session (hsame'.session ▸ hsession) with hnew | ⟨t, ht, hsame⟩
    · exact .inl hnew
    · exact .inr ⟨t, ht, hsame'.session.trans hsame.session, hsame'.title.trans hsame.title,
        hsame'.cwd.trans hsame.cwd⟩

theorem keepsFaces_map {f : Tab → Tab}
    (hf : ∀ t session, (f t).session = some session → t.SameFace (f t)) :
    KeepsFaces fresh tabs (tabs.map f) := by
  intro t' ht' session hsession
  obtain ⟨t, ht, rfl⟩ := List.mem_map.mp ht'
  exact .inr ⟨t, ht, hf t session hsession⟩

theorem keepsFaces_modify {ti : Nat} {f : Tab → Tab}
    (hf : ∀ t session, tabs[ti]? = some t → (f t).session = some session →
      session ∈ fresh ∨ t.SameFace (f t)) : KeepsFaces fresh tabs (tabs.modify ti f) := by
  intro t' ht' session hsession
  obtain ⟨i, hi⟩ := List.mem_iff_getElem?.mp ht'
  rw [List.getElem?_modify] at hi
  obtain ⟨t, ht, heq⟩ := Option.map_eq_some_iff.mp hi
  have hmem := List.mem_of_getElem? ht
  by_cases hplace : ti = i
  · subst hplace
    rw [if_pos rfl] at heq
    subst heq
    exact (hf t session ht hsession).imp_right fun hsame => ⟨t, hmem, hsame⟩
  · rw [if_neg hplace] at heq
    exact .inr ⟨t, hmem, heq ▸ sameFace_refl t⟩

theorem keepsFaces_markRead (ti : Nat) : KeepsFaces fresh tabs (tabs.modify ti Tab.markRead) :=
  keepsFaces_modify fun _ _ _ _ => .inr ⟨rfl, rfl, rfl⟩

theorem keepsFaces_clearActiveUnread (p : Pane) :
    KeepsFaces fresh p.tabs p.clearActiveUnread.tabs := by
  unfold Pane.clearActiveUnread
  split
  · exact keepsFaces_markRead _
  · exact keepsFaces_of_subset fun _ h => h

theorem keepsFaces_closeTab (shown : Bool) (ti : Nat) (tab : TabId) (p : Pane) :
    KeepsFaces fresh p.tabs (p.closeTab shown ti tab).tabs := by
  have hrest : KeepsFaces fresh p.tabs (p.tabs.eraseIdx ti) :=
    keepsFaces_of_subset fun _ => List.mem_of_mem_eraseIdx
  unfold Pane.closeTab
  split
  · dsimp only
    split
    · exact keepsFaces_trans hrest (keepsFaces_clearActiveUnread _)
    · exact hrest
  · exact hrest

/-! ## Workspaces -/

theorem mem_tabs_iff : t ∈ ws.tabs ↔ ∃ e ∈ ws.panes.entries, t ∈ e.2.tabs := by
  constructor
  · intro ht
    obtain ⟨p, hp, ht⟩ := List.mem_flatMap.mp ht
    obtain ⟨pane, hp⟩ := OrdMap.mem_values.mp hp
    exact ⟨(pane, p), hp, ht⟩
  · rintro ⟨⟨pane, p⟩, hp, ht⟩
    exact List.mem_flatMap.mpr ⟨p, OrdMap.mem_values.mpr ⟨pane, hp⟩, ht⟩

/-- Each pane comes from one before, whose faces it keeps. -/
theorem keepsFaces_of_panes (h : ∀ e' ∈ ws'.panes.entries, KeepsFaces fresh [] e'.2.tabs ∨
    ∃ e ∈ ws.panes.entries, KeepsFaces fresh e.2.tabs e'.2.tabs) :
    KeepsFaces fresh ws.tabs ws'.tabs := by
  intro t' ht' session hsession
  obtain ⟨e', he', ht'⟩ := mem_tabs_iff.mp ht'
  rcases h e' he' with hnew | ⟨e, he, hkeeps⟩
  · rcases hnew t' ht' session hsession with hnew | ⟨t, ht, -⟩
    · exact .inl hnew
    · cases ht
  · rcases hkeeps t' ht' session hsession with hnew | ⟨t, ht, hsame⟩
    · exact .inl hnew
    · exact .inr ⟨t, mem_tabs_iff.mpr ⟨e, he, ht⟩, hsame⟩

theorem keepsFaces_modifyPane {f : Pane → Pane}
    (hf : ∀ p, ws.panes.get? pane = some p → KeepsFaces fresh p.tabs (f p).tabs) :
    KeepsFaces fresh ws.tabs (Workspace.tabs { ws with panes := ws.panes.modify pane f }) := by
  refine keepsFaces_of_panes fun e' he' => .inr ?_
  rcases OrdMap.mem_modify_entries.mp he' with ⟨he, -⟩ | ⟨p, hp, rfl⟩
  · exact ⟨e', he, keepsFaces_of_subset fun _ h => h⟩
  · exact ⟨(pane, p), hp, hf p (OrdMap.get?_eq_some_iff.mpr hp)⟩

theorem keepsFaces_samePanes (h : ws'.panes = ws.panes) : KeepsFaces fresh ws.tabs ws'.tabs :=
  keepsFaces_of_panes fun e' he' => .inr ⟨e', h ▸ he', keepsFaces_of_subset fun _ h => h⟩

theorem keepsFaces_collapsePane (h : ws.collapsePane pane = some (removed, ws')) :
    KeepsFaces fresh ws.tabs ws'.tabs := by
  refine keepsFaces_of_panes fun e' he' => .inr ⟨e', ?_, keepsFaces_of_subset fun _ h => h⟩
  rw [(collapsePane_eq_some h).2.1] at he'
  exact (OrdMap.mem_erase_entries.mp he').1

theorem keepsFaces_opened {session : Option SessionId} {tabs : List Tab}
    (h : ∀ t ∈ tabs', t ∈ tabs ∨ t.Opened session) : KeepsFaces session tabs tabs' := by
  intro t' ht' x hx
  rcases h t' ht' with hold | hopened
  · exact .inr ⟨t', hold, sameFace_refl t'⟩
  · exact .inl ((opened_cell hopened).holds ▸ hx)

theorem keepsFaces_clearVisibleUnread :
    KeepsFaces fresh ws.tabs ws.clearVisibleUnread.tabs := by
  refine keepsFaces_of_panes fun e' he' => .inr ?_
  obtain ⟨e, he, rfl⟩ := List.mem_map.mp he'
  exact ⟨e, he, keepsFaces_clearActiveUnread e.2⟩

/-- An edit changes neither the title nor the directory of a tab with a session. -/
theorem edit_faces {shown : Bool} {out : CommandOutput} {gone : List Tab}
    (h : Edit shown ws out gone ws') : KeepsFaces out.session ws.tabs ws'.tabs := by
  cases h with
  | rename name => exact keepsFaces_samePanes rfl
  | focus hpane => exact keepsFaces_samePanes rfl
  | resize split hratio => exact keepsFaces_samePanes rfl
  | @splitPane pane newPane direction splitId tab session hpane hopened hnone =>
    refine keepsFaces_of_panes fun e' he' => ?_
    rcases OrdMap.mem_insert_entries.mp he' with rfl | ⟨he, -⟩
    · refine .inl (keepsFaces_opened fun t ht => .inr (hopened t ?_))
      have ht : t ∈ (initialPane newPane tab).tabs := ht
      rw [PaneLemmas.tabs_initialPane] at ht
      exact Option.mem_toList.mp ht
    · exact .inr ⟨e', he, keepsFaces_of_subset fun _ h => h⟩
  | closePane hsize hclose =>
    obtain ⟨ws₁, hcollapse, rfl⟩ := closePane_eq_some hclose
    exact keepsFaces_trans (keepsFaces_collapsePane hcollapse)
      (keepsFaces_samePanes (panes_resetAll _))
  | @addTab pane t session hpane hopened =>
    refine keepsFaces_modifyPane fun p hp => keepsFaces_opened fun u hu => ?_
    rcases List.mem_append.mp hu with hu | hu
    · exact .inl hu
    · exact .inr (List.mem_singleton.mp hu ▸ hopened)
  | activateTab hp ht => exact keepsFaces_modifyPane fun q hq => keepsFaces_markRead _
  | @closeTab pane p ti t ws' hp ht hclose =>
    have hwithout : KeepsFaces none ws.tabs (withoutTab shown pane ti t.id ws).tabs :=
      keepsFaces_modifyPane fun q hq => keepsFaces_closeTab shown ti t.id q
    obtain ⟨ws₁, rfl, hws₁⟩ := closeTab_eq_some hclose
    refine keepsFaces_trans ?_ (keepsFaces_samePanes (panes_resetAgentSource t.id))
    rcases hws₁ with rfl | ⟨removed, hcollapse, -⟩
    · exact hwithout
    · exact keepsFaces_trans hwithout (keepsFaces_collapsePane hcollapse)
  | @viewer pane p ti t f hp ht hid hnote hviewer hopened =>
    refine keepsFaces_modifyPane fun q hq => keepsFaces_modify fun u session hu hsession => ?_
    have hnone : (f t).session = none := congrArg Cell.session
      (viewer_cell (isViewer_of_opened hopened))
    rw [hnone] at hsession
    cases hsession

/-! ## Actions -/

theorem keepsFaces_of_workspaces (h : ∀ ws' ∈ s'.workspaces, KeepsFaces fresh [] ws'.tabs ∨
    ∃ ws ∈ s.workspaces, KeepsFaces fresh ws.tabs ws'.tabs) :
    KeepsFaces fresh s.tabs s'.tabs := by
  intro t' ht' session hsession
  obtain ⟨ws', hws', ht'⟩ := List.mem_flatMap.mp ht'
  rcases h ws' hws' with hnew | ⟨ws, hws, hkeeps⟩
  · rcases hnew t' ht' session hsession with hnew | ⟨t, ht, -⟩
    · exact .inl hnew
    · cases ht
  · rcases hkeeps t' ht' session hsession with hnew | ⟨t, ht, hsame⟩
    · exact .inl hnew
    · exact .inr ⟨t, List.mem_flatMap.mpr ⟨ws, hws, ht⟩, hsame⟩

theorem keepsFaces_edited {wi : Nat} (hws : s.workspaces[wi]? = some ws)
    (hlist : s'.workspaces = s.workspaces.modify wi fun _ => ws')
    (h : KeepsFaces fresh ws.tabs ws'.tabs) : KeepsFaces fresh s.tabs s'.tabs := by
  refine keepsFaces_of_workspaces fun w hw => .inr ?_
  rw [hlist] at hw
  rcases mem_edited hw with rfl | hold
  · exact ⟨ws, mem_of_getElem hws, h⟩
  · exact ⟨w, hold, keepsFaces_of_subset fun _ h => h⟩

theorem keepsFaces_fallBack (workspace : WorkspaceId) :
    KeepsFaces fresh s.tabs (s.fallBack workspace).tabs := by
  unfold AppState.fallBack
  split
  · refine keepsFaces_of_workspaces fun w hw => .inr ?_
    obtain ⟨i, hi⟩ := List.mem_iff_getElem?.mp hw
    rw [List.getElem?_modify] at hi
    obtain ⟨ws, hws, heq⟩ := Option.map_eq_some_iff.mp hi
    refine ⟨ws, List.mem_of_getElem? hws, ?_⟩
    by_cases hfirst : 0 = i
    · rw [if_pos hfirst] at heq
      exact heq ▸ keepsFaces_clearVisibleUnread
    · rw [if_neg hfirst] at heq
      exact heq ▸ keepsFaces_of_subset fun _ h => h
  · exact keepsFaces_of_subset fun _ h => h

theorem effect_faces {cmd : Command} {out : CommandOutput} {gone : List Tab}
    (h : Effect cmd s out gone s') : KeepsFaces out.session s.tabs s'.tabs := by
  cases h with
  | edit hws hids hedit htakes => exact keepsFaces_edited hws rfl (edit_faces hedit)
  | @create workspace pane name rootPath distro tab session n hopened hnone hids =>
    refine keepsFaces_of_workspaces fun w hw => ?_
    rcases List.mem_append.mp hw with hold | hnew
    · exact .inr ⟨w, hold, keepsFaces_of_subset fun _ h => h⟩
    · rw [List.mem_singleton.mp hnew]
      refine .inl (keepsFaces_opened fun t ht => .inr (hopened t ?_))
      obtain ⟨e, he, ht⟩ := mem_tabs_iff.mp ht
      rw [List.mem_singleton.mp he] at ht
      have ht : t ∈ (initialPane pane tab).tabs := ht
      rw [PaneLemmas.tabs_initialPane] at ht
      exact Option.mem_toList.mp ht
  | switch hws => exact keepsFaces_edited hws rfl keepsFaces_clearVisibleUnread
  | close hws =>
    refine keepsFaces_trans ?_ (keepsFaces_fallBack _)
    exact keepsFaces_of_workspaces fun w hw =>
      .inr ⟨w, List.mem_of_mem_eraseIdx hw, keepsFaces_of_subset fun _ h => h⟩
  | move hperm =>
    exact keepsFaces_of_workspaces fun w hw =>
      .inr ⟨w, hperm.mem_iff.mp hw, keepsFaces_of_subset fun _ h => h⟩

theorem session_kind {session : SessionId} (h : t.session = some session) :
    ∃ status cwd, t.kind = .terminal (some session) status cwd := by
  unfold Tab.session at h
  split at h
  · next old status cwd hkind => exact ⟨status, cwd, h ▸ hkind⟩
  · cases h

theorem sameFace_exitSession {session x : SessionId} {code : Option UInt32} {endedAtMs : UInt64}
    (h : (t.exitSession session code endedAtMs).session = some x) :
    t.SameFace (t.exitSession session code endedAtMs) := by
  unfold Tab.exitSession at h ⊢
  split at h
  · split at h
    · cases h
    · next hne =>
      rw [if_neg hne]
      exact sameFace_refl t
  · exact sameFace_refl t

theorem sameFace_startupTimeout (session : SessionId) (t : Tab) :
    t.SameFace (t.startupTimeout session) := by
  unfold Tab.startupTimeout
  split
  · next s cwd hkind =>
    split
    · refine ⟨?_, rfl, ?_⟩
      · unfold Tab.session
        rw [hkind]
      · unfold Tab.cwd
        rw [hkind]
    · exact sameFace_refl t
  · exact sameFace_refl t

theorem tabs_mapTabs (f : Tab → Tab) (ws : Workspace) :
    (ws.mapTabs f).tabs = ws.tabs.map f := by
  simp only [Workspace.tabs, Workspace.mapTabs, OrdMap.mapValues, OrdMap.values, List.map_map,
    List.flatMap_map, List.map_flatMap, Function.comp_def]

theorem tabs_resetAll (ws : Workspace) (tabs : List TabId) :
    (ws.resetAll tabs).tabs = ws.tabs := by
  unfold Workspace.tabs
  rw [panes_resetAll]

theorem receive_faces (ev : SessionEvent) (d : Dispatcher) :
    KeepsFaces none d.state.tabs (d.receive ev).2.state.tabs := by
  cases ev with
  | sessionExited session code endedAtMs =>
    refine keepsFaces_of_workspaces fun w hw => .inr ?_
    obtain ⟨ws, hws, rfl⟩ := List.mem_map.mp hw
    refine ⟨ws, hws, ?_⟩
    unfold Workspace.exitSession
    rw [tabs_resetAll, tabs_mapTabs]
    exact keepsFaces_map fun t x hx => sameFace_exitSession hx
  | sessionStartupTimeout session =>
    dsimp only [Dispatcher.receive]
    split
    · exact keepsFaces_of_subset fun _ h => h
    · refine keepsFaces_of_workspaces fun w hw => .inr ?_
      obtain ⟨ws, hws, rfl⟩ := List.mem_map.mp hw
      refine ⟨ws, hws, ?_⟩
      rw [tabs_mapTabs]
      exact keepsFaces_map fun t x hx => sameFace_startupTimeout session t

theorem setTerminal_session {kind : Option (Option String × Option SessionId ×
      Option (Option UInt32 × Option UInt64))} (h : t.kind.respawnable = kind)
    (hkind : kind.isSome) (session : Option SessionId) (status : TerminalStatus) :
    (t.setTerminal session status).session = session :=
  congrArg Cell.session (cell_setTerminal h hkind session status)

end FaceLemmas

open FaceLemmas BoardLemmas in
/-- An action other than a batch keeps what tabs show of their sessions. -/
theorem Stepped.faces {d d' : Dispatcher} {a : Action} (h : Stepped d a d')
    (hosc : ∀ batch nowMs, a ≠ .applyOsc batch nowMs) :
    ∃ fresh : Option SessionId, d'.spawned = d.spawned ++ fresh.toList ∧
      KeepsFaces fresh d.state.tabs d'.state.tabs := by
  cases h with
  | performed revision hperformed =>
    have hfaces := effect_faces hperformed.effect
    exact ⟨_, hperformed.spawned, hfaces⟩
  | failed hframe =>
    have hstate : d'.state = d.state := congrArg Prod.fst hframe
    refine ⟨none, ?_, keepsFaces_of_subset (hstate ▸ fun _ h => h)⟩
    rw [spawned_of_frame hframe, Option.toList_none, List.append_nil]
  | refused spawner tab =>
    exact ⟨none, (List.append_nil _).symm, keepsFaces_of_subset fun _ h => h⟩
  | @respawned spawner tab ws pos t session status _ h =>
    refine ⟨session, h.spawned, ?_⟩
    obtain ⟨p, hlookup⟩ := h.place
    obtain ⟨hws, -, ht⟩ := EffectLemmas.lookup_eq_some.mp hlookup
    refine keepsFaces_edited hws h.workspaces ?_
    refine keepsFaces_modifyPane fun q hq => keepsFaces_modify fun u x hu hx => .inl ?_
    rw [setTerminal_session rfl h.eligible] at hx
    exact hx
  | event ev revision =>
    refine ⟨none, ?_, receive_faces ev d⟩
    rw [Dispatcher.withRevision_spawned, Option.toList_none, List.append_nil, Dispatcher.spawned,
      host_receive]
    rfl
  | osc batch nowMs revision => exact absurd rfl (hosc batch nowMs)

/-! ## Reports -/

/-- The tab shows what a report said, and else what it showed before. -/
structure Tab.Hears (delta : OscDelta) (t t' : Tab) : Prop where
  session : t'.session = t.session
  title : t'.title = delta.title.getD t.title
  cwd : t'.cwd = delta.cwd.or t.cwd

/-- The slot of a session in a list of entries. -/
def slotOf (session : SessionId) (entries : List (SessionId × OscDelta)) : OscDelta :=
  ((entries.find? fun e => e.1 = session).map Prod.snd).getD .default

/-- All tabs of the panes of some workspaces. -/
def tabsIn (panes : List (OrdMap PaneId Pane)) : List Tab :=
  panes.flatMap fun panes => panes.values.flatMap Pane.tabs

namespace FaceLemmas

open BoardLemmas FlushLemmas

variable {s s' : AppState} {d : Dispatcher} {t t' t'' : Tab}

theorem tabs_eq (s : AppState) : s.tabs = tabsIn (s.workspaces.map Workspace.panes) := by
  unfold AppState.tabs tabsIn
  rw [List.flatMap_map]
  rfl

theorem tabsIn_coe (panes : List (OrdMap PaneId Pane)) : (tabsIn panes : Multiset Tab) =
    (panes : Multiset (OrdMap PaneId Pane)).bind fun m =>
      m.collect fun _ p => (p.tabs : Multiset Tab) := by
  simp only [tabsIn, OrdMap.collect, OrdMap.values, Multiset.coe_bind, List.flatMap_map]

/-- The tabs other than the one at a position, whatever that one becomes. -/
theorem exists_rest_tabs {panes : List (OrdMap PaneId Pane)} {pos : TabPos}
    {m : OrdMap PaneId Pane} {p : Pane} (hm : panes[pos.ws]? = some m)
    (hp : m.get? pos.pane = some p) (ht : p.tabs[pos.tab]? = some t) :
    ∃ rest : Multiset Tab, (tabsIn panes : Multiset Tab) = t ::ₘ rest ∧
      ∀ f, (tabsIn (editTab pos f panes) : Multiset Tab) = f t ::ₘ rest := by
  obtain ⟨tabs, htabs, -, hedit⟩ := ListEdit.exists_rest ht
  obtain ⟨others, hothers, hkeys⟩ := OrdMap.exists_rest hp
  obtain ⟨maps, hmaps, -, hmodify⟩ := ListEdit.exists_rest hm
  refine ⟨tabs + others.bind (fun e => (e.2.tabs : Multiset Tab)) +
    maps.bind fun m => m.collect fun _ p => (p.tabs : Multiset Tab), ?_, fun f => ?_⟩
  · rw [tabsIn_coe, hmaps, Multiset.cons_bind, OrdMap.collect, hothers, Multiset.cons_bind, htabs,
      Multiset.cons_add, Multiset.cons_add]
  · rw [tabsIn_coe, editTab, hmodify, Multiset.cons_bind, OrdMap.collect,
      OrdMap.modify_entries _ hothers hkeys, Multiset.cons_bind, hedit, Multiset.cons_add,
      Multiset.cons_add]

theorem hears_default : t.Hears .default t' ↔ t.SameFace t' :=
  ⟨fun h => ⟨h.session, h.title, h.cwd⟩, fun h => ⟨h.session, h.title, h.cwd⟩⟩

theorem hears_applyDelta {session : SessionId} (h : t.session = some session) (visible : Bool)
    (delta : OscDelta) (nowMs : UInt64) : t.Hears delta (t.applyDelta visible delta nowMs) := by
  obtain ⟨status, cwd, hkind⟩ := session_kind h
  rw [applyDelta_eq, hkind]
  refine ⟨?_, rfl, ?_⟩
  · rw [h]
    rfl
  · unfold Tab.cwd
    rw [hkind]
    rfl

/-- What one entry does to what the tabs show. -/
theorem applyEntry_faces (nowMs : UInt64) (entry : SessionId × OscDelta)
    (hnodup : d.state.held.Nodup) (ht' : t' ∈ (d.applyEntry nowMs entry).2.state.tabs)
    {x : SessionId} (hx : t'.session = some x) :
    ∃ t ∈ d.state.tabs, t.Hears (if x = entry.1 then entry.2 else .default) t' := by
  have hheard := applyEntry_heard nowMs entry d
  generalize (d.applyEntry nowMs entry).2.state = s' at hheard ht'
  have hpanes := panes_heard hheard
  cases hheard with
  | missed hpos =>
    have hne : x ≠ entry.1 := fun heq =>
      not_held_of_locate hpos (heq ▸ List.mem_filterMap.mpr ⟨t', ht', hx⟩)
    rw [if_neg hne]
    exact ⟨t', ht', hears_default.mpr (sameFace_refl t')⟩
  | @located pos ws p t hpos hlookup hsession =>
    obtain ⟨hws, hp, ht⟩ := EffectLemmas.lookup_eq_some.mp hlookup
    have hm : (d.state.workspaces.map Workspace.panes)[pos.ws]? = some ws.panes := by
      rw [List.getElem?_map, hws]
      rfl
    obtain ⟨rest, hall, hedit⟩ := exists_rest_tabs hm hp ht
    rw [← tabs_eq] at hall
    rw [tabs_eq, hpanes, hpos, Option.elim_some, ← Multiset.mem_coe, hedit, Multiset.mem_cons]
      at ht'
    have hmem : ∀ u, u ∈ d.state.tabs ↔ u = t ∨ u ∈ rest := fun u => by
      rw [← Multiset.mem_coe, hall, Multiset.mem_cons]
    rcases ht' with rfl | ht'
    · have hhears := hears_applyDelta hsession (d.state.shownAt pos) entry.2 nowMs
      have heq : x = entry.1 :=
        Option.some.inj (hx.symm.trans (hhears.session.trans hsession))
      rw [if_pos heq]
      exact ⟨t, (hmem t).mpr (.inl rfl), hhears⟩
    · have hne : x ≠ entry.1 := fun heq => by
        -- the session would be held twice
        have hheld : (d.state.held : Multiset SessionId) =
            entry.1 ::ₘ rest.filterMap Tab.session := by
          unfold AppState.held
          rw [← Multiset.filterMap_coe, hall, Multiset.filterMap_cons_some _ _ _ hsession]
        rw [← Multiset.coe_nodup, hheld, Multiset.nodup_cons] at hnodup
        exact hnodup.1 ((Multiset.mem_filterMap _ _).mpr ⟨t', ht', heq ▸ hx⟩)
      rw [if_neg hne]
      exact ⟨t', (hmem t').mpr (.inr ht'), hears_default.mpr (sameFace_refl t')⟩

theorem held_applyEntry (nowMs : UInt64) (entry : SessionId × OscDelta)
    (hnodup : d.state.held.Nodup) : (d.applyEntry nowMs entry).2.state.held.Nodup := by
  have hseats := heard_seats (applyEntry_heard nowMs entry d)
  rw [← Multiset.coe_nodup, held_coe, heldBy_of_seats hseats, ← held_coe, Multiset.coe_nodup]
  exact hnodup

theorem slotOf_cons (x : SessionId) (entry : SessionId × OscDelta)
    (entries : List (SessionId × OscDelta)) :
    slotOf x (entry :: entries) = if x = entry.1 then entry.2 else slotOf x entries := by
  unfold slotOf
  rw [List.find?_cons]
  by_cases h : entry.1 = x
  · rw [decide_eq_true h, if_pos h.symm]
    rfl
  · rw [decide_eq_false h, if_neg fun heq => h heq.symm]

theorem slotOf_not_mem {x : SessionId} {entries : List (SessionId × OscDelta)}
    (h : x ∉ entries.map Prod.fst) : slotOf x entries = .default := by
  unfold slotOf
  rw [List.find?_eq_none.mpr]
  · rfl
  · intro e he heq
    exact h (List.mem_map.mpr ⟨e, he, of_decide_eq_true heq⟩)

end FaceLemmas

open FaceLemmas in
/-- What a batch does to the title and the directory of a tab. -/
theorem faces_applyEntries (nowMs : UInt64) {entries : List (SessionId × OscDelta)}
    {d : Dispatcher} (hkeys : (entries.map Prod.fst).Nodup) (hnodup : d.state.held.Nodup)
    {t' : Tab} (ht' : t' ∈ (d.applyEntries nowMs entries).2.state.tabs) {x : SessionId}
    (hx : t'.session = some x) : ∃ t ∈ d.state.tabs, t.Hears (slotOf x entries) t' := by
  induction entries generalizing d with
  | nil => exact ⟨t', ht', hears_default.mpr (sameFace_refl t')⟩
  | cons entry entries ih =>
    obtain ⟨hnew, hkeys⟩ := List.nodup_cons.mp hkeys
    obtain ⟨t₁, ht₁, hlate⟩ := ih hkeys (held_applyEntry nowMs entry hnodup) ht'
    obtain ⟨t, ht, hfirst⟩ := applyEntry_faces nowMs entry hnodup ht₁ (hlate.session ▸ hx)
    refine ⟨t, ht, ?_⟩
    rw [slotOf_cons]
    by_cases heq : x = entry.1
    · rw [if_pos heq] at hfirst ⊢
      rw [slotOf_not_mem (heq ▸ hnew)] at hlate
      exact ⟨hlate.session.trans hfirst.session, hlate.title.trans hfirst.title,
        hlate.cwd.trans hfirst.cwd⟩
    · rw [if_neg heq] at hfirst ⊢
      refine ⟨hlate.session.trans hfirst.session, ?_, ?_⟩
      · rw [hlate.title, hfirst.title]
        rfl
      · rw [hlate.cwd, hfirst.cwd]
        rfl

end Mast
