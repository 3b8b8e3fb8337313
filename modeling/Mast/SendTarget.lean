import Mast.Board.Batch

/-!
# The isolation of agents

An agent names the session it sends text to by a tab id or by a part of a title.
Three functions agree on what it can reach: the listing of tabs, the resolution
by id and the resolution by title; and none of them looks beyond the workspace of
the agent.

Results:
1. `parseTabIdTarget_idTarget`: the printed id of a tab names that tab.
2. `resolve_ok`: a target that resolves names one running terminal of the
   workspace.
3. `locateSession_set`: other workspaces do not decide where an agent is.
4. `send_targets_isolated`: the agreement and the isolation.
-/

namespace Mast

/-- The target that names a tab by its id. -/
def idTarget (tab : UInt64) : String := "#" ++ toString tab.toNat

/-- The workspace of the agent that runs in a session. -/
def AppState.ownWorkspace (s : AppState) (agent : SessionId) : Option Workspace :=
  (s.workspaceIndexOfSession agent).bind fun wi => s.workspaces[wi]?

/-- A running terminal tab, whose session is not the sender. -/
structure Tab.Accepts (sender session : SessionId) (t : Tab) : Prop where
  holds : t.session = some session
  running : t.terminalStatus = some .running
  other : session ≠ sender

/-- The target names the tab: by its id, or by a part of its title. -/
def Tab.Named (lower : String → String) (target : String) (t : Tab) : Prop :=
  match parseTabIdTarget target with
  | some tab => t.id = tab
  | none => (lower target).toList <:+: (lower t.title).toList

/-- A state in which one workspace was replaced. -/
def AppState.replaceWorkspace (s : AppState) (wi : Nat) (ws : Workspace) : AppState :=
  { s with workspaces := s.workspaces.set wi ws }

namespace SendTargetLemmas

open BatchLemmas LegalLemmas

variable {s : AppState} {ws : Workspace} {lower : String → String} {sender session : SessionId}
  {target : String} {tab : TabId} {t u : Tab}

/-! ## Ids as text -/

/-- The printed id of a tab names that tab. -/
theorem parseTabIdTarget_idTarget (tab : UInt64) :
    parseTabIdTarget (idTarget tab) = some ⟨tab⟩ := by
  have hchars : (idTarget tab).toList = '#' :: Nat.toDigits 10 tab.toNat := by
    simp [idTarget, ToString.toString, Nat.repr]
  have hdigits : (Nat.toDigits 10 tab.toNat).all Char.isDigit = true :=
    List.all_eq_true.mpr fun c hc => Nat.isDigit_of_mem_toDigits (by decide) (by decide) hc
  have hlt : tab.toNat < 2 ^ 64 := tab.toNat_lt
  simpa [parseTabIdTarget, hchars, hdigits, Nat.toDigits_ne_nil, Nat.ofDigitChars_ten_toDigits]
    using hlt

/-! ## Resolution -/

theorem runningSession_eq_some :
    t.runningSession = some session ↔
      t.session = some session ∧ t.terminalStatus = some .running := by
  unfold Tab.runningSession Tab.session Tab.terminalStatus
  cases hk : t.kind with
  | terminal held status cwd => cases held <;> cases status <;> simp
  | _ => simp

theorem mem_tabs_of_own (h : s.ownWorkspace sender = some ws) (ht : t ∈ ws.tabs) : t ∈ s.tabs := by
  obtain ⟨wi, _, hws⟩ := Option.bind_eq_some_iff.mp h
  exact mem_state_tabs hws ht

/-- The agent runs in its own workspace. -/
theorem own_holds (h : s.ownWorkspace sender = some ws) :
    ∃ t ∈ ws.tabs, t.session = some sender := by
  obtain ⟨wi, hwi, hws⟩ := Option.bind_eq_some_iff.mp h
  obtain ⟨pos, hpos, rfl⟩ := Option.map_eq_some_iff.mp hwi
  obtain ⟨ws', p, t, hlookup, hsession⟩ := EffectLemmas.findTab_eq_some hpos
  obtain ⟨hws', hp, ht⟩ := EffectLemmas.lookup_eq_some.mp hlookup
  obtain rfl : ws = ws' := Option.some_inj.mp (hws.symm.trans hws')
  exact ⟨t, EffectLemmas.mem_tabs hp (List.mem_of_getElem? ht), by simpa using hsession⟩

theorem resolveById_ok (h : ws.resolveSendTargetById sender tab = .ok session) :
    ∃ t ∈ ws.tabs, t.Accepts sender session ∧ t.id = tab := by
  unfold Workspace.resolveSendTargetById at h
  split at h
  next t ht =>
    have hid : t.id = tab := by simpa using List.find?_some ht
    split at h
    next held hheld =>
      split at h
      · cases h
      next hne =>
        cases h
        obtain ⟨hholds, hrunning⟩ := runningSession_eq_some.mp hheld
        exact ⟨t, List.mem_of_find?_eq_some ht, ⟨hholds, hrunning, hne⟩, hid⟩
    next => cases h
  next => cases h

/-- A tab that accepts text is resolved by its id. -/
theorem resolveById_of_accepts (hs : s.Legal) (hown : s.ownWorkspace sender = some ws)
    (ht : t ∈ ws.tabs) (h : t.Accepts sender session) :
    ws.resolveSendTargetById sender t.id = .ok session := by
  have hfind : ws.tabs.find? (fun u => u.id = t.id) = some t := by
    cases hu : ws.tabs.find? fun u => u.id = t.id with
    | none => simpa using List.find?_eq_none.mp hu t ht
    | some u =>
      have hid : u.id = t.id := by simpa using List.find?_some hu
      have hmem := mem_tabs_of_own hown (List.mem_of_find?_eq_some hu)
      rw [tab_unique hs hmem (mem_tabs_of_own hown ht) hid]
  have hrunning := runningSession_eq_some.mpr ⟨h.holds, h.running⟩
  simp [Workspace.resolveSendTargetById, hfind, hrunning, h.other]

/-- The session that the title search finds in a tab. -/
def titleMatch (lower : String → String) (sender : SessionId) (needle : String) (t : Tab) :
    Option SessionId :=
  match t.runningSession with
  | some session =>
    if session = sender ∨ ¬ needle.toList <:+: (lower t.title).toList then none else some session
  | none => none

theorem titleMatch_eq_some {needle : String} : titleMatch lower sender needle t = some session ↔
    t.Accepts sender session ∧ needle.toList <:+: (lower t.title).toList := by
  have haccepts : t.Accepts sender session ↔
      t.runningSession = some session ∧ session ≠ sender := by
    rw [runningSession_eq_some]
    exact ⟨fun h => ⟨⟨h.holds, h.running⟩, h.other⟩, fun h => ⟨h.1.1, h.1.2, h.2⟩⟩
  rw [haccepts]
  unfold titleMatch
  cases t.runningSession with
  | none => simp
  | some held =>
    dsimp only
    by_cases hheld : held = session
    · subst hheld
      split
      next h => exact iff_of_false (by simp) fun ⟨⟨_, hne⟩, hinfix⟩ => h.elim hne (absurd hinfix)
      next h =>
        exact iff_of_true rfl ⟨⟨rfl, fun heq => h (.inl heq)⟩, not_not.mp fun hn => h (.inr hn)⟩
    · split <;> simp [hheld]

theorem resolveByTitle_ok (h : ws.resolveSendTargetByTitle lower sender target = .ok session) :
    ∃ t ∈ ws.tabs, t.Accepts sender session ∧ (lower target).toList <:+: (lower t.title).toList ∧
      ∀ u ∈ ws.tabs, ∀ other, u.Accepts sender other →
        (lower target).toList <:+: (lower u.title).toList → u = t := by
  have hmatches : ws.titleMatches lower sender (lower target) =
      ws.tabs.filterMap (titleMatch lower sender (lower target)) := rfl
  unfold Workspace.resolveSendTargetByTitle at h
  split at h
  · cases h
  next only honly =>
    obtain rfl := Except.ok.inj h
    rw [hmatches] at honly
    have hmem : only ∈ ws.tabs.filterMap (titleMatch lower sender (lower target)) := by
      rw [honly]
      exact List.mem_singleton_self only
    obtain ⟨t, ht, hfound⟩ := List.mem_filterMap.mp hmem
    obtain ⟨haccepts, hinfix⟩ := titleMatch_eq_some.mp hfound
    refine ⟨t, ht, haccepts, hinfix, fun u hu other hother hinfix' => ?_⟩
    -- a second tab would give a second match
    have hfound' := titleMatch_eq_some.mpr ⟨hother, hinfix'⟩
    have hmem' := List.mem_filterMap.mpr ⟨u, hu, hfound'⟩
    rw [honly, List.mem_singleton] at hmem'
    subst hmem'
    refine ListEdit.filterMap_unique ?_ hu ht hfound' hfound
    rw [honly]
    exact List.nodup_singleton other
  · cases h

/-- A target that resolves names one running terminal of the workspace. -/
theorem resolve_ok (hs : s.Legal) (h : s.resolveSendTarget lower sender target = .ok session) :
    ∃ ws, s.ownWorkspace sender = some ws ∧ ∃ t ∈ ws.tabs, t.Accepts sender session ∧
      t.Named lower target ∧
      ∀ u ∈ ws.tabs, ∀ other, u.Accepts sender other → u.Named lower target → u = t := by
  unfold AppState.resolveSendTarget at h
  split at h
  · cases h
  next ws hown =>
    have hown : s.ownWorkspace sender = some ws := hown
    refine ⟨ws, hown, ?_⟩
    unfold Tab.Named
    cases htab : parseTabIdTarget target with
    | some tab =>
      rw [htab] at h
      obtain ⟨t, ht, haccepts, hid⟩ := resolveById_ok h
      refine ⟨t, ht, haccepts, hid, fun u hu _ _ hu' => ?_⟩
      exact tab_unique hs (mem_tabs_of_own hown hu) (mem_tabs_of_own hown ht) (hu'.trans hid.symm)
    | none =>
      rw [htab] at h
      exact resolveByTitle_ok h

/-- A tab that accepts text is reached by its id. -/
theorem resolve_idTarget (hs : s.Legal) (hown : s.ownWorkspace sender = some ws)
    (ht : t ∈ ws.tabs) (h : t.Accepts sender session) :
    s.resolveSendTarget lower sender (idTarget t.id.val) = .ok session := by
  have hfound : (s.workspaceIndexOfSession sender).bind (fun wi => s.workspaces[wi]?) =
      some ws := hown
  simp only [AppState.resolveSendTarget, hfound, parseTabIdTarget_idTarget]
  exact resolveById_of_accepts hs hown ht h

/-! ## Listing -/

theorem mem_listTabs {info : TabInfo} : info ∈ s.listTabs sender ↔
    ∃ ws, s.ownWorkspace sender = some ws ∧ info ∈ ws.listTabs := by
  have hlist : s.listTabs sender = (s.ownWorkspace sender).elim [] Workspace.listTabs := by
    unfold AppState.listTabs AppState.ownWorkspace
    split
    next h => rw [h]; rfl
    next h => rw [h]; rfl
  rw [hlist]
  cases s.ownWorkspace sender <;> simp

/-- The entry of a tab. -/
theorem exists_entry (ht : t ∈ ws.tabs) : ∃ info ∈ ws.listTabs, info.tab = t.id.val ∧
    (info.kind, info.status) = t.kind.describe := by
  obtain ⟨p, hp, ht⟩ := List.mem_flatMap.mp ht
  refine ⟨_, List.mem_flatMap.mpr ⟨p, hp, List.mem_map_of_mem ht⟩, rfl, rfl⟩

/-- The tab of an entry. -/
theorem exists_tab {info : TabInfo} (h : info ∈ ws.listTabs) : ∃ t ∈ ws.tabs,
    info.tab = t.id.val ∧ (info.kind, info.status) = t.kind.describe := by
  obtain ⟨p, hp, h⟩ := List.mem_flatMap.mp h
  obtain ⟨t, ht, rfl⟩ := List.mem_map.mp h
  exact ⟨t, List.mem_flatMap.mpr ⟨p, hp, ht⟩, rfl, rfl⟩

theorem describe_running :
    t.kind.describe = ("terminal", "running") ↔ t.terminalStatus = some .running := by
  unfold Tab.terminalStatus
  cases hk : t.kind with
  | terminal session status cwd => cases status <;> simp [TabKind.describe]
  | _ => simp [TabKind.describe]

/-! ## Isolation -/

/-- Another workspace does not decide where an agent is. -/
theorem locateSession_set {wi : Nat} (hother : s.workspaceIndexOfSession sender ≠ some wi)
    (hws : ∀ t ∈ ws.tabs, t.session ≠ some sender) :
    (s.replaceWorkspace wi ws).locateSession sender = s.locateSession sender := by
  refine ListEdit.findSome?_set TabPos.ws (fun w n pos h => ?_) ?_ fun pos hpos hwi => ?_
  · obtain ⟨⟨pane, p⟩, _, hti⟩ := List.exists_of_findSome?_eq_some h
    obtain ⟨ti, _, rfl⟩ := Option.map_eq_some_iff.mp hti
    rfl
  · refine List.findSome?_eq_none_iff.mpr fun ⟨pane, p⟩ hp => Option.map_eq_none_iff.mpr ?_
    refine List.findIdx?_eq_none_iff.mpr fun t ht => ?_
    have hmem := EffectLemmas.mem_tabs (OrdMap.get?_eq_some_iff.mpr hp) ht
    simpa using hws t hmem
  · have hlocate : s.locateSession sender = some pos := hpos
    exact hother (by rw [AppState.workspaceIndexOfSession, hlocate, Option.map_some, hwi]; rfl)

theorem ownWorkspace_set {wi : Nat} (hother : s.workspaceIndexOfSession sender ≠ some wi)
    (hws : ∀ t ∈ ws.tabs, t.session ≠ some sender) :
    (s.replaceWorkspace wi ws).ownWorkspace sender = s.ownWorkspace sender := by
  have hindex : (s.replaceWorkspace wi ws).workspaceIndexOfSession sender =
      s.workspaceIndexOfSession sender := by
    rw [AppState.workspaceIndexOfSession, locateSession_set hother hws]
    rfl
  unfold AppState.ownWorkspace
  rw [hindex]
  cases hown : s.workspaceIndexOfSession sender with
  | none => rfl
  | some wj =>
    have hne : wi ≠ wj := fun heq => hother (hown.trans (congrArg some heq.symm))
    exact List.getElem?_set_ne hne

/-- Both queries read the workspace of the agent only. -/
theorem queries_congr {s' : AppState} (h : s'.ownWorkspace sender = s.ownWorkspace sender) :
    (∀ target, s'.resolveSendTarget lower sender target =
      s.resolveSendTarget lower sender target) ∧ s'.listTabs sender = s.listTabs sender := by
  have h : (s'.workspaceIndexOfSession sender).bind (fun wi => s'.workspaces[wi]?) =
      (s.workspaceIndexOfSession sender).bind fun wi => s.workspaces[wi]? := h
  refine ⟨fun target => ?_, ?_⟩
  · rw [AppState.resolveSendTarget, AppState.resolveSendTarget, h]
  · rw [AppState.listTabs, AppState.listTabs, h]

end SendTargetLemmas

open SendTargetLemmas in
/-- An agent reaches what it is shown, and nothing outside of its workspace. A
target resolves only to a running terminal of the workspace, other than the
sender, that no second tab answers to; the running terminals of the listing are
reached by their ids, and no other id is; and another workspace may be replaced by
any that does not hold the sender. -/
theorem send_targets_isolated {d : Dispatcher} (h : Dispatcher.machine.Reach Dispatcher.Start d)
    (lower : String → String) (sender : SessionId) :
    (∀ target session, d.state.resolveSendTarget lower sender target = .ok session →
      ∃ ws, d.state.ownWorkspace sender = some ws ∧ (∃ t ∈ ws.tabs, t.session = some sender) ∧
        ∃ t ∈ ws.tabs, t.Accepts sender session ∧ t.Named lower target ∧
          ∀ u ∈ ws.tabs, ∀ other, u.Accepts sender other → u.Named lower target → u = t) ∧
    (∀ info ∈ d.state.listTabs sender, info.kind = "terminal" → info.status = "running" →
      ∀ t ∈ d.state.tabs, t.id.val = info.tab → ∀ session, t.session = some session →
        session ≠ sender →
          d.state.resolveSendTarget lower sender (idTarget info.tab) = .ok session) ∧
    (∀ target tab session, parseTabIdTarget target = some tab →
      d.state.resolveSendTarget lower sender target = .ok session →
        ∃ info ∈ d.state.listTabs sender, info.tab = tab.val ∧ info.kind = "terminal" ∧
          info.status = "running") ∧
    ∀ wi ws, d.state.workspaceIndexOfSession sender ≠ some wi →
      (∀ t ∈ ws.tabs, t.session ≠ some sender) →
      (∀ target, (d.state.replaceWorkspace wi ws).resolveSendTarget lower sender target =
        d.state.resolveSendTarget lower sender target) ∧
      (d.state.replaceWorkspace wi ws).listTabs sender = d.state.listTabs sender := by
  have hl := legal_of_reach h
  refine ⟨fun target session hok => ?_, fun info hinfo hkind hstatus t ht hid session hs hne => ?_,
    fun target tab session htab hok => ?_, fun wi ws hother hws => ?_⟩
  · obtain ⟨ws, hown, hrest⟩ := resolve_ok hl hok
    exact ⟨ws, hown, own_holds hown, hrest⟩
  · obtain ⟨ws, hown, hinfo⟩ := mem_listTabs.mp hinfo
    obtain ⟨u, hu, hutab, hudescribe⟩ := exists_tab hinfo
    -- the entry is the one of the tab
    have hsame : t = u := by
      refine BatchLemmas.tab_unique hl ht (mem_tabs_of_own hown hu) ?_
      exact congrArg TabId.mk (hid.trans hutab)
    subst hsame
    rw [hkind, hstatus] at hudescribe
    rw [hutab]
    exact resolve_idTarget hl hown hu ⟨hs, describe_running.mp hudescribe.symm, hne⟩
  · obtain ⟨ws, hown, t, ht, haccepts, hnamed, _⟩ := resolve_ok hl hok
    rw [Tab.Named, htab] at hnamed
    obtain ⟨info, hinfo, hid, hdescribe⟩ := exists_entry ht
    rw [describe_running.mpr haccepts.running] at hdescribe
    obtain ⟨hkind, hstatus⟩ := Prod.mk.inj hdescribe
    exact ⟨info, mem_listTabs.mpr ⟨ws, hown, hinfo⟩, hid.trans (congrArg TabId.val hnamed), hkind,
      hstatus⟩
  · exact queries_congr (ownWorkspace_set hother hws)

/-- The second terminal of a workspace is reached by its id. -/
theorem send_targets_isolated_sibling :
    (Dispatcher.machine.run Dispatcher.new twoTerminalsTrace).state.resolveSendTarget
      String.toLower 7 (idTarget 4) = .ok 8 := by
  have hreach : Dispatcher.machine.Reach Dispatcher.Start
      (Dispatcher.machine.run Dispatcher.new twoTerminalsTrace) :=
    .of_trace (.init (.inl rfl)) twoTerminalsTrace (by decide)
  exact (send_targets_isolated hreach String.toLower 7).2.1
    ⟨4, "Terminal", 1, "w", 2, true, "terminal", "running"⟩ (by decide) rfl rfl
    ⟨⟨4⟩, "Terminal", .terminal (some 8) .running none, .none, none⟩ (by decide) rfl 8 rfl
    (by decide)

end Mast
