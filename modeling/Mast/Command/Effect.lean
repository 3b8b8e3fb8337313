import Mast.Command.Run
import Mast.Structure.Tree

/-!
# What a command does

The effects of the commands, said once. `Edit` is what a command does to the
one workspace it is about, `Effect` what it does to the state. Both name the
ids a command allocated and the session it spawned (in its output) and the tabs
that went, whose sessions it killed. Every invariant of the state under commands
is proved from these two relations.

Results:
1. `execute_ok`: a command that succeeds has one of the effects.
2. `dispatch_ok`: the same for `dispatch`, which also counts the revision.
-/

namespace Mast

namespace CommandOutput

/-- The stable ids that a command reports, in the order it allocated them. -/
def ids : CommandOutput → List UInt64
  | workspaceCreated workspace pane tab _ =>
    workspace.val :: pane.val :: (tab.map TabId.val).toList
  | paneCreated pane split tab _ => pane.val :: split.val :: (tab.map TabId.val).toList
  | tabCreated tab _ => [tab.val]
  | done => []

/-- The session that a command reports. -/
def session : CommandOutput → Option SessionId
  | workspaceCreated _ _ _ session => session
  | paneCreated _ _ _ session => session
  | tabCreated _ session => session
  | done => none

end CommandOutput

/-- `ids` are the numbers that a counter at `n` hands out until it is at `n'`. -/
structure Allocated (n : UInt64) (ids : List UInt64) (n' : UInt64) : Prop where
  numbers : ids.map UInt64.toNat = List.range' n.toNat ids.length
  next : n'.toNat = n.toNat + ids.length

/-- The command closes the tab, but not its workspace. -/
def Command.Closes (ws : Workspace) (t : Tab) : Command → Prop
  | .closeTab tab => t.id = tab
  | .closePane pane => 1 < ws.panes.size ∧ ∃ p ∈ ws.panes.get? pane, t ∈ p.tabs
  | _ => False

instance (ws : Workspace) (t : Tab) (cmd : Command) : Decidable (cmd.Closes ws t) := by
  cases cmd <;> unfold Command.Closes <;> infer_instance

/-- The tabs that go are none, or those that the command closes. -/
def Command.Takes (cmd : Command) (ws : Workspace) (gone : List Tab) : Prop :=
  gone = [] ∨ ∀ tab, tab ∈ gone.map Tab.id ↔ ∃ t ∈ ws.tabs, t.id = tab ∧ cmd.Closes ws t

/-- What a command does to the workspace it is about: its output, the tabs that
go, the workspace before and after. `shown`: the workspace is on screen. -/
inductive Edit (shown : Bool) (ws : Workspace) :
    CommandOutput → List Tab → Workspace → Prop
  | rename (name : String) : Edit shown ws .done [] { ws with name }
  | focus {pane : PaneId} : pane ∈ ws.panes.keys →
      Edit shown ws .done [] { ws with activePane := pane }
  | resize (split : SplitId) {ratio : F64} : checkRatio ratio = .ok () →
      Edit shown ws .done [] { ws with layout := (ws.layout.setRatio split ratio).1 }
  | splitPane {pane newPane : PaneId} (direction : SplitDirection) {splitId : SplitId}
      {tab : Option Tab} {session : Option SessionId} : pane ∈ ws.panes.keys →
      (∀ t ∈ tab, t.Opened session) → (tab = none → session = none) →
      Edit shown ws (.paneCreated newPane splitId (tab.map Tab.id) session) []
        (ws.splitPane pane direction newPane splitId tab)
  | closePane {pane : PaneId} {removed : Pane} {ws' : Workspace} : 1 < ws.panes.size →
      ws.closePane pane = some (removed, ws') →
      Edit shown ws .done removed.tabs ws'
  | addTab {pane : PaneId} {t : Tab} {session : Option SessionId} : pane ∈ ws.panes.keys →
      t.Opened session → Edit shown ws (.tabCreated t.id session) [] (ws.addTab pane t)
  | activateTab {pane : PaneId} {p : Pane} {ti : Nat} {t : Tab} : ws.panes.get? pane = some p →
      p.tabs[ti]? = some t → Edit shown ws .done [] (ws.activateTab pane ti t.id)
  | closeTab {pane : PaneId} {p : Pane} {ti : Nat} {t : Tab} {ws' : Workspace} :
      ws.panes.get? pane = some p → p.tabs[ti]? = some t →
      ws.closeTab shown pane ti t.id = some ws' → Edit shown ws .done [t] ws'
  | viewer {pane : PaneId} {p : Pane} {ti : Nat} {t : Tab} (f : Tab → Tab) :
      ws.panes.get? pane = some p → p.tabs[ti]? = some t →
      (f t).id = t.id → (f t).notification = t.notification →
      t.kind.IsViewer → (f t).kind.Opened none →
      Edit shown ws .done [] (ws.modifyTab pane ti fun _ => f t)

/-- What a command does to the state. The revision is counted by `dispatch`. -/
inductive Effect (cmd : Command) (s : AppState) :
    CommandOutput → List Tab → AppState → Prop
  | edit {wi : Nat} {ws ws' : Workspace} {out : CommandOutput} {gone : List Tab} {n : UInt64} :
      s.workspaces[wi]? = some ws → Allocated s.nextId out.ids n →
      Edit (s.activeWorkspace = some ws.id) ws out gone ws' → cmd.Takes ws gone →
      Effect cmd s out gone
        { s with workspaces := s.workspaces.modify wi fun _ => ws', nextId := n }
  | create {workspace : WorkspaceId} {pane : PaneId} (name : String)
      (rootPath distro : Option String) {tab : Option Tab} {session : Option SessionId}
      {n : UInt64} : (∀ t ∈ tab, t.Opened session) → (tab = none → session = none) →
      Allocated s.nextId
        (CommandOutput.workspaceCreated workspace pane (tab.map Tab.id) session).ids n →
      Effect cmd s (.workspaceCreated workspace pane (tab.map Tab.id) session) []
        { s with
          workspaces := s.workspaces ++ [.create workspace name rootPath distro pane tab]
          activeWorkspace := some workspace
          nextId := n }
  | switch {wi : Nat} {ws : Workspace} : s.workspaces[wi]? = some ws →
      Effect cmd s .done []
        { s with
          workspaces := s.workspaces.modify wi fun _ => ws.clearVisibleUnread
          activeWorkspace := some ws.id }
  | close {wi : Nat} {ws : Workspace} : s.workspaces[wi]? = some ws →
      Effect cmd s .done ws.tabs
        (AppState.fallBack ws.id { s with workspaces := s.workspaces.eraseIdx wi })
  | move {workspaces : List Workspace} : workspaces.Perm s.workspaces →
      Effect cmd s .done [] { s with workspaces }

/-! ## Targets -/

namespace EffectLemmas

variable {s : AppState} {wi : Nat} {pos : TabPos} {ws : Workspace} {p : Pane} {t : Tab}

theorem wsIndex_ok {workspace : WorkspaceId} (h : s.wsIndex workspace = .ok wi) :
    ∃ ws, s.workspaces[wi]? = some ws ∧ ws.id = workspace := by
  unfold AppState.wsIndex at h
  split at h
  next i hi =>
    obtain rfl : i = wi := Except.ok.inj h
    obtain ⟨hlt, hid, _⟩ := List.findIdx?_eq_some_iff_getElem.mp hi
    exact ⟨_, List.getElem?_eq_getElem hlt, by simpa using hid⟩
  next => simp at h

theorem wsIndexOfPane_ok {pane : PaneId} (h : s.wsIndexOfPane pane = .ok wi) :
    ∃ ws, s.workspaces[wi]? = some ws ∧ pane ∈ ws.panes.keys := by
  unfold AppState.wsIndexOfPane at h
  split at h
  next i hi =>
    obtain rfl : i = wi := Except.ok.inj h
    obtain ⟨hlt, hmem, _⟩ := List.findIdx?_eq_some_iff_getElem.mp hi
    exact ⟨_, List.getElem?_eq_getElem hlt, OrdMap.contains_iff.mp hmem⟩
  next => simp at h

theorem lookup_eq_some : s.lookup pos = some (ws, p, t) ↔
    s.workspaces[pos.ws]? = some ws ∧ ws.panes.get? pos.pane = some p ∧
      p.tabs[pos.tab]? = some t := by
  simp [AppState.lookup, Option.bind_eq_some_iff]

/-- A tab that is found is there, and passes the test. -/
theorem findTab_eq_some {test : Tab → Bool} (h : s.findTab test = some pos) :
    ∃ ws p t, s.lookup pos = some (ws, p, t) ∧ test t = true := by
  obtain ⟨⟨ws, wi⟩, hws, hpane⟩ := List.exists_of_findSome?_eq_some h
  obtain ⟨⟨pane, p⟩, hp, htab⟩ := List.exists_of_findSome?_eq_some hpane
  obtain ⟨ti, hti, rfl⟩ := Option.map_eq_some_iff.mp htab
  obtain ⟨hlt, htest, _⟩ := List.findIdx?_eq_some_iff_getElem.mp hti
  refine ⟨ws, p, p.tabs[ti], lookup_eq_some.mpr ⟨?_, ?_, ?_⟩, htest⟩
  · exact List.mem_zipIdx_iff_getElem?.mp hws
  · exact OrdMap.get?_eq_some_iff.mpr hp
  · exact List.getElem?_eq_getElem hlt

theorem locateTab_ok {tab : TabId} (h : s.locateTab tab = .ok pos) :
    ∃ ws p t, s.lookup pos = some (ws, p, t) ∧ t.id = tab := by
  unfold AppState.locateTab at h
  split at h
  next i hi =>
    obtain rfl : i = pos := Except.ok.inj h
    obtain ⟨ws, p, t, hlookup, hid⟩ := findTab_eq_some hi
    exact ⟨ws, p, t, hlookup, by simpa using hid⟩
  next => simp at h

/-- An edit of a workspace is one of the list, at its place. -/
theorem modify_const {f : Workspace → Workspace} (h : s.workspaces[wi]? = some ws) :
    s.workspaces.modify wi f = s.workspaces.modify wi fun _ => f ws := by
  refine List.ext_getElem? fun j => ?_
  rw [List.getElem?_modify, List.getElem?_modify]
  by_cases hj : wi = j
  · subst hj
    simp [h]
  · simp [hj]

/-- An edit of a tab is one of its list, at its place. -/
theorem modifyTab_const {pane : PaneId} {ti : Nat} {f : Tab → Tab}
    (hp : ws.panes.get? pane = some p) (ht : p.tabs[ti]? = some t) :
    ws.modifyTab pane ti f = ws.modifyTab pane ti fun _ => f t := by
  have htabs : p.tabs.modify ti f = p.tabs.modify ti fun _ => f t := by
    refine List.ext_getElem? fun j => ?_
    rw [List.getElem?_modify, List.getElem?_modify]
    by_cases hj : ti = j
    · subst hj
      simp [ht]
    · simp [hj]
  unfold Workspace.modifyTab
  congr 1
  refine OrdMap.ext (List.map_congr_left fun e he => ?_)
  by_cases hk : e.1 = pane
  · have hpe : p = e.2 :=
      Option.some_inj.mp (hp.symm.trans (OrdMap.get?_eq_some_iff.mpr (hk ▸ he)))
    rw [if_pos hk, if_pos hk, ← hpe]
    dsimp only
    rw [htabs]
  · rw [if_neg hk, if_neg hk]

theorem insertionPoint_le {rest : List Workspace} {before : Option WorkspaceId} {place : Nat}
    (h : AppState.insertionPoint rest before = some place) : place ≤ rest.length := by
  cases before with
  | none => exact (Option.some_inj.mp h).ge
  | some target =>
    obtain ⟨hlt, _⟩ := List.findIdx?_eq_some_iff_getElem.mp h
    exact hlt.le

theorem setFirstRatio_found {split : SplitId} {ratio : F64} {l : List Workspace}
    (h : (AppState.setFirstRatio split ratio l).2 = true) :
    ∃ wi ws, l[wi]? = some ws ∧ (AppState.setFirstRatio split ratio l).1 =
      l.modify wi fun _ => { ws with layout := (ws.layout.setRatio split ratio).1 } := by
  induction l with
  | nil => simp [AppState.setFirstRatio] at h
  | cons ws l ih =>
    simp only [AppState.setFirstRatio] at h ⊢
    split at h
    next hf =>
      rw [if_pos hf]
      exact ⟨0, ws, rfl, rfl⟩
    next hf =>
      obtain ⟨wi, ws', hws', heq⟩ := ih h
      have hsame := SplitTree.setRatio_of_not_found (by simpa using hf)
      refine ⟨wi + 1, ws', hws', ?_⟩
      rw [if_neg hf, List.modify_succ_cons, heq, hsame]

theorem setFirstRatio_of_not_found {split : SplitId} {ratio : F64} {l : List Workspace}
    (h : (AppState.setFirstRatio split ratio l).2 = false) :
    (AppState.setFirstRatio split ratio l).1 = l := by
  induction l with
  | nil => rfl
  | cons ws l ih =>
    simp only [AppState.setFirstRatio] at h ⊢
    split at h
    · simp at h
    next hf =>
      have hsame := SplitTree.setRatio_of_not_found (by simpa using hf)
      rw [if_neg hf, ih h, hsame]

end EffectLemmas

/-! ## Commands that succeed -/

/-- What a command that succeeded did to the dispatcher. -/
structure Performed (cmd : Command) (d : Dispatcher) (out : CommandOutput) (gone : List Tab)
    (d' : Dispatcher) : Prop where
  effect : Effect cmd d.state out gone d'.state
  spawned : d'.spawned = d.spawned ++ out.session.toList
  killed : d'.killed = d.killed ++ gone.filterMap Tab.session
  started : d'.startedSessions = d.startedSessions

namespace EffectLemmas

open Exec Method Dispatcher

variable {d d' : Dispatcher} {cmd : Command} {out : CommandOutput} {spawner : Spawner}

/-- A command without calls on the host. -/
theorem performed_of_effect {s : AppState} (hout : out.session = none)
    (h : Effect cmd d.state out [] s) : Performed cmd d out [] { d with state := s } where
  effect := h
  spawned := by rw [hout]; exact (List.append_nil _).symm
  killed := (List.append_nil _).symm
  started := rfl

/-- An edit that allocates and closes nothing. -/
theorem effect_edit {s : AppState} {wi : Nat} {ws ws' : Workspace}
    (hws : s.workspaces[wi]? = some ws)
    (h : Edit (s.activeWorkspace = some ws.id) ws .done [] ws') :
    Effect cmd s .done [] { s with workspaces := s.workspaces.modify wi fun _ => ws' } :=
  .edit hws ⟨rfl, rfl⟩ h (.inl rfl)

theorem renameWorkspace_ok {workspace : WorkspaceId} {name : String}
    (h : run (renameWorkspace workspace name) d = (.ok out, d')) :
    ∃ gone, Performed (.renameWorkspace workspace name) d out gone d' := by
  simp only [renameWorkspace, run_bind_ok, run_check_ok, run_find_ok, run_modifyWorkspace_ok,
    run_pure_ok] at h
  obtain ⟨_, _, ⟨_, rfl⟩, wi, _, ⟨hwi, rfl⟩, _, _, rfl, rfl, rfl⟩ := h
  obtain ⟨ws, hws, _⟩ := wsIndex_ok hwi
  rw [modify_const hws]
  exact ⟨[], performed_of_effect rfl (effect_edit hws (.rename name))⟩

theorem focusPane_ok {pane : PaneId} (h : run (focusPane pane) d = (.ok out, d')) :
    ∃ gone, Performed (.focusPane pane) d out gone d' := by
  simp only [focusPane, run_bind_ok, run_find_ok, run_modifyWorkspace_ok, run_pure_ok] at h
  obtain ⟨wi, _, ⟨hwi, rfl⟩, _, _, rfl, rfl, rfl⟩ := h
  obtain ⟨ws, hws, hpane⟩ := wsIndexOfPane_ok hwi
  rw [modify_const hws]
  exact ⟨[], performed_of_effect rfl (effect_edit hws (.focus hpane))⟩

theorem switchWorkspace_ok {workspace : WorkspaceId}
    (h : run (switchWorkspace workspace) d = (.ok out, d')) :
    ∃ gone, Performed (.switchWorkspace workspace) d out gone d' := by
  simp only [switchWorkspace, run_bind_ok, run_find_ok, run_modifyWorkspace_ok, run_mutate_ok,
    run_pure_ok] at h
  obtain ⟨wi, _, ⟨hwi, rfl⟩, _, _, rfl, _, _, rfl, rfl, rfl⟩ := h
  obtain ⟨ws, hws, rfl⟩ := wsIndex_ok hwi
  rw [modify_const hws]
  exact ⟨[], performed_of_effect rfl (.switch hws)⟩

theorem closeWorkspace_ok {workspace : WorkspaceId}
    (h : run (closeWorkspace workspace) d = (.ok out, d')) :
    ∃ gone, Performed (.closeWorkspace workspace) d out gone d' := by
  simp only [closeWorkspace, run_bind_ok, run_find_ok, run_expect_ok, run_tell_ok, run_mutate_ok,
    run_pure_ok] at h
  obtain ⟨wi, _, ⟨hwi, rfl⟩, removed, _, ⟨hremoved, rfl⟩, _, _, rfl, _, _, rfl, _, _, rfl, rfl,
    rfl⟩ := h
  obtain ⟨ws, hws, rfl⟩ := wsIndex_ok hwi
  obtain rfl : ws = removed := Option.some_inj.mp (hws.symm.trans hremoved)
  exact ⟨_,
    { effect := .close hws
      spawned := by simp [Dispatcher.spawned, spawned_retireCalls, CommandOutput.session]
      killed := by simp [Dispatcher.killed, killed_retireCalls]
      started := rfl }⟩

theorem moveWorkspace_ok {workspace : WorkspaceId} {before : Option WorkspaceId}
    (h : run (moveWorkspace workspace before) d = (.ok out, d')) :
    ∃ gone, Performed (.moveWorkspace workspace before) d out gone d' := by
  simp only [moveWorkspace, run_bind_ok, run_find_ok] at h
  obtain ⟨origin, _, ⟨horigin, rfl⟩, h⟩ := h
  split at h
  · obtain ⟨rfl, rfl⟩ := run_pure_ok.mp h
    exact ⟨[], performed_of_effect rfl (.move (.refl _))⟩
  next hself =>
    simp only [run_bind_ok, run_find_ok, run_expect_ok, run_mutate_ok, run_pure_ok] at h
    obtain ⟨_, _, ⟨_, rfl⟩, moved, _, ⟨hmoved, rfl⟩, place, _, ⟨hplace, rfl⟩, _, _, rfl, rfl,
      rfl⟩ := h
    refine ⟨[], performed_of_effect rfl (.move ?_)⟩
    obtain ⟨rest, hlist, herase, _⟩ := ListEdit.exists_rest hmoved
    rw [← Multiset.coe_eq_coe, ListEdit.insertIdx_coe (insertionPoint_le hplace), herase, hlist]

theorem resizeSplit_ok {split : SplitId} {ratio : F64}
    (h : run (resizeSplit split ratio) d = (.ok out, d')) :
    ∃ gone, Performed (.resizeSplit split ratio) d out gone d' := by
  simp only [resizeSplit, run_bind_ok, run_check_ok, run_get_ok, run_mutate_ok, run_pure_ok] at h
  obtain ⟨_, _, ⟨hratio, rfl⟩, found, _, ⟨rfl, rfl⟩, _, _, rfl, _, _, ⟨hfound, rfl⟩, rfl,
    rfl⟩ := h
  split at hfound
  next hf =>
    obtain ⟨wi, ws, hws, heq⟩ := setFirstRatio_found hf
    rw [heq]
    exact ⟨[], performed_of_effect rfl (effect_edit hws (.resize split hratio))⟩
  next => simp at hfound

theorem activateTab_ok {tab : TabId} (h : run (activateTab tab) d = (.ok out, d')) :
    ∃ gone, Performed (.activateTab tab) d out gone d' := by
  simp only [activateTab, run_bind_ok, run_find_ok, run_modifyWorkspace_ok, run_pure_ok] at h
  obtain ⟨pos, _, ⟨hpos, rfl⟩, _, _, rfl, rfl, rfl⟩ := h
  obtain ⟨ws, p, t, hlookup, rfl⟩ := locateTab_ok hpos
  obtain ⟨hws, hp, ht⟩ := lookup_eq_some.mp hlookup
  rw [modify_const hws]
  exact ⟨[], performed_of_effect rfl (effect_edit hws (.activateTab hp ht))⟩

/-- A tab that a viewer command replaces by another viewer. -/
theorem performed_viewer {pos : TabPos} {ws : Workspace} {p : Pane} {t : Tab} (f : Tab → Tab)
    (hlookup : d.state.lookup pos = some (ws, p, t)) (hid : (f t).id = t.id)
    (hread : (f t).notification = t.notification) (hkind : t.kind.IsViewer)
    (hkind' : (f t).kind.Opened none) :
    Performed cmd d .done [] { d with state := { d.state with
      workspaces := d.state.workspaces.modify pos.ws fun ws =>
        ws.modifyTab pos.pane pos.tab f } } := by
  obtain ⟨hws, hp, ht⟩ := lookup_eq_some.mp hlookup
  rw [modify_const hws, modifyTab_const hp ht]
  exact performed_of_effect rfl (effect_edit hws (.viewer f hp ht hid hread hkind hkind'))

theorem navigateFolder_ok {tab : TabId} {path : String}
    (h : run (navigateFolder tab path) d = (.ok out, d')) :
    ∃ gone, Performed (.navigateFolder tab path) d out gone d' := by
  simp only [navigateFolder, run_bind_ok, run_find_ok, run_check_ok, run_expect_ok,
    run_modifyWorkspace_ok, run_pure_ok] at h
  obtain ⟨_, _, ⟨_, rfl⟩, pos, _, ⟨_, rfl⟩, ⟨ws, p, t⟩, _, ⟨hlookup, rfl⟩, kind, _, ⟨hkind, rfl⟩,
    _, _, rfl, rfl, rfl⟩ := h
  dsimp only at hkind
  cases hold : t.kind with
  | folderBrowser old =>
    obtain rfl : TabKind.folderBrowser path = kind := by
      simpa [hold, TabKind.navigate, TabKind.orMismatch] using hkind
    exact ⟨[], performed_viewer (fun t => { t with
      kind := .folderBrowser path, title := pathTitle path }) hlookup rfl rfl
      (hold ▸ trivial) (.folderBrowser path)⟩
  | _ => simp [hold, TabKind.navigate, TabKind.orMismatch] at hkind

theorem isFinite_of_checkScroll {scrollTop : F64} (h : checkScroll scrollTop = .ok ()) :
    scrollTop.isFinite = true := by
  unfold checkScroll at h
  split at h
  next hok => exact (Bool.and_eq_true_iff.mp hok).1
  next => cases h

theorem setViewerScroll_ok {tab : TabId} {scrollTop : F64}
    (h : run (setViewerScroll tab scrollTop) d = (.ok out, d')) :
    ∃ gone, Performed (.setViewerScroll tab scrollTop) d out gone d' := by
  simp only [setViewerScroll, run_bind_ok, run_find_ok, run_check_ok, run_expect_ok,
    run_modifyWorkspace_ok, run_pure_ok] at h
  obtain ⟨_, _, ⟨hscroll, rfl⟩, pos, _, ⟨_, rfl⟩, ⟨ws, p, t⟩, _, ⟨hlookup, rfl⟩,
    kind, _, ⟨hkind, rfl⟩, _, _, rfl, rfl, rfl⟩ := h
  have hfinite := isFinite_of_checkScroll hscroll
  dsimp only at hkind
  cases hold : t.kind with
  | textViewer path old =>
    obtain rfl : TabKind.textViewer path scrollTop = kind := by
      simpa [hold, TabKind.scroll, TabKind.orMismatch] using hkind
    exact ⟨[], performed_viewer (fun t => { t with kind := .textViewer path scrollTop }) hlookup
      rfl rfl (hold ▸ trivial) (.textViewer path hfinite)⟩
  | markdownViewer path old =>
    obtain rfl : TabKind.markdownViewer path scrollTop = kind := by
      simpa [hold, TabKind.scroll, TabKind.orMismatch] using hkind
    exact ⟨[], performed_viewer (fun t => { t with kind := .markdownViewer path scrollTop })
      hlookup rfl rfl (hold ▸ trivial) (.markdownViewer path hfinite)⟩
  | _ => simp [hold, TabKind.scroll, TabKind.orMismatch] at hkind

theorem mem_tabs {ws : Workspace} {pane : PaneId} {p : Pane} {t : Tab}
    (hp : ws.panes.get? pane = some p) (ht : t ∈ p.tabs) : t ∈ ws.tabs :=
  List.mem_flatMap.mpr ⟨p, OrdMap.mem_values.mpr ⟨pane, OrdMap.get?_eq_some_iff.mp hp⟩, ht⟩

theorem takes_closePane {ws : Workspace} {pane : PaneId} {p : Pane} (hsize : 1 < ws.panes.size)
    (hp : ws.panes.get? pane = some p) : (Command.closePane pane).Takes ws p.tabs := by
  refine .inr fun tab => ?_
  rw [List.mem_map]
  constructor
  · rintro ⟨t, ht, rfl⟩
    exact ⟨t, mem_tabs hp ht, rfl, hsize, p, hp, ht⟩
  · rintro ⟨t, _, rfl, _, q, hq, ht⟩
    obtain rfl : p = q := Option.some_inj.mp (hp.symm.trans hq)
    exact ⟨t, ht, rfl⟩

theorem takes_closeTab {ws : Workspace} {pane : PaneId} {p : Pane} {ti : Nat} {t : Tab}
    (hp : ws.panes.get? pane = some p) (ht : p.tabs[ti]? = some t) :
    (Command.closeTab t.id).Takes ws [t] := by
  refine .inr fun tab => ?_
  rw [List.map_singleton, List.mem_singleton]
  constructor
  · rintro rfl
    exact ⟨t, mem_tabs hp (List.mem_of_getElem? ht), rfl, rfl⟩
  · rintro ⟨u, _, rfl, hu⟩
    exact hu

theorem closePane_get? {ws ws' : Workspace} {pane : PaneId} {removed : Pane}
    (h : ws.closePane pane = some (removed, ws')) : ws.panes.get? pane = some removed := by
  obtain ⟨⟨q, ws₁⟩, hcollapse, heq⟩ := Option.map_eq_some_iff.mp h
  obtain ⟨rfl, rfl⟩ := Prod.mk.inj heq
  unfold Workspace.collapsePane at hcollapse
  dsimp only at hcollapse
  split at hcollapse
  next q' _ hq _ =>
    rw [hq, (Prod.mk.inj (Option.some_inj.mp hcollapse)).1]
  next => simp at hcollapse

theorem closePane_ok {pane : PaneId} (h : run (closePane pane) d = (.ok out, d')) :
    ∃ gone, Performed (.closePane pane) d out gone d' := by
  simp only [closePane, run_bind_ok, run_find_ok, run_check_ok, run_expect_ok, run_tell_ok,
    run_modifyWorkspace_ok, run_pure_ok] at h
  obtain ⟨wi, _, ⟨hwi, rfl⟩, ws, _, ⟨hws, rfl⟩, _, _, ⟨hsize, rfl⟩, ⟨removed, ws'⟩, _,
    ⟨hclose, rfl⟩, _, _, rfl, _, _, rfl, rfl, rfl⟩ := h
  split at hsize
  · simp at hsize
  next hlast =>
    exact ⟨_,
      { effect := .edit hws ⟨rfl, rfl⟩ (.closePane (Nat.lt_of_not_le hlast) hclose)
          (takes_closePane (Nat.lt_of_not_le hlast) (closePane_get? hclose))
        spawned := by simp [Dispatcher.spawned, spawned_retireCalls, CommandOutput.session]
        killed := by simp [Dispatcher.killed, killed_retireCalls]
        started := rfl }⟩

theorem closeTab_ok {tab : TabId} (h : run (closeTab tab) d = (.ok out, d')) :
    ∃ gone, Performed (.closeTab tab) d out gone d' := by
  simp only [closeTab, run_bind_ok, run_find_ok, run_expect_ok, run_tell_ok,
    run_modifyWorkspace_ok, run_pure_ok] at h
  obtain ⟨pos, _, ⟨hpos, rfl⟩, ⟨ws, p, t⟩, _, ⟨hlookup, rfl⟩, ws', _, ⟨hclose, rfl⟩, _, _, rfl,
    _, _, rfl, rfl, rfl⟩ := h
  obtain ⟨ws₁, p₁, t₁, hlookup₁, rfl⟩ := locateTab_ok hpos
  obtain ⟨rfl, rfl, rfl⟩ : ws = ws₁ ∧ p = p₁ ∧ t = t₁ := by
    simpa using hlookup.symm.trans hlookup₁
  obtain ⟨hws, hp, ht⟩ := lookup_eq_some.mp hlookup
  exact ⟨_,
    { effect := .edit hws ⟨rfl, rfl⟩ (.closeTab hp ht hclose) (takes_closeTab hp ht)
      spawned := by simp [Dispatcher.spawned, spawned_retireCalls, CommandOutput.session]
      killed := by
        cases hsession : t.session <;> simp [Dispatcher.killed, killed_retireCalls, hsession]
      started := rfl }⟩

/-! ### Commands that allocate -/

theorem placeTab_ok {prepared : PreparedTab} {t : Tab}
    (h : run (placeTab prepared) d = (.ok t, d')) :
    t = prepared.intoTab ⟨d.state.nextId⟩ ∧ ∃ n, n.toNat = d.state.nextId.toNat + 1 ∧
      d' = { d with state := { d.state with nextId := n } } := by
  simp only [placeTab, run_bind_ok, run_allocId_ok, run_pure_ok] at h
  obtain ⟨id, _, ⟨rfl, n, hn, rfl⟩, rfl, rfl⟩ := h
  exact ⟨rfl, n, hn, rfl⟩

theorem id_intoTab (prepared : PreparedTab) (id : TabId) : (prepared.intoTab id).id = id := by
  cases prepared <;> rfl

/-- The optional tab of a command: it is opened with the session that was
spawned for it, under the next id. -/
structure Placed (n : UInt64) (prepared : Option PreparedTab) (tab : Option Tab) (n' : UInt64) :
    Prop where
  ids : Allocated n (tab.map fun t => t.id.val).toList n'
  opened : (∀ p ∈ prepared, ∀ id, (p.intoTab id).Opened p.session) →
    ∀ t ∈ tab, t.Opened (prepared.bind PreparedTab.session)
  none : tab = none → prepared.bind PreparedTab.session = none

theorem placeOptional_ok {prepared : Option PreparedTab} {tab : Option Tab}
    (h : run (placeOptional prepared) d = (.ok tab, d')) :
    ∃ n, Placed d.state.nextId prepared tab n ∧
      d' = { d with state := { d.state with nextId := n } } := by
  cases prepared with
  | none =>
    obtain ⟨rfl, rfl⟩ := run_pure_ok.mp h
    exact ⟨_, ⟨⟨rfl, rfl⟩, by simp, fun _ => rfl⟩, rfl⟩
  | some p =>
    simp only [placeOptional, run_bind_ok, run_pure_ok] at h
    obtain ⟨t, _, ht, rfl, rfl⟩ := h
    obtain ⟨rfl, n, hn, rfl⟩ := placeTab_ok ht
    exact ⟨n, ⟨⟨by simp [id_intoTab], hn⟩, fun hopen => by simpa using hopen p rfl _, by simp⟩, rfl⟩

/-- Ids handed out one after another. -/
theorem allocated_cons {n n₁ n' : UInt64} {ids : List UInt64} (hn : n₁.toNat = n.toNat + 1)
    (h : Allocated n₁ ids n') : Allocated n (n :: ids) n' where
  numbers := by
    rw [List.map_cons, h.numbers, List.length_cons, List.range'_succ, hn]
  next := by
    rw [h.next, hn, List.length_cons]
    omega

theorem createWorkspace_ok {name : String} {rootPath distro : Option String}
    {tab : Option NewTab}
    (h : run (createWorkspace spawner name rootPath distro tab) d = (.ok out, d')) :
    ∃ gone, Performed (.createWorkspace name rootPath distro tab) d out gone d' := by
  simp only [createWorkspace, run_bind_ok, run_check_ok, run_peekId_ok, run_allocId_ok,
    run_mutate_ok, run_pure_ok] at h
  obtain ⟨_, _, ⟨_, rfl⟩, _, _, ⟨_, rfl⟩, prepared, d₁, hprepared, workspace, _,
    ⟨rfl, n₁, hn₁, rfl⟩, pane, _, ⟨rfl, n₂, hn₂, rfl⟩, placed, _, hplaced, _, _, rfl, rfl, rfl⟩ := h
  obtain ⟨hhost, hopens⟩ := prepareOptional_ok hprepared
  obtain ⟨n, hp, rfl⟩ := placeOptional_ok hplaced
  refine ⟨[],
    { effect := ?_
      spawned := hhost.spawned
      killed := hhost.killed.trans (List.append_nil _).symm
      started := hhost.started }⟩
  dsimp only
  rw [hhost.state] at hn₁ ⊢
  refine .create name rootPath distro (hp.opened hopens) hp.none ?_
  refine allocated_cons hn₁ (allocated_cons hn₂ ?_)
  simpa [Function.comp_def] using hp.ids

theorem splitPane_ok {pane : PaneId} {direction : SplitDirection} {tab : Option NewTab}
    (h : run (splitPane spawner pane direction tab) d = (.ok out, d')) :
    ∃ gone, Performed (.splitPane pane direction tab) d out gone d' := by
  simp only [splitPane, run_bind_ok, run_find_ok, run_expect_ok, run_peekId_ok, run_allocId_ok,
    run_modifyWorkspace_ok, run_pure_ok] at h
  obtain ⟨wi, _, ⟨hwi, rfl⟩, ws, _, ⟨hws, rfl⟩, _, _, ⟨_, rfl⟩, prepared, d₁, hprepared, newPane, _,
    ⟨rfl, n₁, hn₁, rfl⟩, splitId, _, ⟨rfl, n₂, hn₂, rfl⟩, placed, _, hplaced, _, _, rfl, rfl,
    rfl⟩ := h
  obtain ⟨ws₁, hws₁, hpane⟩ := wsIndexOfPane_ok hwi
  obtain rfl : ws = ws₁ := Option.some_inj.mp (hws.symm.trans hws₁)
  obtain ⟨hhost, hopens⟩ := prepareOptional_ok hprepared
  obtain ⟨n, hp, rfl⟩ := placeOptional_ok hplaced
  refine ⟨[],
    { effect := ?_
      spawned := hhost.spawned
      killed := hhost.killed.trans (List.append_nil _).symm
      started := hhost.started }⟩
  dsimp only
  rw [hhost.state] at hn₁ ⊢
  rw [modify_const hws]
  refine .edit hws ?_ (.splitPane direction hpane (hp.opened hopens) hp.none) (.inl rfl)
  refine allocated_cons hn₁ (allocated_cons hn₂ ?_)
  simpa [Function.comp_def] using hp.ids

theorem createTab_ok {pane : PaneId} {tab : NewTab}
    (h : run (createTab spawner pane tab) d = (.ok out, d')) :
    ∃ gone, Performed (.createTab pane tab) d out gone d' := by
  simp only [createTab, run_bind_ok, run_find_ok, run_expect_ok, run_peekId_ok,
    run_modifyWorkspace_ok, run_pure_ok] at h
  obtain ⟨wi, _, ⟨hwi, rfl⟩, ws, _, ⟨hws, rfl⟩, _, _, ⟨_, rfl⟩, prepared, d₁, hprepared, placed, _,
    hplaced, _, _, rfl, rfl, rfl⟩ := h
  obtain ⟨ws₁, hws₁, hpane⟩ := wsIndexOfPane_ok hwi
  obtain rfl : ws = ws₁ := Option.some_inj.mp (hws.symm.trans hws₁)
  have hprepares := prepareTabWith_ok hprepared
  obtain ⟨rfl, n, hn, rfl⟩ := placeTab_ok hplaced
  refine ⟨[],
    { effect := ?_
      spawned := hprepares.host.spawned
      killed := hprepares.host.killed.trans (List.append_nil _).symm
      started := hprepares.host.started }⟩
  dsimp only
  rw [hprepares.host.state] at hn ⊢
  rw [modify_const hws]
  refine .edit hws ?_ (.addTab hpane (hprepares.opens _)) (.inl rfl)
  rw [CommandOutput.ids, id_intoTab]
  exact allocated_cons hn ⟨rfl, rfl⟩

end EffectLemmas

open EffectLemmas in
/-- A command that succeeds has one of the effects. -/
theorem execute_ok {spawner : Spawner} {cmd : Command} {out : CommandOutput} {d d' : Dispatcher}
    (h : Exec.run (Dispatcher.execute spawner cmd) d = (.ok out, d')) :
    ∃ gone, Performed cmd d out gone d' := by
  cases cmd with
  | createWorkspace name rootPath distro tab => exact createWorkspace_ok h
  | switchWorkspace workspace => exact switchWorkspace_ok h
  | closeWorkspace workspace => exact closeWorkspace_ok h
  | renameWorkspace workspace name => exact renameWorkspace_ok h
  | moveWorkspace workspace before => exact moveWorkspace_ok h
  | focusPane pane => exact focusPane_ok h
  | splitPane pane direction tab => exact splitPane_ok h
  | resizeSplit split ratio => exact resizeSplit_ok h
  | closePane pane => exact closePane_ok h
  | createTab pane tab => exact createTab_ok h
  | activateTab tab => exact activateTab_ok h
  | closeTab tab => exact closeTab_ok h
  | navigateFolder tab path => exact navigateFolder_ok h
  | setViewerScroll tab scrollTop => exact setViewerScroll_ok h

/-- The same for `dispatch`, which also counts the revision. -/
theorem dispatch_ok {spawner : Spawner} {cmd : Command} {out : CommandOutput} {d d' : Dispatcher}
    (h : Exec.run (Dispatcher.dispatch spawner cmd) d = (.ok out, d')) :
    ∃ gone d₁ revision, Performed cmd d out gone d₁ ∧
      revision.toNat = d₁.state.revision.toNat + 1 ∧
      d' = { d₁ with state := { d₁.state with revision } } := by
  simp only [Dispatcher.dispatch, Exec.run_bind_ok, Method.run_bumpRevision_ok,
    Method.run_pure_ok] at h
  obtain ⟨_, d₁, hrun, _, _, ⟨r, hr, rfl⟩, rfl, rfl⟩ := h
  obtain ⟨gone, hperformed⟩ := execute_ok hrun
  exact ⟨gone, d₁, r, hperformed, hr, rfl⟩

end Mast
