import Mast.Persist.Restore

/-!
# What a load accepts

Any bytes may be in the file, and any document may parse from them. A state that is
restored is a legal start of the dispatcher in everything that the load checks or resets.
It does not compare the id that a pane carries with the key that it is stored under.

Results:
1. `load_legalStart_iff`: a restored state is a legal start just when every pane in the
   file is stored under its own id.
-/

namespace Mast

open Json

/-- Every pane is stored under its own id. -/
def AppState.PanesKeyed (s : AppState) : Prop :=
  ∀ ws ∈ s.workspaces, ∀ e ∈ ws.panes.entries, e.2.id = e.1

/-- What a load checks or resets, with `removed` the unknown tabs that it dropped. -/
structure AppState.Checked (removed : List RemovedUnknownTab) (s : AppState) : Prop where
  leaves_nodup : ∀ ws ∈ s.workspaces, ws.layout.leaves.Nodup
  leaves_keys : ∀ ws ∈ s.workspaces, ∀ pane, pane ∈ ws.layout.leaves ↔ pane ∈ ws.panes.keys
  ratios : ∀ ws ∈ s.workspaces, ∀ r ∈ ws.layout.ratios,
    r.isFinite = true ∧ 0 < r.value ∧ r.value < 1
  activePane : ∀ ws ∈ s.workspaces, ws.activePane ∈ ws.panes.keys
  activeTab : ∀ ws ∈ s.workspaces, ∀ e ∈ ws.panes.entries, ∀ tab ∈ e.2.activeTab,
    ∃ t ∈ e.2.tabs, t.id = tab
  ids_nodup : s.ids.Nodup
  active : ∀ id ∈ s.activeWorkspace, ∃ ws ∈ s.workspaces, ws.id = id
  ids_lt : ∀ id ∈ s.ids, id < s.nextId
  removed_lt : ∀ tab ∈ removed, tab.id < s.nextId
  sessions : ∀ t ∈ s.tabs, t.session = none
  started : ∀ t ∈ s.tabs, ∀ ptySession cwd, t.kind ≠ .terminal ptySession .notStarted cwd
  read : ∀ t ∈ s.tabs, t.notification = .none
  idle : ∀ ws ∈ s.workspaces, ws.agentStatus = .idle ∧ ws.agentStatusSource = none

/-- A legal start of the dispatcher. -/
structure AppState.LegalStart (removed : List RemovedUnknownTab) (s : AppState) : Prop where
  checked : s.Checked removed
  keyed : s.PanesKeyed

namespace AcceptLemmas

open ReachableLemmas RestoreLemmas LoadLemmas

variable {s : AppState}

/-! ## Panes and their keys -/

theorem keyed_mapValues {m : OrdMap PaneId Pane} {f : Pane → Pane} (hf : ∀ p, (f p).id = p.id) :
    (∀ e ∈ (m.mapValues f).entries, e.2.id = e.1) ↔ ∀ e ∈ m.entries, e.2.id = e.1 := by
  show (∀ e ∈ m.entries.map fun e => (e.1, f e.2), e.2.id = e.1) ↔ _
  rw [List.forall_mem_map]
  exact forall₂_congr fun e _ => by rw [hf]

theorem panesKeyed_map {f : Pane → Pane} (hf : ∀ p, (f p).id = p.id) {g : Workspace → Workspace}
    (hg : ∀ ws, (g ws).panes = ws.panes.mapValues f) {s' : AppState}
    (h : s'.workspaces = s.workspaces.map g) : s'.PanesKeyed ↔ s.PanesKeyed := by
  rw [AppState.PanesKeyed, h, List.forall_mem_map]
  exact forall₂_congr fun ws _ => by rw [hg, keyed_mapValues hf]

theorem panesKeyed_sanitized : s.sanitized.PanesKeyed ↔ s.PanesKeyed :=
  panesKeyed_map (f := fun p => { p with tabs := p.tabs.map Tab.sanitize }) (fun _ => rfl)
    (fun _ => rfl) rfl

theorem panesKeyed_removeUnknownTabs {removed : List RemovedUnknownTab} :
    (removeUnknownTabs s removed).PanesKeyed ↔ s.PanesKeyed := by
  unfold removeUnknownTabs
  split
  · exact Iff.rfl
  · exact panesKeyed_map (f := Pane.removeTabs (removed.map RemovedUnknownTab.id)) (fun _ => rfl)
      (fun _ => rfl) rfl

/-! ## What is reset -/

theorem sanitize_kind (t : Tab) : t.sanitize.session = none ∧
    ∀ ptySession cwd, t.sanitize.kind ≠ .terminal ptySession .notStarted cwd := by
  cases hkind : t.kind with
  | terminal ptySession status cwd =>
    cases status <;> simp [Tab.sanitize, Tab.session, TabKind.sanitize, hkind]
  | _ => simp [Tab.sanitize, Tab.session, TabKind.sanitize, hkind]

theorem sanitized_tab (h : Restored s) {t : Tab} (ht : t ∈ s.tabs) :
    ∃ t₀ : Tab, t = t₀.sanitize := by
  obtain ⟨ws, hws, ht⟩ := List.mem_flatMap.mp ht
  obtain ⟨ws₀, rfl⟩ := h.sanitized ws hws
  obtain ⟨p, hp, ht⟩ := List.mem_flatMap.mp ht
  obtain ⟨e, he, rfl⟩ := List.mem_map.mp hp
  obtain ⟨e₀, -, rfl⟩ := List.mem_map.mp he
  obtain ⟨t₀, -, rfl⟩ := List.mem_map.mp ht
  exact ⟨t₀, rfl⟩

theorem id_le_maxId {removed : List RemovedUnknownTab} {tab : RemovedUnknownTab}
    (h : tab ∈ removed) : tab.id ≤ s.maxId (removed.map RemovedUnknownTab.id).max? := by
  have hmem : tab.id ∈ removed.map RemovedUnknownTab.id := List.mem_map_of_mem h
  refine le_trans ?_ (le_max_right _ _)
  cases hmax : (removed.map RemovedUnknownTab.id).max? with
  | none => simp [List.max?_eq_none_iff.mp hmax] at hmem
  | some m => exact (List.max?_eq_some_iff.mp hmax).2 _ hmem

theorem checked_of_restored (h : Restored s) {removed : List RemovedUnknownTab}
    (hremoved : ∀ tab ∈ removed, tab.id < s.nextId) : s.Checked removed where
  leaves_nodup ws hws := (h.legal.valid ws hws).leaves_nodup
  leaves_keys ws hws := (h.legal.valid ws hws).leaves_keys
  ratios ws hws r hr := SplitTree.ratioInvalid_eq_false_iff.mp ((h.legal.valid ws hws).ratios r hr)
  activePane ws hws := (h.legal.valid ws hws).activePane
  activeTab ws hws e he tab htab :=
    List.mem_map.mp ((h.legal.valid ws hws).panes e he tab htab)
  ids_nodup := h.legal.ids_nodup
  active := h.legal.active
  ids_lt := h.legal.ids_lt
  removed_lt := hremoved
  sessions t ht := by
    obtain ⟨t₀, rfl⟩ := sanitized_tab h ht
    exact (sanitize_kind t₀).1
  started t ht := by
    obtain ⟨t₀, rfl⟩ := sanitized_tab h ht
    exact (sanitize_kind t₀).2
  read t ht := by
    obtain ⟨t₀, rfl⟩ := sanitized_tab h ht
    rfl
  idle ws hws := by
    obtain ⟨ws₀, rfl⟩ := h.sanitized ws hws
    exact ⟨rfl, rfl⟩

end AcceptLemmas

open AcceptLemmas RestoreLemmas LoadLemmas in
/-- Whatever is in the file and however it is parsed and deserialised: a state that is
restored passes every check, and it is a legal start just when every pane in the file is
stored under its own id. -/
theorem load_legalStart_iff {fromSlice : List UInt8 → Option Value}
    {fromValue : Value → Option PersistedState} {file : FileContent} {s : AppState}
    {repairs : List Repair} (h : load fromSlice fromValue file = .restored s repairs) :
    ∃ bytes document persisted, file = .bytes bytes ∧ fromSlice bytes = some document ∧
      fromValue (replaceUnknownTabKinds document).1 = some persisted ∧
      s.Checked (replaceUnknownTabKinds document).2 ∧
      (s.LegalStart (replaceUnknownTabKinds document).2 ↔ persisted.state.PanesKeyed) := by
  obtain ⟨bytes, document, hfile, hdocument, hload⟩ := load_restored.mp h
  obtain ⟨-, persisted, hpersisted, hrestore⟩ := loadDocument_restored.mp hload
  obtain ⟨-, -, sanitized, hsanitize, -⟩ := restore_ok_iff.mp hrestore
  obtain ⟨hs, hlt⟩ := sanitize_ok_spec hsanitize
  have hchecked : s.Checked (replaceUnknownTabKinds document).2 :=
    checked_of_restored (ReachableLemmas.restore_ok hrestore) fun tab htab =>
      (id_le_maxId htab).trans_lt hlt
  have hkeyed : s.PanesKeyed ↔ persisted.state.PanesKeyed := by
    rw [hs]
    exact panesKeyed_sanitized.trans panesKeyed_removeUnknownTabs
  exact ⟨bytes, document, persisted, hfile, hdocument, hpersisted, hchecked,
    fun hlegal => hkeyed.mp hlegal.keyed, fun hfile => ⟨hchecked, hkeyed.mpr hfile⟩⟩

/-- A workspace whose one pane is stored under 2 and carries an id of its own. -/
def onePane (id : PaneId) : AppState where
  workspaces :=
    [{ id := ⟨1⟩, name := "w", rootPath := none, distro := none, gitBranch := none
       gitDirty := none, layout := .leaf ⟨2⟩, panes := .singleton ⟨2⟩ ⟨id, [], none⟩
       activePane := ⟨2⟩, agentStatus := .idle, lastAgentMessage := none
       agentStatusSource := none }]
  activeWorkspace := some ⟨1⟩
  nextId := 3
  revision := 0

/-- The text of a file with that state. -/
def onePaneText (id : String) : List UInt8 := String.toUTF8
  ("\x7b\"version\":1,\"state\":\x7b\"workspaces\":[\x7b\"id\":1,\"name\":\"w\"," ++
    "\"rootPath\":null,\"distro\":null,\"gitBranch\":null,\"gitDirty\":null," ++
    "\"layout\":\x7b\"type\":\"leaf\",\"pane\":2\x7d,\"panes\":\x7b\"2\":\x7b\"id\":" ++ id ++
    ",\"tabs\":[],\"activeTab\":null\x7d\x7d,\"activePane\":2,\"agentStatus\":\"idle\"," ++
    "\"lastAgentMessage\":null\x7d],\"activeWorkspace\":1,\"nextId\":3," ++
    "\"revision\":0\x7d\x7d") |>.toList

/-- What that text parses to. -/
def onePaneDocument (id : PaneId) : Value := PersistedState.toValue ⟨persistVersion, onePane id⟩

theorem load_legalStart_iff_keyed : (onePane ⟨2⟩).LegalStart [] := by
  have hload : load (fun _ => some (onePaneDocument ⟨2⟩)) PersistedState.fromValue
      (.bytes (onePaneText "2")) = .restored (onePane ⟨2⟩) [] := by decide +kernel
  obtain ⟨bytes, document, persisted, -, hdocument, hpersisted, -, hiff⟩ :=
    load_legalStart_iff hload
  obtain rfl : onePaneDocument ⟨2⟩ = document := Option.some_inj.mp hdocument
  have hread : PersistedState.fromValue (replaceUnknownTabKinds (onePaneDocument ⟨2⟩)).1 =
      some ⟨persistVersion, onePane ⟨2⟩⟩ := by decide +kernel
  have hremoved : (replaceUnknownTabKinds (onePaneDocument ⟨2⟩)).2 = [] := by decide +kernel
  obtain rfl := Option.some_inj.mp (hread.symm.trans hpersisted)
  rw [hremoved] at hiff
  exact hiff.mpr (by simp [AppState.PanesKeyed, onePane, OrdMap.singleton])

/-- A pane that is stored under 2 and carries the id 9 is accepted. -/
theorem not_load_legalStart :
    load (fun _ => some (onePaneDocument ⟨9⟩)) PersistedState.fromValue
      (.bytes (onePaneText "9")) = .restored (onePane ⟨9⟩) [] ∧
    ∀ removed, ¬ (onePane ⟨9⟩).LegalStart removed := by
  refine ⟨by decide +kernel, fun removed h => ?_⟩
  have hkeyed := h.keyed _ List.mem_cons_self _ List.mem_cons_self
  exact absurd hkeyed (by decide)

end Mast
