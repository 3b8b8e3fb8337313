import Mast.Persist.Finite

/-!
# What is saved is loaded

The state that a run reached is written to the file and loaded when the process starts
again. Nothing about it is found corrupt and nothing is repaired: what the load demands is
what the dispatcher keeps. The state that comes back is the saved one but for what
belonged to the last process, and from then on saving and loading change nothing.

Results:
1. `replaceUnknownTabKinds_toValue`: in a document that was written every kind is known.
2. `load_of_legal`: a state that could have been reached is loaded as it was saved.
3. `load_saveAtomic`: a state that was reached comes back with its resets, and then stays.
-/

namespace Mast

open Json Json.Value

/-! ## The resets -/

/-- A terminal comes back without its session and without a start warning; a viewer comes
back as it is. -/
inductive TabKind.Reset : TabKind → TabKind → Prop
  | warned (session : Option SessionId) (cwd : Option String) :
      Reset (.terminal session .notStarted cwd) (.terminal none .running cwd)
  | terminal (session : Option SessionId) {status : TerminalStatus} (cwd : Option String) :
      status ≠ .notStarted → Reset (.terminal session status cwd) (.terminal none status cwd)
  | viewer {kind : TabKind} : kind.IsViewer → Reset kind kind

structure Tab.Reset (t t' : Tab) : Prop where
  id : t'.id = t.id
  title : t'.title = t.title
  kind : t.kind.Reset t'.kind
  notification : t'.notification = .none
  lastActivityMs : t'.lastActivityMs = none

structure Pane.Reset (p p' : Pane) : Prop where
  id : p'.id = p.id
  tabs : List.Forall₂ Tab.Reset p.tabs p'.tabs
  activeTab : p'.activeTab = p.activeTab

structure Workspace.Reset (ws ws' : Workspace) : Prop where
  id : ws'.id = ws.id
  name : ws'.name = ws.name
  rootPath : ws'.rootPath = ws.rootPath
  distro : ws'.distro = ws.distro
  gitBranch : ws'.gitBranch = ws.gitBranch
  gitDirty : ws'.gitDirty = ws.gitDirty
  layout : ws'.layout = ws.layout
  panes : List.Forall₂ (fun e e' => e'.1 = e.1 ∧ e.2.Reset e'.2) ws.panes.entries ws'.panes.entries
  activePane : ws'.activePane = ws.activePane
  agentStatus : ws'.agentStatus = .idle
  lastAgentMessage : ws'.lastAgentMessage = none
  agentStatusSource : ws'.agentStatusSource = none

/-- The second state is the first one but for what belonged to the last process. -/
structure AppState.Reset (s s' : AppState) : Prop where
  workspaces : List.Forall₂ Workspace.Reset s.workspaces s'.workspaces
  activeWorkspace : s'.activeWorkspace = s.activeWorkspace
  nextId : s'.nextId = s.nextId
  revision : s'.revision = s.revision

/-- The text that is written for a state parses to its document. -/
def TextRoundTrips (fromSlice : List UInt8 → Option Value)
    (toVecPretty : PersistedState → List UInt8) (s : AppState) : Prop :=
  fromSlice (toVecPretty ⟨persistVersion, s⟩) = some (PersistedState.toValue ⟨persistVersion, s⟩)

namespace RoundTripLemmas

open ReachableLemmas RestoreLemmas LoadLemmas DocumentLemmas JsonLemmas FiniteLemmas

variable {s : AppState}

/-! ## What a restore resets -/

theorem reset_tabKind (kind : TabKind) : kind.Reset kind.sanitize := by
  cases kind with
  | terminal session status cwd =>
    cases status with
    | notStarted => exact .warned session cwd
    | running => exact .terminal session cwd (by decide)
    | exited code endedAtMs => exact .terminal session cwd TerminalStatus.noConfusion
  | _ => exact .viewer trivial

theorem reset_tab (t : Tab) : t.Reset t.sanitize where
  id := rfl
  title := rfl
  kind := reset_tabKind t.kind
  notification := rfl
  lastActivityMs := rfl

theorem forall₂_map {α : Type} {R : α → α → Prop} {f : α → α} (hf : ∀ a, R a (f a)) (l : List α) :
    List.Forall₂ R l (l.map f) :=
  List.forall₂_map_right_iff.mpr (List.forall₂_same.mpr fun a _ => hf a)

theorem reset_workspace (ws : Workspace) : ws.Reset ws.sanitize where
  id := rfl
  name := rfl
  rootPath := rfl
  distro := rfl
  gitBranch := rfl
  gitDirty := rfl
  layout := rfl
  panes := forall₂_map (fun _ => ⟨rfl, ⟨rfl, forall₂_map reset_tab _, rfl⟩⟩) _
  activePane := rfl
  agentStatus := rfl
  lastAgentMessage := rfl
  agentStatusSource := rfl

theorem reset_sanitized (s : AppState) : s.Reset s.sanitized where
  workspaces := forall₂_map reset_workspace _
  activeWorkspace := rfl
  nextId := rfl
  revision := rfl

/-! ## A second reset -/

theorem sanitize_sanitize (t : Tab) : t.sanitize.sanitize = t.sanitize := by
  have hkind : t.kind.sanitize.sanitize = t.kind.sanitize := by
    cases t.kind with
    | terminal session status cwd => cases status <;> rfl
    | _ => rfl
  simp [Tab.sanitize, hkind]

theorem sanitized_sanitized (s : AppState) : s.sanitized.sanitized = s.sanitized := by
  have hpanes (ws : Workspace) : ws.sanitize.sanitize = ws.sanitize := by
    have htabs : (ws.mapTabs Tab.sanitize).mapTabs Tab.sanitize = ws.mapTabs Tab.sanitize := by
      have hentry (e : PaneId × Pane) : e.2.tabs.map (Tab.sanitize ∘ Tab.sanitize) =
          e.2.tabs.map Tab.sanitize := List.map_congr_left fun t _ => sanitize_sanitize t
      refine congrArg (fun panes => { ws with panes }) (OrdMap.ext ?_)
      simp [Workspace.mapTabs, OrdMap.mapValues, hentry]
    exact congrArg (fun w : Workspace => { w with
      agentStatus := .idle, agentStatusSource := none, lastAgentMessage := none }) htabs
  simp [AppState.sanitized, hpanes]

/-! ## A document that was written -/

theorem replaceTabKind_toValue (t : Tab) : replaceTabKind t.toValue = (t.toValue, []) := by
  have hkind : t.toValue.get "kind" = some t.kind.toValue := by
    simp [Tab.toValue, get_ofFields, List.lookup_cons]
  have hknown : unknownKind t.toValue = none := by
    rw [unknownKind, hkind]
    cases t.kind <;>
      simp [TabKind.toValue, get_ofFields, asString, isKnownTabKind]
  rw [replaceTabKind, hknown]

theorem eachTab_toValue (p : Pane) : eachTab replaceTabKind p.toValue = (p.toValue, []) := by
  refine atField_unchanged fun v hv => ?_
  have htabs : p.toValue.get "tabs" = some (.array (p.tabs.map Tab.toValue)) := by
    simp [Pane.toValue, get_ofFields, List.lookup_cons]
  obtain rfl := Option.some_inj.mp (htabs.symm.trans hv)
  refine eachItem_unchanged fun v hv => ?_
  obtain ⟨t, -, rfl⟩ := List.mem_map.mp hv
  exact replaceTabKind_toValue t

/-- Every kind in a document that was written is known. -/
theorem replaceUnknownTabKinds_toValue (p : PersistedState) :
    replaceUnknownTabKinds p.toValue = (p.toValue, []) := by
  show eachPane (eachTab replaceTabKind) p.toValue = (p.toValue, [])
  unfold eachPane
  refine atField_unchanged fun v hv => ?_
  have hstate : p.toValue.get "state" = some p.state.toValue := by
    simp [PersistedState.toValue, get_ofFields, List.lookup_cons]
  obtain rfl := Option.some_inj.mp (hstate.symm.trans hv)
  refine atField_unchanged fun v hv => ?_
  have hlist : p.state.toValue.get "workspaces" =
      some (.array (p.state.workspaces.map Workspace.toValue)) := by
    simp [AppState.toValue, get_ofFields]
  obtain rfl := Option.some_inj.mp (hlist.symm.trans hv)
  refine eachItem_unchanged fun v hv => ?_
  obtain ⟨ws, -, rfl⟩ := List.mem_map.mp hv
  refine atField_unchanged fun v hv => ?_
  have hpanes : ws.toValue.get "panes" =
      some (.ofFields (ws.panes.entries.map fun e => (e.1.toKey, e.2.toValue))) := by
    cases hsource : ws.agentStatusSource <;>
      simp [Workspace.toValue, hsource, get_ofFields, List.lookup_cons]
  obtain rfl := Option.some_inj.mp (hpanes.symm.trans hv)
  refine eachField_unchanged fun e he => ?_
  obtain ⟨e, -, rfl⟩ := List.mem_map.mp (OrdMap.mem_of_mem_ofList he)
  exact eachTab_toValue e.2

/-! ## Loading what was saved -/

theorem validateApp_of_legal (h : s.Legal) : validateApp s = .ok () :=
  validateApp_eq_ok_iff.mpr ⟨h.ids_nodup, h.valid, h.active⟩

theorem maxUsedId_lt (h : s.Legal) (hpos : 0 < s.nextId) : s.maxId none < s.nextId := by
  refine max_lt ?_ hpos
  have hfold : ∀ (l : List UInt64) (m : UInt64), m < s.nextId → (∀ id ∈ l, id < s.nextId) →
      l.foldl max m < s.nextId := by
    intro l
    induction l with
    | nil => exact fun m hm _ => hm
    | cons id l ih =>
      intro m hm hl
      refine ih _ (max_lt hm (hl id List.mem_cons_self)) fun id hid => ?_
      exact hl id (List.mem_cons_of_mem _ hid)
  exact hfold s.ids 0 hpos h.ids_lt

/-- A legal state passes the checks of a load, and needs no repair. -/
theorem restore_of_legal (h : s.Legal) (hpos : 0 < s.nextId) :
    restore s [] = .ok (s.sanitized, []) :=
  restore_ok_iff.mpr ⟨validateApp_of_legal h, validateApp_of_legal h, [],
    sanitize_of_lt (maxUsedId_lt h hpos), rfl⟩

/-- A legal state with finite numbers is loaded as it was saved, but for the resets. -/
theorem load_of_legal {fromSlice : List UInt8 → Option Value}
    {toVecPretty : PersistedState → List UInt8} (h : s.Legal) (hpos : 0 < s.nextId)
    (hfinite : s.Finite) (htext : TextRoundTrips fromSlice toVecPretty s) :
    load fromSlice PersistedState.fromValue (saveAtomic toVecPretty s) =
      .restored s.sanitized [] := by
  have hkinds := replaceUnknownTabKinds_toValue ⟨persistVersion, s⟩
  have hread : PersistedState.fromValue (PersistedState.toValue ⟨persistVersion, s⟩) =
      some ⟨persistVersion, s⟩ := by
    refine fromValue_toValue (fun ws hws r hr => ?_) (finite_iff.mp hfinite)
    exact (SplitTree.ratioInvalid_eq_false_iff.mp ((h.valid ws hws).ratios r hr)).1
  refine load_restored.mpr ⟨_, _, rfl, htext, ?_⟩
  refine loadDocument_restored.mpr ⟨?_, ⟨persistVersion, s⟩, ?_⟩
  · simp [PersistedState.toValue, get_ofFields]
  · rw [hkinds]
    exact ⟨hread, restore_of_legal h hpos⟩

theorem legal_sanitized (h : s.Legal) : s.sanitized.Legal := by
  have hsame : SameShape s s.sanitized := by
    refine ⟨?_, rfl, rfl⟩
    rw [AppState.sanitized, List.map_map]
    exact List.map_congr_left fun ws _ => shape_sanitize ws
  exact hsame.legal h

/-! ## The counter -/

theorem nextId_effect {s' : AppState} {cmd : Command} {out : CommandOutput} {gone : List Tab}
    (h : Effect cmd s out gone s') (hpos : 0 < s.nextId) : 0 < s'.nextId := by
  have hallocated {ids : List UInt64} {n : UInt64} (hids : Allocated s.nextId ids n) : 0 < n := by
    have hnext := hids.next
    rw [UInt64.lt_iff_toNat_lt] at hpos ⊢
    omega
  cases h with
  | edit hws hids hedit htakes => exact hallocated hids
  | create name rootPath distro hopened hnone hids => exact hallocated hids
  | switch hws => exact hpos
  | close hws =>
    unfold AppState.fallBack
    split
    · exact hpos
    · exact hpos
  | move hperm => exact hpos

theorem nextId_of_reach {d : Dispatcher} (h : Dispatcher.machine.Reach Dispatcher.Start d) :
    0 < d.state.nextId := by
  refine h.invariant (I := fun d => 0 < d.state.nextId) (fun d hd => ?_) fun d a _ hpos ha => ?_
  · rcases hd with rfl | ⟨persisted, removed, s, repairs, hrestore, rfl⟩
    · decide
    · obtain ⟨-, -, repairs, hsanitize, -⟩ := restore_ok_iff.mp hrestore
      obtain ⟨-, hlt⟩ := sanitize_ok_spec hsanitize
      exact lt_of_le_of_lt UInt64.zero_le hlt
  · show 0 < (a.step d).state.nextId
    rcases stepped_structure (Action.stepped ha) with ⟨cmd, out, gone, s, heffect, hsame⟩ | hsame
    · rw [hsame.nextId]
      exact nextId_effect heffect hpos
    · rw [hsame.nextId]
      exact hpos

end RoundTripLemmas

open RoundTripLemmas FiniteLemmas in
/-- In every run: what is saved is restored without a repair and with nothing but the
resets, and what was restored is saved and loaded unchanged. -/
theorem load_saveAtomic {fromSlice : List UInt8 → Option Value}
    {toVecPretty : PersistedState → List UInt8} {d : Dispatcher}
    (h : Dispatcher.machine.Reach (Dispatcher.Booted fromSlice) d)
    (hsaved : TextRoundTrips fromSlice toVecPretty d.state)
    (hrestored : TextRoundTrips fromSlice toVecPretty d.state.sanitized) :
    load fromSlice PersistedState.fromValue (saveAtomic toVecPretty d.state) =
        .restored d.state.sanitized [] ∧
      d.state.Reset d.state.sanitized ∧
      load fromSlice PersistedState.fromValue (saveAtomic toVecPretty d.state.sanitized) =
        .restored d.state.sanitized [] := by
  have hlegal : d.state.Legal := legal_of_reach (reach_start h)
  have hpos : 0 < d.state.nextId := nextId_of_reach (reach_start h)
  have hfinite : d.state.Finite := finite_of_reach h
  refine ⟨load_of_legal hlegal hpos hfinite hsaved, reset_sanitized d.state, ?_⟩
  have hagain := load_of_legal (legal_sanitized hlegal) hpos (finite_sanitized hfinite) hrestored
  rwa [sanitized_sanitized] at hagain

/-- A terminal is opened, and its start marker does not come in time. -/
def warnedTerminalTrace : List Action :=
  [.dispatch (fun _ => .ok 7) (.createWorkspace "w" none none (some (.terminal none))),
    .applyEvent (.sessionStartupTimeout 7)]

def warnedTerminal : Dispatcher := Dispatcher.machine.run Dispatcher.new warnedTerminalTrace

/-- The text that is written for the one workspace with its terminal. -/
def terminalText (session status : String) : List UInt8 := List.intercalate [10]
  (List.map (fun line => line.toUTF8.toList)
    ["\x7b", "  \"version\": 1,", "  \"state\": \x7b", "    \"workspaces\": [", "      \x7b",
      "        \"id\": 1,", "        \"name\": \"w\",", "        \"rootPath\": null,",
      "        \"distro\": null,", "        \"gitBranch\": null,", "        \"gitDirty\": null,",
      "        \"layout\": \x7b", "          \"type\": \"leaf\",", "          \"pane\": 2",
      "        \x7d,", "        \"panes\": \x7b", "          \"2\": \x7b",
      "            \"id\": 2,", "            \"tabs\": [", "              \x7b",
      "                \"id\": 3,", "                \"title\": \"Terminal\",",
      "                \"kind\": \x7b", "                  \"type\": \"terminal\",",
      "                  \"ptySession\": " ++ session ++ ",",
      "                  \"status\": \x7b", "                    \"type\": \"" ++ status ++ "\"",
      "                  \x7d,", "                  \"cwd\": null", "                \x7d,",
      "                \"notification\": \"none\",", "                \"lastActivityMs\": null",
      "              \x7d", "            ],", "            \"activeTab\": 3", "          \x7d",
      "        \x7d,", "        \"activePane\": 2,", "        \"agentStatus\": \"idle\",",
      "        \"lastAgentMessage\": null", "      \x7d", "    ],", "    \"activeWorkspace\": 1,",
      "    \"nextId\": 4,", "    \"revision\": 2", "  \x7d", "\x7d"])

/-- What is written for the state and for what comes back of it. -/
def writeTerminal (p : PersistedState) : List UInt8 :=
  if p.state = warnedTerminal.state then terminalText "7" "notStarted"
  else terminalText "null" "running"

def parseTerminal (text : List UInt8) : Option Value :=
  if text = terminalText "7" "notStarted" then
    some (PersistedState.toValue ⟨persistVersion, warnedTerminal.state⟩)
  else if text = terminalText "null" "running" then
    some (PersistedState.toValue ⟨persistVersion, warnedTerminal.state.sanitized⟩)
  else none

theorem load_saveAtomic_warned :
    load parseTerminal PersistedState.fromValue (saveAtomic writeTerminal warnedTerminal.state) =
        .restored warnedTerminal.state.sanitized [] ∧
      warnedTerminal.state.Reset warnedTerminal.state.sanitized ∧
      load parseTerminal PersistedState.fromValue
          (saveAtomic writeTerminal warnedTerminal.state.sanitized) =
        .restored warnedTerminal.state.sanitized [] := by
  have hreach : Dispatcher.machine.Reach (Dispatcher.Booted parseTerminal) warnedTerminal :=
    .of_trace (.init (.inl rfl)) warnedTerminalTrace (by decide)
  have hsaved : writeTerminal ⟨persistVersion, warnedTerminal.state⟩ =
      terminalText "7" "notStarted" := if_pos rfl
  have hrestored : writeTerminal ⟨persistVersion, warnedTerminal.state.sanitized⟩ =
      terminalText "null" "running" := if_neg (by decide)
  have hne : terminalText "null" "running" ≠ terminalText "7" "notStarted" := by decide +kernel
  refine load_saveAtomic hreach ?_ ?_
  · rw [TextRoundTrips, hsaved]
    exact if_pos rfl
  · rw [TextRoundTrips, hrestored]
    exact (if_neg hne).trans (if_pos rfl)

end Mast
