import Mast.Board.Batch
import Mast.Persist.Restore

/-!
# Numbers that can be written

JSON has no text for an infinite number or for one that is not a number: such a position
of a viewer would be written as `null`, and a file with it is not read back. A position
is checked when a viewer is opened or scrolled, and a position in a file is a number.

Results:
1. `edit_finite`, `effect_finite`: every command keeps the positions finite.
2. `finite_of_reach`: so they are in every state that a run reaches from a new dispatcher
   or from a file.
-/

namespace Mast

open Json

/-- The positions of the viewers of a pane are finite. -/
def Pane.Finite (p : Pane) : Prop := ∀ t ∈ p.tabs, t.kind.Finite

def Workspace.Finite (ws : Workspace) : Prop := ∀ e ∈ ws.panes.entries, e.2.Finite

def AppState.Finite (s : AppState) : Prop := ∀ ws ∈ s.workspaces, ws.Finite

/-- A dispatcher at the start of the process: a new one, or one that adopts what was
loaded from the file. -/
def Dispatcher.Booted (fromSlice : List UInt8 → Option Value) (d : Dispatcher) : Prop :=
  d = Dispatcher.new ∨ ∃ file s repairs,
    load fromSlice PersistedState.fromValue file = .restored s repairs ∧ d = Dispatcher.adopt s

namespace FiniteLemmas

open WorkspaceLemmas LegalLemmas

variable {s s' : AppState} {ws ws' : Workspace} {pane : PaneId} {p q : Pane} {t : Tab} {ti : Nat}

/-! ## Tabs -/

theorem finite_of_opened {session : Option SessionId} {kind : TabKind} (h : kind.Opened session) :
    kind.Finite := by
  cases h with
  | terminal | folderBrowser | changesViewer => trivial
  | textViewer _ hfinite | markdownViewer _ hfinite => exact hfinite

theorem finite_exitSession (session : SessionId) (code : Option UInt32) (endedAtMs : UInt64)
    (h : t.kind.Finite) : (t.exitSession session code endedAtMs).kind.Finite := by
  unfold Tab.exitSession
  split
  · split
    · trivial
    · exact h
  · exact h

theorem finite_startupTimeout (session : SessionId) (h : t.kind.Finite) :
    (t.startupTimeout session).kind.Finite := by
  unfold Tab.startupTimeout
  split
  · split
    · trivial
    · exact h
  · exact h

theorem finite_setTerminal (session : Option SessionId) (status : TerminalStatus)
    (h : t.kind.Finite) : (t.setTerminal session status).kind.Finite := by
  unfold Tab.setTerminal
  split
  · trivial
  · exact h

theorem finite_markStarted (h : t.kind.Finite) : t.markStarted.kind.Finite := by
  unfold Tab.markStarted
  split
  · trivial
  · exact h

theorem finite_setCwd (path : String) (h : t.kind.Finite) : (t.setCwd path).kind.Finite := by
  unfold Tab.setCwd
  split
  · trivial
  · exact h

theorem finite_applyDelta (visible : Bool) (delta : OscDelta) (nowMs : UInt64)
    (h : t.kind.Finite) : (t.applyDelta visible delta nowMs).kind.Finite := by
  have hstarted : ∀ u : Tab, u.kind.Finite →
      (if delta.started then u.markStarted else u).kind.Finite := by
    intro u hu
    split
    · exact finite_markStarted hu
    · exact hu
  unfold Tab.applyDelta
  cases delta.title <;> cases delta.cwd <;> cases delta.unread && !visible
  all_goals first
    | exact hstarted t h
    | exact finite_setCwd _ (hstarted t h)

theorem finite_sanitize (h : t.kind.Finite) : t.sanitize.kind.Finite := by
  unfold Tab.sanitize TabKind.sanitize
  split
  · trivial
  · trivial
  · exact h

/-! ## Panes -/

theorem finite_modify {f : Tab → Tab} (hf : ∀ t, t.kind.Finite → (f t).kind.Finite)
    (h : p.Finite) : Pane.Finite { p with tabs := p.tabs.modify ti f } := by
  intro u hu
  rcases ListEdit.mem_modify hu with hu | ⟨t, ht, rfl⟩
  · exact h u hu
  · exact hf t (h t (List.mem_of_getElem? ht))

theorem finite_pushActive (ht : t.kind.Finite) (h : p.Finite) : (p.pushActive t).Finite := by
  intro u hu
  rcases List.mem_append.mp hu with hu | hu
  · exact h u hu
  · exact List.mem_singleton.mp hu ▸ ht

theorem finite_initialPane {id : PaneId} {tab : Option Tab} (h : ∀ t ∈ tab, t.kind.Finite) :
    (initialPane id tab).Finite := by
  cases tab with
  | none => exact fun t ht => absurd ht List.not_mem_nil
  | some t => exact finite_pushActive (h t rfl) fun t ht => absurd ht List.not_mem_nil

theorem finite_clearActiveUnread (h : p.Finite) : p.clearActiveUnread.Finite := by
  unfold Pane.clearActiveUnread
  split
  · exact finite_modify (fun _ ht => ht) h
  · exact h

theorem finite_closeTab_pane {shown : Bool} {tab : TabId} (h : p.Finite) :
    (p.closeTab shown ti tab).Finite := by
  have hleft (active : Option TabId) :
      Pane.Finite { p with tabs := p.tabs.eraseIdx ti, activeTab := active } :=
    fun u hu => h u (List.mem_of_mem_eraseIdx hu)
  unfold Pane.closeTab
  dsimp only
  split
  · split
    · exact finite_clearActiveUnread (hleft _)
    · exact hleft _
  · exact hleft _

/-! ## Workspaces -/

theorem finite_of_panes (hpanes : ws'.panes = ws.panes) (h : ws.Finite) : ws'.Finite := by
  unfold Workspace.Finite
  rw [hpanes]
  exact h

theorem finite_modifyPane {f : Pane → Pane} (hf : ∀ p, p.Finite → (f p).Finite) (h : ws.Finite) :
    Workspace.Finite { ws with panes := ws.panes.modify pane f } := by
  intro e he
  rcases OrdMap.mem_modify_entries.mp he with ⟨he, _⟩ | ⟨p, hp, rfl⟩
  · exact h e he
  · exact hf p (h _ hp)

theorem finite_modifyTab {f : Tab → Tab} (hf : ∀ t, t.kind.Finite → (f t).kind.Finite)
    (h : ws.Finite) : (ws.modifyTab pane ti f).Finite :=
  finite_modifyPane (fun _ hp => finite_modify hf hp) h

theorem finite_mapPanes {f : Pane → Pane} (hf : ∀ p, p.Finite → (f p).Finite) (h : ws.Finite)
    (hpanes : ws'.panes = ws.panes.mapValues f) : ws'.Finite := by
  intro e he
  rw [hpanes] at he
  obtain ⟨e, hp, rfl⟩ := List.mem_map.mp he
  exact hf e.2 (h e hp)

theorem finite_mapTabs {f : Tab → Tab} (hf : ∀ t, t.kind.Finite → (f t).kind.Finite)
    (h : ws.Finite) : (ws.mapTabs f).Finite := by
  refine finite_mapPanes (f := fun p => { p with tabs := p.tabs.map f }) (fun p hp u hu => ?_) h rfl
  obtain ⟨t, ht, rfl⟩ := List.mem_map.mp hu
  exact hf t (hp t ht)

theorem finite_clearVisibleUnread (h : ws.Finite) : ws.clearVisibleUnread.Finite :=
  finite_mapPanes (fun _ hp => finite_clearActiveUnread hp) h rfl

theorem finite_collapsePane {removed : Pane} (h : ws.collapsePane pane = some (removed, ws'))
    (hfinite : ws.Finite) : ws'.Finite := by
  obtain ⟨_, hpanes, _⟩ := collapsePane_eq_some h
  exact fun e he => hfinite e (OrdMap.mem_erase_entries.mp (hpanes ▸ he)).1

/-- An edit of a workspace keeps its positions finite. -/
theorem edit_finite {shown : Bool} {out : CommandOutput} {gone : List Tab} (hfinite : ws.Finite)
    (h : Edit shown ws out gone ws') : ws'.Finite := by
  cases h with
  | rename name => exact hfinite
  | focus hpane => exact hfinite
  | resize split hratio => exact hfinite
  | splitPane direction hpane hopened hnone =>
    intro e he
    rcases OrdMap.mem_insert_entries.mp he with rfl | ⟨he, _⟩
    · exact finite_initialPane fun t ht => finite_of_opened (hopened t ht).kind
    · exact hfinite e he
  | closePane hsize hclose =>
    obtain ⟨ws₁, hcollapse, rfl⟩ := closePane_eq_some hclose
    exact finite_of_panes (BoardLemmas.panes_resetAll _) (finite_collapsePane hcollapse hfinite)
  | addTab hpane hopened =>
    have hkind := finite_of_opened hopened.kind
    exact finite_modifyPane (fun p hp => finite_pushActive hkind hp) hfinite
  | activateTab hp ht =>
    exact finite_modifyPane (fun p hp => finite_modify (fun _ ht => ht) hp) hfinite
  | @closeTab pane p ti t ws' hp ht hclose =>
    have hwithout : (withoutTab shown pane ti t.id ws).Finite :=
      finite_modifyPane (fun _ hp => finite_closeTab_pane hp) hfinite
    obtain ⟨ws₁, rfl, hws₁⟩ := closeTab_eq_some hclose
    refine finite_of_panes (BoardLemmas.panes_resetAgentSource t.id) ?_
    rcases hws₁ with rfl | ⟨removed, hcollapse, _⟩
    · exact hwithout
    · exact finite_collapsePane hcollapse hwithout
  | viewer f hp ht hid hnote hviewer hopened =>
    exact finite_modifyTab (fun _ _ => finite_of_opened hopened) hfinite

/-! ## Commands -/

theorem finite_edited {wi : Nat} (hws : s.workspaces[wi]? = some ws) (hws' : ws.Finite → ws'.Finite)
    (hlist : s'.workspaces = s.workspaces.modify wi fun _ => ws') (h : s.Finite) : s'.Finite := by
  intro w hw
  rw [hlist] at hw
  rcases mem_edited hw with rfl | hold
  · exact hws' (h ws (mem_of_getElem hws))
  · exact h w hold

/-- Every command keeps the positions finite. -/
theorem effect_finite {cmd : Command} {out : CommandOutput} {gone : List Tab} (hfinite : s.Finite)
    (h : Effect cmd s out gone s') : s'.Finite := by
  cases h with
  | edit hws hids hedit htakes =>
    exact finite_edited hws (fun hold => edit_finite hold hedit) rfl hfinite
  | create name rootPath distro hopened hnone hids =>
    intro w hw
    rcases List.mem_append.mp hw with hw | hw
    · exact hfinite w hw
    · obtain rfl := List.mem_singleton.mp hw
      intro e he
      obtain rfl := List.mem_singleton.mp he
      exact finite_initialPane fun t ht => finite_of_opened (hopened t ht).kind
  | switch hws => exact finite_edited hws finite_clearVisibleUnread rfl hfinite
  | @close wi ws hws =>
    have hleft : AppState.Finite { s with workspaces := s.workspaces.eraseIdx wi } :=
      fun w hw => hfinite w (List.mem_of_mem_eraseIdx hw)
    unfold AppState.fallBack
    split
    · intro w hw
      rcases ListEdit.mem_modify hw with hw | ⟨w, hfirst, rfl⟩
      · exact hleft w hw
      · exact finite_clearVisibleUnread (hleft w (List.mem_of_getElem? hfirst))
    · exact hleft
  | move hperm => exact fun w hw => hfinite w (hperm.mem_iff.mp hw)

/-! ## Reports, events and respawns -/

theorem finite_heard {nowMs : UInt64} {entry : SessionId × OscDelta}
    (h : BoardLemmas.Heard s nowMs entry s') (hfinite : s.Finite) : s'.Finite := by
  cases h with
  | missed hpos => exact hfinite
  | located hpos hlookup hsession =>
    obtain ⟨hws, -⟩ := EffectLemmas.lookup_eq_some.mp hlookup
    refine finite_edited hws (fun hold => ?_) rfl hfinite
    exact finite_of_panes (BoardLemmas.panes_applyDelta _ _ _)
      (finite_modifyTab (fun _ ht => finite_applyDelta _ _ _ ht) hold)

theorem finite_applyEntries (nowMs : UInt64) (entries : List (SessionId × OscDelta))
    {d : Dispatcher} (h : d.state.Finite) : (d.applyEntries nowMs entries).2.state.Finite := by
  induction entries generalizing d with
  | nil => exact h
  | cons entry entries ih =>
    exact ih (finite_heard (BoardLemmas.applyEntry_heard nowMs entry d) h)

theorem finite_map {f : Workspace → Workspace} (hf : ∀ ws : Workspace, ws.Finite → (f ws).Finite)
    {d : Dispatcher} (h : d.state.Finite) : (d.mapWorkspaces f).state.Finite := by
  intro w hw
  obtain ⟨ws, hws, rfl⟩ := List.mem_map.mp hw
  exact hf ws (h ws hws)

theorem finite_receive (ev : SessionEvent) {d : Dispatcher} (h : d.state.Finite) :
    (d.receive ev).2.state.Finite := by
  cases ev with
  | sessionExited session code endedAtMs =>
    refine finite_map (d := { d with startedSessions := d.startedSessions.erase session })
      (fun ws hws => ?_) h
    exact finite_of_panes (BoardLemmas.panes_resetAll _)
      (finite_mapTabs (fun t ht => finite_exitSession session code endedAtMs ht) hws)
  | sessionStartupTimeout session =>
    unfold Dispatcher.receive
    dsimp only
    split
    · exact h
    · refine finite_map (fun ws hws => ?_) h
      exact finite_mapTabs (fun t ht => finite_startupTimeout session ht) hws

theorem finite_step {d d' : Dispatcher} {a : Action} (hfinite : d.state.Finite)
    (h : Stepped d a d') : d'.state.Finite := by
  cases h with
  | @performed spawner cmd out gone d₁ revision h =>
    have hfinite' : d₁.state.Finite := effect_finite hfinite h.effect
    exact hfinite'
  | failed hframe =>
    have hstate : d'.state = d.state := congrArg Prod.fst hframe
    exact hstate ▸ hfinite
  | refused spawner tab => exact hfinite
  | @respawned spawner tab ws pos t session status _ h =>
    obtain ⟨p, hlookup⟩ := h.place
    obtain ⟨hws, hp, ht⟩ := EffectLemmas.lookup_eq_some.mp hlookup
    refine finite_edited hws (fun hold => ?_) h.workspaces hfinite
    have hkind : t.kind.Finite :=
      hold _ (OrdMap.get?_eq_some_iff.mp hp) t (List.mem_of_getElem? ht)
    exact finite_modifyTab (fun _ _ => finite_setTerminal session status hkind) hold
  | event ev revision => exact finite_receive ev hfinite
  | osc batch nowMs revision => exact finite_applyEntries nowMs _ hfinite

/-! ## Starts -/

theorem finite_iff : s.Finite ↔ ∀ t ∈ s.tabs, t.kind.Finite := by
  constructor
  · intro h t ht
    obtain ⟨ws, hws, ht⟩ := List.mem_flatMap.mp ht
    obtain ⟨p, hp, ht⟩ := List.mem_flatMap.mp ht
    obtain ⟨e, he, rfl⟩ := List.mem_map.mp hp
    exact h ws hws e he t ht
  · intro h ws hws e he t ht
    refine h t (List.mem_flatMap.mpr ⟨ws, hws, List.mem_flatMap.mpr ⟨e.2, ?_, ht⟩⟩)
    exact List.mem_map_of_mem he

theorem finite_removeUnknownTabs {removed : List RemovedUnknownTab} (h : s.Finite) :
    (removeUnknownTabs s removed).Finite := by
  unfold removeUnknownTabs
  split
  · exact h
  · intro w hw
    obtain ⟨ws, hws, rfl⟩ := List.mem_map.mp hw
    refine finite_mapPanes (fun p hp t ht => ?_) (h ws hws) rfl
    exact hp t (List.mem_filter.mp ht).1

theorem finite_sanitized (h : s.Finite) : s.sanitized.Finite := by
  intro w hw
  obtain ⟨ws, hws, rfl⟩ := List.mem_map.mp hw
  have htabs : (ws.mapTabs Tab.sanitize).Finite :=
    finite_mapTabs (fun _ ht => finite_sanitize ht) (h ws hws)
  exact finite_of_panes rfl htabs

theorem start_of_booted {fromSlice : List UInt8 → Option Value} {d : Dispatcher}
    (h : d.Booted fromSlice) : d.Start := by
  rcases h with rfl | ⟨file, s, repairs, hload, rfl⟩
  · exact .inl rfl
  · obtain ⟨bytes, document, -, -, hload⟩ := LoadLemmas.load_restored.mp hload
    obtain ⟨-, persisted, -, hrestore⟩ := LoadLemmas.loadDocument_restored.mp hload
    exact .inr ⟨_, _, s, repairs, hrestore, rfl⟩

theorem finite_of_booted {fromSlice : List UInt8 → Option Value} {d : Dispatcher}
    (h : d.Booted fromSlice) : d.state.Finite := by
  rcases h with rfl | ⟨file, s, repairs, hload, rfl⟩
  · exact fun ws hws => absurd hws List.not_mem_nil
  · obtain ⟨bytes, document, -, -, hload⟩ := LoadLemmas.load_restored.mp hload
    obtain ⟨-, persisted, hpersisted, hrestore⟩ := LoadLemmas.loadDocument_restored.mp hload
    obtain ⟨-, -, repairs, hsanitize, -⟩ := RestoreLemmas.restore_ok_iff.mp hrestore
    obtain ⟨hs, -⟩ := RestoreLemmas.sanitize_ok_spec hsanitize
    have hfile : persisted.state.Finite :=
      finite_iff.mpr fun t ht => DocumentLemmas.finite_of_fromValue hpersisted ht
    show s.Finite
    rw [hs]
    exact finite_sanitized (finite_removeUnknownTabs hfile)

theorem reach_start {fromSlice : List UInt8 → Option Value} {d : Dispatcher}
    (h : Dispatcher.machine.Reach (Dispatcher.Booted fromSlice) d) :
    Dispatcher.machine.Reach Dispatcher.Start d :=
  h.map (fun d => d) (fun _ hd => start_of_booted hd) (fun _ _ => rfl) fun _ _ ha => ha

/-- In every run the positions of the viewers are finite. -/
theorem finite_of_reach {fromSlice : List UInt8 → Option Value} {d : Dispatcher}
    (h : Dispatcher.machine.Reach (Dispatcher.Booted fromSlice) d) : d.state.Finite := by
  refine h.invariant (I := fun d => d.state.Finite) (fun d hd => finite_of_booted hd)
    fun d a _ hfinite ha => ?_
  exact finite_step hfinite (Action.stepped ha)

end FiniteLemmas

end Mast
