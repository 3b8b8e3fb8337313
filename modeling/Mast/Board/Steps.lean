import Mast.Board.Basic
import Mast.Structure.Reachable

/-!
# What an action does to the boards

The simulation of the dispatcher by its boards. Every workspace after an action
either was created by it, or its board moved by a deed that the action causes.
Batches of notifications are taken entry by entry.

Results:
1. `Stepped.boards`: the boards after an action that is not a batch.
2. `heard_boards`: the boards after one entry of a batch.
3. `Stepped.balance`: the balance of the sessions that tabs hold.
-/

namespace Mast

namespace AppState

/-- The sessions that tabs hold. -/
def held (s : AppState) : List SessionId := s.tabs.filterMap Tab.session

def boards (s : AppState) : List Board := s.workspaces.map Workspace.board

/-- Every cell of the state. -/
def cells (s : AppState) : Multiset Cell := (s.boards : Multiset Board).bind Board.cells

end AppState

/-- A board that was just created. -/
structure Board.New (session : Option SessionId) (b : Board) : Prop where
  idle : b.slot.status = .idle
  cells : ∀ c ∈ b.cells, c.Opened session

/-- A session that ended, as the action reports it. -/
def Action.ended : Action → Option SessionId
  | .applyEvent (.sessionExited session _ _) => some session
  | _ => none

/-- The deeds that an action causes on a workspace. `fresh` is the session that
it spawned. -/
inductive Action.Causes (d : Dispatcher) (ws : Workspace) (fresh : Option SessionId) :
    Action → Deed → Prop
  | edited {spawner : Spawner} {cmd : Command} {session : Option SessionId} {gone : List Tab} :
      (∀ s ∈ session, s ∈ fresh) → cmd.Takes ws gone →
      Causes d ws fresh (.dispatch spawner cmd) (.edited session (gone.map Tab.cell))
  | spared (spawner : Spawner) (tab : TabId) : Causes d ws fresh (.respawnTab spawner tab) .quiet
  | respawned (spawner : Spawner) {tab : TabId} {t : Tab} : t ∈ ws.tabs → t.id = tab →
      t.kind.respawnable.isSome → Causes d ws fresh (.respawnTab spawner tab) (.respawned tab fresh)
  | exited (session : SessionId) (code : Option UInt32) (endedAtMs : UInt64) :
      Causes d ws fresh (.applyEvent (.sessionExited session code endedAtMs)) (.exited session)
  | timedOut {session : SessionId} : session ∉ d.startedSessions →
      Causes d ws fresh (.applyEvent (.sessionStartupTimeout session)) (.timedOut session)
  | late {session : SessionId} : session ∈ d.startedSessions →
      Causes d ws fresh (.applyEvent (.sessionStartupTimeout session)) .quiet

namespace BoardLemmas

open WorkspaceLemmas LegalLemmas

variable {s s' : AppState} {ws ws' : Workspace} {pane : PaneId} {p : Pane} {t : Tab}
  {d d' : Dispatcher}

/-! ## Cells of a state -/

theorem cells_coe (s : AppState) :
    s.cells = (s.workspaces : Multiset Workspace).bind Workspace.cells := by
  rw [AppState.cells, AppState.boards, ← Multiset.map_coe, Multiset.bind_map]
  rfl

theorem state_cells_eq (s : AppState) : s.cells = (s.tabs.map Tab.cell : List Cell) := by
  have hcells : ∀ ws : Workspace, ws.cells = ((fun ws => ws.tabs.map Tab.cell) ws : List Cell) :=
    cells_eq
  rw [cells_coe, Multiset.bind_congr fun ws _ => hcells ws, Multiset.coe_bind, AppState.tabs,
    List.map_flatMap]

theorem held_coe (s : AppState) : (s.held : Multiset SessionId) = heldBy s.cells := by
  rw [state_cells_eq, heldBy_map_cell, AppState.held]

theorem mem_held {session : SessionId} :
    session ∈ s.held ↔ ∃ ws ∈ s.workspaces, ∃ c ∈ ws.cells, c.session = some session := by
  rw [← Multiset.mem_coe, held_coe, mem_heldBy, cells_coe]
  simp only [Multiset.mem_bind, Multiset.mem_coe]
  exact ⟨fun ⟨c, ⟨ws, hws, hc⟩, hs⟩ => ⟨ws, hws, c, hc, hs⟩,
    fun ⟨ws, hws, c, hc, hs⟩ => ⟨c, ⟨ws, hws, hc⟩, hs⟩⟩

theorem cells_congr (h : s'.boards = s.boards) : s'.cells = s.cells := by
  rw [AppState.cells, h]
  rfl

theorem boards_fallBack (workspace : WorkspaceId) : (s.fallBack workspace).boards = s.boards := by
  unfold AppState.fallBack
  split
  · exact ListEdit.map_modify _ _ fun ws _ => board_clearVisibleUnread
  · rfl

theorem mem_of_boards (h : s'.boards = s.boards) (hws : ws' ∈ s'.workspaces) :
    ∃ ws ∈ s.workspaces, ws.board = ws'.board := by
  have hmem : ws'.board ∈ s'.boards := List.mem_map_of_mem hws
  rw [h] at hmem
  exact List.mem_map.mp hmem

/-! ## Changes of one tab -/

/-- The cells other than the one of a tab, whatever that tab becomes. -/
theorem exists_rest_cells {ti : Nat} (hp : ws.panes.get? pane = some p)
    (ht : p.tabs[ti]? = some t) : ∃ kept, ws.cells = t.cell ::ₘ kept ∧
      ∀ f : Tab → Tab, (ws.modifyTab pane ti f).cells = (f t).cell ::ₘ kept := by
  obtain ⟨rest, htabs, _, hmodify⟩ := ListEdit.exists_rest ht
  obtain ⟨others, hpanes, hothers⟩ := OrdMap.exists_rest hp
  have hpane : p.cells = t.cell ::ₘ rest.map Tab.cell := by
    rw [Pane.cells, ← Multiset.map_coe, htabs, Multiset.map_cons]
  refine ⟨rest.map Tab.cell + others.bind fun e => e.2.cells, ?_, fun f => ?_⟩
  · rw [Workspace.cells, OrdMap.collect, hpanes, Multiset.cons_bind, hpane, Multiset.cons_add]
  · have hchanged : Pane.cells { p with tabs := p.tabs.modify ti f } =
        (f t).cell ::ₘ rest.map Tab.cell := by
      rw [Pane.cells, ← Multiset.map_coe, hmodify, Multiset.map_cons]
    rw [Workspace.cells, OrdMap.collect, Workspace.modifyTab,
      OrdMap.modify_entries _ hpanes hothers, Multiset.cons_bind, hchanged, Multiset.cons_add]

theorem cells_mapTabs {f : Tab → Tab} {g : Cell → Cell} (hfg : ∀ t, (f t).cell = g t.cell) :
    (ws.mapTabs f).cells = ws.cells.map g := by
  have hpane : ∀ p : Pane, Pane.cells { p with tabs := p.tabs.map f } = p.cells.map g := by
    intro p
    simp only [Pane.cells, Multiset.map_coe, List.map_map]
    exact congrArg _ (List.map_congr_left fun t _ => hfg t)
  rw [Workspace.cells, Workspace.mapTabs, OrdMap.collect_mapValues, Workspace.cells,
    OrdMap.collect, OrdMap.collect, Multiset.map_bind]
  exact Multiset.bind_congr fun e _ => hpane e.2

theorem cell_setTerminal {kind : Option (Option String × Option SessionId ×
      Option (Option UInt32 × Option UInt64))} (h : t.kind.respawnable = kind)
    (hkind : kind.isSome) (session : Option SessionId) (status : TerminalStatus) :
    (t.setTerminal session status).cell = ⟨t.id, session, some status⟩ := by
  subst h
  unfold Tab.setTerminal
  cases hk : t.kind with
  | terminal old status' cwd => rfl
  | _ => simp [hk, TabKind.respawnable] at hkind

theorem cell_exitSession (session : SessionId) (code : Option UInt32) (endedAtMs : UInt64)
    (t : Tab) : (t.exitSession session code endedAtMs).cell =
      t.cell.exit session (.exited code (some endedAtMs)) := by
  unfold Tab.exitSession Cell.exit Tab.cell Tab.session Tab.terminalStatus
  cases hk : t.kind with
  | terminal old status cwd =>
    cases old with
    | none => simp [hk]
    | some s => by_cases hs : s = session <;> simp [hk, hs]
  | _ => simp [hk]

theorem cell_startupTimeout (session : SessionId) (t : Tab) :
    (t.startupTimeout session).cell = t.cell.timeout session := by
  unfold Tab.startupTimeout Cell.timeout Tab.cell Tab.session Tab.terminalStatus
  cases hk : t.kind with
  | terminal old status cwd =>
    cases old with
    | none => cases status <;> simp [hk]
    | some s => cases status <;> by_cases hs : s = session <;> simp [hk, hs]
  | _ => simp [hk]

theorem cell_markStarted {session : SessionId} (h : t.session = some session) :
    t.markStarted.cell = t.cell.start session := by
  unfold Tab.session at h
  unfold Tab.markStarted Cell.start Tab.cell Tab.session Tab.terminalStatus
  cases hk : t.kind with
  | terminal old status cwd =>
    rw [hk] at h
    obtain rfl : old = some session := h
    cases status <;> simp [hk]
  | _ => simp [hk]

theorem cell_setCwd (path : String) (t : Tab) : (t.setCwd path).cell = t.cell := by
  unfold Tab.setCwd Tab.cell Tab.session Tab.terminalStatus
  cases hk : t.kind <;> simp [hk]

/-- Of what a report does to a tab, a board sees the start marker only. -/
theorem cell_applyDelta {session : SessionId} (h : t.session = some session) (visible : Bool)
    (delta : OscDelta) (nowMs : UInt64) : (t.applyDelta visible delta nowMs).cell =
      if delta.started then t.cell.start session else t.cell := by
  have hlate : ∀ u : Tab, Tab.cell { u with lastActivityMs := some nowMs } = u.cell := fun _ => rfl
  have hunread : ∀ u : Tab, Tab.cell (if delta.unread && !visible then
      { u with notification := .unread } else u) = u.cell := by
    intro u
    split <;> rfl
  have hstarted : Tab.cell (if delta.started then t.markStarted else t) =
      if delta.started then t.cell.start session else t.cell := by
    split
    · exact cell_markStarted h
    · rfl
  refine (hlate _).trans ((hunread _).trans (Eq.trans ?_ hstarted))
  cases delta.cwd with
  | none => cases delta.title <;> rfl
  | some path =>
    refine (cell_setCwd path _).trans ?_
    cases delta.title <;> rfl

theorem board_eq {id : WorkspaceId} {slot : StatusSlot} {cells : Multiset Cell} (hid : ws.id = id)
    (hslot : ws.slot = slot) (hcells : ws.cells = cells) : ws.board = ⟨id, slot, cells⟩ := by
  rw [← hid, ← hslot, ← hcells]
  rfl

/-! ## Commands -/

theorem quiet_of_board_eq (h : ws.board = ws'.board) : BoardStep ws.board .quiet ws'.board :=
  h ▸ .quiet ws.board

/-- An edit exchanges the sessions of the tabs that go for the spawned one. -/
theorem heldBy_edited {b b' : Board} {session : Option SessionId} {gone : List Cell}
    (h : BoardStep b (.edited session gone) b') :
    heldBy b'.cells + heldBy gone = heldBy b.cells + (session.toList : List SessionId) := by
  cases h with
  | edited come hcells hopened hcome =>
    rw [heldBy_add, hcells, heldBy_add, hcome]
    ac_rfl

theorem cells_create (id : WorkspaceId) (name : String) (rootPath distro : Option String)
    (tab : Option Tab) : (Workspace.create id name rootPath distro pane tab).cells =
      (tab.toList.map Tab.cell : List Cell) := by
  have hcells : (Workspace.create id name rootPath distro pane tab).cells =
      (initialPane pane tab).cells + 0 := rfl
  rw [hcells, add_zero, Pane.cells, PaneLemmas.tabs_initialPane]

theorem new_create {id : WorkspaceId} {name : String} {rootPath distro : Option String}
    {tab : Option Tab} {session : Option SessionId} (hopened : ∀ t ∈ tab, t.Opened session) :
    (Workspace.create id name rootPath distro pane tab).board.New session where
  idle := rfl
  cells c hc := by
    have hc : c ∈ (Workspace.create id name rootPath distro pane tab).cells := hc
    rw [cells_create, Multiset.mem_coe] at hc
    obtain ⟨t, ht, rfl⟩ := List.mem_map.mp hc
    exact opened_cell (hopened t (Option.mem_toList.mp ht))

section Effect

variable {cmd : Command} {out : CommandOutput} {gone : List Tab}

/-- A workspace after a command was created by it, or its board was edited. -/
theorem effect_boards (hs : s.Legal) (h : Effect cmd s out gone s') (hws' : ws' ∈ s'.workspaces) :
    (∃ ws ∈ s.workspaces, ∃ (session : Option SessionId) (gone : List Tab),
      (∀ x ∈ session, x ∈ out.session) ∧ cmd.Takes ws gone ∧
        BoardStep ws.board (.edited session (gone.map Tab.cell)) ws'.board) ∨
      ws'.board.New out.session := by
  have hquiet : ∀ ws ∈ s.workspaces, ws.board = ws'.board →
      ∃ ws ∈ s.workspaces, ∃ (session : Option SessionId) (gone : List Tab),
        (∀ x ∈ session, x ∈ out.session) ∧ cmd.Takes ws gone ∧
          BoardStep ws.board (.edited session (gone.map Tab.cell)) ws'.board :=
    fun ws hws heq => ⟨ws, hws, none, [], by simp, .inl rfl, quiet_of_board_eq heq⟩
  cases h with
  | @edit wi ws ws₁ out gone n hws hids hedit hcloses =>
    have hmem := mem_of_getElem hws
    rcases mem_edited hws' with rfl | hold
    · refine .inl ⟨ws, hmem, out.session, gone, fun _ h => h, hcloses, edit_board ?_ hedit⟩
      exact fun id hid hin => allocated_fresh hs hids hid (mem_ids_of_mem hmem hin)
    · exact .inl (hquiet ws' hold rfl)
  | create name rootPath distro hopened hnone hids =>
    rcases List.mem_append.mp hws' with hold | hnew
    · exact .inl (hquiet ws' hold rfl)
    · rw [List.mem_singleton.mp hnew]
      exact .inr (new_create hopened)
  | @switch wi ws hws =>
    rcases mem_edited hws' with rfl | hold
    · exact .inl (hquiet ws (mem_of_getElem hws) board_clearVisibleUnread.symm)
    · exact .inl (hquiet ws' hold rfl)
  | @close wi ws hws =>
    obtain ⟨w, hw, heq⟩ := mem_of_boards (boards_fallBack ws.id) hws'
    exact .inl (hquiet w (List.mem_of_mem_eraseIdx hw) heq)
  | move hperm => exact .inl (hquiet ws' (hperm.mem_iff.mp hws') rfl)

/-- The balance of a command. -/
theorem effect_held (hs : s.Legal) (h : Effect cmd s out gone s') :
    heldBy s'.cells + (gone.filterMap Tab.session : List SessionId) =
      heldBy s.cells + (out.session.toList : List SessionId) := by
  rw [← heldBy_map_cell]
  cases h with
  | @edit wi ws ws₁ out gone n hws hids hedit hcloses =>
    have hmem := mem_of_getElem hws
    have hstep := edit_board (fun id hid hin =>
      allocated_fresh hs hids hid (mem_ids_of_mem hmem hin)) hedit
    obtain ⟨rest, hlist, _, hmodify⟩ := ListEdit.exists_rest hws
    have hheld : heldBy ws₁.cells + _ = heldBy ws.cells + _ := heldBy_edited hstep
    rw [cells_coe, cells_coe, hmodify, hlist, Multiset.cons_bind, Multiset.cons_bind, heldBy_add,
      heldBy_add, add_right_comm, hheld, add_right_comm]
  | @create workspace pane name rootPath distro tab session n hopened hnone hids =>
    have hheld : heldBy (tab.toList.map Tab.cell : List Cell) =
        (session.toList : List SessionId) := by
      cases tab with
      | none => rw [hnone rfl]; rfl
      | some t =>
        refine (heldBy_cons t.cell 0).trans ?_
        rw [(opened_cell (hopened t rfl)).holds]
        exact add_zero _
    rw [cells_coe, cells_coe, ← Multiset.coe_add, Multiset.add_bind, heldBy_add,
      Multiset.coe_singleton, Multiset.singleton_bind, cells_create, hheld]
    exact add_zero _
  | @switch wi ws hws =>
    have hboards : AppState.boards { s with
        workspaces := s.workspaces.modify wi fun _ => ws.clearVisibleUnread
        activeWorkspace := some ws.id } = s.boards :=
      ListEdit.map_modify _ _ fun w hw => by
        rw [board_clearVisibleUnread, Option.some_inj.mp (hws.symm.trans hw)]
    rw [cells_congr hboards]
    rfl
  | @close wi ws hws =>
    obtain ⟨rest, hlist, herase, _⟩ := ListEdit.exists_rest hws
    rw [cells_congr (boards_fallBack ws.id), cells_coe, cells_coe, herase, hlist,
      Multiset.cons_bind, heldBy_add, ← cells_eq, add_comm]
    exact (add_zero _).symm
  | move hperm =>
    rw [cells_coe, cells_coe, Multiset.coe_eq_coe.mpr hperm]
    rfl

end Effect

/-! ## The host log -/

/-- Spawns that failed are neither spawns nor kills. -/
theorem log_of_frame {f : HostCall → Option SessionId}
    (hf : ∀ call, call.isFailedSpawn = true → f call = none)
    (h : AtomicLemmas.frame d' = AtomicLemmas.frame d) :
    d'.host.filterMap f = d.host.filterMap f := by
  have hall : ∀ calls : List HostCall,
      (calls.filter fun call => !call.isFailedSpawn).filterMap f = calls.filterMap f := by
    intro calls
    induction calls with
    | nil => rfl
    | cons call calls ih =>
      cases hcall : call.isFailedSpawn with
      | true => simp [hcall, hf call hcall, ih]
      | false => simp [hcall, List.filterMap_cons, ih]
  have heffects : d'.effects = d.effects := congrArg (fun f => f.2.2) h
  exact (hall d'.host).symm.trans ((congrArg (List.filterMap f) heffects).trans (hall d.host))

/-- A command that failed has spawned nothing. -/
theorem spawned_of_frame (h : AtomicLemmas.frame d' = AtomicLemmas.frame d) :
    d'.spawned = d.spawned := by
  refine log_of_frame (fun call hcall => ?_) h
  cases call with
  | spawnShell req answer => cases answer <;> simp_all [HostCall.isFailedSpawn, HostCall.spawned?]
  | kill session => rfl
  | releaseTabs tabs distro => rfl

/-- A command that failed has killed nothing. -/
theorem killed_of_frame (h : AtomicLemmas.frame d' = AtomicLemmas.frame d) :
    d'.killed = d.killed := by
  refine log_of_frame (fun call hcall => ?_) h
  cases call <;> simp_all [HostCall.isFailedSpawn, HostCall.killed?]

theorem host_receive (ev : SessionEvent) (d : Dispatcher) : (d.receive ev).2.host = d.host := by
  cases ev with
  | sessionExited session code endedAtMs => rfl
  | sessionStartupTimeout session =>
    unfold Dispatcher.receive
    dsimp only
    split <;> rfl

/-! ## Respawn -/

section Respawned

variable {tab : TabId} {pos : TabPos} {session : Option SessionId} {status : TerminalStatus}

theorem respawned_boards (h : Respawned d tab ws pos t session status d')
    (hws' : ws' ∈ d'.state.workspaces) :
    ws' ∈ d.state.workspaces ∨ (ws ∈ d.state.workspaces ∧ t ∈ ws.tabs ∧
      BoardStep ws.board (.respawned t.id session) ws'.board) := by
  obtain ⟨p, hlookup⟩ := h.place
  obtain ⟨hws, hp, ht⟩ := EffectLemmas.lookup_eq_some.mp hlookup
  rw [h.workspaces] at hws'
  rcases mem_edited hws' with rfl | hold
  · obtain ⟨kept, hcells, hmodify⟩ := exists_rest_cells hp ht
    have hnew := hmodify fun _ => t.setTerminal session status
    rw [cell_setTerminal rfl h.eligible] at hnew
    refine .inr ⟨mem_of_getElem hws, ?_, ?_⟩
    · exact EffectLemmas.mem_tabs hp (List.mem_of_getElem? ht)
    · rw [board_eq rfl rfl hnew]
      exact .respawned (b := ws.board) (c := t.cell) hcells h.outcome
  · exact .inl hold

theorem respawned_held (h : Respawned d tab ws pos t session status d') :
    heldBy d'.state.cells + (t.session.toList : List SessionId) =
      heldBy d.state.cells + (session.toList : List SessionId) := by
  obtain ⟨p, hlookup⟩ := h.place
  obtain ⟨hws, hp, ht⟩ := EffectLemmas.lookup_eq_some.mp hlookup
  obtain ⟨kept, hcells, hmodify⟩ := exists_rest_cells hp ht
  obtain ⟨rest, hlist, _, hlist'⟩ := ListEdit.exists_rest hws
  rw [cells_coe, cells_coe, h.workspaces, hlist', hlist, Multiset.cons_bind, Multiset.cons_bind,
    heldBy_add, heldBy_add, hmodify, hcells, cell_setTerminal rfl h.eligible, heldBy_cons,
    heldBy_cons]
  have hsession : t.cell.session = t.session := rfl
  rw [hsession]
  ac_rfl

end Respawned

/-! ## Events -/

theorem mem_holders {session : SessionId} {tab : TabId} : tab ∈ ws.holders session ↔
    ∃ c ∈ ws.cells, c.session = some session ∧ c.tab = tab := by
  simp only [Workspace.holders, List.mem_map, List.mem_filter, decide_eq_true_eq, mem_cells]
  constructor
  · rintro ⟨t, ⟨ht, hs⟩, rfl⟩
    exact ⟨t.cell, ⟨t, ht, rfl⟩, hs, rfl⟩
  · rintro ⟨_, ⟨t, ht, rfl⟩, hs, rfl⟩
    exact ⟨t, ⟨ht, hs⟩, rfl⟩

theorem board_exitSession (session : SessionId) (code : Option UInt32) (endedAtMs : UInt64)
    (ws : Workspace) :
    BoardStep ws.board (.exited session) (ws.exitSession session code endedAtMs).board := by
  have hcells : (ws.exitSession session code endedAtMs).cells =
      ws.cells.map (Cell.exit session (.exited code (some endedAtMs))) :=
    (cells_resetAll _ _).trans (cells_mapTabs (cell_exitSession session code endedAtMs))
  have hslot : (ws.exitSession session code endedAtMs).slot =
      ws.slot.withdraw .idle (ws.holders session) := slot_resetAll _ _
  have hid : (ws.exitSession session code endedAtMs).id = ws.id :=
    congrArg WorkspaceShape.id (shape_resetAll _)
  rw [board_eq hid hslot hcells]
  exact .exited (b := ws.board) (ws.holders session) fun tab => mem_holders

theorem board_startupTimeout (session : SessionId) (ws : Workspace) :
    BoardStep ws.board (.timedOut session) (ws.mapTabs (Tab.startupTimeout session)).board := by
  rw [board_eq rfl rfl (cells_mapTabs (cell_startupTimeout session))]
  exact .timedOut (b := ws.board)

theorem exit_session (session : SessionId) (status : TerminalStatus) (c : Cell) :
    (c.exit session status).session = if c.session = some session then none else c.session := by
  unfold Cell.exit
  split <;> rfl

theorem timeout_seat (session : SessionId) (c : Cell) : (c.timeout session).seat = c.seat := by
  unfold Cell.timeout
  split <;> rfl

theorem start_seat (session : SessionId) (c : Cell) : (c.start session).seat = c.seat := by
  unfold Cell.start
  split <;> rfl

/-- After an exit the other sessions are held as before. -/
theorem heldBy_exit (session : SessionId) (status : TerminalStatus) (cells : Multiset Cell) :
    heldBy (cells.map (Cell.exit session status)) =
      (heldBy cells).filter fun s => some session ≠ some s := by
  induction cells using Multiset.induction with
  | empty => rfl
  | cons c cells ih =>
    rw [Multiset.map_cons, heldBy_cons, heldBy_cons, Multiset.filter_add, ih, exit_session]
    congr 1
    cases hc : c.session with
    | none => rfl
    | some s =>
      by_cases hs : s = session
      · simp [hs]
      · simp [hs, Ne.symm hs]

theorem cells_mapWorkspaces {f : Workspace → Workspace} {g : Cell → Cell}
    (hfg : ∀ ws, (f ws).cells = ws.cells.map g) (d : Dispatcher) :
    (d.mapWorkspaces f).state.cells = d.state.cells.map g := by
  simp only [cells_coe, Dispatcher.mapWorkspaces, ← Multiset.map_coe, Multiset.bind_map,
    Multiset.map_bind, hfg]

/-- A missed start deadline changes no seat. -/
theorem timeout_seats (session : SessionId) (d : Dispatcher) :
    (d.receive (.sessionStartupTimeout session)).2.state.cells.map Cell.seat =
      d.state.cells.map Cell.seat := by
  unfold Dispatcher.receive
  dsimp only
  split
  · rfl
  · rw [cells_mapWorkspaces fun ws => cells_mapTabs (cell_startupTimeout session),
      Multiset.map_map]
    exact Multiset.map_congr rfl fun c _ => timeout_seat session c

theorem receive_held (ev : SessionEvent) (d : Dispatcher) :
    heldBy (d.receive ev).2.state.cells =
      (heldBy d.state.cells).filter fun s => (Action.applyEvent ev).ended ≠ some s := by
  cases ev with
  | sessionExited session code endedAtMs =>
    have hcells : (d.receive (.sessionExited session code endedAtMs)).2.state.cells =
        d.state.cells.map (Cell.exit session (.exited code (some endedAtMs))) :=
      cells_mapWorkspaces (fun ws => (cells_resetAll _ _).trans
        (cells_mapTabs (cell_exitSession session code endedAtMs)))
        { d with startedSessions := d.startedSessions.erase session }
    rw [hcells]
    exact heldBy_exit session _ d.state.cells
  | sessionStartupTimeout session =>
    have hall : (heldBy d.state.cells).filter
        (fun s => (Action.applyEvent (.sessionStartupTimeout session)).ended ≠ some s) =
          heldBy d.state.cells :=
      Multiset.filter_eq_self.mpr fun s _ => by simp [Action.ended]
    rw [hall]
    exact heldBy_of_seats (timeout_seats session d)

/-! ## Entries of a batch -/

/-- The workspace after an entry that was located in it. -/
def heard (s : AppState) (ws : Workspace) (p : Pane) (t : Tab) (pos : TabPos) (delta : OscDelta)
    (nowMs : UInt64) : Workspace :=
  (ws.modifyTab pos.pane pos.tab (Tab.applyDelta (s.visible ws p t.id) delta nowMs)).applyDelta
    t.id delta

/-- An entry is about the tab that holds the session, or about none. -/
inductive Heard (s : AppState) (nowMs : UInt64) (entry : SessionId × OscDelta) : AppState → Prop
  | missed : s.locateSession entry.1 = none → Heard s nowMs entry s
  | located {pos : TabPos} {ws : Workspace} {p : Pane} {t : Tab} :
      s.locateSession entry.1 = some pos → s.lookup pos = some (ws, p, t) →
      t.session = some entry.1 →
      Heard s nowMs entry { s with
        workspaces := s.workspaces.modify pos.ws fun _ => heard s ws p t pos entry.2 nowMs }

theorem applyEntry_heard (nowMs : UInt64) (entry : SessionId × OscDelta) (d : Dispatcher) :
    Heard d.state nowMs entry (d.applyEntry nowMs entry).2.state := by
  have hstate : (if entry.2.started then
      { d with startedSessions := insert entry.1 d.startedSessions } else d).state = d.state := by
    split <;> rfl
  unfold Dispatcher.applyEntry
  dsimp only
  rw [hstate]
  cases hpos : d.state.locateSession entry.1 with
  | none =>
    dsimp only
    rw [hstate]
    exact .missed hpos
  | some pos =>
    obtain ⟨ws, p, t, hlookup, hsession⟩ := EffectLemmas.findTab_eq_some hpos
    dsimp only
    rw [AppState.applyDelta, hlookup]
    exact .located hpos hlookup (by simpa using hsession)

theorem applyEntry_started (nowMs : UInt64) (entry : SessionId × OscDelta) (d : Dispatcher) :
    (d.applyEntry nowMs entry).2.startedSessions =
      if entry.2.started then insert entry.1 d.startedSessions else d.startedSessions := by
  unfold Dispatcher.applyEntry
  dsimp only
  split <;> split <;> rfl

theorem applyEntry_host (nowMs : UInt64) (entry : SessionId × OscDelta) (d : Dispatcher) :
    (d.applyEntry nowMs entry).2.host = d.host := by
  unfold Dispatcher.applyEntry
  dsimp only
  split <;> split <;> rfl

theorem slot_applyDelta (tab : TabId) (delta : OscDelta) (ws : Workspace) :
    (ws.applyDelta tab delta).slot =
      delta.status.elim ws.slot fun status => ws.slot.report .needsInput tab status := by
  have hreport : ∀ status, (ws.reportStatus tab status).slot =
      ws.slot.report .needsInput tab status := by
    intro status
    unfold Workspace.reportStatus PrioritySlot.report
    have hallows : ws.allowsStatus tab status = true ↔
        ws.slot.Allows .needsInput tab status := by
      simp [Workspace.allowsStatus, PrioritySlot.Allows, Workspace.slot, or_assoc]
    simp only [hallows]
    split <;> rfl
  unfold Workspace.applyDelta
  cases delta.status <;> cases delta.message <;> first | rfl | exact hreport _

theorem panes_applyDelta (tab : TabId) (delta : OscDelta) (ws : Workspace) :
    (ws.applyDelta tab delta).panes = ws.panes := by
  unfold Workspace.applyDelta Workspace.reportStatus
  cases delta.status <;> cases delta.message <;> dsimp only <;> first | rfl | (split <;> rfl)

section Heard

variable {pos : TabPos} {delta : OscDelta} {nowMs : UInt64} {session : SessionId}

theorem slot_heard (s : AppState) (ws : Workspace) (p : Pane) (t : Tab) (pos : TabPos)
    (delta : OscDelta) (nowMs : UInt64) :
    (heard s ws p t pos delta nowMs).slot =
      delta.status.elim ws.slot fun status => ws.slot.report .needsInput t.id status :=
  slot_applyDelta _ _ _

theorem id_heard (s : AppState) (ws : Workspace) (p : Pane) (t : Tab) (pos : TabPos)
    (delta : OscDelta) (nowMs : UInt64) :
    (heard s ws p t pos delta nowMs).id = ws.id := by
  have hshape := ReachableLemmas.shape_applyDelta t.id delta
    (ws.modifyTab pos.pane pos.tab (Tab.applyDelta (s.visible ws p t.id) delta nowMs))
  exact congrArg WorkspaceShape.id hshape

/-- The cells of the workspace that was heard: one tab may have been marked. -/
theorem exists_rest_heard (delta : OscDelta) (nowMs : UInt64)
    (hlookup : s.lookup pos = some (ws, p, t)) (hsession : t.session = some session) :
    ∃ kept, ws.cells = t.cell ::ₘ kept ∧
      (heard s ws p t pos delta nowMs).cells =
        (if delta.started then t.cell.start session else t.cell) ::ₘ kept := by
  obtain ⟨_, hp, ht⟩ := EffectLemmas.lookup_eq_some.mp hlookup
  obtain ⟨kept, hcells, hmodify⟩ := exists_rest_cells hp ht
  refine ⟨kept, hcells, ?_⟩
  rw [heard, Workspace.cells, panes_applyDelta]
  exact (hmodify _).trans (by rw [cell_applyDelta hsession])

end Heard

/-- A report changes no seat. -/
theorem heard_seats {nowMs : UInt64} {entry : SessionId × OscDelta}
    (h : Heard s nowMs entry s') : s'.cells.map Cell.seat = s.cells.map Cell.seat := by
  cases h with
  | missed hpos => rfl
  | located hpos hlookup hsession =>
    obtain ⟨hws, _⟩ := EffectLemmas.lookup_eq_some.mp hlookup
    obtain ⟨rest, hlist, _, hmodify⟩ := ListEdit.exists_rest hws
    obtain ⟨kept, hcells, hheard⟩ := exists_rest_heard entry.2 nowMs hlookup hsession
    rw [cells_coe, cells_coe, hmodify, hlist, Multiset.cons_bind, Multiset.cons_bind,
      Multiset.map_add, Multiset.map_add, hheard, hcells, Multiset.map_cons, Multiset.map_cons]
    split
    · rw [start_seat]
    · rfl

/-- A session that is not located is not held. -/
theorem not_held_of_locate {session : SessionId} (h : s.locateSession session = none) :
    session ∉ s.held := by
  intro hmem
  obtain ⟨t, ht, hsession⟩ := List.mem_filterMap.mp hmem
  obtain ⟨ws, hws, ht⟩ := List.mem_flatMap.mp ht
  obtain ⟨p, hp, ht⟩ := List.mem_flatMap.mp ht
  obtain ⟨pane, hp⟩ := OrdMap.mem_values.mp hp
  obtain ⟨wi, hwi⟩ := List.mem_iff_getElem?.mp hws
  rw [AppState.locateSession, AppState.findTab, List.findSome?_eq_none_iff] at h
  have hpanes := h (ws, wi) (List.mem_zipIdx_iff_getElem?.mpr hwi)
  have htabs := List.findSome?_eq_none_iff.mp hpanes (pane, p) hp
  have hnone := List.findIdx?_eq_none_iff.mp (Option.map_eq_none_iff.mp htabs) t ht
  simp [hsession] at hnone

/-- The boards after an entry: the one that holds the session heard its report. -/
theorem heard_boards {nowMs : UInt64} {entry : SessionId × OscDelta} (hheld : s.held.Nodup)
    (h : Heard s nowMs entry s') (hws' : ws' ∈ s'.workspaces) :
    ∃ ws ∈ s.workspaces,
      BoardStep ws.board (.reported entry.1 entry.2.status entry.2.started) ws'.board := by
  cases h with
  | missed hpos =>
    refine ⟨ws', hws', .missed fun c hc hs => not_held_of_locate hpos ?_⟩
    exact mem_held.mpr ⟨ws', hws', c, hc, hs⟩
  | @located pos ws p t hpos hlookup hsession =>
    obtain ⟨hws, _⟩ := EffectLemmas.lookup_eq_some.mp hlookup
    obtain ⟨rest, hlist, _, hmodify⟩ := ListEdit.exists_rest hws
    obtain ⟨kept, hcells, hheard⟩ := exists_rest_heard entry.2 nowMs hlookup hsession
    -- no other cell, here or in another workspace, holds the session
    have hunique : entry.1 ∉ heldBy kept + heldBy ((rest : Multiset Workspace).bind
        Workspace.cells) := by
      have hnodup : (heldBy s.cells).Nodup := by
        rw [← held_coe]
        exact Multiset.coe_nodup.mpr hheld
      rw [cells_coe, hlist, Multiset.cons_bind, hcells, Multiset.cons_add, heldBy_cons,
        heldBy_add] at hnodup
      have htab : t.cell.session = some entry.1 := hsession
      rw [htab] at hnodup
      exact (Multiset.nodup_cons.mp hnodup).1
    have hkept : ∀ c ∈ kept, c.session ≠ some entry.1 := fun c hc hs =>
      hunique (Multiset.mem_add.mpr (.inl (mem_heldBy.mpr ⟨c, hc, hs⟩)))
    rcases Multiset.mem_cons.mp (hmodify _ ▸ Multiset.mem_coe.mpr hws') with rfl | hother
    · refine ⟨ws, mem_of_getElem hws, ?_⟩
      have hstart : kept.map (Cell.start entry.1) = kept := by
        refine (Multiset.map_congr rfl fun c hc => ?_).trans (Multiset.map_id' kept)
        exact if_neg fun h => hkept c hc h.1
      have hmarked : (heard s ws p t pos entry.2 nowMs).cells =
          if entry.2.started then ws.cells.map (Cell.start entry.1) else ws.cells := by
        rw [hheard, hcells, Multiset.map_cons, hstart]
        split <;> rfl
      have hmem : t.cell ∈ ws.cells := hcells ▸ Multiset.mem_cons_self _ _
      rw [board_eq (id_heard s ws p t _ _ _) (slot_heard s ws p t _ _ _) hmarked]
      exact .reported (b := ws.board) hmem hsession
    · refine ⟨ws', ?_, .missed fun c hc hs => hunique (Multiset.mem_add.mpr (.inr ?_))⟩
      · rw [← Multiset.mem_coe, hlist]
        exact Multiset.mem_cons_of_mem hother
      · exact mem_heldBy.mpr ⟨c, Multiset.mem_bind.mpr ⟨ws', hother, hc⟩, hs⟩

end BoardLemmas

open BoardLemmas

/-! ## Actions other than batches -/

/-- The workspaces after an action that is not a batch. -/
theorem Stepped.boards {d d' : Dispatcher} {a : Action} (hl : d.state.Legal) (h : Stepped d a d')
    (hosc : ∀ batch nowMs, a ≠ .applyOsc batch nowMs) :
    ∃ fresh : Option SessionId, d'.spawned = d.spawned ++ fresh.toList ∧
      ∀ ws' ∈ d'.state.workspaces,
        (∃ ws ∈ d.state.workspaces, ∃ deed, a.Causes d ws fresh deed ∧
          BoardStep ws.board deed ws'.board) ∨ ws'.board.New fresh := by
  cases h with
  | @performed spawner cmd out gone d₁ revision h =>
    refine ⟨out.session, h.spawned, fun ws' hws' => ?_⟩
    rcases effect_boards hl h.effect hws' with
      ⟨ws, hws, session, gone, hsession, hcloses, hstep⟩ | hnew
    · exact .inl ⟨ws, hws, _, .edited hsession hcloses, hstep⟩
    · exact .inr hnew
  | @failed spawner cmd _ hframe =>
    have hstate : d'.state = d.state := congrArg Prod.fst hframe
    refine ⟨none, ?_, fun ws' hws' => .inl ⟨ws', hstate ▸ hws', _, ?_, .quiet ws'.board⟩⟩
    · rw [spawned_of_frame hframe, Option.toList_none, List.append_nil]
    · exact .edited (by simp) (.inl rfl)
  | refused spawner tab =>
    exact ⟨none, (List.append_nil _).symm, fun ws' hws' =>
      .inl ⟨ws', hws', _, .spared spawner tab, .quiet ws'.board⟩⟩
  | @respawned spawner tab ws pos t session status _ h =>
    refine ⟨session, h.spawned, fun ws' hws' => ?_⟩
    rcases respawned_boards h hws' with hold | ⟨hws, ht, hstep⟩
    · exact .inl ⟨ws', hold, _, .spared spawner tab, .quiet ws'.board⟩
    · exact .inl ⟨ws, hws, _, .respawned spawner ht h.id h.eligible, h.id ▸ hstep⟩
  | event ev revision =>
    refine ⟨none, ?_, fun ws' hws' => ?_⟩
    · rw [Dispatcher.withRevision_spawned, Option.toList_none, List.append_nil,
        Dispatcher.spawned, host_receive]
      rfl
    · cases ev with
      | sessionExited session code endedAtMs =>
        obtain ⟨ws, hws, rfl⟩ := List.mem_map.mp hws'
        exact .inl ⟨ws, hws, _, .exited session code endedAtMs, board_exitSession _ _ _ ws⟩
      | sessionStartupTimeout session =>
        rw [Dispatcher.withRevision_workspaces, Dispatcher.receive] at hws'
        split at hws'
        -- A shell that started in time has its deadline ignored.
        next hstarted => exact .inl ⟨ws', hws', _, .late hstarted, .quiet ws'.board⟩
        next hstarted =>
          obtain ⟨ws, hws, rfl⟩ := List.mem_map.mp hws'
          exact .inl ⟨ws, hws, _, .timedOut hstarted, board_startupTimeout session ws⟩
  | osc batch nowMs revision => exact absurd rfl (hosc batch nowMs)

/-- What an action does to the log of the host and to the sessions that tabs hold:
`fresh` was spawned, `lost` were killed. -/
structure Balance (d : Dispatcher) (a : Action) (fresh : Option SessionId) (lost : List SessionId)
    (d' : Dispatcher) : Prop where
  spawned : d'.spawned = d.spawned ++ fresh.toList
  killed : d'.killed = d.killed ++ lost
  held : (d'.state.held : Multiset SessionId) + (lost : Multiset SessionId) =
    (d.state.held : Multiset SessionId).filter (fun s => a.ended ≠ some s) +
      (fresh.toList : Multiset SessionId)
  ended : a.ended ≠ none → fresh = none

/-- A batch changes neither a seat nor the host. -/
theorem applyEntries_seats (nowMs : UInt64) (entries : List (SessionId × OscDelta))
    (d : Dispatcher) :
    (d.applyEntries nowMs entries).2.state.cells.map Cell.seat = d.state.cells.map Cell.seat ∧
      (d.applyEntries nowMs entries).2.host = d.host := by
  induction entries generalizing d with
  | nil => exact ⟨rfl, rfl⟩
  | cons entry entries ih =>
    obtain ⟨hseats, hhost⟩ := ih (d.applyEntry nowMs entry).2
    exact ⟨hseats.trans (heard_seats (applyEntry_heard nowMs entry d)),
      hhost.trans (applyEntry_host nowMs entry d)⟩

/-- The balance of every action. -/
theorem Stepped.balance {d d' : Dispatcher} {a : Action} (hl : d.state.Legal)
    (h : Stepped d a d') : ∃ fresh lost, Balance d a fresh lost d' := by
  -- Only the end of a session takes it out of the count.
  have hall : a.ended = none → (d.state.held : Multiset SessionId).filter
      (fun s => a.ended ≠ some s) = heldBy d.state.cells := by
    intro hended
    rw [← held_coe]
    exact Multiset.filter_eq_self.mpr fun s _ => by simp [hended]
  cases h with
  | @performed spawner cmd out gone d₁ revision h =>
    refine ⟨out.session, gone.filterMap Tab.session, h.spawned, h.killed, ?_, absurd rfl⟩
    have hheld := effect_held hl h.effect
    rw [hall rfl, held_coe]
    exact hheld
  | @failed spawner cmd _ hframe =>
    have hstate : d'.state = d.state := congrArg Prod.fst hframe
    refine ⟨none, [], ?_, ?_, ?_, fun _ => rfl⟩
    · rw [spawned_of_frame hframe, Option.toList_none, List.append_nil]
    · rw [killed_of_frame hframe, List.append_nil]
    · rw [hall rfl, hstate, held_coe]
      rfl
  | refused spawner tab =>
    refine ⟨none, [], (List.append_nil _).symm, (List.append_nil _).symm, ?_, fun _ => rfl⟩
    rw [hall rfl, held_coe]
    rfl
  | @respawned spawner tab ws pos t session status _ h =>
    refine ⟨session, t.session.toList, h.spawned, h.killed, ?_, absurd rfl⟩
    rw [hall rfl, held_coe]
    exact respawned_held h
  | event ev revision =>
    have hhost := host_receive ev d
    refine ⟨none, [], ?_, ?_, ?_, fun _ => rfl⟩
    · rw [Dispatcher.withRevision_spawned, Dispatcher.spawned, hhost]
      exact (List.append_nil _).symm
    · rw [Dispatcher.withRevision_killed, Dispatcher.killed, hhost]
      exact (List.append_nil _).symm
    · have hheld : ((d.receive ev).2.state.held : Multiset SessionId) =
          (d.state.held : Multiset SessionId).filter
            fun s => (Action.applyEvent ev).ended ≠ some s := by
        rw [held_coe, held_coe]
        exact receive_held ev d
      exact congrArg (· + 0) hheld
  | osc batch nowMs revision =>
    obtain ⟨hseats, hhost⟩ := applyEntries_seats nowMs batch.entries.entries d
    refine ⟨none, [], ?_, ?_, ?_, fun _ => rfl⟩
    · rw [Dispatcher.withRevision_spawned, Dispatcher.spawned, hhost]
      exact (List.append_nil _).symm
    · rw [Dispatcher.withRevision_killed, Dispatcher.killed, hhost]
      exact (List.append_nil _).symm
    · -- A batch changes no seat.
      have hsame : ((d.applyEntries nowMs batch.entries.entries).2.state.held :
          Multiset SessionId) = heldBy d.state.cells := by
        rw [held_coe]
        exact heldBy_of_seats hseats
      rw [hall rfl]
      exact congrArg (· + 0) hsame

end Mast
