import Mast.Lib.PrioritySlot
import Mast.Structure.Legal

/-!
# Boards: a workspace as the host and the sidebar see it

A board forgets everything about a workspace but which tab holds which session
(its cells) and the status it shows (its slot). `BoardStep` says what may happen
to a board; it is the specification of the part of the dispatcher that hands out
sessions and shows statuses. It speaks of sets of tabs and sessions only, not of
panes, trees or positions.

Results:
1. `edit_board`: an edit of a workspace is a step of its board.
-/

namespace Mast

/-! ## Boards -/

/-- A tab, as the host sees it. A viewer has no status. -/
structure Cell where
  tab : TabId
  session : Option SessionId
  status : Option TerminalStatus
deriving DecidableEq

/-- The status a workspace shows, and the tab that reported it. -/
abbrev StatusSlot := PrioritySlot TabId AgentStatus

structure Board where
  id : WorkspaceId
  slot : StatusSlot
  cells : Multiset Cell

/-- The status of a terminal tab. -/
def Tab.terminalStatus (t : Tab) : Option TerminalStatus :=
  match t.kind with
  | .terminal _ status _ => some status
  | _ => none

def Tab.cell (t : Tab) : Cell := ⟨t.id, t.session, t.terminalStatus⟩

def Pane.cells (p : Pane) : Multiset Cell := (p.tabs.map Tab.cell : List Cell)

namespace Workspace

def slot (ws : Workspace) : StatusSlot := ⟨ws.agentStatus, ws.agentStatusSource⟩

def cells (ws : Workspace) : Multiset Cell := ws.panes.collect fun _ p => p.cells

def board (ws : Workspace) : Board := ⟨ws.id, ws.slot, ws.cells⟩

end Workspace

/-- Which tab holds which session. -/
def Cell.seat (c : Cell) : TabId × Option SessionId := (c.tab, c.session)

/-- The sessions that cells hold. -/
def heldBy (cells : Multiset Cell) : Multiset SessionId := cells.filterMap Cell.session

/-! ## What may happen to a board -/

namespace Cell

/-- The cell of a tab that was just opened. -/
structure Opened (session : Option SessionId) (c : Cell) : Prop where
  holds : c.session = session
  status : c.status = session.map fun _ => .running

/-- The tab lets go of a session that ended. -/
def exit (session : SessionId) (status : TerminalStatus) (c : Cell) : Cell :=
  if c.session = some session then ⟨c.tab, none, some status⟩ else c

/-- The start deadline of a session passed; only a running tab is marked. -/
def timeout (session : SessionId) (c : Cell) : Cell :=
  if c.session = some session ∧ c.status = some .running then
    ⟨c.tab, c.session, some .notStarted⟩
  else c

/-- A start marker of a session takes a warning back. -/
def start (session : SessionId) (c : Cell) : Cell :=
  if c.session = some session ∧ c.status = some .notStarted then
    ⟨c.tab, c.session, some .running⟩
  else c

end Cell

/-- A thing that may happen to a board. -/
inductive Deed
  /-- tabs go, and a tab comes, with the session that was spawned for it -/
  | edited (session : Option SessionId) (gone : List Cell)
  /-- a tab changes its session -/
  | respawned (tab : TabId) (session : Option SessionId)
  | exited (session : SessionId)
  | timedOut (session : SessionId)
  /-- a session reports a status, or that its shell has started, or both -/
  | reported (session : SessionId) (status : Option AgentStatus) (started : Bool)

inductive BoardStep (b : Board) : Deed → Board → Prop
  /-- tabs that go take their reports with them -/
  | edited {session : Option SessionId} {gone : List Cell} (come : Multiset Cell)
      {kept : Multiset Cell} : b.cells = gone + kept → (∀ c ∈ come, c.Opened session) →
      heldBy come = (session.toList : List SessionId) →
      BoardStep b (.edited session gone)
        { b with slot := b.slot.withdraw .idle (gone.map Cell.tab), cells := come + kept }
  | respawned {c : Cell} {kept : Multiset Cell} {session : Option SessionId}
      {status : TerminalStatus} : b.cells = c ::ₘ kept →
      (session.isSome ∧ status = .running) ∨
        (session = none ∧ ∃ code endedAtMs, status = .exited code endedAtMs) →
      BoardStep b (.respawned c.tab session)
        { b with cells := ⟨c.tab, session, some status⟩ ::ₘ kept }
  /-- the tabs of an ended session take their reports with them -/
  | exited {session : SessionId} {code : Option UInt32} {endedAtMs : Option UInt64}
      (holders : List TabId) :
      (∀ tab, tab ∈ holders ↔ ∃ c ∈ b.cells, c.session = some session ∧ c.tab = tab) →
      BoardStep b (.exited session)
        { b with
          slot := b.slot.withdraw .idle holders
          cells := b.cells.map (Cell.exit session (.exited code endedAtMs)) }
  | timedOut {session : SessionId} :
      BoardStep b (.timedOut session) { b with cells := b.cells.map (Cell.timeout session) }
  | reported {session : SessionId} {status : Option AgentStatus} {started : Bool} {c : Cell} :
      c ∈ b.cells → c.session = some session →
      BoardStep b (.reported session status started)
        { b with
          slot := status.elim b.slot fun st => b.slot.report .needsInput c.tab st
          cells := if started then b.cells.map (Cell.start session) else b.cells }
  /-- a report of a session that no tab of the board holds -/
  | missed {session : SessionId} {status : Option AgentStatus} {started : Bool} :
      (∀ c ∈ b.cells, c.session ≠ some session) →
      BoardStep b (.reported session status started) b

/-- Nothing that a board shows. -/
def Deed.quiet : Deed := .edited none []

theorem BoardStep.quiet (b : Board) : BoardStep b .quiet b := by
  have hcells : b.cells = (([] : List Cell) : Multiset Cell) + b.cells :=
    (Multiset.zero_add _).symm
  have hstep : BoardStep b .quiet _ := .edited 0 hcells (by simp) rfl
  rwa [List.map_nil, PrioritySlot.withdraw_nil, zero_add] at hstep

/-! ## Workspaces and their boards -/

namespace BoardLemmas

open WorkspaceLemmas

variable {ws ws' : Workspace} {pane : PaneId} {p removed : Pane} {t : Tab}

theorem cells_eq (ws : Workspace) : ws.cells = (ws.tabs.map Tab.cell : List Cell) := by
  simp only [Workspace.cells, OrdMap.collect, Workspace.tabs, OrdMap.values, Multiset.coe_bind,
    Pane.cells, List.map_flatMap, List.flatMap_map]

theorem mem_cells {c : Cell} : c ∈ ws.cells ↔ ∃ t ∈ ws.tabs, t.cell = c := by
  simp [cells_eq]

theorem heldBy_map_cell (tabs : List Tab) :
    heldBy (tabs.map Tab.cell : List Cell) = (tabs.filterMap Tab.session : List SessionId) := by
  rw [heldBy, Multiset.filterMap_coe, List.filterMap_map]
  rfl

theorem mem_heldBy {cells : Multiset Cell} {session : SessionId} :
    session ∈ heldBy cells ↔ ∃ c ∈ cells, c.session = some session := by
  simp [heldBy]

theorem heldBy_add (c₁ c₂ : Multiset Cell) : heldBy (c₁ + c₂) = heldBy c₁ + heldBy c₂ := by
  induction c₁ using Quotient.inductionOn with
  | h l₁ =>
    induction c₂ using Quotient.inductionOn with
    | h l₂ => simp [heldBy, Multiset.filterMap_coe]

theorem heldBy_cons (c : Cell) (cells : Multiset Cell) :
    heldBy (c ::ₘ cells) = (c.session.toList : Multiset SessionId) + heldBy cells := by
  cases hc : c.session with
  | none => simp [heldBy, Multiset.filterMap_cons_none, hc]
  | some session => simp [heldBy, Multiset.filterMap_cons_some _ _ _ hc]

/-- Cells with the same seats hold the same sessions. -/
theorem heldBy_of_seats {c₁ c₂ : Multiset Cell} (h : c₁.map Cell.seat = c₂.map Cell.seat) :
    heldBy c₁ = heldBy c₂ := by
  have hseats : ∀ cells : Multiset Cell,
      heldBy cells = (cells.map Cell.seat).filterMap Prod.snd := by
    intro cells
    rw [Multiset.filterMap_map]
    rfl
  rw [hseats, hseats, h]

/-! ### Opened tabs -/

theorem opened_cell {session : Option SessionId} (h : t.Opened session) :
    t.cell.Opened session := by
  have hkind := h.kind
  unfold Tab.cell Tab.session Tab.terminalStatus
  cases hk : t.kind with
  | terminal s status cwd =>
    rw [hk] at hkind
    cases hkind
    exact ⟨rfl, rfl⟩
  | _ =>
    rw [hk] at hkind
    cases hkind
    exact ⟨rfl, rfl⟩

/-- A viewer tab holds nothing. -/
theorem viewer_cell (h : t.kind.IsViewer) : t.cell = ⟨t.id, none, none⟩ := by
  unfold Tab.cell Tab.session Tab.terminalStatus
  cases hk : t.kind with
  | terminal s status cwd =>
    rw [hk] at h
    cases h
  | _ => rfl

theorem isViewer_of_opened {kind : TabKind} (h : kind.Opened none) : kind.IsViewer := by
  cases h <;> trivial

/-! ### Changes that a board does not see -/

theorem cells_modify {f : Pane → Pane}
    (hf : ∀ p, ws.panes.get? pane = some p → (f p).cells = p.cells) :
    Workspace.cells { ws with panes := ws.panes.modify pane f } = ws.cells := by
  cases hp : ws.panes.get? pane with
  | none => rw [OrdMap.modify_of_get?_eq_none f hp]
  | some p =>
    have hcollect := OrdMap.collect_modify (fun _ p => Pane.cells p) f hp
    rw [hf p hp] at hcollect
    exact add_right_cancel hcollect

theorem cells_modify_tabs {ti : Nat} {f : Tab → Tab}
    (hf : ∀ t, p.tabs[ti]? = some t → (f t).cell = t.cell) :
    Pane.cells { p with tabs := p.tabs.modify ti f } = p.cells :=
  congrArg (fun cells : List Cell => (cells : Multiset Cell)) (ListEdit.map_modify f Tab.cell hf)

theorem cells_clearActiveUnread : p.clearActiveUnread.cells = p.cells := by
  unfold Pane.clearActiveUnread
  split
  · exact cells_modify_tabs fun t _ => rfl
  · rfl

theorem cells_clearVisibleUnread : ws.clearVisibleUnread.cells = ws.cells := by
  simp only [Workspace.cells, Workspace.clearVisibleUnread, OrdMap.collect_mapValues,
    cells_clearActiveUnread]

theorem board_clearVisibleUnread : ws.clearVisibleUnread.board = ws.board := by
  rw [Workspace.board, cells_clearVisibleUnread]
  rfl

/-! ### Tabs that go -/

theorem slot_resetAll (ws : Workspace) (tabs : List TabId) :
    (ws.resetAll tabs).slot = ws.slot.withdraw .idle tabs := by
  induction tabs generalizing ws with
  | nil => exact PrioritySlot.withdraw_nil.symm
  | cons tab tabs ih =>
    have hone : (ws.resetAgentSource tab).slot = ws.slot.withdraw .idle [tab] := by
      unfold Workspace.resetAgentSource PrioritySlot.withdraw
      simp only [List.mem_singleton, exists_eq_left]
      split
      next h => exact (if_pos h).symm
      next h => exact (if_neg h).symm
    rw [PrioritySlot.withdraw_cons, ← hone, ← ih]
    rfl

theorem panes_resetAgentSource (tab : TabId) : (ws.resetAgentSource tab).panes = ws.panes := by
  unfold Workspace.resetAgentSource
  split <;> rfl

theorem panes_resetAll (tabs : List TabId) : (ws.resetAll tabs).panes = ws.panes := by
  induction tabs generalizing ws with
  | nil => rfl
  | cons tab tabs ih => exact ih.trans (panes_resetAgentSource tab)

theorem cells_resetAll (ws : Workspace) (tabs : List TabId) :
    (ws.resetAll tabs).cells = ws.cells := by
  rw [Workspace.cells, panes_resetAll]
  rfl

/-- A collapse takes the tabs of the pane out. -/
theorem cells_collapsePane (h : ws.collapsePane pane = some (removed, ws')) :
    ws.cells = removed.cells + ws'.cells := by
  obtain ⟨hp, hpanes, _⟩ := collapsePane_eq_some h
  rw [Workspace.cells, Workspace.cells, hpanes]
  exact OrdMap.collect_erase _ hp

/-- The rule for tabs that go. -/
theorem boardStep_retired {b b' : Board} (gone : List Cell) (hid : b'.id = b.id)
    (hslot : b'.slot = b.slot.withdraw .idle (gone.map Cell.tab))
    (hcells : b.cells = gone + b'.cells) : BoardStep b (.edited none gone) b' := by
  obtain ⟨id, slot, cells⟩ := b'
  obtain rfl : id = b.id := hid
  obtain rfl : slot = b.slot.withdraw .idle (gone.map Cell.tab) := hslot
  have hstep : BoardStep b (.edited none gone) _ := .edited 0 hcells (by simp) rfl
  rwa [zero_add] at hstep

theorem board_closePane (h : ws.closePane pane = some (removed, ws')) :
    BoardStep ws.board (.edited none (removed.tabs.map Tab.cell)) ws'.board := by
  have hid := id_closePane h
  obtain ⟨ws₁, hcollapse, rfl⟩ := closePane_eq_some h
  have hslot : ws₁.slot = ws.slot := by
    rw [collapsePane_frame hcollapse]
    rfl
  refine boardStep_retired _ hid ?_ ?_
  · have htabs : (removed.tabs.map Tab.cell).map Cell.tab = removed.tabIds := by
      rw [List.map_map]
      rfl
    rw [htabs]
    exact (slot_resetAll ws₁ _).trans (by rw [hslot]; rfl)
  · exact (cells_collapsePane hcollapse).trans
      (congrArg (removed.cells + ·) (cells_resetAll ws₁ removed.tabIds).symm)

/-! ### Closing a tab -/

theorem cells_closeTab (shown : Bool) {ti : Nat} (ht : p.tabs[ti]? = some t) :
    p.cells = t.cell ::ₘ (p.closeTab shown ti t.id).cells := by
  obtain ⟨rest, hp, herase, _⟩ := ListEdit.exists_rest ht
  have hcells : (p.closeTab shown ti t.id).cells =
      ((p.tabs.eraseIdx ti).map Tab.cell : List Cell) := by
    unfold Pane.closeTab
    split
    · dsimp only
      split
      · exact cells_clearActiveUnread
      · rfl
    · rfl
  rw [hcells, Pane.cells, ← Multiset.map_coe, ← Multiset.map_coe, herase, hp, Multiset.map_cons]

theorem board_closeTab {shown : Bool} {ti : Nat} (hp : ws.panes.get? pane = some p)
    (ht : p.tabs[ti]? = some t) (h : ws.closeTab shown pane ti t.id = some ws') :
    BoardStep ws.board (.edited none [t.cell]) ws'.board := by
  have hid := id_closeTab h
  have hwithout : ws.cells = t.cell ::ₘ (withoutTab shown pane ti t.id ws).cells := by
    have hcollect := OrdMap.collect_modify (fun _ p => Pane.cells p)
      (Pane.closeTab shown ti t.id) hp
    rw [cells_closeTab shown ht, Multiset.add_cons, ← Multiset.cons_add] at hcollect
    exact (add_right_cancel hcollect).symm
  obtain ⟨ws₁, rfl, hws₁⟩ := closeTab_eq_some h
  have hslot : ws₁.slot = ws.slot := by
    rcases hws₁ with rfl | ⟨removed, hcollapse, _⟩
    · rfl
    · rw [collapsePane_frame hcollapse]
      rfl
  have hcells : ws₁.cells = (withoutTab shown pane ti t.id ws).cells := by
    rcases hws₁ with rfl | ⟨removed, hcollapse, hempty, _⟩
    · rfl
    · have hsplit := cells_collapsePane hcollapse
      rw [Pane.cells, hempty] at hsplit
      simpa using hsplit.symm
  refine boardStep_retired [t.cell] hid ?_ ?_
  · exact (slot_resetAll ws₁ [t.id]).trans (by rw [hslot]; rfl)
  · rw [Workspace.board, hwithout, ← hcells, ← cells_resetAll ws₁ [t.id]]
    rfl

/-! ### Opening a tab -/

/-- The rule for a tab that opens, or for none. -/
theorem boardStep_opened {b b' : Board} (tab : Option Tab) {session : Option SessionId}
    (hopened : ∀ t ∈ tab, t.Opened session) (hnone : tab = none → session = none)
    (hid : b'.id = b.id) (hslot : b'.slot = b.slot)
    (hcells : b'.cells = ((tab.toList.map Tab.cell : List Cell) : Multiset Cell) + b.cells) :
    BoardStep b (.edited session []) b' := by
  obtain ⟨id, slot, cells⟩ := b'
  obtain rfl : id = b.id := hid
  obtain rfl : slot = b.slot := hslot
  obtain rfl : cells = _ := hcells
  have hcome : ∀ c ∈ ((tab.toList.map Tab.cell : List Cell) : Multiset Cell),
      c.Opened session := by
    intro c hc
    obtain ⟨t, ht, rfl⟩ := List.mem_map.mp (Multiset.mem_coe.mp hc)
    exact opened_cell (hopened t (Option.mem_toList.mp ht))
  have hheld : heldBy (tab.toList.map Tab.cell : List Cell) =
      (session.toList : List SessionId) := by
    cases tab with
    | none => rw [hnone rfl]; rfl
    | some t =>
      have hcell := (opened_cell (hopened t rfl)).holds
      refine (heldBy_cons t.cell 0).trans ?_
      rw [hcell]
      exact Multiset.add_zero _
  have hkept : b.cells = (([] : List Cell) : Multiset Cell) + b.cells :=
    (Multiset.zero_add _).symm
  have hstep : BoardStep b (.edited session []) _ := .edited _ hkept hcome hheld
  rwa [List.map_nil, PrioritySlot.withdraw_nil] at hstep

theorem cells_splitPane {newPane : PaneId} {d : SplitDirection} {splitId : SplitId}
    {tab : Option Tab} (hnew : newPane ∉ ws.panes.keys) :
    (ws.splitPane pane d newPane splitId tab).cells =
      ((tab.toList.map Tab.cell : List Cell) : Multiset Cell) + ws.cells := by
  have hinsert := OrdMap.collect_insert (fun _ p => Pane.cells p) (initialPane newPane tab) hnew
  rw [Pane.cells, PaneLemmas.tabs_initialPane] at hinsert
  exact hinsert

theorem cells_addTab (h : pane ∈ ws.panes.keys) :
    (ws.addTab pane t).cells = t.cell ::ₘ ws.cells := by
  obtain ⟨p, hp⟩ := OrdMap.mem_keys.mp h
  have hcollect := OrdMap.collect_modify (fun _ p => Pane.cells p) (Pane.pushActive t)
    (OrdMap.get?_eq_some_iff.mpr hp)
  have hpush : (p.pushActive t).cells = t.cell ::ₘ p.cells := by
    simp only [Pane.pushActive, Pane.cells, List.map_append, ← Multiset.coe_add]
    rw [add_comm]
    rfl
  rw [hpush, Multiset.add_cons, ← Multiset.cons_add] at hcollect
  exact add_right_cancel hcollect

/-- A tab that is replaced by one with the same cell. -/
theorem board_replaceTab {ti : Nat} {t' : Tab} (hp : ws.panes.get? pane = some p)
    (ht : p.tabs[ti]? = some t) (hcell : t'.cell = t.cell) :
    (ws.modifyTab pane ti fun _ => t').board = ws.board := by
  have hcells : (ws.modifyTab pane ti fun _ => t').cells = ws.cells := by
    refine cells_modify fun q hq => cells_modify_tabs fun u hu => ?_
    obtain rfl := Option.some_inj.mp (hp.symm.trans hq)
    obtain rfl := Option.some_inj.mp (ht.symm.trans hu)
    exact hcell
  rw [Workspace.board, hcells]
  rfl

theorem board_activateTab {ti : Nat} {tab : TabId} :
    (ws.activateTab pane ti tab).board = ws.board := by
  have hcells : (ws.activateTab pane ti tab).cells = ws.cells :=
    cells_modify fun _ _ => cells_modify_tabs fun _ _ => rfl
  rw [Workspace.board, hcells]
  rfl

end BoardLemmas

open BoardLemmas in
/-- An edit of a workspace is a step of its board. -/
theorem edit_board {shown : Bool} {ws ws' : Workspace} {out : CommandOutput} {gone : List Tab}
    (hfresh : ∀ id ∈ out.ids, id ∉ ws.ids) (h : Edit shown ws out gone ws') :
    BoardStep ws.board (.edited out.session (gone.map Tab.cell)) ws'.board := by
  cases h with
  | rename name => exact .quiet ws.board
  | focus hpane => exact .quiet ws.board
  | resize split hratio => exact .quiet ws.board
  | splitPane direction hpane hopened hnone =>
    refine boardStep_opened _ hopened hnone rfl rfl (cells_splitPane fun hnew => ?_)
    exact hfresh _ List.mem_cons_self (LegalLemmas.mem_ids_of_pane hnew)
  | closePane hsize hclose => exact board_closePane hclose
  | @addTab pane t session hpane hopened =>
    refine boardStep_opened (some t) (fun u hu => ?_) (by simp) rfl rfl ?_
    · obtain rfl := Option.some_inj.mp hu
      exact hopened
    · exact (cells_addTab hpane).trans (Multiset.singleton_add _ _).symm
  | activateTab hp ht =>
    rw [board_activateTab]
    exact .quiet ws.board
  | closeTab hp ht hclose => exact board_closeTab hp ht hclose
  | viewer f hp ht hid hread hkind hkind' =>
    have hkind' := isViewer_of_opened hkind'
    rw [board_replaceTab hp ht ((viewer_cell hkind').trans (by rw [hid, viewer_cell hkind]))]
    exact .quiet ws.board

end Mast
