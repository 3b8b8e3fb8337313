import Mast.World

/-!
# Start markers and start deadlines

A shell that starts sends a marker; a watchdog reports a deadline that passed
without one. Marker, deadline, spawn and exit come in any order. The dispatcher
remembers the markers it has seen, and forgets a session when it exits.

Results:
1. `CellOk`: a tab that holds a session runs or waits for its marker.
2. `marked_sessions_run`: in every run with fresh sessions, a tab that is shown as
   not started holds a session that delivered no marker.
-/

namespace Mast

/-- A tab that holds a session runs, or is shown as not started while no marker
of the session was delivered; a tab that holds none is not shown so. -/
structure CellOk (marked : Finset SessionId) (c : Cell) : Prop where
  holds : ∀ s, c.session = some s →
    c.status = some .running ∨ (c.status = some .notStarted ∧ s ∉ marked)
  free : c.session = none → c.status ≠ some .notStarted

/-- Every cell is in order, and the dispatcher remembers the markers of the
sessions that live. -/
structure StartsKnown (w : World) : Prop where
  cells : ∀ ws ∈ w.disp.state.workspaces, ∀ c ∈ ws.cells, CellOk w.seen.marked c
  started : ∀ s ∈ w.seen.marked, s ∉ w.seen.exited → s ∈ w.disp.startedSessions

namespace StartedLemmas

open WorldLemmas BoardLemmas

variable {w : World} {a : Action} {marked : Finset SessionId} {c : Cell}

/-! ## One cell -/

theorem cellOk_opened {session : Option SessionId} (h : c.Opened session) : CellOk marked c where
  holds s hs := by
    have hsession : session = some s := h.holds.symm.trans hs
    exact .inl (by rw [h.status, hsession]; rfl)
  free hnone := by
    have hsession : session = none := h.holds.symm.trans hnone
    rw [h.status, hsession]
    simp

theorem cellOk_exit (session : SessionId) (code : Option UInt32) (endedAtMs : Option UInt64)
    (h : CellOk marked c) : CellOk marked (c.exit session (.exited code endedAtMs)) := by
  unfold Cell.exit
  split
  · exact ⟨fun s hs => by simp at hs, fun _ => by simp⟩
  · exact h

theorem cellOk_timeout {session : SessionId} (h : CellOk marked c)
    (hmarked : c.session = some session → session ∉ marked) :
    CellOk marked (c.timeout session) := by
  unfold Cell.timeout
  split
  next hc =>
    refine ⟨fun s hs => .inr ⟨rfl, ?_⟩, fun hnone => by simp [hc.1] at hnone⟩
    obtain rfl : session = s := Option.some_inj.mp (hc.1.symm.trans hs)
    exact hmarked hc.1
  · exact h

/-- A marker takes the warning back, so the session may be noted. -/
theorem cellOk_start (session : SessionId) (h : CellOk marked c) :
    CellOk (insert session marked) (c.start session) := by
  unfold Cell.start
  split
  next hc => exact ⟨fun s hs => .inl rfl, fun hnone => by simp [hc.1] at hnone⟩
  next hc =>
    refine ⟨fun s hs => ?_, h.free⟩
    rcases h.holds s hs with hrun | ⟨hwait, hs'⟩
    · exact .inl hrun
    · refine .inr ⟨hwait, fun hin => ?_⟩
      rcases Finset.mem_insert.mp hin with rfl | hin
      · exact hc ⟨hs, hwait⟩
      · exact hs' hin

/-- A marker of a session that the cell does not hold. -/
theorem cellOk_other {session : SessionId} (hc : c.session ≠ some session)
    (h : CellOk marked c) : CellOk (insert session marked) c where
  holds s hs := by
    refine (h.holds s hs).imp_right fun hwait => ⟨hwait.1, fun hin => ?_⟩
    rcases Finset.mem_insert.mp hin with rfl | hin
    · exact hc hs
    · exact hwait.2 hin
  free := h.free

/-! ## One board -/

/-- What an action does to the cells of a board. -/
theorem cells_deed {d : Dispatcher} {ws : Workspace} {fresh : Option SessionId} {deed : Deed}
    {b b' : Board} (hcause : a.Causes d ws fresh deed) (h : BoardStep b deed b')
    (hcells : ∀ c ∈ b.cells, CellOk marked c)
    (hstarted : ∀ c ∈ b.cells, ∀ s, c.session = some s → s ∈ marked → s ∈ d.startedSessions) :
    ∀ c ∈ b'.cells, CellOk marked c := by
  cases h with
  | edited come hb hopened _ =>
    intro c hc
    rcases Multiset.mem_add.mp hc with hc | hc
    · exact cellOk_opened (hopened c hc)
    · exact hcells c (hb ▸ Multiset.mem_add.mpr (.inr hc))
  | @respawned c₀ kept session status hb houtcome =>
    intro c hc
    rcases Multiset.mem_cons.mp hc with rfl | hc
    · rcases houtcome with ⟨hsome, rfl⟩ | ⟨rfl, code, endedAtMs, rfl⟩
      · refine ⟨fun _ _ => .inl rfl, fun hnone => ?_⟩
        obtain rfl : session = none := hnone
        simp at hsome
      · exact ⟨fun s hs => by simp at hs, fun _ => by simp⟩
    · exact hcells c (hb ▸ Multiset.mem_cons_of_mem hc)
  | exited holders hholders =>
    intro c hc
    obtain ⟨c₀, hc₀, rfl⟩ := Multiset.mem_map.mp hc
    exact cellOk_exit _ _ _ (hcells c₀ hc₀)
  | timedOut =>
    intro c hc
    obtain ⟨c₀, hc₀, rfl⟩ := Multiset.mem_map.mp hc
    refine cellOk_timeout (hcells c₀ hc₀) fun hs hmarked => ?_
    -- the deadline is only looked at when no marker is remembered
    cases hcause with
    | timedOut hnot => exact hnot (hstarted c₀ hc₀ _ hs hmarked)
  | reported _ _ => cases hcause
  | missed _ => cases hcause

/-- What an entry does to the cells of a board. -/
theorem cells_reported {b b' : Board} {session : SessionId} {status : Option AgentStatus}
    {started : Bool} (h : BoardStep b (.reported session status started) b')
    (hcells : ∀ c ∈ b.cells, CellOk marked c) :
    ∀ c ∈ b'.cells, CellOk (if started then insert session marked else marked) c := by
  cases h with
  | reported hmem hsession =>
    cases started with
    | false => exact hcells
    | true =>
      intro c hc
      obtain ⟨c₀, hc₀, rfl⟩ := Multiset.mem_map.mp hc
      exact cellOk_start session (hcells c₀ hc₀)
  | missed hnone =>
    cases started with
    | false => exact hcells
    | true => exact fun c hc => cellOk_other (hnone c hc) (hcells c hc)

/-! ## Worlds -/

theorem marked_noteStatus (d : Dispatcher) (session : SessionId) (status : AgentStatus)
    (notes : Notes) : (notes.noteStatus d session status).marked = notes.marked := by
  unfold Notes.noteStatus
  split <;> rfl

theorem marked_hear (d : Dispatcher) (entry : SessionId × OscDelta) (notes : Notes) :
    (notes.hear d entry).marked =
      if entry.2.started then insert entry.1 notes.marked else notes.marked := by
  unfold Notes.hear
  cases entry.2.status with
  | none =>
    dsimp only
    split <;> rfl
  | some status =>
    refine (marked_noteStatus _ _ _ _).trans ?_
    split <;> rfl

theorem marked_after (d : Dispatcher) (notes : Notes)
    (hosc : ∀ batch nowMs, a ≠ .applyOsc batch nowMs) :
    (notes.after d a).marked = notes.marked := by
  cases a with
  | applyOsc batch nowMs => exact absurd rfl (hosc batch nowMs)
  | applyEvent ev => cases ev <;> rfl
  | _ => rfl

theorem mem_marked_hearAll {nowMs : UInt64} {entries : List (SessionId × OscDelta)}
    {d : Dispatcher} {notes : Notes} {s : SessionId} :
    s ∈ (Notes.hearAll nowMs entries d notes).marked ↔
      s ∈ notes.marked ∨ ∃ entry ∈ entries, entry.1 = s ∧ entry.2.started = true := by
  induction entries generalizing d notes with
  | nil => simp [Notes.hearAll]
  | cons entry entries ih =>
    rw [Notes.hearAll, ih, marked_hear]
    cases hstarted : entry.2.started with
    | false => simp [hstarted]
    | true =>
      simp only [if_true, Finset.mem_insert, List.exists_mem_cons_iff, hstarted, and_true]
      rw [← or_assoc, or_comm (a := s = entry.1), @eq_comm _ s]

theorem startsKnown_hear (nowMs : UInt64) (w : World) (entry : SessionId × OscDelta)
    (hheld : w.disp.state.held.Nodup) (h : StartsKnown w) :
    StartsKnown (WorldLemmas.hear nowMs w entry) where
  cells ws' hws' := by
    obtain ⟨ws, hws, hstep⟩ := heard_boards hheld (applyEntry_heard nowMs entry w.disp) hws'
    rw [WorldLemmas.hear, marked_hear]
    exact cells_reported hstep (h.cells ws hws)
  started s hs hexited := by
    rw [WorldLemmas.hear, marked_hear] at hs
    rw [WorldLemmas.hear, exited_hear] at hexited
    rw [WorldLemmas.hear, applyEntry_started]
    split
    next hstarted =>
      rw [if_pos hstarted, Finset.mem_insert] at hs
      exact Finset.mem_insert.mpr (hs.imp_right fun hs => h.started s hs hexited)
    next hstarted =>
      rw [if_neg hstarted] at hs
      exact h.started s hs hexited

/-- Only the end of a session makes the dispatcher forget its marker. -/
theorem started_step {d d' : Dispatcher} (h : Stepped d a d')
    (hosc : ∀ batch nowMs, a ≠ .applyOsc batch nowMs) {s : SessionId}
    (hs : s ∈ d.startedSessions) (hended : a.ended ≠ some s) : s ∈ d'.startedSessions := by
  cases h with
  | performed revision h => exact h.started ▸ hs
  | failed hframe =>
    have hsame : d'.startedSessions = d.startedSessions := congrArg (fun f => f.2.1) hframe
    exact hsame ▸ hs
  | refused spawner tab => exact hs
  | respawned h => exact h.started ▸ hs
  | event ev revision =>
    rw [Dispatcher.withRevision_started]
    cases ev with
    | sessionExited session code endedAtMs =>
      refine Finset.mem_erase.mpr ⟨fun heq => hended ?_, hs⟩
      rw [heq]
      rfl
    | sessionStartupTimeout session =>
      unfold Dispatcher.receive
      dsimp only
      split <;> exact hs
  | osc batch nowMs revision => exact absurd rfl (hosc batch nowMs)

theorem startsKnown_step (hl : w.disp.state.Legal) (hledger : Ledger w)
    (ha : a.returns w.disp = true) (h : StartsKnown w) : StartsKnown (w.step a) := by
  refine step_rule hledger ha h (fun w revision h => ⟨h.cells, h.started⟩)
    (fun nowMs w entry => startsKnown_hear nowMs w entry) fun d' hstepped hosc => ?_
  obtain ⟨fresh, _, hboards⟩ := hstepped.boards hl hosc
  refine ⟨fun ws' hws' => ?_, fun s hs hexited => ?_⟩
  · rw [marked_after _ _ hosc]
    rcases hboards ws' hws' with ⟨ws, hws, deed, hcause, hstep⟩ | hnew
    · refine cells_deed hcause hstep (h.cells ws hws) fun c hc s hs hmarked => ?_
      exact h.started s hmarked ((hledger.live s).mp (mem_held.mpr ⟨ws, hws, c, hc, hs⟩)).2.2
    · exact fun c hc => cellOk_opened (hnew.cells c hc)
  · rw [marked_after _ _ hosc] at hs
    rw [mem_exited_after, not_or] at hexited
    exact started_step hstepped hosc (h.started s hs hexited.1) hexited.2

theorem startsKnown_start (h : w.Start) : StartsKnown w where
  cells ws hws c hc := by
    obtain ⟨hsession, hstatus⟩ := start_cells h.1 hws hc
    exact ⟨fun s hs => by simp [hsession] at hs, fun _ => hstatus⟩
  started s hs := by
    rw [h.2] at hs
    simp [Notes.none] at hs

theorem startsKnown_of_reach (h : (World.machine World.Fresh).Reach World.Start w) :
    StartsKnown w := by
  refine h.invariant (fun w hw => startsKnown_start hw) fun w a hr hI ha => ?_
  exact startsKnown_step (legal_of_world hr) (ledger_of_reach (fun _ _ hf => hf) hr) ha.1 hI

/-! ## Seats under markers and deadlines -/

theorem seats_osc {batch : OscBatch} {nowMs : UInt64} (d : Dispatcher) :
    (Action.step d (.applyOsc batch nowMs)).state.cells.map Cell.seat =
      d.state.cells.map Cell.seat := by
  obtain ⟨revision, hrun⟩ := MachineLemmas.run_applyOsc batch nowMs d
  rw [Action.step, Action.method, MachineLemmas.run_then_pure, hrun]
  exact (applyEntries_seats nowMs batch.entries.entries d).1

theorem seats_timeout (session : SessionId) (d : Dispatcher) :
    (Action.step d (.applyEvent (.sessionStartupTimeout session))).state.cells.map Cell.seat =
      d.state.cells.map Cell.seat := by
  obtain ⟨revision, hrun⟩ := MachineLemmas.run_applyEvent (.sessionStartupTimeout session) d
  rw [Action.step, Action.method, hrun]
  exact timeout_seats session d

/-- A tab keeps its session as long as the seats stay. -/
theorem tab_of_seats {s s' : AppState} (h : s'.cells.map Cell.seat = s.cells.map Cell.seat)
    {t : Tab} (ht : t ∈ s.tabs) : ∃ t' ∈ s'.tabs, t'.id = t.id ∧ t'.session = t.session := by
  have hseat : t.cell.seat ∈ s.cells.map Cell.seat := by
    rw [state_cells_eq]
    exact Multiset.mem_map_of_mem _ (Multiset.mem_coe.mpr (List.mem_map_of_mem ht))
  rw [← h, state_cells_eq, Multiset.mem_map] at hseat
  obtain ⟨c, hc, heq⟩ := hseat
  obtain ⟨t', ht', rfl⟩ := List.mem_map.mp (Multiset.mem_coe.mp hc)
  obtain ⟨hid, hsession⟩ := Prod.mk.inj heq
  exact ⟨t', ht', hid, hsession⟩

/-- A deadline does not touch a tab that has exited. -/
theorem exited_timeout {d : Dispatcher} {t : Tab} (ht : t ∈ d.state.tabs) {code : Option UInt32}
    {endedAtMs : Option UInt64} (hexited : t.terminalStatus = some (.exited code endedAtMs))
    (session : SessionId) :
    t ∈ (Action.step d (.applyEvent (.sessionStartupTimeout session))).state.tabs := by
  obtain ⟨revision, hrun⟩ := MachineLemmas.run_applyEvent (.sessionStartupTimeout session) d
  rw [Action.step, Action.method, hrun]
  have hkeep : t.startupTimeout session = t := by
    unfold Tab.terminalStatus at hexited
    unfold Tab.startupTimeout
    cases hk : t.kind with
    | terminal old status cwd =>
      rw [hk] at hexited
      obtain rfl : status = .exited code endedAtMs := Option.some_inj.mp hexited
      cases old <;> rfl
    | _ => rfl
  obtain ⟨ws, hws, ht⟩ := List.mem_flatMap.mp ht
  obtain ⟨p, hp, ht⟩ := List.mem_flatMap.mp ht
  obtain ⟨pane, hp⟩ := OrdMap.mem_values.mp hp
  change t ∈ (d.receive (.sessionStartupTimeout session)).2.state.tabs
  unfold Dispatcher.receive
  dsimp only
  split
  · exact List.mem_flatMap.mpr ⟨ws, hws, List.mem_flatMap.mpr
      ⟨p, OrdMap.mem_values.mpr ⟨pane, hp⟩, ht⟩⟩
  · refine List.mem_flatMap.mpr ⟨_, List.mem_map_of_mem hws, List.mem_flatMap.mpr
      ⟨_, OrdMap.mem_values.mpr ⟨pane, List.mem_map_of_mem hp⟩, ?_⟩⟩
    exact List.mem_map.mpr ⟨t, ht, hkeep⟩

theorem mem_tabs_cells {s : AppState} {t : Tab} (ht : t ∈ s.tabs) :
    ∃ ws ∈ s.workspaces, t.cell ∈ ws.cells := by
  obtain ⟨ws, hws, ht⟩ := List.mem_flatMap.mp ht
  exact ⟨ws, hws, mem_cells.mpr ⟨t, ht, rfl⟩⟩

theorem status_of_marked (h : StartsKnown w) {t : Tab} (ht : t ∈ w.disp.state.tabs)
    {s : SessionId} (hs : t.session = some s) (hmarked : s ∈ w.seen.marked) :
    t.terminalStatus = some .running := by
  obtain ⟨ws, hws, hc⟩ := mem_tabs_cells ht
  exact ((h.cells ws hws _ hc).holds s hs).resolve_right fun hwait => hwait.2 hmarked

/-- Marker and deadline of a session that a tab holds, in either order. -/
theorem running_after_both {order : List Action} {t : Tab} {s : SessionId} {batch : OscBatch}
    {nowMs : UInt64} (h : (World.machine World.Fresh).Reach World.Start w)
    (ht : t ∈ w.disp.state.tabs) (hs : t.session = some s)
    (hmarker : ∃ delta, batch.entries.get? s = some delta ∧ delta.started = true)
    (horder : order = [.applyOsc batch nowMs, .applyEvent (.sessionStartupTimeout s)] ∨
      order = [.applyEvent (.sessionStartupTimeout s), .applyOsc batch nowMs])
    (ha : (World.machine World.Fresh).Admitted w order) :
    ∃ t' ∈ ((World.machine World.Fresh).run w order).disp.state.tabs,
      t'.id = t.id ∧ t'.session = some s ∧ t'.terminalStatus = some .running := by
  have hknown := startsKnown_of_reach (h.of_trace order ha)
  obtain ⟨delta, hget, hstarted⟩ := hmarker
  have hheard : ∀ (d : Dispatcher) (notes : Notes),
      s ∈ (notes.after d (.applyOsc batch nowMs)).marked := fun d notes =>
    mem_marked_hearAll.mpr (.inr ⟨(s, delta), OrdMap.get?_eq_some_iff.mp hget, rfl, hstarted⟩)
  obtain ⟨hmarked, hseats⟩ : s ∈ ((World.machine World.Fresh).run w order).seen.marked ∧
      ((World.machine World.Fresh).run w order).disp.state.cells.map Cell.seat =
        w.disp.state.cells.map Cell.seat := by
    rcases horder with rfl | rfl
    · exact ⟨hheard w.disp w.seen, (seats_timeout s _).trans (seats_osc w.disp)⟩
    · exact ⟨hheard _ _, (seats_osc _).trans (seats_timeout s w.disp)⟩
  obtain ⟨t', ht', hid, hsession⟩ := tab_of_seats hseats ht
  exact ⟨t', ht', hid, hsession.trans hs, status_of_marked hknown ht' (hsession.trans hs) hmarked⟩

end StartedLemmas

open StartedLemmas in
/-- A tab that is shown as not started holds a session that delivered no marker;
a tab whose session delivered one runs, also after marker and deadline in either
order; and a deadline leaves a tab alone that has exited. -/
theorem marked_sessions_run {w : World}
    (h : (World.machine World.Fresh).Reach World.Start w) :
    (∀ t ∈ w.disp.state.tabs, t.terminalStatus = some .notStarted →
      ∃ s, t.session = some s ∧ s ∉ w.seen.marked) ∧
    (∀ t ∈ w.disp.state.tabs, ∀ s, t.session = some s → s ∈ w.seen.marked →
      t.terminalStatus = some .running) ∧
    (∀ t ∈ w.disp.state.tabs, ∀ s batch nowMs order, t.session = some s →
      (∃ delta, batch.entries.get? s = some delta ∧ delta.started = true) →
      (order = [.applyOsc batch nowMs, .applyEvent (.sessionStartupTimeout s)] ∨
        order = [.applyEvent (.sessionStartupTimeout s), .applyOsc batch nowMs]) →
      (World.machine World.Fresh).Admitted w order →
      ∃ t' ∈ ((World.machine World.Fresh).run w order).disp.state.tabs,
        t'.id = t.id ∧ t'.session = some s ∧ t'.terminalStatus = some .running) ∧
    ∀ t ∈ w.disp.state.tabs, ∀ code endedAtMs s,
      t.terminalStatus = some (.exited code endedAtMs) →
      t ∈ (Action.step w.disp (.applyEvent (.sessionStartupTimeout s))).state.tabs := by
  have hknown := startsKnown_of_reach h
  refine ⟨fun t ht hwait => ?_, fun t ht s hs hmarked => status_of_marked hknown ht hs hmarked,
    fun t ht s batch nowMs order hs hmarker horder ha =>
      running_after_both h ht hs hmarker horder ha,
    fun t ht code endedAtMs s hexited => exited_timeout ht hexited s⟩
  obtain ⟨ws, hws, hc⟩ := mem_tabs_cells ht
  have hok := hknown.cells ws hws _ hc
  cases hsession : t.session with
  | none => exact absurd hwait (hok.free hsession)
  | some s =>
    rcases hok.holds s hsession with hrun | ⟨_, hmarked⟩
    · have hwait : t.cell.status = some .notStarted := hwait
      simp [hwait] at hrun
    · exact ⟨s, rfl, hmarked⟩

/-- A terminal whose deadline passes before its marker arrives. -/
def lateMarkerTrace : List Action :=
  [.dispatch (fun _ => .ok 7) (.createWorkspace "w" none none (some (.terminal none))),
    .applyEvent (.sessionStartupTimeout 7)]

theorem marked_sessions_run_late :
    (World.machine World.Fresh).Admitted newWorld lateMarkerTrace ∧
    ∀ t ∈ ((World.machine World.Fresh).run newWorld lateMarkerTrace).disp.state.tabs,
      t.terminalStatus = some .notStarted → ∃ s, t.session = some s ∧
        s ∉ ((World.machine World.Fresh).run newWorld lateMarkerTrace).seen.marked := by
  have hadmitted : (World.machine World.Fresh).Admitted newWorld lateMarkerTrace := by decide
  have hreach : (World.machine World.Fresh).Reach World.Start
      ((World.machine World.Fresh).run newWorld lateMarkerTrace) :=
    .of_trace (.init newWorld_start) lateMarkerTrace hadmitted
  exact ⟨hadmitted, (marked_sessions_run hreach).1⟩

end Mast
