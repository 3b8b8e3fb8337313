import Mast.Board.Steps

/-!
# Batches in closed form

Where a session is does not change while a batch is applied, so each workspace
hears a fixed list of reports: the statuses of the sessions that are located in
it. Its slot after the batch is the round of these reports.

Results:
1. `seatAt_congr`: the place of a session depends on the seating only.
2. `slots_applyEntries`: the slots after a batch, in closed form.
3. `needsInput_order`: the order of the entries does not decide which workspaces
   need input.
-/

namespace Mast

/-! ## Places of sessions -/

def Tab.seat (t : Tab) : TabId × Option SessionId := (t.id, t.session)

/-- Which tabs of which pane hold which sessions. -/
def Workspace.seating (ws : Workspace) : OrdMap PaneId (List (TabId × Option SessionId)) :=
  ws.panes.mapValues fun p => p.tabs.map Tab.seat

namespace AppState

def seating (s : AppState) : List (OrdMap PaneId (List (TabId × Option SessionId))) :=
  s.workspaces.map Workspace.seating

/-- The workspace index and the tab of a session, as `locate_session` finds it. -/
def seatAt (s : AppState) (session : SessionId) : Option (Nat × TabId) :=
  (s.locateSession session).bind fun pos => (s.lookup pos).map fun found => (pos.ws, found.2.2.id)

/-- The reports of a batch that reach the workspace at an index, in order. -/
def reportsAt (s : AppState) (wi : Nat) (entries : List (SessionId × OscDelta)) :
    List (TabId × AgentStatus) :=
  entries.filterMap fun entry => (s.seatAt entry.1).bind fun seat =>
    if seat.1 = wi then entry.2.status.map fun status => (seat.2, status) else none

end AppState

namespace BatchLemmas

open BoardLemmas LegalLemmas

variable {s s' : AppState} {ws : Workspace} {session : SessionId}

/-- `locate_session`, read off the seating. -/
theorem locateSession_eq (s : AppState) (session : SessionId) : s.locateSession session =
    s.seating.zipIdx.findSome? fun place => place.1.entries.findSome? fun entry =>
      (entry.2.findIdx? fun seat => seat.2 = some session).map fun ti =>
        ⟨place.2, entry.1, ti⟩ := by
  rw [AppState.locateSession, AppState.findTab, AppState.seating, List.zipIdx_map,
    List.findSome?_map]
  refine congrArg (fun f => List.findSome? f _) (funext fun place => ?_)
  obtain ⟨ws, wi⟩ := place
  simp only [Function.comp_apply, Prod.map_apply, id_eq, Workspace.seating, OrdMap.mapValues,
    List.findSome?_map]
  refine congrArg (fun f => List.findSome? f _) (funext fun entry => ?_)
  obtain ⟨pane, p⟩ := entry
  simp only [Function.comp_apply, List.findIdx?_map]
  rfl

/-- The id of the tab at a position, read off the seating. -/
theorem lookup_id_eq (s : AppState) (pos : TabPos) :
    (s.lookup pos).map (fun found => found.2.2.id) =
      (s.seating[pos.ws]?.bind fun seating => (seating.get? pos.pane).bind fun seats =>
        seats[pos.tab]?.map Prod.fst) := by
  simp only [AppState.lookup, AppState.seating, List.getElem?_map, Option.bind_eq_bind]
  cases s.workspaces[pos.ws]? with
  | none => rfl
  | some ws =>
    simp only [Option.bind_some, Option.map_some, Workspace.seating, OrdMap.get?_mapValues]
    cases ws.panes.get? pos.pane with
    | none => rfl
    | some p =>
      simp only [Option.bind_some, Option.map_some, List.getElem?_map]
      cases p.tabs[pos.tab]? <;> rfl

/-- The place of a session depends on the seating only. -/
theorem seatAt_congr (h : s'.seating = s.seating) (session : SessionId) :
    s'.seatAt session = s.seatAt session := by
  have hmap : ∀ (s : AppState) (pos : TabPos),
      (s.lookup pos).map (fun found => (pos.ws, found.2.2.id)) =
        ((s.lookup pos).map fun found => found.2.2.id).map fun tab => (pos.ws, tab) := by
    intro s pos
    rw [Option.map_map]
    rfl
  unfold AppState.seatAt
  rw [locateSession_eq, locateSession_eq, h]
  refine congrArg _ (funext fun pos => ?_)
  rw [hmap, hmap, lookup_id_eq, lookup_id_eq, h]

theorem seatAt_of_locate {pos : TabPos} {p : Pane} {t : Tab}
    (hpos : s.locateSession session = some pos) (hlookup : s.lookup pos = some (ws, p, t)) :
    s.seatAt session = some (pos.ws, t.id) := by
  rw [AppState.seatAt, hpos, Option.bind_some, hlookup, Option.map_some]

theorem seatAt_of_missed (hpos : s.locateSession session = none) : s.seatAt session = none := by
  rw [AppState.seatAt, hpos, Option.bind_none]

/-- At the place of a session there is a tab that holds it. -/
theorem seatAt_eq_some {wi : Nat} {tab : TabId} (h : s.seatAt session = some (wi, tab)) :
    ∃ ws, s.workspaces[wi]? = some ws ∧ ∃ t ∈ ws.tabs, t.id = tab ∧ t.session = some session := by
  obtain ⟨pos, hpos, hmap⟩ := Option.bind_eq_some_iff.mp h
  obtain ⟨found, hfound, heq⟩ := Option.map_eq_some_iff.mp hmap
  obtain ⟨rfl, rfl⟩ := Prod.mk.inj heq
  obtain ⟨ws, p, t, hlookup, hsession⟩ := EffectLemmas.findTab_eq_some hpos
  obtain rfl : found = (ws, p, t) := Option.some_inj.mp (hfound.symm.trans hlookup)
  obtain ⟨hws, hp, ht⟩ := EffectLemmas.lookup_eq_some.mp hlookup
  have hmem := EffectLemmas.mem_tabs hp (List.mem_of_getElem? ht)
  exact ⟨ws, hws, t, hmem, rfl, by simpa using hsession⟩

theorem mem_reportsAt {wi : Nat} {entries : List (SessionId × OscDelta)} {tab : TabId}
    {status : AgentStatus} : (tab, status) ∈ s.reportsAt wi entries ↔
      ∃ entry ∈ entries, s.seatAt entry.1 = some (wi, tab) ∧ entry.2.status = some status := by
  simp only [AppState.reportsAt, List.mem_filterMap]
  refine exists_congr fun entry => and_congr_right fun _ => ?_
  cases s.seatAt entry.1 with
  | none => simp
  | some seat =>
    obtain ⟨wj, tab'⟩ := seat
    by_cases hwi : wj = wi
    · cases entry.2.status <;> simp [hwi]
    · simp [hwi]

/-- States with the same seating have the same workspaces, as far as seats go. -/
theorem workspace_of_seating {ws' : Workspace} {wi : Nat} (h : s'.seating = s.seating)
    (hws' : s'.workspaces[wi]? = some ws') :
    ∃ ws, s.workspaces[wi]? = some ws ∧ ws.seating = ws'.seating := by
  have hone := congrArg (fun l => l[wi]?) h
  simp only [AppState.seating, List.getElem?_map, hws', Option.map_some] at hone
  exact Option.map_eq_some_iff.mp hone.symm

theorem seats_eq (ws : Workspace) : ws.tabs.map Tab.seat = ws.seating.values.flatten := by
  simp only [Workspace.tabs, Workspace.seating, OrdMap.values, OrdMap.mapValues, List.map_flatMap,
    List.map_map, List.flatMap_map, ← List.flatMap_def, Function.comp_def]

theorem tab_of_seating {ws' : Workspace} (h : ws.seating = ws'.seating) {t' : Tab}
    (ht' : t' ∈ ws'.tabs) : ∃ t ∈ ws.tabs, t.seat = t'.seat := by
  have hmem : t'.seat ∈ ws'.tabs.map Tab.seat := List.mem_map_of_mem ht'
  rw [seats_eq, ← h, ← seats_eq] at hmem
  exact List.mem_map.mp hmem

/-- A session that one tab holds is located there. -/
theorem seatAt_of_held {wi : Nat} {t : Tab} (hheld : s.held.Nodup)
    (hws : s.workspaces[wi]? = some ws) (ht : t ∈ ws.tabs) (hs : t.session = some session) :
    s.seatAt session = some (wi, t.id) := by
  have hin : session ∈ s.held := List.mem_filterMap.mpr ⟨t,
    List.mem_flatMap.mpr ⟨ws, mem_of_getElem hws, ht⟩, hs⟩
  cases hpos : s.locateSession session with
  | none => exact absurd hin (not_held_of_locate hpos)
  | some pos =>
    obtain ⟨ws', p, u, hlookup, husession⟩ := EffectLemmas.findTab_eq_some hpos
    rw [seatAt_of_locate hpos hlookup]
    obtain ⟨hws', hp, hu⟩ := EffectLemmas.lookup_eq_some.mp hlookup
    have hu := EffectLemmas.mem_tabs hp (List.mem_of_getElem? hu)
    have husession : u.session = some session := by simpa using husession
    rw [AppState.held, AppState.tabs, List.filterMap_flatMap] at hheld
    have hwi := ListEdit.index_unique hheld hws' hws
      (List.mem_filterMap.mpr ⟨u, hu, husession⟩) (List.mem_filterMap.mpr ⟨t, ht, hs⟩)
    rw [hwi] at hws' ⊢
    obtain rfl : ws = ws' := Option.some_inj.mp (hws.symm.trans hws')
    have hnodup := (List.nodup_flatMap.mp hheld).1 ws (mem_of_getElem hws)
    rw [ListEdit.filterMap_unique hnodup hu ht husession hs]

/-! ## One entry -/

/-- A change of a tab that leaves its seat. -/
theorem seating_modifyTab {pane : PaneId} {ti : Nat} {f : Tab → Tab} {p : Pane} {t : Tab}
    (hp : ws.panes.get? pane = some p) (ht : p.tabs[ti]? = some t) (hseat : (f t).seat = t.seat) :
    (ws.modifyTab pane ti f).seating = ws.seating := by
  refine OrdMap.mapValues_modify (g := fun p : Pane => p.tabs.map Tab.seat) fun q hq =>
    ListEdit.map_modify f Tab.seat fun u hu => ?_
  obtain rfl : p = q := Option.some_inj.mp (hp.symm.trans hq)
  obtain rfl : t = u := Option.some_inj.mp (ht.symm.trans hu)
  exact hseat

theorem seating_heard_workspace {pos : TabPos} {p : Pane} {t : Tab} {delta : OscDelta}
    {nowMs : UInt64} (hlookup : s.lookup pos = some (ws, p, t))
    (hsession : t.session = some session) :
    (heard s ws p t pos delta nowMs).seating = ws.seating := by
  obtain ⟨_, hp, ht⟩ := EffectLemmas.lookup_eq_some.mp hlookup
  rw [heard, Workspace.seating, panes_applyDelta]
  refine seating_modifyTab hp ht ?_
  have hcell := cell_applyDelta hsession (s.visible ws p t.id) delta nowMs
  have hseat : (t.applyDelta (s.visible ws p t.id) delta nowMs).cell.seat = t.cell.seat := by
    rw [hcell]
    split
    · exact start_seat _ _
    · rfl
  exact hseat

theorem seating_heard {nowMs : UInt64} {entry : SessionId × OscDelta}
    (h : Heard s nowMs entry s') : s'.seating = s.seating := by
  cases h with
  | missed hpos => rfl
  | located hpos hlookup hsession =>
    obtain ⟨hws, _⟩ := EffectLemmas.lookup_eq_some.mp hlookup
    refine ListEdit.map_modify _ _ fun w hw => ?_
    obtain rfl := Option.some_inj.mp (hws.symm.trans hw)
    exact seating_heard_workspace hlookup hsession

/-- The slots after one entry. -/
theorem slots_heard {nowMs : UInt64} {entry : SessionId × OscDelta} (h : Heard s nowMs entry s')
    (wi : Nat) : s'.workspaces[wi]?.map Workspace.slot =
      s.workspaces[wi]?.map fun ws => ws.slot.reportAll .needsInput (s.reportsAt wi [entry]) := by
  cases h with
  | missed hpos =>
    simp only [AppState.reportsAt, List.filterMap_cons, seatAt_of_missed hpos, Option.bind_none,
      List.filterMap_nil]
    rfl
  | @located pos ws p t hpos hlookup hsession =>
    obtain ⟨hws, _⟩ := EffectLemmas.lookup_eq_some.mp hlookup
    simp only [AppState.reportsAt, List.filterMap_cons, seatAt_of_locate hpos hlookup,
      Option.bind_some, List.filterMap_nil, List.getElem?_modify]
    by_cases hwi : pos.ws = wi
    · subst hwi
      simp only [hws, if_true, Option.map_eq_map, Option.map_some, slot_heard]
      cases entry.2.status <;> rfl
    · simp only [hwi, if_false]
      cases s.workspaces[wi]? <;> rfl

/-! ## A batch -/

theorem seating_applyEntries (nowMs : UInt64) (entries : List (SessionId × OscDelta))
    (d : Dispatcher) : (d.applyEntries nowMs entries).2.state.seating = d.state.seating := by
  induction entries generalizing d with
  | nil => rfl
  | cons entry entries ih =>
    exact (ih _).trans (seating_heard (applyEntry_heard nowMs entry d))

theorem reportsAt_cons (s : AppState) (wi : Nat) (entry : SessionId × OscDelta)
    (entries : List (SessionId × OscDelta)) :
    s.reportsAt wi (entry :: entries) = s.reportsAt wi [entry] ++ s.reportsAt wi entries := by
  unfold AppState.reportsAt
  rw [← List.filterMap_append, List.singleton_append]

theorem reportsAt_congr (h : s'.seating = s.seating) (wi : Nat)
    (entries : List (SessionId × OscDelta)) : s'.reportsAt wi entries = s.reportsAt wi entries := by
  unfold AppState.reportsAt
  simp only [seatAt_congr h]

/-- The slots after a batch: each workspace has heard the reports that reach it. -/
theorem slots_applyEntries (nowMs : UInt64) (entries : List (SessionId × OscDelta))
    (d : Dispatcher) (wi : Nat) :
    (d.applyEntries nowMs entries).2.state.workspaces[wi]?.map Workspace.slot =
      d.state.workspaces[wi]?.map fun ws =>
        ws.slot.reportAll .needsInput (d.state.reportsAt wi entries) := by
  induction entries generalizing d with
  | nil => rfl
  | cons entry entries ih =>
    have hone := slots_heard (applyEntry_heard nowMs entry d) wi
    have hsame := seating_heard (applyEntry_heard nowMs entry d)
    have hslots : ∀ (o : Option Workspace) (reports : List (TabId × AgentStatus)),
        (o.map fun ws => ws.slot.reportAll .needsInput reports) =
          (o.map Workspace.slot).map fun slot => slot.reportAll .needsInput reports := by
      intro o reports
      rw [Option.map_map]
      rfl
    refine (ih (d.applyEntry nowMs entry).2).trans ?_
    rw [hslots, hone, reportsAt_congr hsame, Option.map_map, reportsAt_cons _ wi entry entries]
    refine congrArg (fun f => Option.map f _) (funext fun ws => ?_)
    exact (List.foldl_append).symm

/-! ## Order -/

/-- In a legal state a tab is known by its id. -/
theorem tab_unique (hl : s.Legal) {t t' : Tab} (ht : t ∈ s.tabs) (ht' : t' ∈ s.tabs)
    (hid : t.id = t'.id) : t = t' :=
  List.inj_on_of_nodup_map (tabIds_nodup hl) ht ht' hid

theorem mem_state_tabs {wi : Nat} {t : Tab} (hws : s.workspaces[wi]? = some ws)
    (ht : t ∈ ws.tabs) : t ∈ s.tabs :=
  List.mem_flatMap.mpr ⟨ws, mem_of_getElem hws, ht⟩

/-- In a round every tab reports at most once. -/
theorem reportsAt_nodup (hl : s.Legal) (wi : Nat) {entries : List (SessionId × OscDelta)}
    (hkeys : (entries.map Prod.fst).Nodup) : ((s.reportsAt wi entries).map Prod.fst).Nodup := by
  induction entries with
  | nil => exact List.nodup_nil
  | cons entry entries ih =>
    rw [List.map_cons, List.nodup_cons] at hkeys
    rw [reportsAt_cons, List.map_append, List.nodup_append]
    refine ⟨?_, ih hkeys.2, ?_⟩
    · refine List.Nodup.sublist ?_ (List.nodup_singleton ((s.seatAt entry.1).elim ⟨0⟩ Prod.snd))
      unfold AppState.reportsAt
      simp only [List.filterMap_cons, List.filterMap_nil]
      cases s.seatAt entry.1 with
      | none => simp
      | some seat => by_cases hwi : seat.1 = wi <;> cases entry.2.status <;> simp [hwi]
    · intro tab htab tab' htab' heq
      subst heq
      obtain ⟨⟨_, status⟩, hr, rfl⟩ := List.mem_map.mp htab
      obtain ⟨⟨_, status'⟩, hr', heq⟩ := List.mem_map.mp htab'
      obtain ⟨e, he, hseat⟩ := mem_reportsAt.mp hr
      obtain ⟨e', he', hseat'⟩ := mem_reportsAt.mp hr'
      obtain rfl := List.mem_singleton.mp he
      obtain ⟨ws, hws, t, ht, hid, hs⟩ := seatAt_eq_some hseat.1
      obtain ⟨ws', hws', t', ht', hid', hs'⟩ := seatAt_eq_some hseat'.1
      -- one tab holds one session
      have hsame : t = t' := tab_unique hl (mem_state_tabs hws ht) (mem_state_tabs hws' ht')
        (hid.trans (heq.symm.trans hid'.symm))
      rw [hsame, hs'] at hs
      exact hkeys.1 (Option.some_inj.mp hs ▸ List.mem_map_of_mem he')

/-- The round of reports that reaches a workspace, in another order. -/
theorem reportsAt_perm {entries entries' : List (SessionId × OscDelta)}
    (hperm : entries'.Perm entries) (wi : Nat) :
    (s.reportsAt wi entries').Perm (s.reportsAt wi entries) := hperm.filterMap _

theorem ids_applyEntries (nowMs : UInt64) (entries : List (SessionId × OscDelta))
    (d : Dispatcher) (wi : Nat) :
    (d.applyEntries nowMs entries).2.state.workspaces[wi]?.map Workspace.id =
      d.state.workspaces[wi]?.map Workspace.id := by
  have hshapes := (ReachableLemmas.sameShape_applyEntries nowMs entries d).shapes
  have hone := congrArg (fun l : List WorkspaceShape => l[wi]?.map WorkspaceShape.id) hshapes
  simpa [List.getElem?_map, Function.comp_def, Workspace.shape] using hone

end BatchLemmas

/-- The workspaces, in order, and whether they need input. -/
def AppState.waiting (s : AppState) : List (WorkspaceId × Bool) :=
  s.workspaces.map fun ws => (ws.id, ws.agentStatus = .needsInput)

open BatchLemmas in
/-- The order in which the entries of a batch are applied does not decide which
workspaces need input. -/
theorem needsInput_order {d : Dispatcher} (h : Dispatcher.machine.Reach Dispatcher.Start d)
    (batch : OscBatch) (nowMs : UInt64) {entries : List (SessionId × OscDelta)}
    (hperm : entries.Perm batch.entries.entries) :
    (d.applyEntries nowMs entries).2.state.waiting =
      (Action.step d (.applyOsc batch nowMs)).state.waiting := by
  have hl := legal_of_reach h
  obtain ⟨revision, hrun⟩ := MachineLemmas.run_applyOsc batch nowMs d
  rw [Action.step, Action.method, MachineLemmas.run_then_pure, hrun]
  change _ = (d.applyEntries nowMs batch.entries.entries).2.state.waiting
  have hview : ∀ (o : Option Workspace),
      o.map (fun ws => (ws.id, decide (ws.agentStatus = .needsInput))) =
      (o.map Workspace.id).bind fun id => (o.map Workspace.slot).map fun slot =>
        (id, decide (slot.status = .needsInput)) := by
    intro o
    cases o <;> rfl
  refine List.ext_getElem? fun wi => ?_
  rw [AppState.waiting, AppState.waiting, List.getElem?_map, List.getElem?_map, hview, hview,
    ids_applyEntries, ids_applyEntries, slots_applyEntries, slots_applyEntries]
  simp only [Option.map_map]
  refine congrArg _ (funext fun id => congrArg (fun f => Option.map f _) (funext fun ws => ?_))
  have hnodup := reportsAt_nodup hl wi batch.entries.keys_nodup
  have hiff : (ws.slot.reportAll .needsInput (d.state.reportsAt wi entries)).status = .needsInput ↔
      (ws.slot.reportAll .needsInput (d.state.reportsAt wi batch.entries.entries)).status =
        .needsInput :=
    PrioritySlot.reportAll_eq_top_perm (reportsAt_perm hperm wi) hnodup
  simp only [Function.comp_apply, hiff]

/-- Two terminals of one workspace, one of which starts to wait while the other
goes on. -/
def twoTerminalsTrace : List Action :=
  [.dispatch (fun _ => .ok 7) (.createWorkspace "w" none none (some (.terminal none))),
    .dispatch (fun _ => .ok 8) (.createTab ⟨2⟩ (.terminal none))]

def twoReports : OscBatch := OscBatch.empty.mergeAll
  [(7, .osc777Notify "mast:needsInput" "approve?"), (8, .osc777Notify "mast:running" "")]

theorem needsInput_order_swapped :
    ((Dispatcher.machine.run Dispatcher.new twoTerminalsTrace).applyEntries 10
      twoReports.entries.entries.reverse).2.state.waiting =
    (Action.step (Dispatcher.machine.run Dispatcher.new twoTerminalsTrace)
      (.applyOsc twoReports 10)).state.waiting :=
  needsInput_order (.of_trace (.init (.inl rfl)) twoTerminalsTrace (by decide)) twoReports 10
    (List.reverse_perm _)

end Mast
