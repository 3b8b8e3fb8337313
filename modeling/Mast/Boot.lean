import Mast.Board.Batch
import Mast.Persist.Restore
import Mast.World.Started

/-!
# The boot wave

`boot.rs`: the terminals that were running when the program ended are restored without a
session. A thread takes their list once and respawns them one after the other, each under its
own lock of the dispatcher; what else happens meanwhile is up to the user and to the shells.

Results:
1. `respawn_settles`: after a respawn that returned, its tab does not wait for a session.
2. `boot_wave`: a running terminal without a session is one that the wave has still to take, and
   after the wave what a tab shows agrees with whether its session lives.
-/

namespace Mast

/-- A tab that is shown as running and has no session. -/
def Cell.Vacant (c : Cell) : Prop := c.session = none ∧ c.status = some .running

/-- The world, and the tabs that `respawn_restored_tabs` has still to respawn, once it has
taken their list. -/
structure Boot where
  world : World
  targets : Option (List TabId)

namespace Boot

inductive Step
  /-- a call of another thread -/
  | act (a : Action)
  /-- the list of the running terminal tabs is taken -/
  | begin
  /-- the next tab of the list is respawned -/
  | respawn (spawner : Spawner)

/-- What a step calls, if it calls. -/
def call (b : Boot) : Step → Option Action
  | .act a => some a
  | .begin => none
  | .respawn spawner => (b.targets.bind List.head?).map (.respawnTab spawner)

def step (b : Boot) (s : Step) : Boot where
  world := (b.call s).elim b.world b.world.step
  targets :=
    match s with
    | .act _ => b.targets
    | .begin => some b.world.disp.state.runningTerminalTabs
    | .respawn _ => b.targets.map List.tail

/-- The wave takes its list once. The calls return and their sessions are new. -/
def machine : Machine Boot Step where
  step := step
  admits b s :=
    (∀ a ∈ b.call s, (World.machine World.Fresh).admits b.world a) ∧
      match s with
      | .act _ => True
      | .begin => b.targets = none
      | .respawn _ => (b.targets.bind List.head?).isSome

instance (b : Boot) (s : Step) : Decidable (machine.admits b s) :=
  have : Decidable (∀ a ∈ b.call s, (World.machine World.Fresh).admits b.world a) :=
    Option.decidableForallMem _
  match s with
  | .act _ => inferInstanceAs (Decidable (_ ∧ True))
  | .begin => inferInstanceAs (Decidable (_ ∧ b.targets = none))
  | .respawn _ => inferInstanceAs (Decidable (_ ∧ (b.targets.bind List.head?).isSome = true))

/-- The world at its start, before the wave. -/
def Start (b : Boot) : Prop := b.world.Start ∧ b.targets = none

end Boot

/-- Only tabs of the list wait for a session. -/
def World.Awaits (targets : List TabId) (w : World) : Prop :=
  ∀ ws ∈ w.disp.state.workspaces, ∀ c ∈ ws.cells, c.Vacant → c.tab ∈ targets

namespace BootLemmas

open Exec Method WorldLemmas BoardLemmas BatchLemmas StartedLemmas MachineLemmas

variable {w : World} {a : Action} {targets : List TabId} {c : Cell} {d : Dispatcher}

/-! ## One cell -/

theorem not_vacant_opened {session : Option SessionId} (h : c.Opened session) : ¬ c.Vacant := by
  rintro ⟨hnone, hrunning⟩
  have hsession : session = none := h.holds.symm.trans hnone
  rw [h.status, hsession] at hrunning
  cases hrunning

theorem not_vacant_respawned {tab : TabId} {session : Option SessionId} {status : TerminalStatus}
    (h : (session.isSome ∧ status = .running) ∨
      (session = none ∧ ∃ code endedAtMs, status = .exited code endedAtMs)) :
    ¬ Cell.Vacant ⟨tab, session, some status⟩ := by
  rintro ⟨rfl, hrunning⟩
  rcases h with ⟨hsome, -⟩ | ⟨-, code, endedAtMs, rfl⟩
  · cases hsome
  · cases hrunning

theorem vacant_of_exit {session : SessionId} {code : Option UInt32} {endedAtMs : Option UInt64}
    (h : (c.exit session (.exited code endedAtMs)).Vacant) : c.Vacant := by
  unfold Cell.exit at h
  split at h
  · cases h.2
  · exact h

theorem vacant_of_timeout {session : SessionId} (h : (c.timeout session).Vacant) : c.Vacant := by
  unfold Cell.timeout at h
  split at h
  · cases h.2
  · exact h

theorem vacant_of_start {session : SessionId} (h : (c.start session).Vacant) : c.Vacant := by
  unfold Cell.start at h
  split at h
  · next hc => exact absurd (hc.1.symm.trans h.1) (by simp)
  · exact h

theorem tab_exit (session : SessionId) (status : TerminalStatus) (c : Cell) :
    (c.exit session status).tab = c.tab := by
  unfold Cell.exit
  split <;> rfl

theorem tab_timeout (session : SessionId) (c : Cell) : (c.timeout session).tab = c.tab := by
  unfold Cell.timeout
  split <;> rfl

theorem tab_start (session : SessionId) (c : Cell) : (c.start session).tab = c.tab := by
  unfold Cell.start
  split <;> rfl

/-! ## One board -/

/-- No deed makes a tab wait for a session. -/
theorem vacant_deed {b b' : Board} {deed : Deed} (h : BoardStep b deed b') (hc : c ∈ b'.cells)
    (hvacant : c.Vacant) : ∃ c₀ ∈ b.cells, c₀.Vacant ∧ c₀.tab = c.tab := by
  cases h with
  | edited come hb hopened _ =>
    rcases Multiset.mem_add.mp hc with hc | hc
    · exact absurd hvacant (not_vacant_opened (hopened c hc))
    · exact ⟨c, hb ▸ Multiset.mem_add.mpr (.inr hc), hvacant, rfl⟩
  | respawned hb houtcome =>
    rcases Multiset.mem_cons.mp hc with rfl | hc
    · exact absurd hvacant (not_vacant_respawned houtcome)
    · exact ⟨c, hb ▸ Multiset.mem_cons_of_mem hc, hvacant, rfl⟩
  | exited holders _ =>
    obtain ⟨c₀, hc₀, rfl⟩ := Multiset.mem_map.mp hc
    exact ⟨c₀, hc₀, vacant_of_exit hvacant, (tab_exit _ _ c₀).symm⟩
  | timedOut =>
    obtain ⟨c₀, hc₀, rfl⟩ := Multiset.mem_map.mp hc
    exact ⟨c₀, hc₀, vacant_of_timeout hvacant, (tab_timeout _ c₀).symm⟩
  | @reported session status started c' _ _ =>
    cases started with
    | false => exact ⟨c, hc, hvacant, rfl⟩
    | true =>
      obtain ⟨c₀, hc₀, rfl⟩ := Multiset.mem_map.mp hc
      exact ⟨c₀, hc₀, vacant_of_start hvacant, (tab_start _ c₀).symm⟩
  | missed _ => exact ⟨c, hc, hvacant, rfl⟩

/-! ## Worlds -/

/-- No call of any thread makes a further tab wait. -/
theorem awaits_step (hl : w.disp.state.Legal) (hledger : Ledger w)
    (ha : a.returns w.disp = true) (h : w.Awaits targets) : (w.step a).Awaits targets := by
  refine step_rule hledger ha h (fun _ _ h => h) (fun nowMs w entry hheld h => ?_)
    fun d' hstepped hosc => ?_
  · intro ws' hws' c hc hvacant
    obtain ⟨ws, hws, hstep⟩ := heard_boards hheld (applyEntry_heard nowMs entry w.disp) hws'
    obtain ⟨c₀, hc₀, hvacant₀, htab⟩ := vacant_deed hstep hc hvacant
    exact htab ▸ h ws hws c₀ hc₀ hvacant₀
  · obtain ⟨fresh, _, hboards⟩ := hstepped.boards hl hosc
    intro ws' hws' c hc hvacant
    rcases hboards ws' hws' with ⟨ws, hws, deed, _, hstep⟩ | hnew
    · obtain ⟨c₀, hc₀, hvacant₀, htab⟩ := vacant_deed hstep hc hvacant
      exact htab ▸ h ws hws c₀ hc₀ hvacant₀
    · exact absurd hvacant (not_vacant_opened (hnew.cells c hc))

theorem vacant_iff {t : Tab} : t.cell.Vacant ↔
    (match t.kind with | .terminal none .running _ => true | _ => false) = true := by
  unfold Cell.Vacant Tab.cell Tab.session Tab.terminalStatus
  cases hk : t.kind with
  | terminal session status cwd => cases session <;> cases status <;> simp
  | _ => simp

/-- The list of the wave has the tabs that wait. -/
theorem mem_runningTerminalTabs {s : AppState} {tab : TabId} :
    tab ∈ s.runningTerminalTabs ↔ ∃ t ∈ s.tabs, t.cell.Vacant ∧ t.id = tab := by
  simp only [AppState.runningTerminalTabs, List.mem_map, List.mem_filter, and_assoc]
  exact exists_congr fun t => and_congr_right fun _ => and_congr_left' vacant_iff.symm

theorem awaits_running (w : World) : w.Awaits w.disp.state.runningTerminalTabs := by
  intro ws hws c hc hvacant
  obtain ⟨t, ht, rfl⟩ := mem_cells.mp hc
  exact mem_runningTerminalTabs.mpr ⟨t, List.mem_flatMap.mpr ⟨ws, hws, ht⟩, hvacant, rfl⟩

theorem awaits_iff : w.Awaits targets ↔
    ∀ t ∈ w.disp.state.tabs, t.cell.Vacant → t.id ∈ targets := by
  constructor
  · intro h t ht hvacant
    obtain ⟨ws, hws, hc⟩ := mem_tabs_cells ht
    exact h ws hws t.cell hc hvacant
  · intro h ws hws c hc hvacant
    obtain ⟨t, ht, rfl⟩ := mem_cells.mp hc
    exact h t (List.mem_flatMap.mpr ⟨ws, hws, ht⟩) hvacant

/-! ## The respawned tab -/

theorem findTab_eq_none {s : AppState} {test : Tab → Bool} (h : s.findTab test = none) {t : Tab}
    (ht : t ∈ s.tabs) : test t = false := by
  obtain ⟨ws, hws, ht⟩ := List.mem_flatMap.mp ht
  obtain ⟨p, hp, ht⟩ := List.mem_flatMap.mp ht
  obtain ⟨pane, hp⟩ := OrdMap.mem_values.mp hp
  obtain ⟨wi, hwi⟩ := List.mem_iff_getElem?.mp hws
  have hpanes := List.findSome?_eq_none_iff.mp h (ws, wi) (List.mem_zipIdx_iff_getElem?.mpr hwi)
  have htabs := List.findSome?_eq_none_iff.mp hpanes (pane, p) hp
  simpa using List.findIdx?_eq_none_iff.mp (Option.map_eq_none_iff.mp htabs) t ht

theorem locateTab_error {s : AppState} {tab : TabId} {e : CommandError}
    (h : s.locateTab tab = .error e) {t : Tab} (ht : t ∈ s.tabs) : t.id ≠ tab := by
  unfold AppState.locateTab at h
  split at h
  · cases h
  next hnone => simpa using findTab_eq_none hnone ht

theorem not_vacant_of_unrespawnable {t : Tab} (h : t.kind.respawnable = none) :
    ¬ t.cell.Vacant := by
  rw [vacant_iff]
  cases hk : t.kind with
  | terminal session status cwd =>
    rw [hk] at h
    cases session <;> cases status <;> simp_all [TabKind.respawnable]
  | _ => simp

/-- A tab that was respawned has its outcome, in the state after it. -/
theorem respawned_tab {tab : TabId} {ws : Workspace} {pos : TabPos} {t : Tab}
    {session : Option SessionId} {status : TerminalStatus} {d' : Dispatcher}
    (h : Respawned d tab ws pos t session status d') :
    ∃ t' ∈ d'.state.tabs, t'.id = tab ∧ ¬ t'.cell.Vacant := by
  obtain ⟨p, hlookup⟩ := h.place
  obtain ⟨hws, hp, ht⟩ := EffectLemmas.lookup_eq_some.mp hlookup
  obtain ⟨kept, _, hmodify⟩ := exists_rest_cells hp ht
  have hcell := cell_setTerminal rfl h.eligible session status
  have hmem : (t.setTerminal session status).cell ∈
      (ws.modifyTab pos.pane pos.tab fun _ => t.setTerminal session status).cells := by
    rw [hmodify fun _ => t.setTerminal session status]
    exact Multiset.mem_cons_self _ _
  obtain ⟨t', ht', heq⟩ := mem_cells.mp hmem
  have hws' : (ws.modifyTab pos.pane pos.tab fun _ => t.setTerminal session status) ∈
      d'.state.workspaces := by
    rw [h.workspaces]
    exact List.mem_of_getElem? (by rw [List.getElem?_modify_eq, hws]; rfl)
  refine ⟨t', List.mem_flatMap.mpr ⟨_, hws', ht'⟩, ?_, ?_⟩
  · exact (congrArg Cell.tab (heq.trans hcell)).trans h.id
  · rw [heq, hcell]
    exact not_vacant_respawned h.outcome

/-- A respawn that returns leaves no tab of its id that waits: the tab is not there, it is not
eligible and waits for nothing, or it has the outcome of the spawn. -/
theorem respawn_settles {spawner : Spawner} {tab : TabId}
    (hl : d.state.Legal) (hl' : (run (respawnTab spawner tab) d).2.state.Legal)
    (h : (run (respawnTab spawner tab) d).1 ≠ .error .panic) {t : Tab}
    (ht : t ∈ (run (respawnTab spawner tab) d).2.state.tabs) (hid : t.id = tab) :
    ¬ t.cell.Vacant := by
  generalize hrun : run (respawnTab spawner tab) d = result at h hl' ht
  simp only [respawnTab, run_bind, find, expect, check, Method.tell, spawnShell, run_reads, run_act]
    at hrun
  cases hpos : d.state.locateTab tab with
  | error e =>
    simp only [hpos, Except.mapError] at hrun
    subst hrun
    exact absurd hid (locateTab_error hpos ht)
  | ok pos =>
    obtain ⟨ws, p, t₀, hlookup, hid₀⟩ := EffectLemmas.locateTab_ok hpos
    simp only [hpos, hlookup, Except.mapError] at hrun
    cases heligible : t₀.kind.respawnable with
    | none =>
      simp only [heligible] at hrun
      subst hrun
      obtain ⟨hws, hp, ht₀⟩ := EffectLemmas.lookup_eq_some.mp hlookup
      have hmem : t₀ ∈ d.state.tabs := List.mem_flatMap.mpr ⟨ws, List.mem_of_getElem? hws,
        List.mem_flatMap.mpr ⟨p, OrdMap.mem_values.mpr ⟨_, OrdMap.get?_eq_some_iff.mp hp⟩,
          List.mem_of_getElem? ht₀⟩⟩
      rw [tab_unique hl ht hmem (hid.trans hid₀.symm)]
      exact not_vacant_of_unrespawnable heligible
    | some eligible =>
      obtain ⟨cwd, stale, ended⟩ := eligible
      simp only [heligible] at hrun
      subst hrun
      obtain ⟨revision, hfinal⟩ := finishRespawn_returns h
      rw [hfinal] at ht hl'
      obtain ⟨t', ht', hid', hsettled⟩ :=
        respawned_tab (respawned_of_finish revision hlookup hid₀ heligible)
      rw [tab_unique hl' ht ht' (hid.trans hid'.symm)]
      exact hsettled

/-! ## The wave -/

/-- The invariant of the wave. -/
structure Inv (b : Boot) : Prop where
  reach : (World.machine World.Fresh).Reach World.Start b.world
  nodup : ∀ rest ∈ b.targets, rest.Nodup
  awaits : ∀ rest ∈ b.targets, b.world.Awaits rest

theorem inv_call {b : Boot} (h : Inv b) (ha : (World.machine World.Fresh).admits b.world a) :
    Inv { b with world := b.world.step a } where
  reach := .step h.reach ha
  nodup := h.nodup
  awaits rest hrest := awaits_step (legal_of_world h.reach)
    (ledger_of_reach (fun _ _ hf => hf) h.reach) ha.1 (h.awaits rest hrest)

/-- The head of the list is settled by its respawn. -/
theorem awaits_tail {spawner : Spawner} {tab : TabId} {rest : List TabId}
    (hreach : (World.machine World.Fresh).Reach World.Start w)
    (ha : (World.machine World.Fresh).admits w (.respawnTab spawner tab))
    (h : (w.step (.respawnTab spawner tab)).Awaits (tab :: rest)) :
    (w.step (.respawnTab spawner tab)).Awaits rest := by
  have hrun : (Action.step w.disp (.respawnTab spawner tab)) =
      (run (respawnTab spawner tab) w.disp).2 := by
    rw [Action.step, Action.method, run_then_pure]
  have hreturns : (run (respawnTab spawner tab) w.disp).1 ≠ .error .panic := fun hpanic =>
    returns_iff.mp ha.1 (by rw [Action.method, run_then_pure, hpanic]; rfl)
  rw [awaits_iff] at h ⊢
  intro t ht hvacant
  refine (List.mem_cons.mp (h t ht hvacant)).resolve_left fun hid => ?_
  have hlegal := legal_of_world (.step hreach ha)
  change t ∈ (Action.step w.disp (.respawnTab spawner tab)).state.tabs at ht
  change (Action.step w.disp (.respawnTab spawner tab)).state.Legal at hlegal
  rw [hrun] at ht hlegal
  exact respawn_settles (legal_of_world hreach) hlegal hreturns ht hid hvacant

theorem inv_step {b : Boot} {s : Boot.Step} (h : Inv b) (ha : Boot.machine.admits b s) :
    Inv (b.step s) := by
  obtain ⟨hcall, hmode⟩ := ha
  cases s with
  | act a => exact inv_call h (hcall a rfl)
  | begin =>
    refine ⟨h.reach, fun rest hrest => ?_, fun rest hrest => ?_⟩
    · obtain rfl := Option.some_inj.mp hrest
      exact (LegalLemmas.tabIds_nodup (legal_of_world h.reach)).sublist
        (List.filter_sublist.map Tab.id)
    · obtain rfl := Option.some_inj.mp hrest
      exact awaits_running b.world
  | respawn spawner =>
    obtain ⟨tab, htab⟩ := Option.isSome_iff_exists.mp hmode
    obtain ⟨rest, hrest, hhead⟩ := Option.bind_eq_some_iff.mp htab
    obtain ⟨tail, rfl⟩ := List.head?_eq_some_iff.mp hhead
    have hcalled : b.call (.respawn spawner) = some (.respawnTab spawner tab) := by
      rw [Boot.call, htab]
      rfl
    have hadmits := hcall _ hcalled
    have hinv := inv_call h hadmits
    have hworld : (b.step (.respawn spawner)).world =
        b.world.step (.respawnTab spawner tab) := by
      rw [Boot.step, hcalled]
      rfl
    have htargets : (b.step (.respawn spawner)).targets = some tail := by
      rw [Boot.step, hrest]
      rfl
    refine ⟨hworld ▸ hinv.reach, fun r hr => ?_, fun r hr => ?_⟩
    · obtain rfl := Option.some_inj.mp (htargets.symm.trans hr)
      exact (List.nodup_cons.mp (h.nodup _ hrest)).2
    · obtain rfl := Option.some_inj.mp (htargets.symm.trans hr)
      rw [hworld]
      exact awaits_tail h.reach hadmits (hinv.awaits _ hrest)

theorem inv_of_reach {b : Boot} (h : Boot.machine.Reach Boot.Start b) : Inv b := by
  refine h.invariant (fun b hb => ?_) fun b s _ hI ha => inv_step hI ha
  have hnone : ∀ rest, rest ∉ b.targets := by
    rw [hb.2]
    exact fun _ => Option.not_mem_none _
  exact ⟨.init hb.1, fun rest hrest => absurd hrest (hnone rest),
    fun rest hrest => absurd hrest (hnone rest)⟩

end BootLemmas

open WorldLemmas StartedLemmas BootLemmas in
/-- While the wave runs, the terminals that are shown as running without a session are among
those it has still to respawn, and it takes none of them twice. After it, whatever else happened
meanwhile, a terminal is shown as running or as not started exactly when it holds a session
that the host spawned and that was neither killed nor reported as ended. -/
theorem boot_wave {b : Boot} (h : Boot.machine.Reach Boot.Start b) :
    (∀ rest, b.targets = some rest → rest.Nodup ∧
      ∀ t ∈ b.world.disp.state.tabs, t.terminalStatus = some .running → t.session = none →
        t.id ∈ rest) ∧
    (b.targets = some [] → ∀ t ∈ b.world.disp.state.tabs,
      (t.terminalStatus = some .running ∨ t.terminalStatus = some .notStarted) ↔
        ∃ s, t.session = some s ∧ s ∈ b.world.disp.spawned ∧ s ∉ b.world.disp.killed ∧
          s ∉ b.world.seen.exited) := by
  have hinv := inv_of_reach h
  have hledger := ledger_of_reach (fun _ _ hf => hf) hinv.reach
  refine ⟨fun rest hrest => ⟨hinv.nodup rest hrest, fun t ht hrunning hnone => ?_⟩,
    fun hover t ht => ⟨fun hshown => ?_, fun ⟨s, hs, _⟩ => ?_⟩⟩
  · exact awaits_iff.mp (hinv.awaits rest hrest) t ht ⟨hnone, hrunning⟩
  · obtain ⟨ws, hws, hc⟩ := mem_tabs_cells ht
    have hok := (startsKnown_of_reach hinv.reach).cells ws hws _ hc
    cases hsession : t.session with
    | none =>
      rcases hshown with hrunning | hwait
      · exact absurd (awaits_iff.mp (hinv.awaits [] hover) t ht ⟨hsession, hrunning⟩)
          List.not_mem_nil
      · exact absurd hwait (hok.free hsession)
    | some s =>
      exact ⟨s, rfl, (hledger.live s).mp (List.mem_filterMap.mpr ⟨t, ht, hsession⟩)⟩
  · obtain ⟨ws, hws, hc⟩ := mem_tabs_cells ht
    exact (((startsKnown_of_reach hinv.reach).cells ws hws _ hc).holds s hs).imp_right And.left

/-- A saved state with a terminal that was running. -/
def savedTerminal : AppState :=
  (Action.step Dispatcher.new
    (.dispatch (fun _ => .ok 7) (.createWorkspace "w" none none (some (.terminal none))))).state

/-- The saved state after its restoration. -/
def restoredTerminal : AppState := savedTerminal.sanitized

/-- A deadline of an unknown session passes, the list is taken, and its one tab is respawned. -/
def waveTrace : List Boot.Step :=
  [.act (.applyEvent (.sessionStartupTimeout 3)), .begin, .respawn fun _ => .ok 9]

theorem boot_wave_restored :
    Boot.machine.Admitted ⟨⟨.adopt restoredTerminal, .none⟩, none⟩ waveTrace ∧
    ∀ t ∈ (Boot.machine.run ⟨⟨.adopt restoredTerminal, .none⟩, none⟩
        waveTrace).world.disp.state.tabs, t.terminalStatus = some .running →
      ∃ s, t.session = some s := by
  have hrestore : restore savedTerminal [] = .ok (restoredTerminal, []) := by decide
  have hstart : Boot.Start ⟨⟨.adopt restoredTerminal, .none⟩, none⟩ :=
    ⟨⟨.inr ⟨_, _, _, _, hrestore, rfl⟩, rfl⟩, rfl⟩
  have hadmitted : Boot.machine.Admitted ⟨⟨.adopt restoredTerminal, .none⟩, none⟩ waveTrace := by
    decide
  refine ⟨hadmitted, fun t ht hrunning => ?_⟩
  obtain ⟨s, hs, _⟩ := ((boot_wave (.of_trace (.init hstart) waveTrace hadmitted)).2 (by decide)
    t ht).mp (.inl hrunning)
  exact ⟨s, hs⟩

end Mast
