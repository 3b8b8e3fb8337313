import Mast.Command.Atomic
import Mast.Lib.Machine
import Mast.Persist

/-!
# The dispatcher as a machine

An action is a call of one of the four methods that change a dispatcher. A run
is a sequence of calls that return: a call that panics is not part of a run. In
particular no counter overflows in a run.

`Stepped` says once what an action can do; every invariant over runs is proved
from its cases.

Results:
1. `Action.stepped`: an action that returns did one of the things in `Stepped`.
-/

namespace Mast

/-- A call of a method of the dispatcher, with the host's answer to a spawn. -/
inductive Action
  | dispatch (spawner : Spawner) (cmd : Command)
  | respawnTab (spawner : Spawner) (tab : TabId)
  | applyEvent (ev : SessionEvent)
  | applyOsc (batch : OscBatch) (nowMs : UInt64)

namespace Action

/-- The call, without its result. -/
def method : Action → Method PUnit
  | dispatch spawner cmd => Dispatcher.dispatch spawner cmd >>= fun _ => pure ()
  | respawnTab spawner tab => Mast.respawnTab spawner tab >>= fun _ => pure ()
  | applyEvent ev => Dispatcher.applyEvent ev
  | applyOsc batch nowMs => Dispatcher.applyOsc batch nowMs >>= fun _ => pure ()

/-- The dispatcher after the call. -/
def step (d : Dispatcher) (a : Action) : Dispatcher := (Exec.run a.method d).2

/-- The call returns, with a value or with a command error. -/
def returns (d : Dispatcher) (a : Action) : Bool :=
  match (Exec.run a.method d).1 with
  | .error .panic => false
  | _ => true

end Action

namespace Dispatcher

/-- The dispatcher as a machine: a run consists of calls that return. -/
def machine : Machine Dispatcher Action where
  step := Action.step
  admits d a := Action.returns d a = true

instance (d : Dispatcher) (a : Action) : Decidable (machine.admits d a) :=
  inferInstanceAs (Decidable (_ = true))

/-- A new dispatcher, or one that took over a state that `load` restored. -/
def Start (d : Dispatcher) : Prop :=
  d = new ∨ ∃ persisted removed s repairs,
    restore persisted removed = .ok (s, repairs) ∧ d = adopt s

def withRevision (d : Dispatcher) (revision : UInt64) : Dispatcher :=
  { d with state := { d.state with revision } }

section withRevision

variable (d : Dispatcher) (revision : UInt64)

@[simp] theorem withRevision_workspaces :
    (d.withRevision revision).state.workspaces = d.state.workspaces := rfl

@[simp] theorem withRevision_activeWorkspace :
    (d.withRevision revision).state.activeWorkspace = d.state.activeWorkspace := rfl

@[simp] theorem withRevision_nextId :
    (d.withRevision revision).state.nextId = d.state.nextId := rfl

@[simp] theorem withRevision_started :
    (d.withRevision revision).startedSessions = d.startedSessions := rfl

@[simp] theorem withRevision_host : (d.withRevision revision).host = d.host := rfl

@[simp] theorem withRevision_spawned : (d.withRevision revision).spawned = d.spawned := rfl

@[simp] theorem withRevision_killed : (d.withRevision revision).killed = d.killed := rfl

end withRevision

end Dispatcher

/-! ## What an action does -/

/-- What a respawn that found its tab did: `old` is the session that the tab still
held. With a new session the tab runs, without one it has exited. -/
structure Respawned (d : Dispatcher) (tab : TabId) (ws : Workspace) (pos : TabPos) (t : Tab)
    (session : Option SessionId) (status : TerminalStatus) (d' : Dispatcher) : Prop where
  place : ∃ p, d.state.lookup pos = some (ws, p, t)
  id : t.id = tab
  eligible : t.kind.respawnable.isSome
  outcome : (session.isSome ∧ status = .running) ∨
    (session = none ∧ ∃ code endedAtMs, status = .exited code endedAtMs)
  workspaces : d'.state.workspaces = d.state.workspaces.modify pos.ws fun _ =>
    ws.modifyTab pos.pane pos.tab fun _ => t.setTerminal session status
  active : d'.state.activeWorkspace = d.state.activeWorkspace
  nextId : d'.state.nextId = d.state.nextId
  started : d'.startedSessions = d.startedSessions
  spawned : d'.spawned = d.spawned ++ session.toList
  killed : d'.killed = d.killed ++ t.session.toList

/-- What an action that returned did. -/
inductive Stepped (d : Dispatcher) : Action → Dispatcher → Prop
  | performed {spawner : Spawner} {cmd : Command} {out : CommandOutput}
      {gone : List Tab} {d₁ : Dispatcher} (revision : UInt64) :
      Performed cmd d out gone d₁ → Stepped d (.dispatch spawner cmd) (d₁.withRevision revision)
  | failed {spawner : Spawner} {cmd : Command} {d' : Dispatcher} :
      AtomicLemmas.frame d' = AtomicLemmas.frame d → Stepped d (.dispatch spawner cmd) d'
  | refused (spawner : Spawner) (tab : TabId) : Stepped d (.respawnTab spawner tab) d
  | respawned {spawner : Spawner} {tab : TabId} {ws : Workspace} {pos : TabPos} {t : Tab}
      {session : Option SessionId} {status : TerminalStatus} {d' : Dispatcher} :
      Respawned d tab ws pos t session status d' → Stepped d (.respawnTab spawner tab) d'
  | event (ev : SessionEvent) (revision : UInt64) :
      Stepped d (.applyEvent ev) ((d.receive ev).2.withRevision revision)
  | osc (batch : OscBatch) (nowMs revision : UInt64) :
      Stepped d (.applyOsc batch nowMs)
        ((d.applyEntries nowMs batch.entries.entries).2.withRevision revision)

namespace MachineLemmas

open Exec Method

variable {d d' : Dispatcher}

theorem returns_iff {a : Action} :
    a.returns d = true ↔ (run a.method d).1 ≠ .error .panic := by
  unfold Action.returns
  split
  next h => simp [h]
  next h => simpa using h

theorem run_then_pure {α β : Type} (m : Method α) (b : β) (d : Dispatcher) :
    run (m >>= fun _ => pure b) d = ((run m d).1.map fun _ => b, (run m d).2) := by
  rw [run_bind]
  cases hm : run m d with
  | mk r s => cases r <;> rfl

/-! ## Respawn -/

theorem respawnable_eq_some {kind : TabKind} {cwd : Option String} {stale : Option SessionId}
    {ended : Option (Option UInt32 × Option UInt64)}
    (h : kind.respawnable = some (cwd, stale, ended)) :
    ∃ status, kind = .terminal stale status cwd := by
  cases kind with
  | terminal session status cwd' =>
    cases session <;> cases status <;> simp_all [TabKind.respawnable]
  | _ => simp [TabKind.respawnable] at h

/-- The session and status that a respawn leaves in its tab. -/
def respawnOutcome (priorExit : Option (Option UInt32 × Option UInt64)) :
    Except String SessionId → Option SessionId × TerminalStatus
  | .ok session => (some session, .running)
  | .error _ => (none, .exited (priorExit.getD (none, none)).1 (priorExit.getD (none, none)).2)

theorem run_bumpRevision (d : Dispatcher) :
    run bumpRevision d = match checkedAdd d.state.revision 1 with
      | some revision => (.ok (), d.withRevision revision)
      | none => (.error .panic, d) := by
  simp only [bumpRevision, update, expect, mutate, run_bind, run_reads, run_act, run_pure,
    AppState.bumpRevision]
  cases checkedAdd d.state.revision 1 <;> rfl

theorem finishRespawn_returns {pos : TabPos} {priorExit : Option (Option UInt32 × Option UInt64)}
    {answer : Except String SessionId}
    (h : (run (finishRespawn pos priorExit answer) d).1 ≠ .error .panic) :
    ∃ revision, (run (finishRespawn pos priorExit answer) d).2 =
      Dispatcher.withRevision { d with state := { d.state with
        workspaces := d.state.workspaces.modify pos.ws fun ws =>
          ws.modifyTab pos.pane pos.tab (Tab.setTerminal (respawnOutcome priorExit answer).1
            (respawnOutcome priorExit answer).2) } } revision := by
  cases hr : checkedAdd d.state.revision 1 with
  | none =>
    refine absurd ?_ h
    cases answer <;>
      simp only [finishRespawn, run_bind, modifyWorkspace, mutate, run_act, run_bumpRevision, hr]
  | some revision =>
    refine ⟨revision, ?_⟩
    cases answer <;>
      simp only [finishRespawn, run_bind, modifyWorkspace, mutate, run_act, run_bumpRevision, hr,
        run_pure, fail, run_throw, respawnOutcome]

/-- The dispatcher after a respawn: the kill and the spawn are in the host log,
and the tab has its outcome. -/
theorem respawned_of_finish {tab : TabId} {pos : TabPos} {ws : Workspace} {p : Pane} {t : Tab}
    {cwd : Option String} {stale : Option SessionId}
    {ended : Option (Option UInt32 × Option UInt64)} {req : ShellSpawnReq}
    {answer : Except String SessionId} (revision : UInt64)
    (hlookup : d.state.lookup pos = some (ws, p, t)) (hid : t.id = tab)
    (heligible : t.kind.respawnable = some (cwd, stale, ended)) :
    Respawned d tab ws pos t (respawnOutcome ended answer).1 (respawnOutcome ended answer).2
      (Dispatcher.withRevision
        { d with
          host := d.host ++ stale.toList.map HostCall.kill ++ [.spawnShell req answer]
          state := { d.state with
            workspaces := d.state.workspaces.modify pos.ws fun ws =>
              ws.modifyTab pos.pane pos.tab (Tab.setTerminal (respawnOutcome ended answer).1
                (respawnOutcome ended answer).2) } } revision) := by
  obtain ⟨status, hkind⟩ := respawnable_eq_some heligible
  obtain ⟨hws, hp, ht⟩ := EffectLemmas.lookup_eq_some.mp hlookup
  exact
    { place := ⟨p, hlookup⟩
      id := hid
      eligible := by simp [heligible]
      outcome := by
        cases answer with
        | ok session => exact .inl ⟨rfl, rfl⟩
        | error message => exact .inr ⟨rfl, _, _, rfl⟩
      workspaces := by
        rw [Dispatcher.withRevision_workspaces, EffectLemmas.modify_const hws,
          EffectLemmas.modifyTab_const hp ht]
      active := rfl
      nextId := rfl
      started := rfl
      spawned := by
        cases answer <;> cases stale <;>
          simp [Dispatcher.spawned, HostCall.spawned?, respawnOutcome, List.filterMap_cons]
      killed := by
        cases answer <;> cases stale <;>
          simp [Dispatcher.killed, HostCall.killed?, Tab.session, hkind] }

theorem respawnTab_cases {spawner : Spawner} {tab : TabId}
    (h : (run (respawnTab spawner tab) d).1 ≠ .error .panic) :
    (run (respawnTab spawner tab) d).2 = d ∨ ∃ ws pos t session status,
      Respawned d tab ws pos t session status (run (respawnTab spawner tab) d).2 := by
  generalize hrun : run (respawnTab spawner tab) d = result at h ⊢
  simp only [respawnTab, run_bind, find, expect, check, Method.tell, spawnShell, run_reads, run_act]
    at hrun
  cases hpos : d.state.locateTab tab with
  | error e =>
    simp only [hpos, Except.mapError] at hrun
    exact .inl (congrArg Prod.snd hrun).symm
  | ok pos =>
    obtain ⟨ws, p, t, hlookup, hid⟩ := EffectLemmas.locateTab_ok hpos
    simp only [hpos, hlookup, Except.mapError] at hrun
    cases heligible : t.kind.respawnable with
    | none =>
      simp only [heligible] at hrun
      exact .inl (congrArg Prod.snd hrun).symm
    | some eligible =>
      obtain ⟨cwd, stale, ended⟩ := eligible
      simp only [heligible] at hrun
      subst hrun
      obtain ⟨revision, hfinal⟩ := finishRespawn_returns h
      rw [hfinal]
      exact .inr ⟨ws, pos, t, _, _, respawned_of_finish revision hlookup hid heligible⟩

/-! ## Events -/

/-- Counting the revision is all that happens after an event. -/
theorem run_bumpIf (changed : Bool) (d : Dispatcher) :
    ∃ revision, (run (bumpIf changed) d).2 = d.withRevision revision := by
  cases changed with
  | false => exact ⟨d.state.revision, rfl⟩
  | true =>
    rw [bumpIf, if_pos rfl, run_bumpRevision]
    cases checkedAdd d.state.revision 1 with
    | none => exact ⟨d.state.revision, rfl⟩
    | some revision => exact ⟨revision, rfl⟩

theorem run_applyEvent (ev : SessionEvent) (d : Dispatcher) :
    ∃ revision, (run (Dispatcher.applyEvent ev) d).2 = (d.receive ev).2.withRevision revision := by
  rw [Dispatcher.applyEvent, run_bind, run_act]
  exact run_bumpIf _ _

theorem run_applyOsc (batch : OscBatch) (nowMs : UInt64) (d : Dispatcher) :
    ∃ revision, (run (Dispatcher.applyOsc batch nowMs) d).2 =
      (d.applyEntries nowMs batch.entries.entries).2.withRevision revision := by
  rw [Dispatcher.applyOsc, run_bind, run_act]
  dsimp only
  rw [run_then_pure]
  exact run_bumpIf _ _

end MachineLemmas

open MachineLemmas in
/-- An action that returns did one of the things in `Stepped`. -/
theorem Action.stepped {d : Dispatcher} {a : Action} (h : a.returns d = true) :
    Stepped d a (a.step d) := by
  rw [returns_iff] at h
  cases a with
  | dispatch spawner cmd =>
    rw [Action.step, Action.method, run_then_pure] at *
    cases hrun : Exec.run (Dispatcher.dispatch spawner cmd) d with
    | mk result d' =>
      cases result with
      | ok out =>
        obtain ⟨gone, d₁, revision, hperformed, _, rfl⟩ := dispatch_ok hrun
        exact .performed revision hperformed
      | error e =>
        have hframe := dispatch_atomic spawner cmd d e (by rw [hrun]) fun hpanic => h (by
          rw [hrun, hpanic]
          rfl)
        rw [hrun] at hframe
        exact .failed hframe
  | respawnTab spawner tab =>
    rw [Action.step, Action.method, run_then_pure] at *
    have hreturns : (Exec.run (Mast.respawnTab spawner tab) d).1 ≠ .error .panic := fun hpanic =>
      h (by rw [hpanic]; rfl)
    rcases respawnTab_cases hreturns with hsame | ⟨ws, pos, t, session, status, hrespawned⟩
    · rw [hsame]
      exact .refused spawner tab
    · exact .respawned hrespawned
  | applyEvent ev =>
    obtain ⟨revision, hstep⟩ := run_applyEvent ev d
    rw [Action.step, Action.method, hstep]
    exact .event ev revision
  | applyOsc batch nowMs =>
    obtain ⟨revision, hstep⟩ := run_applyOsc batch nowMs d
    rw [Action.step, Action.method, run_then_pure, hstep]
    exact .osc batch nowMs revision

end Mast
