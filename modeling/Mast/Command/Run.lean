import Mast.Command.Mutations
import Mast.Lib.ListEdit

/-!
# Running methods

How each building block of a method runs, for the runs that return a value. The
sessions that a list of host calls spawned and killed are read off the calls.

Results:
1. `run_…_ok`: one rule for each building block.
2. `prepareTabWith_ok`: a prepared tab has spawned the session it carries, and
   nothing else has happened.
-/

namespace Mast

/-! ## Sessions in the host log -/

namespace HostCall

/-- The session that the call spawned. -/
def spawned? : HostCall → Option SessionId
  | spawnShell _ (.ok session) => some session
  | _ => none

/-- The session that the call killed. -/
def killed? : HostCall → Option SessionId
  | kill session => some session
  | _ => none

end HostCall

namespace Dispatcher

/-- The sessions that the host spawned, oldest first. -/
def spawned (d : Dispatcher) : List SessionId := d.host.filterMap HostCall.spawned?

/-- The sessions that were killed through the host, oldest first. -/
def killed (d : Dispatcher) : List SessionId := d.host.filterMap HostCall.killed?

end Dispatcher

theorem spawned_retireCalls (distro : Option String) (tabs : List Tab) :
    (retireCalls distro tabs).filterMap HostCall.spawned? = [] := by
  simp only [retireCalls, List.filterMap_append, List.filterMap_map]
  split <;> simp [HostCall.spawned?, Function.comp_def]

theorem killed_retireCalls (distro : Option String) (tabs : List Tab) :
    (retireCalls distro tabs).filterMap HostCall.killed? = tabs.filterMap Tab.session := by
  have hkill : (HostCall.killed? ∘ HostCall.kill) = some := rfl
  simp only [retireCalls, List.filterMap_append, List.filterMap_map, hkill, List.filterMap_some]
  split <;> simp [HostCall.killed?]

/-! ## Building blocks -/

namespace Method

variable {α : Type} {d d' : Dispatcher} {a : α}

@[simp] theorem mapError_ok {ε ε' : Type} {f : ε → ε'} {x : Except ε α} :
    x.mapError f = .ok a ↔ x = .ok a := by
  cases x <;> simp [Except.mapError]

@[simp] theorem run_pure_ok {b : α} :
    Exec.run (pure b : Method α) d = (.ok a, d') ↔ b = a ∧ d' = d := by
  rw [Exec.run_pure, Prod.mk.injEq, Except.ok.injEq, @eq_comm _ d]

@[simp] theorem run_fail_ok {e : CommandError} :
    Exec.run (fail e : Method α) d = (.ok a, d') ↔ False := by
  simp [fail]

@[simp] theorem run_check_ok {x : Except CommandError α} :
    Exec.run (check x) d = (.ok a, d') ↔ x = .ok a ∧ d' = d := by
  rw [check, Exec.run_reads, Prod.mk.injEq, mapError_ok, @eq_comm _ d]

@[simp] theorem run_find_ok {f : AppState → Except CommandError α} :
    Exec.run (find f) d = (.ok a, d') ↔ f d.state = .ok a ∧ d' = d := by
  rw [find, Exec.run_reads, Prod.mk.injEq, mapError_ok, @eq_comm _ d]

@[simp] theorem run_expect_ok {f : AppState → Option α} :
    Exec.run (expect f) d = (.ok a, d') ↔ f d.state = some a ∧ d' = d := by
  rw [expect, Exec.run_reads, Prod.mk.injEq, @eq_comm _ d]
  cases f d.state <;> simp

@[simp] theorem run_get_ok {f : AppState → α} :
    Exec.run (get f) d = (.ok a, d') ↔ f d.state = a ∧ d' = d := by
  rw [get, Exec.run_reads, Prod.mk.injEq, Except.ok.injEq, @eq_comm _ d]

@[simp] theorem run_mutate_ok {f : AppState → AppState} {u : PUnit} :
    Exec.run (mutate f) d = (.ok u, d') ↔ d' = { d with state := f d.state } := by
  rw [mutate, Exec.run_act, Prod.mk.injEq, eq_comm]
  simp [eq_comm]

@[simp] theorem run_modifyWorkspace_ok {wi : Nat} {f : Workspace → Workspace} {u : PUnit} :
    Exec.run (modifyWorkspace wi f) d = (.ok u, d') ↔
      d' = { d with state := { d.state with workspaces := d.state.workspaces.modify wi f } } :=
  run_mutate_ok

@[simp] theorem run_tell_ok {calls : List HostCall} {u : PUnit} :
    Exec.run (tell calls) d = (.ok u, d') ↔ d' = { d with host := d.host ++ calls } := by
  rw [tell, Exec.run_act, Prod.mk.injEq, eq_comm]
  simp [eq_comm]

@[simp] theorem run_spawnShell_ok {spawner : Spawner} {req : ShellSpawnReq}
    {answer : Except String SessionId} :
    Exec.run (spawnShell spawner req) d = (.ok answer, d') ↔ spawner req = answer ∧
      d' = { d with host := d.host ++ [.spawnShell req (spawner req)] } := by
  rw [spawnShell, Exec.run_act, Prod.mk.injEq, Except.ok.injEq, @eq_comm _ d']

@[simp] theorem run_update_ok {f : AppState → Option (α × AppState)} :
    Exec.run (update f) d = (.ok a, d') ↔
      ∃ s, f d.state = some (a, s) ∧ d' = { d with state := s } := by
  simp only [update, Exec.run_bind_ok, run_expect_ok, run_mutate_ok, run_pure_ok]
  constructor
  · rintro ⟨⟨b, s⟩, _, ⟨hf, rfl⟩, _, _, rfl, rfl, rfl⟩
    exact ⟨s, hf, rfl⟩
  · rintro ⟨s, hf, rfl⟩
    exact ⟨_, _, ⟨hf, rfl⟩, (), _, rfl, rfl, rfl⟩

@[simp] theorem run_allocId_ok {id : UInt64} :
    Exec.run allocId d = (.ok id, d') ↔ d.state.nextId = id ∧
      ∃ n, n.toNat = id.toNat + 1 ∧ d' = { d with state := { d.state with nextId := n } } := by
  simp only [allocId, run_update_ok, AppState.allocId, Option.map_eq_some_iff, checkedAdd_eq_some,
    Prod.mk.injEq]
  constructor
  · rintro ⟨_, ⟨n, hn, rfl, rfl⟩, rfl⟩
    exact ⟨rfl, n, hn, rfl⟩
  · rintro ⟨rfl, n, hn, rfl⟩
    exact ⟨_, ⟨n, hn, rfl, rfl⟩, rfl⟩

@[simp] theorem run_peekId_ok {offset id : UInt64} :
    Exec.run (peekId offset) d = (.ok id, d') ↔
      id.toNat = d.state.nextId.toNat + offset.toNat ∧ d' = d := by
  rw [peekId, run_expect_ok, AppState.peekId, checkedAdd_eq_some]

@[simp] theorem run_bumpRevision_ok {u : PUnit} :
    Exec.run bumpRevision d = (.ok u, d') ↔ ∃ r, r.toNat = d.state.revision.toNat + 1 ∧
      d' = { d with state := { d.state with revision := r } } := by
  simp only [bumpRevision, run_update_ok, AppState.bumpRevision, Option.map_map,
    Option.map_eq_some_iff, Function.comp_apply, checkedAdd_eq_some, Prod.mk.injEq]
  constructor
  · rintro ⟨_, ⟨r, hr, _, rfl⟩, rfl⟩
    exact ⟨r, hr, rfl⟩
  · rintro ⟨r, hr, rfl⟩
    exact ⟨_, ⟨r, hr, trivial, rfl⟩, rfl⟩

end Method

/-! ## Prepared tabs -/

/-- The kind of a tab that was just opened: a running terminal with its session,
or a viewer without one. -/
inductive TabKind.Opened : Option SessionId → TabKind → Prop
  | terminal (session : SessionId) (cwd : Option String) :
      Opened (some session) (.terminal (some session) .running cwd)
  | folderBrowser (path : String) : Opened none (.folderBrowser path)
  | changesViewer (path : String) : Opened none (.changesViewer path)
  | textViewer (path : String) {scrollTop : F64} : scrollTop.isFinite = true →
      Opened none (.textViewer path scrollTop)
  | markdownViewer (path : String) {scrollTop : F64} : scrollTop.isFinite = true →
      Opened none (.markdownViewer path scrollTop)

/-- The kind of a viewer. -/
def TabKind.IsViewer : TabKind → Prop
  | .terminal .. => False
  | _ => True

/-- A tab that was just opened. -/
structure Tab.Opened (session : Option SessionId) (t : Tab) : Prop where
  kind : t.kind.Opened session
  read : t.notification = .none

/-- The dispatcher after some host calls and nothing else. -/
structure HostOnly (spawned : Option SessionId) (d d' : Dispatcher) : Prop where
  state : d'.state = d.state
  started : d'.startedSessions = d.startedSessions
  spawned : d'.spawned = d.spawned ++ spawned.toList
  killed : d'.killed = d.killed

theorem HostOnly.refl (d : Dispatcher) : HostOnly none d d :=
  ⟨rfl, rfl, (List.append_nil _).symm, rfl⟩

/-- What a prepared tab is: nothing but its spawn has happened, and it opens as
a tab that holds the spawned session. -/
structure Prepares (d : Dispatcher) (prepared : PreparedTab) (d' : Dispatcher) : Prop where
  host : HostOnly prepared.session d d'
  opens : ∀ id, (prepared.intoTab id).Opened prepared.session

section Prepare

variable {spawner : Spawner} {rootPath distro : Option String} {historyTab : UInt64}
  {d d' : Dispatcher} {prepared : PreparedTab}

theorem prepareViewer_ok {path title : String} {kind : TabKind} (hkind : kind.Opened none)
    (h : Exec.run (prepareViewer path title kind) d = (.ok prepared, d')) :
    Prepares d prepared d' := by
  simp only [prepareViewer, Exec.run_bind_ok, Method.run_check_ok, Method.run_pure_ok] at h
  obtain ⟨_, _, ⟨_, rfl⟩, rfl, rfl⟩ := h
  exact ⟨.refl d', fun id => ⟨hkind, rfl⟩⟩

theorem spawnTerminalWith_ok {cwd : Option String} {spawned : SessionId × Option String}
    (h : Exec.run (spawnTerminalWith spawner rootPath distro cwd historyTab) d =
      (.ok spawned, d')) : HostOnly (some spawned.1) d d' := by
  simp only [spawnTerminalWith, Exec.run_bind_ok, Method.run_spawnShell_ok] at h
  obtain ⟨answer, _, ⟨hanswer, rfl⟩, h⟩ := h
  cases answer with
  | error message => simp at h
  | ok session =>
    obtain ⟨rfl, rfl⟩ := Method.run_pure_ok.mp h
    exact
      { state := rfl
        started := rfl
        spawned := by simp [Dispatcher.spawned, HostCall.spawned?, hanswer]
        killed := by simp [Dispatcher.killed, HostCall.killed?] }

theorem prepareTabWith_ok {spec : NewTab}
    (h : Exec.run (prepareTabWith spawner rootPath distro spec historyTab) d =
      (.ok prepared, d')) : Prepares d prepared d' := by
  cases spec with
  | terminal cwd =>
    simp only [prepareTabWith, Exec.run_bind_ok, Method.run_pure_ok] at h
    obtain ⟨spawned, _, hspawn, rfl, rfl⟩ := h
    exact ⟨spawnTerminalWith_ok hspawn, fun id => ⟨.terminal _ _, rfl⟩⟩
  | folderBrowser path => exact prepareViewer_ok (.folderBrowser _) h
  | changesViewer path => exact prepareViewer_ok (.changesViewer _) h
  | textViewer path => exact prepareViewer_ok (.textViewer _ (by decide)) h
  | markdownViewer path => exact prepareViewer_ok (.markdownViewer _ (by decide)) h

theorem prepareOptional_ok {spec : Option NewTab} {prepared : Option PreparedTab}
    (h : Exec.run (prepareOptional spawner rootPath distro spec historyTab) d =
      (.ok prepared, d')) :
    HostOnly (prepared.bind PreparedTab.session) d d' ∧
      ∀ p ∈ prepared, ∀ id, (p.intoTab id).Opened p.session := by
  cases spec with
  | none =>
    obtain ⟨rfl, rfl⟩ := Method.run_pure_ok.mp h
    exact ⟨.refl d', by simp⟩
  | some spec =>
    simp only [prepareOptional, Exec.run_bind_ok, Method.run_pure_ok] at h
    obtain ⟨p, _, hp, rfl, rfl⟩ := h
    have hprepares := prepareTabWith_ok hp
    exact ⟨hprepares.host, by simpa using hprepares.opens⟩

end Prepare

end Mast
