import Mast.Command.Effect

/-!
# Commands that fail

A command that stops with a command error has changed nothing: it has read and
checked, and its one step that can fail late, the spawn, changes nothing when it
fails. The proofs follow the order of the checks in each method.

Results:
1. `execute_atomic`, `dispatch_atomic`: on a command error the state, the started
   sessions and the effective calls on the host are as before.
-/

namespace Mast

/-- A spawn that failed; the only host call without an effect. -/
def HostCall.isFailedSpawn : HostCall → Bool
  | spawnShell _ (.error _) => true
  | _ => false

/-- The calls that had an effect on the host. -/
def Dispatcher.effects (d : Dispatcher) : List HostCall :=
  d.host.filter fun call => !call.isFailedSpawn

/-- An error that a command reports to its caller. -/
def Fault.IsCommand (e : Fault) : Prop := e ≠ .panic

namespace AtomicLemmas

open Exec Method Dispatcher

/-- What a failed command must leave alone. -/
def frame (d : Dispatcher) : AppState × Finset SessionId × List HostCall :=
  (d.state, d.startedSessions, d.effects)

variable {α β : Type}

/-- A method that leaves the frame alone when it reports an error. -/
abbrev IsAtomic (m : Method α) : Prop := Atomic Fault.IsCommand frame m

/-- A method that reports no error. -/
abbrev Reports (m : Method α) : Prop := Infallible Fault.IsCommand m

theorem atomic_read {m : Method α} {f : α → Method β} {g : Dispatcher → Except Fault α}
    (hm : m = Exec.reads g) (hf : ∀ a, IsAtomic (f a)) : IsAtomic (m >>= f) :=
  Atomic.read_bind (hm ▸ keeps_reads g) hf

theorem infallible_expect (f : AppState → Option α) : Reports (expect f) := by
  intro d e he
  simp only [expect, run_reads] at he
  split at he
  · simp at he
  · obtain rfl : Fault.panic = e := Except.error.inj he
    exact fun h => h rfl

theorem infallible_mutate (f : AppState → AppState) : Reports (mutate f) := infallible_act _

theorem infallible_modifyWorkspace (wi : Nat) (f : Workspace → Workspace) :
    Reports (modifyWorkspace wi f) := infallible_mutate _

theorem infallible_tell (calls : List HostCall) : Reports (tell calls) := infallible_act _

theorem infallible_update (f : AppState → Option (α × AppState)) : Reports (update f) :=
  (infallible_expect f).bind fun _ => (infallible_mutate _).bind fun _ => infallible_pure _

theorem infallible_placeTab (prepared : PreparedTab) : Reports (placeTab prepared) :=
  (infallible_update _).bind fun _ => infallible_pure _

theorem infallible_placeOptional (prepared : Option PreparedTab) :
    Reports (placeOptional prepared) := by
  cases prepared with
  | none => exact infallible_pure _
  | some prepared => exact (infallible_placeTab prepared).bind fun _ => infallible_pure _

/-! ## Preparation -/

variable (spawner : Spawner) (rootPath distro : Option String) (historyTab : UInt64)

theorem atomic_spawnTerminalWith (cwd : Option String) :
    IsAtomic (spawnTerminalWith spawner rootPath distro cwd historyTab) := by
  intro d e he _
  simp only [spawnTerminalWith, run_bind, spawnShell, run_act] at he ⊢
  split at he
  next hanswer => simp at he
  next message hanswer =>
    -- the failed spawn is in the log, and only there
    simp [frame, fail, Dispatcher.effects, hanswer, HostCall.isFailedSpawn]

theorem atomic_prepareViewer (path title : String) (kind : TabKind) :
    IsAtomic (prepareViewer path title kind) :=
  atomic_read rfl fun _ => (infallible_pure _).atomic

theorem atomic_prepareTabWith (spec : NewTab) :
    IsAtomic (prepareTabWith spawner rootPath distro spec historyTab) := by
  cases spec with
  | terminal cwd =>
    exact (atomic_spawnTerminalWith _ _ _ _ _).bind_infallible fun _ => infallible_pure _
  | folderBrowser path => exact atomic_prepareViewer _ _ _
  | changesViewer path => exact atomic_prepareViewer _ _ _
  | textViewer path => exact atomic_prepareViewer _ _ _
  | markdownViewer path => exact atomic_prepareViewer _ _ _

theorem atomic_prepareOptional (spec : Option NewTab) :
    IsAtomic (prepareOptional spawner rootPath distro spec historyTab) := by
  cases spec with
  | none => exact (infallible_pure _).atomic
  | some spec => exact (atomic_prepareTabWith _ _ _ _ _).bind_infallible fun _ => infallible_pure _

/-! ## The commands -/

theorem atomic_createWorkspace (name : String) (tab : Option NewTab) :
    IsAtomic (createWorkspace spawner name rootPath distro tab) :=
  atomic_read rfl fun _ => atomic_read rfl fun historyTab =>
    (atomic_prepareOptional spawner rootPath distro historyTab tab).bind_infallible fun _ =>
      (infallible_update _).bind fun _ => (infallible_update _).bind fun _ =>
        (infallible_placeOptional _).bind fun _ => (infallible_mutate _).bind fun _ =>
          infallible_pure _

theorem atomic_splitPane (pane : PaneId) (direction : SplitDirection) (tab : Option NewTab) :
    IsAtomic (splitPane spawner pane direction tab) :=
  atomic_read rfl fun _ => atomic_read rfl fun ws => atomic_read rfl fun historyTab =>
    (atomic_prepareOptional spawner ws.rootPath ws.distro historyTab tab).bind_infallible fun _ =>
      (infallible_update _).bind fun _ => (infallible_update _).bind fun _ =>
        (infallible_placeOptional _).bind fun _ => (infallible_modifyWorkspace _ _).bind fun _ =>
          infallible_pure _

theorem atomic_createTab (pane : PaneId) (tab : NewTab) :
    IsAtomic (createTab spawner pane tab) :=
  atomic_read rfl fun _ => atomic_read rfl fun ws => atomic_read rfl fun historyTab =>
    (atomic_prepareTabWith spawner ws.rootPath ws.distro historyTab tab).bind_infallible fun _ =>
      (infallible_placeTab _).bind fun _ => (infallible_modifyWorkspace _ _).bind fun _ =>
        infallible_pure _

theorem atomic_closeWorkspace (workspace : WorkspaceId) : IsAtomic (closeWorkspace workspace) :=
  atomic_read rfl fun _ => atomic_read rfl fun _ =>
    Infallible.atomic <| (infallible_mutate _).bind fun _ => (infallible_tell _).bind fun _ =>
      (infallible_mutate _).bind fun _ => infallible_pure _

theorem atomic_moveWorkspace (workspace : WorkspaceId) (before : Option WorkspaceId) :
    IsAtomic (moveWorkspace workspace before) := by
  refine atomic_read rfl fun _ => ?_
  split
  · exact (infallible_pure _).atomic
  · exact atomic_read rfl fun _ => Infallible.atomic <| (infallible_expect _).bind fun _ =>
      (infallible_expect _).bind fun _ => (infallible_mutate _).bind fun _ => infallible_pure _

/-- The one command that changes the state before its last check: a search for
the split that fails has changed nothing. -/
theorem atomic_resizeSplit (split : SplitId) (ratio : F64) :
    IsAtomic (resizeSplit split ratio) := by
  refine atomic_read rfl fun _ => ?_
  intro d e he _
  simp only [run_bind, Method.get, mutate, check, run_reads, run_act] at he ⊢
  cases hfound : (AppState.setFirstRatio split ratio d.state.workspaces).2 with
  | true => simp [hfound, Except.mapError] at he
  | false =>
    simp [frame, Except.mapError, EffectLemmas.setFirstRatio_of_not_found hfound,
      Dispatcher.effects]

theorem atomic_closePane (pane : PaneId) : IsAtomic (closePane pane) :=
  atomic_read rfl fun _ => atomic_read rfl fun _ => atomic_read rfl fun _ =>
    Infallible.atomic <| (infallible_expect _).bind fun _ =>
      (infallible_modifyWorkspace _ _).bind fun _ => (infallible_tell _).bind fun _ =>
        infallible_pure _

theorem atomic_closeTab (tab : TabId) : IsAtomic (closeTab tab) :=
  atomic_read rfl fun _ => Infallible.atomic <| (infallible_expect _).bind fun _ =>
    (infallible_expect _).bind fun _ => (infallible_modifyWorkspace _ _).bind fun _ =>
      (infallible_tell _).bind fun _ => infallible_pure _

theorem atomic_setOne {f : AppState → Except CommandError Nat} {g : Nat → Workspace → Workspace}
    {h : Nat → Method CommandOutput} (hh : ∀ wi, Reports (h wi)) :
    IsAtomic (find f >>= fun wi => modifyWorkspace wi (g wi) >>= fun _ => h wi) :=
  atomic_read rfl fun _ => Infallible.atomic <| (infallible_modifyWorkspace _ _).bind fun _ => hh _

theorem atomic_viewer {f : TabPos → Workspace × Pane × Tab → Except CommandError TabKind}
    {g : TabPos → TabKind → Workspace → Workspace} (tab : TabId) :
    IsAtomic (do
      let pos ← find fun s => s.locateTab tab
      let found ← expect fun s => s.lookup pos
      let kind ← check (f pos found)
      modifyWorkspace pos.ws (g pos kind)
      pure CommandOutput.done) :=
  atomic_read rfl fun _ => atomic_read rfl fun _ => atomic_read rfl fun _ =>
    Infallible.atomic <| (infallible_modifyWorkspace _ _).bind fun _ => infallible_pure _

end AtomicLemmas

open AtomicLemmas in
/-- A command that reports an error has left everything alone. -/
theorem execute_atomic (spawner : Spawner) (cmd : Command) :
    IsAtomic (Dispatcher.execute spawner cmd) := by
  cases cmd with
  | createWorkspace name rootPath distro tab => exact atomic_createWorkspace _ _ _ _ _
  | switchWorkspace workspace =>
    exact atomic_setOne fun _ => (infallible_mutate _).bind fun _ => Exec.infallible_pure _
  | closeWorkspace workspace => exact atomic_closeWorkspace workspace
  | renameWorkspace workspace name =>
    exact atomic_read rfl fun _ => atomic_setOne fun _ => Exec.infallible_pure _
  | moveWorkspace workspace before => exact atomic_moveWorkspace workspace before
  | focusPane pane => exact atomic_setOne fun _ => Exec.infallible_pure _
  | splitPane pane direction tab => exact atomic_splitPane _ _ _ _
  | resizeSplit split ratio => exact atomic_resizeSplit split ratio
  | closePane pane => exact atomic_closePane pane
  | createTab pane tab => exact atomic_createTab _ _ _
  | activateTab tab =>
    exact atomic_read rfl fun _ => Exec.Infallible.atomic <|
      (infallible_modifyWorkspace _ _).bind fun _ => Exec.infallible_pure _
  | closeTab tab => exact atomic_closeTab tab
  | navigateFolder tab path => exact atomic_read rfl fun _ => atomic_viewer tab
  | setViewerScroll tab scrollTop => exact atomic_read rfl fun _ => atomic_viewer tab

open AtomicLemmas in
theorem dispatch_atomic (spawner : Spawner) (cmd : Command) :
    IsAtomic (Dispatcher.dispatch spawner cmd) :=
  (execute_atomic spawner cmd).bind_infallible fun _ =>
    (infallible_update _).bind fun _ => Exec.infallible_pure _

end Mast
