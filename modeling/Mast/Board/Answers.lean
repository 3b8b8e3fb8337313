import Mast.Board.Steps

/-!
# Where sessions come from

A dispatcher takes no session from anywhere but the answer of its host: whatever
a call does and however it ends, the spawns that it adds to the host log were
answered by the spawner of the call.

Results:
1. `Action.asks`: the new spawns of an action are answers of its spawner.
2. `Action.spawned_refused`: a host that refuses every spawn has spawned nothing.
-/

namespace Mast

/-- If the call is a spawn, the spawner gave its answer. -/
def HostCall.AnsweredBy (spawner : Spawner) : HostCall → Prop
  | spawnShell req answer => answer = spawner req
  | _ => True

/-- The host log has grown by calls that the spawner answered. -/
def Asks (spawner : Spawner) (d d' : Dispatcher) : Prop :=
  ∃ calls, d'.host = d.host ++ calls ∧ ∀ call ∈ calls, call.AnsweredBy spawner

/-- What the host answers to the spawns of an action. -/
def Action.spawner : Action → Spawner
  | dispatch spawner _ => spawner
  | respawnTab spawner _ => spawner
  | _ => fun _ => .error ""

namespace AnswersLemmas

open Exec Method Dispatcher

variable {α β : Type} {spawner : Spawner} {d d' d'' : Dispatcher}

theorem asks_refl (d : Dispatcher) : Asks spawner d d := ⟨[], (List.append_nil _).symm, nofun⟩

theorem asks_trans (h : Asks spawner d d') (h' : Asks spawner d' d'') : Asks spawner d d'' := by
  obtain ⟨calls, hhost, hcalls⟩ := h
  obtain ⟨calls', hhost', hcalls'⟩ := h'
  refine ⟨calls ++ calls', by rw [hhost', hhost, List.append_assoc], fun call hcall => ?_⟩
  rcases List.mem_append.mp hcall with hcall | hcall
  · exact hcalls call hcall
  · exact hcalls' call hcall

theorem asks_of_host (h : d'.host = d.host) : Asks spawner d d' :=
  ⟨[], by rw [h, List.append_nil], nofun⟩

/-- A method whose spawns the spawner answers. -/
abbrev Honors (spawner : Spawner) (m : Method α) : Prop := Moves (Asks spawner) m

theorem honors_bind {m : Method α} {f : α → Method β} (hm : Honors spawner m)
    (hf : ∀ a, Honors spawner (f a)) : Honors spawner (m >>= f) :=
  Moves.bind (R := Asks spawner) asks_trans hm hf

theorem honors_pure (a : α) : Honors spawner (pure a : Method α) := moves_pure asks_refl a

theorem honors_read {m : Method α} {f : α → Method β} {g : Dispatcher → Except Fault α}
    (hm : m = Exec.reads g) (hf : ∀ a, Honors spawner (f a)) : Honors spawner (m >>= f) :=
  honors_bind (hm ▸ moves_reads asks_refl g) hf

theorem honors_mutate (f : AppState → AppState) : Honors spawner (mutate f) :=
  moves_act fun _ => asks_of_host rfl

theorem honors_update (f : AppState → Option (α × AppState)) : Honors spawner (update f) :=
  honors_read rfl fun _ => honors_bind (honors_mutate _) fun _ => honors_pure _

theorem honors_tell {calls : List HostCall} (h : ∀ call ∈ calls, call.AnsweredBy spawner) :
    Honors spawner (tell calls) :=
  moves_act fun _ => ⟨calls, rfl, h⟩

theorem honors_spawnShell (req : ShellSpawnReq) : Honors spawner (spawnShell spawner req) :=
  moves_act fun _ => ⟨[_], rfl, fun _ hcall => List.mem_singleton.mp hcall ▸ rfl⟩

theorem answered_kills (sessions : List SessionId) :
    ∀ call ∈ sessions.map HostCall.kill, call.AnsweredBy spawner := by
  intro call hcall
  obtain ⟨session, -, rfl⟩ := List.mem_map.mp hcall
  trivial

theorem answered_retire (distro : Option String) (tabs : List Tab) :
    ∀ call ∈ retireCalls distro tabs, call.AnsweredBy spawner := by
  intro call hcall
  unfold retireCalls at hcall
  rcases List.mem_append.mp hcall with hcall | hcall
  · exact answered_kills _ call hcall
  · split at hcall
    · cases hcall
    · rw [List.mem_singleton.mp hcall]
      trivial

/-! ## Preparation -/

variable (rootPath distro : Option String) (historyTab : UInt64)

theorem honors_spawnTerminalWith (cwd : Option String) :
    Honors spawner (spawnTerminalWith spawner rootPath distro cwd historyTab) := by
  refine honors_bind (honors_spawnShell _) fun answer => ?_
  cases answer with
  | ok session => exact honors_pure _
  | error message => exact moves_throw asks_refl _

theorem honors_prepareViewer (path title : String) (kind : TabKind) :
    Honors spawner (prepareViewer path title kind) := honors_read rfl fun _ => honors_pure _

theorem honors_prepareTabWith (spec : NewTab) :
    Honors spawner (prepareTabWith spawner rootPath distro spec historyTab) := by
  cases spec with
  | terminal cwd =>
    exact honors_bind (honors_spawnTerminalWith _ _ _ _) fun _ => honors_pure _
  | folderBrowser path => exact honors_prepareViewer _ _ _
  | changesViewer path => exact honors_prepareViewer _ _ _
  | textViewer path => exact honors_prepareViewer _ _ _
  | markdownViewer path => exact honors_prepareViewer _ _ _

theorem honors_prepareOptional (spec : Option NewTab) :
    Honors spawner (prepareOptional spawner rootPath distro spec historyTab) := by
  cases spec with
  | none => exact honors_pure _
  | some spec => exact honors_bind (honors_prepareTabWith _ _ _ _) fun _ => honors_pure _

theorem honors_placeTab (prepared : PreparedTab) : Honors spawner (placeTab prepared) :=
  honors_bind (honors_update _) fun _ => honors_pure _

theorem honors_placeOptional (prepared : Option PreparedTab) :
    Honors spawner (placeOptional prepared) := by
  cases prepared with
  | none => exact honors_pure _
  | some prepared => exact honors_bind (honors_placeTab prepared) fun _ => honors_pure _

/-! ## The commands -/

theorem honors_createWorkspace (name : String) (tab : Option NewTab) :
    Honors spawner (createWorkspace spawner name rootPath distro tab) :=
  honors_read rfl fun _ => honors_read rfl fun historyTab =>
    honors_bind (honors_prepareOptional _ _ historyTab tab) fun _ =>
      honors_bind (honors_update _) fun _ => honors_bind (honors_update _) fun _ =>
        honors_bind (honors_placeOptional _) fun _ => honors_bind (honors_mutate _) fun _ =>
          honors_pure _

theorem honors_splitPane (pane : PaneId) (direction : SplitDirection) (tab : Option NewTab) :
    Honors spawner (splitPane spawner pane direction tab) :=
  honors_read rfl fun _ => honors_read rfl fun ws => honors_read rfl fun historyTab =>
    honors_bind (honors_prepareOptional ws.rootPath ws.distro historyTab tab) fun _ =>
      honors_bind (honors_update _) fun _ => honors_bind (honors_update _) fun _ =>
        honors_bind (honors_placeOptional _) fun _ => honors_bind (honors_mutate _) fun _ =>
          honors_pure _

theorem honors_createTab (pane : PaneId) (tab : NewTab) :
    Honors spawner (createTab spawner pane tab) :=
  honors_read rfl fun _ => honors_read rfl fun ws => honors_read rfl fun historyTab =>
    honors_bind (honors_prepareTabWith ws.rootPath ws.distro historyTab tab) fun _ =>
      honors_bind (honors_placeTab _) fun _ => honors_bind (honors_mutate _) fun _ =>
        honors_pure _

theorem honors_closeWorkspace (workspace : WorkspaceId) :
    Honors spawner (closeWorkspace workspace) :=
  honors_read rfl fun _ => honors_read rfl fun _ => honors_bind (honors_mutate _) fun _ =>
    honors_bind (honors_tell (answered_retire _ _)) fun _ =>
      honors_bind (honors_mutate _) fun _ => honors_pure _

theorem honors_moveWorkspace (workspace : WorkspaceId) (before : Option WorkspaceId) :
    Honors spawner (moveWorkspace workspace before) := by
  refine honors_read rfl fun _ => ?_
  split
  · exact honors_pure _
  · exact honors_read rfl fun _ => honors_read rfl fun _ => honors_read rfl fun _ =>
      honors_bind (honors_mutate _) fun _ => honors_pure _

theorem honors_closePane (pane : PaneId) : Honors spawner (closePane pane) :=
  honors_read rfl fun _ => honors_read rfl fun _ => honors_read rfl fun _ =>
    honors_read rfl fun _ => honors_bind (honors_mutate _) fun _ =>
      honors_bind (honors_tell (answered_retire _ _)) fun _ => honors_pure _

theorem honors_closeTab (tab : TabId) : Honors spawner (closeTab tab) :=
  honors_read rfl fun _ => honors_read rfl fun _ => honors_read rfl fun _ =>
    honors_bind (honors_mutate _) fun _ =>
      honors_bind (honors_tell (answered_retire _ _)) fun _ => honors_pure _

theorem honors_viewer {f : TabPos → Workspace × Pane × Tab → Except CommandError TabKind}
    {g : TabPos → TabKind → Workspace → Workspace} (tab : TabId) :
    Honors spawner (do
      let pos ← find fun s => s.locateTab tab
      let found ← expect fun s => s.lookup pos
      let kind ← check (f pos found)
      modifyWorkspace pos.ws (g pos kind)
      pure CommandOutput.done) :=
  honors_read rfl fun _ => honors_read rfl fun _ => honors_read rfl fun _ =>
    honors_bind (honors_mutate _) fun _ => honors_pure _

theorem honors_execute (cmd : Command) : Honors spawner (execute spawner cmd) := by
  cases cmd with
  | createWorkspace name rootPath distro tab => exact honors_createWorkspace _ _ _ _
  | switchWorkspace workspace =>
    exact honors_read rfl fun _ => honors_bind (honors_mutate _) fun _ =>
      honors_bind (honors_mutate _) fun _ => honors_pure _
  | closeWorkspace workspace => exact honors_closeWorkspace workspace
  | renameWorkspace workspace name =>
    exact honors_read rfl fun _ => honors_read rfl fun _ => honors_bind (honors_mutate _) fun _ =>
      honors_pure _
  | moveWorkspace workspace before => exact honors_moveWorkspace workspace before
  | focusPane pane =>
    exact honors_read rfl fun _ => honors_bind (honors_mutate _) fun _ => honors_pure _
  | splitPane pane direction tab => exact honors_splitPane _ _ _
  | resizeSplit split ratio =>
    exact honors_read rfl fun _ => honors_read rfl fun _ => honors_bind (honors_mutate _) fun _ =>
      honors_read rfl fun _ => honors_pure _
  | closePane pane => exact honors_closePane pane
  | createTab pane tab => exact honors_createTab _ _
  | activateTab tab =>
    exact honors_read rfl fun _ => honors_bind (honors_mutate _) fun _ => honors_pure _
  | closeTab tab => exact honors_closeTab tab
  | navigateFolder tab path => exact honors_read rfl fun _ => honors_viewer tab
  | setViewerScroll tab scrollTop => exact honors_read rfl fun _ => honors_viewer tab

/-! ## Respawns and events -/

theorem honors_finishRespawn (pos : TabPos) (priorExit : Option (Option UInt32 × Option UInt64))
    (answer : Except String SessionId) : Honors spawner (finishRespawn pos priorExit answer) := by
  cases answer with
  | ok session =>
    exact honors_bind (honors_mutate _) fun _ => honors_bind (honors_update _) fun _ =>
      honors_pure _
  | error message =>
    exact honors_bind (honors_mutate _) fun _ => honors_bind (honors_update _) fun _ =>
      moves_throw asks_refl _

theorem honors_respawnTab (tab : TabId) : Honors spawner (respawnTab spawner tab) :=
  honors_read rfl fun _ => honors_read rfl fun _ => honors_read rfl fun _ =>
    honors_bind (honors_tell (answered_kills _)) fun _ =>
      honors_bind (honors_spawnShell _) fun _ => honors_finishRespawn _ _ _

theorem honors_bumpIf (changed : Bool) : Honors spawner (bumpIf changed) := by
  cases changed with
  | false => exact honors_pure _
  | true => exact honors_update _

end AnswersLemmas

open AnswersLemmas in
/-- The new spawns of an action are answers of its spawner. -/
theorem Action.asks (a : Action) (d : Dispatcher) : Asks a.spawner d (a.step d) := by
  revert d
  show Honors a.spawner a.method
  cases a with
  | dispatch spawner cmd =>
    exact honors_bind (honors_bind (honors_execute cmd) fun _ => honors_bind (honors_update _)
      fun _ => honors_pure _) fun _ => honors_pure _
  | respawnTab spawner tab => exact honors_bind (honors_respawnTab tab) fun _ => honors_pure _
  | applyEvent ev =>
    exact honors_bind (Exec.moves_act fun d => asks_of_host (BoardLemmas.host_receive ev d))
      fun _ => honors_bumpIf _
  | applyOsc batch nowMs =>
    exact honors_bind (honors_bind (Exec.moves_act fun d =>
      asks_of_host (applyEntries_seats nowMs batch.entries.entries d).2) fun _ =>
        honors_bind (honors_bumpIf _) fun _ => honors_pure _) fun _ => honors_pure _

/-- A host that refuses every spawn has spawned nothing. -/
theorem Action.spawned_refused {a : Action} (h : ∀ req session, a.spawner req ≠ .ok session)
    (d : Dispatcher) : (a.step d).spawned = d.spawned := by
  obtain ⟨calls, hhost, hcalls⟩ := a.asks d
  unfold Dispatcher.spawned
  rw [hhost, List.filterMap_append, List.append_right_eq_self, List.filterMap_eq_nil_iff]
  intro call hcall
  cases call with
  | spawnShell req answer =>
    have hanswer : answer = a.spawner req := hcalls _ hcall
    cases answer with
    | ok session => exact absurd hanswer.symm (h req session)
    | error message => rfl
  | _ => rfl

end Mast
