import Mast.Command.Queries

/-!
# Session events and terminal notifications

`command/events.rs`: what the end of a session, a missed start deadline and a
batch of notifications do to the model.
-/

namespace Mast

/-! ## The agent status of a workspace -/

namespace Workspace

/-- `reset_agent_source`: a tab that disappears takes the status it reported
with it. -/
def resetAgentSource (tab : TabId) (ws : Workspace) : Workspace :=
  if ws.agentStatusSource = some tab then
    { ws with agentStatusSource := none, agentStatus := .idle }
  else ws

/-- `reset_agent_source` for each tab of a list. -/
def resetAll (tabs : List TabId) (ws : Workspace) : Workspace :=
  tabs.foldl (fun ws tab => ws.resetAgentSource tab) ws

/-- Whether a tab may set the status: a workspace that waits for input is only
taken over by another wait, or released by its own source. -/
def allowsStatus (ws : Workspace) (tab : TabId) (status : AgentStatus) : Bool :=
  ws.agentStatus ≠ .needsInput || status = .needsInput || ws.agentStatusSource = some tab

def reportStatus (tab : TabId) (status : AgentStatus) (ws : Workspace) : Workspace :=
  if ws.allowsStatus tab status then
    { ws with agentStatus := status, agentStatusSource := some tab }
  else ws

end Workspace

/-! ## The end of a session -/

namespace Tab

/-- The tab lets go of a session that ended. -/
def exitSession (session : SessionId) (code : Option UInt32) (endedAtMs : UInt64) (t : Tab) : Tab :=
  match t.kind with
  | .terminal (some s) _ cwd =>
    if s = session then { t with kind := .terminal none (.exited code (some endedAtMs)) cwd } else t
  | _ => t

/-- The start deadline of a session passed; only a running tab is marked. -/
def startupTimeout (session : SessionId) (t : Tab) : Tab :=
  match t.kind with
  | .terminal (some s) .running cwd =>
    if s = session then { t with kind := .terminal (some s) .notStarted cwd } else t
  | _ => t

end Tab

namespace Workspace

/-- The tabs that hold a session, in order. -/
def holders (session : SessionId) (ws : Workspace) : List TabId :=
  (ws.tabs.filter fun t => t.session = some session).map Tab.id

def exitSession (session : SessionId) (code : Option UInt32) (endedAtMs : UInt64)
    (ws : Workspace) : Workspace :=
  (ws.mapTabs (Tab.exitSession session code endedAtMs)).resetAll (ws.holders session)

end Workspace

/-- `revision += 1` when something changed. -/
def Method.bumpIf (changed : Bool) : Method PUnit := if changed then bumpRevision else pure ()

namespace Dispatcher

def mapWorkspaces (f : Workspace → Workspace) (d : Dispatcher) : Dispatcher :=
  { d with state := { d.state with workspaces := d.state.workspaces.map f } }

/-- What `apply_event` does before it counts the revision, and whether it
changed anything. A tab is changed exactly when it holds the session (and, for
a timeout, runs). -/
def receive (ev : SessionEvent) (d : Dispatcher) : Bool × Dispatcher :=
  match ev with
  | .sessionExited session code endedAtMs =>
    let changed := d.state.tabs.any fun t => t.session = some session
    let d := { d with startedSessions := d.startedSessions.erase session }
    (changed, d.mapWorkspaces (Workspace.exitSession session code endedAtMs))
  | .sessionStartupTimeout session =>
    if session ∈ d.startedSessions then (false, d)
    else
      let changed := d.state.tabs.any fun t => t.startupTimeout session ≠ t
      (changed, d.mapWorkspaces (Workspace.mapTabs (Tab.startupTimeout session)))

def applyEvent (ev : SessionEvent) : Method PUnit := do
  let changed ← Exec.act (receive ev)
  Method.bumpIf changed

end Dispatcher

/-! ## Notifications -/

namespace Tab

/-- A start marker takes a startup warning back. -/
def markStarted (t : Tab) : Tab :=
  match t.kind with
  | .terminal ptySession .notStarted cwd => { t with kind := .terminal ptySession .running cwd }
  | _ => t

def setCwd (path : String) (t : Tab) : Tab :=
  match t.kind with
  | .terminal ptySession status _ => { t with kind := .terminal ptySession status (some path) }
  | _ => t

/-- The tab part of `apply_delta`. The unread flag of a visible tab is
suppressed. -/
def applyDelta (visible : Bool) (delta : OscDelta) (nowMs : UInt64) (t : Tab) : Tab :=
  let t := if delta.started then t.markStarted else t
  let t := match delta.title with
    | some title => { t with title }
    | none => t
  let t := match delta.cwd with
    | some path => t.setCwd path
    | none => t
  let t := if delta.unread && !visible then { t with notification := .unread } else t
  { t with lastActivityMs := some nowMs }

end Tab

namespace Workspace

/-- The workspace part of `apply_delta`: the status under the needs-input
priority, and the preview message whatever the status does. -/
def applyDelta (tab : TabId) (delta : OscDelta) (ws : Workspace) : Workspace :=
  let ws := match delta.status with
    | some status => ws.reportStatus tab status
    | none => ws
  match delta.message with
  | some message => { ws with lastAgentMessage := some message }
  | none => ws

end Workspace

namespace AppState

/-- On screen: the active tab of a pane of the active workspace. -/
def visible (s : AppState) (ws : Workspace) (pane : Pane) (tab : TabId) : Bool :=
  s.activeWorkspace = some ws.id && pane.activeTab = some tab

/-- `apply_delta` on the tab at a position that `locate_session` returned, and
whether it changed anything: the source assigns only values that differ. -/
def applyDelta (s : AppState) (pos : TabPos) (delta : OscDelta) (nowMs : UInt64) :
    Bool × AppState :=
  match s.lookup pos with
  | none => (false, s)
  | some (ws, pane, tab) =>
    let visible := s.visible ws pane tab.id
    let ws' := (ws.modifyTab pos.pane pos.tab (Tab.applyDelta visible delta nowMs)).applyDelta
      tab.id delta
    (decide (ws' ≠ ws), { s with workspaces := s.workspaces.modify pos.ws fun _ => ws' })

end AppState

namespace Dispatcher

/-- One turn of the loop of `apply_osc`. -/
def applyEntry (nowMs : UInt64) (entry : SessionId × OscDelta) (d : Dispatcher) :
    Bool × Dispatcher :=
  let d := if entry.2.started then
    { d with startedSessions := insert entry.1 d.startedSessions } else d
  match d.state.locateSession entry.1 with
  | none => (false, d)
  | some pos =>
    let (changed, state) := d.state.applyDelta pos entry.2 nowMs
    (changed, { d with state })

/-- The loop of `apply_osc`. -/
def applyEntries (nowMs : UInt64) : List (SessionId × OscDelta) → Dispatcher → Bool × Dispatcher
  | [], d => (false, d)
  | entry :: rest, d =>
    let (changed, d) := d.applyEntry nowMs entry
    let (changedLater, d) := applyEntries nowMs rest d
    (changed || changedLater, d)

/-- `apply_osc`: the batch in ascending session order; the revision grows once. -/
def applyOsc (batch : OscBatch) (nowMs : UInt64) : Method Bool := do
  let changed ← Exec.act (applyEntries nowMs batch.entries.entries)
  Method.bumpIf changed
  pure changed

end Dispatcher

end Mast
