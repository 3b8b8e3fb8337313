import Mast.Command.Queries

/-!
# Tab preparation, respawn and retirement

`command/tabs.rs`: shells are spawned and paths checked before any state is
changed; a terminal tab can be respawned under its id; closed tabs are retired.
-/

namespace Mast

/-! ## Preparation -/

/-- The last non-empty component of a path, or `/`. -/
def pathTitle (path : String) : String :=
  match (pathComponents path).reverse.find? fun component => component ≠ [] with
  | some component => String.ofList component
  | none => "/"

def validateViewerPath (path : String) : Except CommandError Unit :=
  (validateLinuxPath path).mapError fun e => .invalidPath (.malformed e)

/-- A tab that is ready to be placed: nothing can fail any more. -/
inductive PreparedTab
  | terminal (session : SessionId) (cwd : Option String)
  | viewer (title : String) (kind : TabKind)
deriving DecidableEq, Repr

namespace PreparedTab

def terminalTab (id : TabId) (session : SessionId) (cwd : Option String) : Tab :=
  { id, title := "Terminal", kind := .terminal (some session) .running cwd,
    notification := .none, lastActivityMs := none }

def viewerTab (id : TabId) (title : String) (kind : TabKind) : Tab :=
  { id, title, kind, notification := .none, lastActivityMs := none }

def intoTab (id : TabId) : PreparedTab → Tab
  | terminal session cwd => terminalTab id session cwd
  | viewer title kind => viewerTab id title kind

def session : PreparedTab → Option SessionId
  | terminal session _ => some session
  | viewer .. => none

end PreparedTab

open Method

/-- Spawn a shell with the workspace defaults: the session, and the directory
to record in the tab. -/
def spawnTerminalWith (spawner : Spawner) (rootPath distro cwd : Option String)
    (historyTab : UInt64) : Method (SessionId × Option String) := do
  let cwd := cwd.or rootPath
  let req := { cwd, distro, cols := 80, rows := 24, historyTab := some historyTab }
  let answer ← spawnShell spawner req
  match answer with
  | .ok session => pure (session, cwd)
  | .error message => fail (.spawnFailed message)

def prepareViewer (path title : String) (kind : TabKind) : Method PreparedTab := do
  check (validateViewerPath path)
  pure (.viewer title kind)

def prepareTabWith (spawner : Spawner) (rootPath distro : Option String) (spec : NewTab)
    (historyTab : UInt64) : Method PreparedTab :=
  match spec with
  | .terminal cwd => do
    let spawned ← spawnTerminalWith spawner rootPath distro cwd historyTab
    pure (.terminal spawned.1 spawned.2)
  | .folderBrowser path =>
    let path := (path.or rootPath).getD "/"
    prepareViewer path (pathTitle path) (.folderBrowser path)
  | .changesViewer path =>
    let path := (path.or rootPath).getD "/"
    prepareViewer path "Changes" (.changesViewer path)
  | .textViewer path => prepareViewer path (pathTitle path) (.textViewer path F64.zero)
  | .markdownViewer path => prepareViewer path (pathTitle path) (.markdownViewer path F64.zero)

/-- The optional tab of CreateWorkspace and SplitPane. -/
def prepareOptional (spawner : Spawner) (rootPath distro : Option String) (spec : Option NewTab)
    (historyTab : UInt64) : Method (Option PreparedTab) :=
  match spec with
  | some spec => do
    let prepared ← prepareTabWith spawner rootPath distro spec historyTab
    pure (some prepared)
  | none => pure none

/-! ## Retirement -/

def Tab.isTerminal (t : Tab) : Bool :=
  match t.kind with
  | .terminal .. => true
  | _ => false

/-- `retire_tabs`: kill the sessions that are held, then release the resources
of every terminal tab in one batch. -/
def retireCalls (distro : Option String) (tabs : List Tab) : List HostCall :=
  let released := (tabs.filter Tab.isTerminal).map Tab.id
  (tabs.filterMap Tab.session).map HostCall.kill ++
    if released = [] then [] else [.releaseTabs released distro]

/-! ## Respawn -/

/-- The tabs that boot respawns: running terminals without a session. -/
def AppState.runningTerminalTabs (s : AppState) : List TabId :=
  (s.tabs.filter fun t => match t.kind with
    | .terminal none .running _ => true
    | _ => false).map Tab.id

/-- What a respawn needs of an eligible tab: its directory, the session it
still holds, and how its last shell ended. -/
def TabKind.respawnable : TabKind →
    Option (Option String × Option SessionId × Option (Option UInt32 × Option UInt64))
  | .terminal none .running cwd => some (cwd, none, none)
  | .terminal ptySession .notStarted cwd => some (cwd, ptySession, none)
  | .terminal ptySession (.exited code endedAtMs) cwd =>
    some (cwd, ptySession, some (code, endedAtMs))
  | _ => none

/-- Put a session and a status into a terminal tab. -/
def Tab.setTerminal (ptySession : Option SessionId) (status : TerminalStatus) (t : Tab) : Tab :=
  match t.kind with
  | .terminal _ _ cwd => { t with kind := .terminal ptySession status cwd }
  | _ => t

/-- The end of a respawn: the tab runs the new session, or has exited, with the
end of its last shell if it had one. -/
def finishRespawn (pos : TabPos) (priorExit : Option (Option UInt32 × Option UInt64)) :
    Except String SessionId → Method SessionId
  | .ok session => do
    modifyWorkspace pos.ws fun ws =>
      ws.modifyTab pos.pane pos.tab (Tab.setTerminal (some session) .running)
    bumpRevision
    pure session
  | .error message => do
    let (code, endedAtMs) := priorExit.getD (none, none)
    modifyWorkspace pos.ws fun ws =>
      ws.modifyTab pos.pane pos.tab (Tab.setTerminal none (.exited code endedAtMs))
    bumpRevision
    fail (.spawnFailed message)

/-- `respawn_tab`. A session the tab still holds is killed first. A failed spawn
is an error that changes the state: the tab becomes exited. -/
def respawnTab (spawner : Spawner) (tab : TabId) : Method SessionId := do
  let pos ← find fun s => s.locateTab tab
  let found ← expect fun s => s.lookup pos
  let eligible ← check (match found.2.2.kind.respawnable with
    | some eligible => .ok eligible
    | none => .error (unknown "respawnable tab" tab.val))
  tell (eligible.2.1.toList.map HostCall.kill)
  let answer ← spawnShell spawner
    { cwd := eligible.1.or found.1.rootPath, distro := found.1.distro, cols := 80, rows := 24,
      historyTab := some tab.val }
  finishRespawn pos eligible.2.2 answer

end Mast
