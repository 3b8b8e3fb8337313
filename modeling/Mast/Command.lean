import Mast.Lib.Exec
import Mast.Notify
import Mast.WslPath
import Mathlib.Data.Finset.Insert

/-!
# The command bus

The vocabulary of `command.rs`: commands, their outputs and errors, the events
of sessions, the calls a dispatcher makes on its session host, and the
dispatcher itself.

Each call of a method is given the host's answer to a spawn request
(`Spawner`), so that a run can make every spawn succeed or fail. What the host
is asked to do is kept in `Dispatcher.host`, oldest call first.
-/

namespace Mast

/-! ## Commands -/

inductive NewTab
  | terminal (cwd : Option String)
  | folderBrowser (path : Option String)
  | changesViewer (path : Option String)
  | textViewer (path : String)
  | markdownViewer (path : String)
deriving DecidableEq, Repr

inductive Command
  | createWorkspace (name : String) (rootPath distro : Option String) (tab : Option NewTab)
  | switchWorkspace (workspace : WorkspaceId)
  | closeWorkspace (workspace : WorkspaceId)
  | renameWorkspace (workspace : WorkspaceId) (name : String)
  | moveWorkspace (workspace : WorkspaceId) (before : Option WorkspaceId)
  | focusPane (pane : PaneId)
  | splitPane (pane : PaneId) (direction : SplitDirection) (tab : Option NewTab)
  | resizeSplit (split : SplitId) (ratio : F64)
  | closePane (pane : PaneId)
  | createTab (pane : PaneId) (tab : NewTab)
  | activateTab (tab : TabId)
  | closeTab (tab : TabId)
  | navigateFolder (tab : TabId) (path : String)
  | setViewerScroll (tab : TabId) (scrollTop : F64)
deriving DecidableEq, Repr

inductive CommandOutput
  | workspaceCreated (workspace : WorkspaceId) (pane : PaneId) (tab : Option TabId)
      (session : Option SessionId)
  | paneCreated (pane : PaneId) (split : SplitId) (tab : Option TabId) (session : Option SessionId)
  | tabCreated (tab : TabId) (session : Option SessionId)
  | done
deriving DecidableEq, Repr

/-- Why a path was refused: a workspace root on a Windows drive, or a viewer
path of a wrong form. -/
inductive InvalidPath
  | underMnt (path : String)
  | malformed (error : PathError)
deriving DecidableEq, Repr

/-- The text of the refusal. `quote` is the debug form of a string. -/
def InvalidPath.message (quote : String → String) : InvalidPath → String
  | .underMnt path =>
    s!"workspace root cannot live under /mnt (Windows drives are data-only): {path}"
  | .malformed error => error.message quote

inductive CommandError
  | unknownTarget (target : String)
  | lastPane
  | spawnFailed (message : String)
  | invalidRatio (ratio : F64)
  | kindMismatch (tab : TabId)
  | invalidPath (reason : InvalidPath)
  | invalidScroll (value : F64)
  | invalidName (message : String)
deriving DecidableEq, Repr

def unknown (kind : String) (id : UInt64) : CommandError := .unknownTarget s!"{kind} {id}"

/-- How a method can stop: with a command error, or by a panic (an index out of
bounds, a failed `expect`). -/
inductive Fault
  | command (error : CommandError)
  | panic
deriving DecidableEq, Repr

inductive SessionEvent
  | sessionExited (session : SessionId) (code : Option UInt32) (endedAtMs : UInt64)
  | sessionStartupTimeout (session : SessionId)
deriving DecidableEq, Repr

/-! ## The session host -/

structure ShellSpawnReq where
  cwd : Option String
  distro : Option String
  cols : UInt16
  rows : UInt16
  historyTab : Option UInt64
deriving DecidableEq, Repr

/-- A call that the dispatcher made on its session host. -/
inductive HostCall
  | spawnShell (req : ShellSpawnReq) (answer : Except String SessionId)
  | kill (session : SessionId)
  | releaseTabs (tabs : List TabId) (distro : Option String)

/-- What the host answers to a spawn request. -/
abbrev Spawner := ShellSpawnReq → Except String SessionId

/-! ## The dispatcher -/

/-- The owner of the state. `startedSessions` remembers the start markers seen,
because a marker and its deadline report come in either order. -/
structure Dispatcher where
  state : AppState
  host : List HostCall
  startedSessions : Finset SessionId

namespace Dispatcher

def new : Dispatcher := { state := AppState.new, host := [], startedSessions := ∅ }

/-- Take over a restored state without spawning anything. -/
def adopt (state : AppState) : Dispatcher := { state, host := [], startedSessions := ∅ }

end Dispatcher

/-- A `&mut self` method of the dispatcher. -/
abbrev Method := Exec Dispatcher Fault

namespace Method

variable {α : Type}

def fail (e : CommandError) : Method α := throw (.command e)

/-- A check that does not look at the dispatcher. -/
def check (x : Except CommandError α) : Method α := Exec.reads fun _ => x.mapError .command

/-- Look up a command's target, or stop with an error. -/
def find (f : AppState → Except CommandError α) : Method α :=
  Exec.reads fun d => (f d.state).mapError .command

/-- Read a part of the state that must be there. -/
def expect (f : AppState → Option α) : Method α :=
  Exec.reads fun d => match f d.state with
    | some a => .ok a
    | none => .error .panic

def get (f : AppState → α) : Method α := Exec.reads fun d => .ok (f d.state)

def mutate (f : AppState → AppState) : Method PUnit :=
  Exec.act fun d => ((), { d with state := f d.state })

/-- Change the workspace at an index. -/
def modifyWorkspace (wi : Nat) (f : Workspace → Workspace) : Method PUnit :=
  mutate fun s => { s with workspaces := s.workspaces.modify wi f }

/-- Replace the state by one that a step computes, which may panic. -/
def update (f : AppState → Option (α × AppState)) : Method α :=
  expect f >>= fun r => mutate (fun _ => r.2) >>= fun _ => pure r.1

def allocId : Method UInt64 := update AppState.allocId

def peekId (offset : UInt64) : Method UInt64 := expect fun s => s.peekId offset

def bumpRevision : Method PUnit := update fun s => s.bumpRevision.map fun s => ((), s)

/-- Make calls on the host that return nothing. -/
def tell (calls : List HostCall) : Method PUnit :=
  Exec.act fun d => ((), { d with host := d.host ++ calls })

def spawnShell (spawner : Spawner) (req : ShellSpawnReq) : Method (Except String SessionId) :=
  Exec.act fun d => (spawner req, { d with host := d.host ++ [.spawnShell req (spawner req)] })

end Method

end Mast
