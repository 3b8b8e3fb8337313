import Mast.Model
import Mathlib.Data.Finset.Insert

/-!
# Restoring a saved state

The typed half of `persist.rs`: what `load` does with a deserialised state. The
state is validated as a whole, tabs of an unknown kind are removed, and what
belonged to the last process (sessions, agent status, notifications) is reset.
-/

namespace Mast

/-! ## Validation -/

inductive IdKind
  | workspace
  | split
  | pane
  | tab
deriving DecidableEq, Repr

/-- What `validate_app` finds wrong. -/
inductive AppViolation
  | duplicateId (id : UInt64) (what : IdKind)
  | workspace (violation : Violation)
  | activeWorkspace (active : WorkspaceId)
deriving DecidableEq, Repr

/-- The stable ids of a workspace with their kinds, in the order they are claimed. -/
def Workspace.claims (ws : Workspace) : List (UInt64 × IdKind) :=
  (ws.id.val, .workspace) :: (ws.layout.splitIds.map (fun id => (id.val, .split)) ++
    ws.panes.entries.flatMap fun e =>
      (e.1.val, .pane) :: e.2.tabs.map fun t => (t.id.val, .tab))

/-- Claim each id once; the first id that is already taken is a violation. -/
def claimAll (seen : Finset UInt64) : List (UInt64 × IdKind) → Except AppViolation Unit
  | [] => .ok ()
  | (id, what) :: rest =>
    if id ∈ seen then .error (.duplicateId id what) else claimAll (insert id seen) rest

def validateAll : List Workspace → Except AppViolation Unit
  | [] => .ok ()
  | ws :: rest =>
    match ws.validate with
    | .error violation => .error (.workspace violation)
    | .ok () => validateAll rest

def validateActive (s : AppState) : Except AppViolation Unit :=
  match s.activeWorkspace with
  | some active =>
    if (s.workspace active).isNone then .error (.activeWorkspace active) else .ok ()
  | none => .ok ()

/-- `validate_app`: the ids are globally distinct, every workspace is valid, and
the active workspace exists. -/
def validateApp (s : AppState) : Except AppViolation Unit := do
  claimAll ∅ (s.workspaces.flatMap Workspace.claims)
  validateAll s.workspaces
  validateActive s

/-! ## Tabs of an unknown kind -/

/-- A tab whose kind this version does not know: its id and the name of the kind. -/
structure RemovedUnknownTab where
  id : UInt64
  kind : String
deriving DecidableEq, Repr

/-- Remove tabs from a pane; an active tab that goes hands over to the first one
that is left. -/
def Pane.removeTabs (removed : List UInt64) (p : Pane) : Pane :=
  let tabs := p.tabs.filter fun t => t.id.val ∉ removed
  let activeRemoved := p.tabs.any fun t => t.id.val ∈ removed && p.activeTab = some t.id
  { p with tabs, activeTab := if activeRemoved then tabs.head?.map Tab.id else p.activeTab }

def removeUnknownTabs (s : AppState) (removed : List RemovedUnknownTab) : AppState :=
  if removed = [] then s
  else
    let ids := removed.map RemovedUnknownTab.id
    { s with workspaces := s.workspaces.map fun ws =>
        { ws with panes := ws.panes.mapValues (Pane.removeTabs ids) } }

/-! ## Sanitizing -/

/-- Forget the session of the last process; a start warning is not kept. -/
def TabKind.sanitize : TabKind → TabKind
  | .terminal _ .notStarted cwd => .terminal none .running cwd
  | .terminal _ status cwd => .terminal none status cwd
  | kind => kind

def Tab.sanitize (t : Tab) : Tab :=
  { t with kind := t.kind.sanitize, notification := .none, lastActivityMs := none }

def Workspace.sanitize (ws : Workspace) : Workspace :=
  { ws.mapTabs Tab.sanitize with
    agentStatus := .idle, agentStatusSource := none, lastAgentMessage := none }

/-- The greatest stable id in use. -/
def maxUsedId (s : AppState) : UInt64 := s.ids.foldl max 0

/-- What a load repaired, for the log. -/
inductive Repair
  | removedTab (tab : RemovedUnknownTab)
  | nextId (found maxId repaired : UInt64)
deriving DecidableEq, Repr

inductive RestoreError
  | invariant (violation : AppViolation)
  | noNextId (maxId : UInt64)
deriving DecidableEq, Repr

/-- `sanitize`. The next id is kept when it is above every id in use and every
reserved one, and repaired otherwise. -/
def sanitize (s : AppState) (reservedMaxId : Option UInt64) :
    Except RestoreError (AppState × List Repair) :=
  let s := { s with workspaces := s.workspaces.map Workspace.sanitize }
  let maxId := max (maxUsedId s) (reservedMaxId.getD 0)
  if s.nextId ≤ maxId then
    match checkedAdd maxId 1 with
    | some nextId => .ok ({ s with nextId }, [.nextId s.nextId maxId nextId])
    | none => .error (.noNextId maxId)
  else .ok (s, [])

/-- The typed half of `load`: `removed` are the tabs whose unknown kind was
replaced by a placeholder before the state was deserialised. -/
def restore (persisted : AppState) (removed : List RemovedUnknownTab) :
    Except RestoreError (AppState × List Repair) := do
  (validateApp persisted).mapError .invariant
  let s := removeUnknownTabs persisted removed
  (validateApp s).mapError .invariant
  let sanitized ← sanitize s (removed.map RemovedUnknownTab.id).max?
  pure (sanitized.1, removed.map .removedTab ++ sanitized.2)

end Mast
