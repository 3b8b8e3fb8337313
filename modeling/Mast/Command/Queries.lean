import Mast.Command

/-!
# Queries

`command/queries.rs`: where a tab or a session is, and the targets an agent may
send text to. An agent sees its own workspace only.
-/

namespace Mast

/-! ## Positions -/

/-- The place of a tab: workspace index, pane key, tab index. -/
structure TabPos where
  ws : Nat
  pane : PaneId
  tab : Nat
deriving DecidableEq, Repr

namespace AppState

/-- The first tab, in workspace, pane and tab order, that passes a test. -/
def findTab (s : AppState) (p : Tab → Bool) : Option TabPos :=
  s.workspaces.zipIdx.findSome? fun (ws, wi) =>
    ws.panes.entries.findSome? fun (pid, pane) =>
      (pane.tabs.findIdx? p).map fun ti => ⟨wi, pid, ti⟩

def locateSession (s : AppState) (session : SessionId) : Option TabPos :=
  s.findTab fun t => t.session = some session

def locateTab (s : AppState) (tab : TabId) : Except CommandError TabPos :=
  match s.findTab fun t => t.id = tab with
  | some pos => .ok pos
  | none => .error (unknown "tab" tab.val)

def wsIndexOfPane (s : AppState) (pane : PaneId) : Except CommandError Nat :=
  match s.workspaces.findIdx? fun ws => ws.panes.contains pane with
  | some wi => .ok wi
  | none => .error (unknown "pane" pane.val)

/-- The workspace, pane and tab at a position. -/
def lookup (s : AppState) (pos : TabPos) : Option (Workspace × Pane × Tab) := do
  let ws ← s.workspaces[pos.ws]?
  let pane ← ws.panes.get? pos.pane
  let tab ← pane.tabs[pos.tab]?
  some (ws, pane, tab)

def workspaceIndexOfSession (s : AppState) (session : SessionId) : Option Nat :=
  (s.locateSession session).map TabPos.ws

end AppState

/-! ## Send targets -/

inductive SendTargetError
  | noMatch
  | ambiguous (count : Nat)
deriving DecidableEq, Repr

/-- The tab id of a `#<decimal u64>` target. -/
def parseTabIdTarget (target : String) : Option TabId :=
  match target.toList with
  | '#' :: digits =>
    if digits ≠ [] ∧ digits.all Char.isDigit then
      let n := Nat.ofDigitChars 10 digits 0
      if n < 2 ^ 64 then some ⟨UInt64.ofNat n⟩ else none
    else none
  | _ => none

/-- The session of a running terminal tab. -/
def Tab.runningSession (t : Tab) : Option SessionId :=
  match t.kind with
  | .terminal (some session) .running _ => some session
  | _ => none

namespace Workspace

def resolveSendTargetById (ws : Workspace) (sender : SessionId) (target : TabId) :
    Except SendTargetError SessionId :=
  match ws.tabs.find? fun t => t.id = target with
  | some t =>
    match t.runningSession with
    | some session => if session = sender then .error .noMatch else .ok session
    | none => .error .noMatch
  | none => .error .noMatch

/-- The sessions other than the sender's, of running terminal tabs, whose tab
title contains the needle. `lower` is Unicode lowercasing. -/
def titleMatches (lower : String → String) (ws : Workspace) (sender : SessionId)
    (needle : String) : List SessionId :=
  ws.tabs.filterMap fun t =>
    match t.runningSession with
    | some session =>
      if session = sender ∨ ¬ needle.toList <:+: (lower t.title).toList then none
      else some session
    | none => none

def resolveSendTargetByTitle (lower : String → String) (ws : Workspace) (sender : SessionId)
    (target : String) : Except SendTargetError SessionId :=
  match ws.titleMatches lower sender (lower target) with
  | [] => .error .noMatch
  | [session] => .ok session
  | sessions => .error (.ambiguous sessions.length)

end Workspace

/-- `resolve_send_target`: the one session that a target names in the sender's
workspace. -/
def AppState.resolveSendTarget (lower : String → String) (s : AppState) (sender : SessionId)
    (target : String) : Except SendTargetError SessionId :=
  match (s.workspaceIndexOfSession sender).bind fun wi => s.workspaces[wi]? with
  | none => .error .noMatch
  | some ws =>
    match parseTabIdTarget target with
    | some tab => ws.resolveSendTargetById sender tab
    | none => ws.resolveSendTargetByTitle lower sender target

/-! ## Listing -/

/-- One entry of `list_tabs`, as agents read it. -/
structure TabInfo where
  tab : UInt64
  title : String
  workspaceId : UInt64
  workspaceName : String
  pane : UInt64
  active : Bool
  kind : String
  status : String
deriving DecidableEq, Repr

def TabKind.describe : TabKind → String × String
  | .terminal _ .running _ => ("terminal", "running")
  | .terminal _ (.exited ..) _ => ("terminal", "exited")
  | .terminal _ .notStarted _ => ("terminal", "not-started")
  | .folderBrowser _ => ("folderBrowser", "viewer")
  | .changesViewer _ => ("changesViewer", "viewer")
  | .textViewer .. => ("textViewer", "viewer")
  | .markdownViewer .. => ("markdownViewer", "viewer")

def Workspace.listTabs (ws : Workspace) : List TabInfo :=
  ws.panes.values.flatMap fun pane => pane.tabs.map fun tab =>
    { tab := tab.id.val
      title := tab.title
      workspaceId := ws.id.val
      workspaceName := ws.name
      pane := pane.id.val
      active := pane.activeTab = some tab.id
      kind := tab.kind.describe.1
      status := tab.kind.describe.2 }

def AppState.listTabs (s : AppState) (requester : SessionId) : List TabInfo :=
  match (s.workspaceIndexOfSession requester).bind fun wi => s.workspaces[wi]? with
  | none => []
  | some ws => ws.listTabs

end Mast
