import Mast.Command.Tabs
import Mast.Command.Events

/-!
# Structure commands

`command/mutations.rs`: one method for each command. Every method checks its
values and its target and prepares its tab before it changes the state. The
changes themselves are functions on a pane, a workspace or the state.
-/

namespace Mast

/-! ## Changes of a pane -/

def emptyPane (id : PaneId) : Pane := { id, tabs := [], activeTab := none }

/-- The unread dot goes out. -/
def Tab.markRead (t : Tab) : Tab := { t with notification := .none }

namespace Pane

/-- Append a tab and show it. -/
def pushActive (tab : Tab) (p : Pane) : Pane :=
  { p with tabs := p.tabs ++ [tab], activeTab := some tab.id }

/-- Clear the unread dot of the active tab. -/
def clearActiveUnread (p : Pane) : Pane :=
  match p.activeTab with
  | some active =>
    { p with tabs := p.tabs.modify (p.tabs.findIdx fun t => t.id = active) Tab.markRead }
  | none => p

/-- Show the tab at an index; becoming visible is being read. -/
def activateTab (ti : Nat) (tab : TabId) (p : Pane) : Pane :=
  { p with activeTab := some tab, tabs := p.tabs.modify ti Tab.markRead }

/-- Remove the tab at an index. An active tab hands over to the one before it,
or to the next when it was the first. `shown`: the workspace is on screen. -/
def closeTab (shown : Bool) (ti : Nat) (tab : TabId) (p : Pane) : Pane :=
  let tabs := p.tabs.eraseIdx ti
  if p.activeTab = some tab then
    let promoted := { p with tabs, activeTab := tabs[ti - 1]?.map Tab.id }
    if shown then promoted.clearActiveUnread else promoted
  else { p with tabs }

end Pane

/-- A new pane, with the tab it is created with. -/
def initialPane (id : PaneId) : Option Tab → Pane
  | some tab => (emptyPane id).pushActive tab
  | none => emptyPane id

/-! ## Changes of a workspace -/

namespace Workspace

def create (id : WorkspaceId) (name : String) (rootPath distro : Option String) (pane : PaneId)
    (tab : Option Tab) : Workspace :=
  { id, name, rootPath, distro, gitBranch := none, gitDirty := none, layout := .leaf pane,
    panes := OrdMap.singleton pane (initialPane pane tab), activePane := pane,
    agentStatus := .idle, lastAgentMessage := none, agentStatusSource := none }

/-- Becoming visible is being read: clear the dots of every pane's active tab. -/
def clearVisibleUnread (ws : Workspace) : Workspace :=
  { ws with panes := ws.panes.mapValues Pane.clearActiveUnread }

def splitPane (pane : PaneId) (direction : SplitDirection) (newPane : PaneId) (splitId : SplitId)
    (tab : Option Tab) (ws : Workspace) : Workspace :=
  { ws with
    layout := (ws.layout.splitLeaf pane direction newPane splitId).1
    panes := ws.panes.insert newPane (initialPane newPane tab)
    activePane := newPane }

def addTab (pane : PaneId) (tab : Tab) (ws : Workspace) : Workspace :=
  { ws with panes := ws.panes.modify pane (Pane.pushActive tab) }

def activateTab (pane : PaneId) (ti : Nat) (tab : TabId) (ws : Workspace) : Workspace :=
  { ws with panes := ws.panes.modify pane (Pane.activateTab ti tab) }

/-- `collapse_pane`: take a pane out of the map and the tree. An active pane
hands over to the first leaf. `none` is a panic: the pane is not there. -/
def collapsePane (pane : PaneId) (ws : Workspace) : Option (Pane × Workspace) :=
  let layout := (ws.layout.remove pane).1
  let active := if ws.activePane = pane then layout.leaves.head? else some ws.activePane
  match ws.panes.get? pane, active with
  | some removed, some activePane =>
    some (removed, { ws with panes := ws.panes.erase pane, layout, activePane })
  | _, _ => none

/-- Close a pane; each of its tabs takes its status report with it. -/
def closePane (pane : PaneId) (ws : Workspace) : Option (Pane × Workspace) :=
  (ws.collapsePane pane).map fun closed =>
    (closed.1, closed.2.resetAll (closed.1.tabs.map Tab.id))

/-- Close the tab at a pane and an index. A pane that this empties is collapsed,
unless it is the last one of the workspace. -/
def closeTab (shown : Bool) (pane : PaneId) (ti : Nat) (tab : TabId) (ws : Workspace) :
    Option Workspace :=
  let ws := { ws with panes := ws.panes.modify pane (Pane.closeTab shown ti tab) }
  let emptied := (ws.panes.get? pane).any fun p => p.tabs.isEmpty
  let collapsed := if emptied && 1 < ws.panes.size then (ws.collapsePane pane).map Prod.snd
    else some ws
  collapsed.map (resetAgentSource tab)

end Workspace

/-! ## Changes of the state -/

namespace AppState

def wsIndex (s : AppState) (workspace : WorkspaceId) : Except CommandError Nat :=
  match s.workspaces.findIdx? fun ws => ws.id = workspace with
  | some wi => .ok wi
  | none => .error (unknown "workspace" workspace.val)

/-- The rest of CloseWorkspace: when the closed workspace was the active one,
the first that is left becomes active, and visible. -/
def fallBack (workspace : WorkspaceId) (s : AppState) : AppState :=
  if s.activeWorkspace = some workspace then
    { s with
      activeWorkspace := s.workspaces.head?.map Workspace.id
      workspaces := s.workspaces.modify 0 Workspace.clearVisibleUnread }
  else s

/-- The place before which a workspace is inserted in the list it was taken
from. `none` is a panic: the target is not there. -/
def insertionPoint (rest : List Workspace) : Option WorkspaceId → Option Nat
  | none => some rest.length
  | some target => rest.findIdx? fun ws => ws.id = target

/-- Set the ratio in the first workspace that has the split. -/
def setFirstRatio (split : SplitId) (ratio : F64) : List Workspace → List Workspace × Bool
  | [] => ([], false)
  | ws :: rest =>
    let (layout, found) := ws.layout.setRatio split ratio
    let ws := { ws with layout }
    if found then (ws :: rest, true)
    else
      let (rest, found) := setFirstRatio split ratio rest
      (ws :: rest, found)

end AppState

/-! ## Checks of values -/

/-- A workspace root lies in the WSL file system. -/
def checkRoot : Option String → Except CommandError Unit
  | some path =>
    if path = "/mnt" ∨ "/mnt/".toList <+: path.toList then
      .error (.invalidPath (.underMnt path))
    else .ok ()
  | none => .ok ()

def checkName (name : String) : Except CommandError Unit :=
  if name.toList.all Utf8.isWhiteSpace then
    .error (.invalidName "workspace name must not be empty or whitespace only")
  else .ok ()

def checkRatio (ratio : F64) : Except CommandError Unit :=
  if ratio.isFinite && F64.zero.lt ratio && ratio.lt F64.one then .ok ()
  else .error (.invalidRatio ratio)

def checkScroll (scrollTop : F64) : Except CommandError Unit :=
  if scrollTop.isFinite && F64.zero.le scrollTop then .ok ()
  else .error (.invalidScroll scrollTop)

/-! ## Changes of a viewer tab -/

namespace TabKind

/-- A folder browser at another path. -/
def navigate (path : String) : TabKind → Option TabKind
  | .folderBrowser _ => some (.folderBrowser path)
  | _ => none

/-- A viewer at another scroll position. -/
def scroll (scrollTop : F64) : TabKind → Option TabKind
  | .textViewer path _ => some (.textViewer path scrollTop)
  | .markdownViewer path _ => some (.markdownViewer path scrollTop)
  | _ => none

/-- The changed kind of a tab of the right kind. -/
def orMismatch (tab : TabId) : Option TabKind → Except CommandError TabKind
  | some kind => .ok kind
  | none => .error (.kindMismatch tab)

end TabKind

/-! ## The commands -/

namespace Dispatcher

open Method

/-- Give a prepared tab its id. -/
def placeTab (prepared : PreparedTab) : Method Tab := do
  let id ← allocId
  pure (prepared.intoTab ⟨id⟩)

def placeOptional : Option PreparedTab → Method (Option Tab)
  | some prepared => do
    let tab ← placeTab prepared
    pure (some tab)
  | none => pure none

def createWorkspace (spawner : Spawner) (name : String) (rootPath distro : Option String)
    (tab : Option NewTab) : Method CommandOutput := do
  check (checkRoot rootPath)
  let historyTab ← peekId 2
  let prepared ← prepareOptional spawner rootPath distro tab historyTab
  let workspace ← allocId
  let pane ← allocId
  let placed ← placeOptional prepared
  mutate fun s => { s with
    workspaces := s.workspaces ++ [.create ⟨workspace⟩ name rootPath distro ⟨pane⟩ placed]
    activeWorkspace := some ⟨workspace⟩ }
  pure (.workspaceCreated ⟨workspace⟩ ⟨pane⟩ (placed.map Tab.id)
    (prepared.bind PreparedTab.session))

def switchWorkspace (workspace : WorkspaceId) : Method CommandOutput := do
  let wi ← find fun s => s.wsIndex workspace
  modifyWorkspace wi Workspace.clearVisibleUnread
  mutate fun s => { s with activeWorkspace := some workspace }
  pure .done

def closeWorkspace (workspace : WorkspaceId) : Method CommandOutput := do
  let wi ← find fun s => s.wsIndex workspace
  let removed ← expect fun s => s.workspaces[wi]?
  mutate fun s => { s with workspaces := s.workspaces.eraseIdx wi }
  tell (retireCalls removed.distro removed.tabs)
  mutate (AppState.fallBack workspace)
  pure .done

def renameWorkspace (workspace : WorkspaceId) (name : String) : Method CommandOutput := do
  check (checkName name)
  let wi ← find fun s => s.wsIndex workspace
  modifyWorkspace wi fun ws => { ws with name }
  pure .done

def moveWorkspace (workspace : WorkspaceId) (before : Option WorkspaceId) :
    Method CommandOutput := do
  let origin ← find fun s => s.wsIndex workspace
  if before = some workspace then pure .done
  else do
    find fun s => match before with
      | some target =>
        if s.workspaces.any fun ws => ws.id = target then .ok ()
        else .error (unknown "workspace" target.val)
      | none => .ok ()
    let moved ← expect fun s => s.workspaces[origin]?
    -- the place is looked up in the list without the moved workspace
    let at' ← expect fun s => AppState.insertionPoint (s.workspaces.eraseIdx origin) before
    mutate fun s => { s with workspaces := (s.workspaces.eraseIdx origin).insertIdx at' moved }
    pure .done

def focusPane (pane : PaneId) : Method CommandOutput := do
  let wi ← find fun s => s.wsIndexOfPane pane
  modifyWorkspace wi fun ws => { ws with activePane := pane }
  pure .done

def splitPane (spawner : Spawner) (pane : PaneId) (direction : SplitDirection)
    (tab : Option NewTab) : Method CommandOutput := do
  let wi ← find fun s => s.wsIndexOfPane pane
  let ws ← expect fun s => s.workspaces[wi]?
  let historyTab ← peekId 2
  let prepared ← prepareOptional spawner ws.rootPath ws.distro tab historyTab
  let newPane ← allocId
  let splitId ← allocId
  let placed ← placeOptional prepared
  modifyWorkspace wi (Workspace.splitPane pane direction ⟨newPane⟩ ⟨splitId⟩ placed)
  pure (.paneCreated ⟨newPane⟩ ⟨splitId⟩ (placed.map Tab.id) (prepared.bind PreparedTab.session))

def resizeSplit (split : SplitId) (ratio : F64) : Method CommandOutput := do
  check (checkRatio ratio)
  let found ← get fun s => (AppState.setFirstRatio split ratio s.workspaces).2
  mutate fun s => { s with workspaces := (AppState.setFirstRatio split ratio s.workspaces).1 }
  check (if found then .ok () else .error (unknown "split" split.val))
  pure .done

def closePane (pane : PaneId) : Method CommandOutput := do
  let wi ← find fun s => s.wsIndexOfPane pane
  let ws ← expect fun s => s.workspaces[wi]?
  check (if ws.panes.size ≤ 1 then .error .lastPane else .ok ())
  let closed ← expect fun _ => ws.closePane pane
  modifyWorkspace wi fun _ => closed.2
  tell (retireCalls ws.distro closed.1.tabs)
  pure .done

def createTab (spawner : Spawner) (pane : PaneId) (tab : NewTab) : Method CommandOutput := do
  let wi ← find fun s => s.wsIndexOfPane pane
  let ws ← expect fun s => s.workspaces[wi]?
  let historyTab ← peekId 0
  let prepared ← prepareTabWith spawner ws.rootPath ws.distro tab historyTab
  let placed ← placeTab prepared
  modifyWorkspace wi (Workspace.addTab pane placed)
  pure (.tabCreated placed.id prepared.session)

def activateTab (tab : TabId) : Method CommandOutput := do
  let pos ← find fun s => s.locateTab tab
  modifyWorkspace pos.ws (Workspace.activateTab pos.pane pos.tab tab)
  pure .done

def closeTab (tab : TabId) : Method CommandOutput := do
  let pos ← find fun s => s.locateTab tab
  let found ← expect fun s => s.lookup pos
  let closed ← expect fun s =>
    found.1.closeTab (s.activeWorkspace = some found.1.id) pos.pane pos.tab tab
  modifyWorkspace pos.ws fun _ => closed
  tell (retireCalls found.1.distro [found.2.2])
  pure .done

def navigateFolder (tab : TabId) (path : String) : Method CommandOutput := do
  check (validateViewerPath path)
  let pos ← find fun s => s.locateTab tab
  let found ← expect fun s => s.lookup pos
  let kind ← check (TabKind.orMismatch tab (found.2.2.kind.navigate path))
  modifyWorkspace pos.ws fun ws =>
    ws.modifyTab pos.pane pos.tab fun t => { t with kind, title := pathTitle path }
  pure .done

def setViewerScroll (tab : TabId) (scrollTop : F64) : Method CommandOutput := do
  check (checkScroll scrollTop)
  let pos ← find fun s => s.locateTab tab
  let found ← expect fun s => s.lookup pos
  let kind ← check (TabKind.orMismatch tab (found.2.2.kind.scroll scrollTop))
  modifyWorkspace pos.ws fun ws => ws.modifyTab pos.pane pos.tab fun t => { t with kind }
  pure .done

def execute (spawner : Spawner) : Command → Method CommandOutput
  | .createWorkspace name rootPath distro tab => createWorkspace spawner name rootPath distro tab
  | .switchWorkspace workspace => switchWorkspace workspace
  | .closeWorkspace workspace => closeWorkspace workspace
  | .renameWorkspace workspace name => renameWorkspace workspace name
  | .moveWorkspace workspace before => moveWorkspace workspace before
  | .focusPane pane => focusPane pane
  | .splitPane pane direction tab => splitPane spawner pane direction tab
  | .resizeSplit split ratio => resizeSplit split ratio
  | .closePane pane => closePane pane
  | .createTab pane tab => createTab spawner pane tab
  | .activateTab tab => activateTab tab
  | .closeTab tab => closeTab tab
  | .navigateFolder tab path => navigateFolder tab path
  | .setViewerScroll tab scrollTop => setViewerScroll tab scrollTop

/-- Run a command; the revision grows when it succeeds. -/
def dispatch (spawner : Spawner) (cmd : Command) : Method CommandOutput := do
  let out ← execute spawner cmd
  bumpRevision
  pure out

end Dispatcher

end Mast
