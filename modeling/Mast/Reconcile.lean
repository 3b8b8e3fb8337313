import Mast.Lib.Past
import Mast.Model

/-!
# Views and snapshots

`view-reconcile.ts` plans which views live on and which sessions are detached, from the views
that are alive and a snapshot; `workspace-view.ts` carries the plans out. A terminal view lives
on behind other tabs; a viewer is there only while its tab is in front. The calls to the host
are kept, newest first.
-/

namespace Mast

/-! ## The plans -/

/-- A terminal tab that is in front in its pane. -/
structure VisibleView where
  pane : PaneId
  tab : TabId
  session : SessionId
deriving DecidableEq, Repr

structure ViewSyncPlan where
  dispose : List TabId
  detachSessions : List SessionId
  visible : List VisibleView
deriving DecidableEq, Repr

/-- The active workspace of a snapshot. -/
def AppState.shown? (s : AppState) : Option Workspace :=
  s.workspaces.find? fun ws => s.activeWorkspace = some ws.id

/-- The tabs of the active workspace. -/
def AppState.shownTabs (s : AppState) : List Tab := s.shown?.elim [] Workspace.tabs

/-- The panes of the active workspace. -/
def AppState.shownPanes (s : AppState) : List Pane := s.shown?.elim [] fun ws => ws.panes.values

/-- A view of the tab may stay: it is no terminal, or has its session. -/
def TabKind.keepsAlive : TabKind → Bool
  | .terminal none _ _ => false
  | _ => true

def Pane.visibleViews (p : Pane) : List VisibleView :=
  p.tabs.filterMap fun t =>
    if p.activeTab = some t.id then t.session.map fun session => ⟨p.id, t.id, session⟩ else none

def planViewSync (aliveTabIds : List TabId) (snapshot : AppState) : ViewSyncPlan :=
  let visible := snapshot.shownPanes.flatMap Pane.visibleViews
  let keepAliveTabs := (snapshot.shownTabs.filter fun t => t.kind.keepsAlive).map Tab.id
  { dispose := aliveTabIds.filter fun tab => tab ∉ keepAliveTabs
    detachSessions := snapshot.tabs.filterMap fun t =>
      if t.id ∈ aliveTabIds ∨ t.id ∈ visible.map VisibleView.tab then none else t.session
    visible }

/-- `existingTabIds` -/
def AppState.existingTabIds (s : AppState) : List TabId := s.tabs.map Tab.id

structure VisibleViewer where
  pane : PaneId
  tab : TabId
  kind : TabKind
deriving DecidableEq, Repr

structure ViewerDispose where
  tab : TabId
  tabExists : Bool
deriving DecidableEq, Repr

structure ViewerSyncPlan where
  mount : List VisibleViewer
  dispose : List ViewerDispose
deriving DecidableEq, Repr

/-- A terminal without a session whose shell has ended. -/
def TabKind.isTerminalRecord : TabKind → Bool
  | .terminal none (.exited _ _) _ => true
  | _ => false

def TabKind.isTerminal : TabKind → Bool
  | .terminal _ _ _ => true
  | _ => false

/-- What a viewer shows: the tab of a viewer, or the record of a terminal. -/
def TabKind.viewerKind (kind : TabKind) : Option TabKind :=
  if !kind.isTerminal then some kind
  else if kind.isTerminalRecord then some kind
  else none

def Pane.visibleViewers (p : Pane) : List VisibleViewer :=
  p.tabs.filterMap fun t =>
    if p.activeTab = some t.id then t.kind.viewerKind.map fun kind => ⟨p.id, t.id, kind⟩ else none

def planViewerSync (aliveViewerTabs : List TabId) (snapshot : AppState) : ViewerSyncPlan :=
  let mount := snapshot.shownPanes.flatMap Pane.visibleViewers
  { mount
    dispose := (aliveViewerTabs.filter fun tab => tab ∉ mount.map VisibleViewer.tab).map fun tab =>
      ⟨tab, decide (tab ∈ snapshot.existingTabIds)⟩ }

/-! ## The views -/

/-- A call about the output channel of a session. -/
inductive ChannelCall
  | attach (session : SessionId)
  | detach (session : SessionId)
deriving DecidableEq, Repr

/-- `structureKey`: the layout without its ratios. The source has it written out as a text. -/
inductive StructureKey
  | leaf (pane : PaneId)
  | split (id : SplitId) (direction : SplitDirection) (first second : StructureKey)
deriving DecidableEq, Repr

def SplitTree.structureKey : SplitTree → StructureKey
  | leaf pane => .leaf pane
  | split id direction _ first second => .split id direction first.structureKey second.structureKey

/-- The registries of `workspace-view.ts`. A terminal view is attached to one session. -/
structure WorkspaceView where
  views : List (TabId × SessionId)
  viewerViews : List TabId
  sweptSessions : List SessionId
  paneViews : List PaneId
  lastKey : Option StructureKey
  lastSnapshot : Option AppState
  calls : List ChannelCall
deriving DecidableEq

namespace WorkspaceView

def init : WorkspaceView :=
  { views := [], viewerViews := [], sweptSessions := [], paneViews := [], lastKey := none,
    lastSnapshot := none, calls := [] }

def aliveTabs (v : WorkspaceView) : List TabId := v.views.map Prod.fst

/-- `views.get` -/
def viewOf (v : WorkspaceView) (tab : TabId) : Option SessionId :=
  (v.views.find? fun e => e.1 = tab).map Prod.snd

/-- `dispose` of the view of a tab: it detaches its session. -/
def disposeView (v : WorkspaceView) (tab : TabId) : WorkspaceView :=
  match v.viewOf tab with
  | none => v
  | some session => { v with
      views := v.views.filter fun e => e.1 ≠ tab
      calls := .detach session :: v.calls }

/-- The sweep: a session that the last one had is not detached again. -/
def sweep (v : WorkspaceView) (detachSessions : List SessionId) : WorkspaceView :=
  { v with
    calls := ((detachSessions.filter fun session => session ∉ v.sweptSessions).map
      ChannelCall.detach).reverse ++ v.calls
    sweptSessions := detachSessions }

def disposeViewers (v : WorkspaceView) (dispose : List ViewerDispose) : WorkspaceView :=
  { v with viewerViews := v.viewerViews.filter fun tab => tab ∉ dispose.map ViewerDispose.tab }

/-- A new view, attached to the session. -/
def createView (v : WorkspaceView) (tab : TabId) (session : SessionId) : WorkspaceView :=
  { v with views := v.views ++ [(tab, session)], calls := .attach session :: v.calls }

def ensureView (v : WorkspaceView) (tab : TabId) (session : SessionId) : WorkspaceView :=
  match v.viewOf tab with
  | none => v.createView tab session
  | some existing =>
    if existing = session then v else (v.disposeView tab).createView tab session

def ensureViewerView (v : WorkspaceView) (tab : TabId) : WorkspaceView :=
  if tab ∈ v.viewerViews then v else { v with viewerViews := v.viewerViews ++ [tab] }

/-- `update` of a pane view: the terminal in front, or else the viewer. -/
def updatePane (ws : Workspace) (visible : List VisibleView) (mount : List VisibleViewer)
    (v : WorkspaceView) (pane : PaneId) : WorkspaceView :=
  if ¬ ws.panes.contains pane then v
  else
    match (visible.filter fun e => e.pane = pane).getLast? with
    | some e => v.ensureView e.tab e.session
    | none =>
      match (mount.filter fun e => e.pane = pane).getLast? with
      | some e => v.ensureViewerView e.tab
      | none => v

/-- The pane views are those of the leaves. -/
def rebuild (v : WorkspaceView) (layout : SplitTree) : WorkspaceView :=
  let keep := v.paneViews.filter fun pane => pane ∈ layout.leaves
  { v with
    paneViews := layout.leaves.foldl
      (fun panes pane => if pane ∈ panes then panes else panes ++ [pane]) keep }

def syncStructure (v : WorkspaceView) (layout : SplitTree) : WorkspaceView :=
  if v.lastKey = some layout.structureKey then v
  else { v.rebuild layout with lastKey := some layout.structureKey }

def clear (v : WorkspaceView) : WorkspaceView := { v with paneViews := [], lastKey := none }

/-- The first half of `render`: what is not kept is disposed. -/
def reconcile (v : WorkspaceView) (snapshot : AppState) : WorkspaceView :=
  let plan := planViewSync v.aliveTabs snapshot
  let viewerPlan := planViewerSync v.viewerViews snapshot
  let v := { v with lastSnapshot := some snapshot }
  ((plan.dispose.foldl disposeView v).sweep plan.detachSessions).disposeViewers viewerPlan.dispose

/-- A snapshot arrives. -/
def render (v : WorkspaceView) (snapshot : AppState) : WorkspaceView :=
  let plan := planViewSync v.aliveTabs snapshot
  let viewerPlan := planViewerSync v.viewerViews snapshot
  match snapshot.shown? with
  | none => (v.reconcile snapshot).clear
  | some ws =>
    let v := (v.reconcile snapshot).syncStructure ws.layout
    v.paneViews.foldl (updatePane ws plan.visible viewerPlan.mount) v

end WorkspaceView

end Mast
