import Mast.Lib.Binary64
import Mast.Lib.OrdMap

/-!
# The application state

The state tree of `model.rs`: an `AppState` owns workspaces, a workspace owns a
split tree and its panes, a pane owns its tabs. Stable ids of every kind come
from the one counter `nextId`. The fixed-width integers of the source keep
their width, and an addition that overflows is a panic (`checkedAdd`): a call
that returns has not wrapped a counter.

`Workspace.validate` is the check of the source; `Workspace.Valid` is the same
condition as a proposition (`validate_eq_ok_iff`).
-/

instance instLinearOrderUInt64 : LinearOrder UInt64 where
  le_refl := UInt64.le_refl
  le_trans _ _ _ := UInt64.le_trans
  le_antisymm _ _ := UInt64.le_antisymm
  le_total := UInt64.le_total
  lt_iff_le_not_ge _ _ := by grind
  toDecidableLE := inferInstance

instance instLinearOrderUInt32 : LinearOrder UInt32 where
  le_refl := UInt32.le_refl
  le_trans _ _ _ := UInt32.le_trans
  le_antisymm _ _ := UInt32.le_antisymm
  le_total := UInt32.le_total
  lt_iff_le_not_ge _ _ := by grind
  toDecidableLE := inferInstance

namespace Mast

/-! ## Ids -/

/-- The volatile id of a PTY session. -/
abbrev SessionId := UInt32

/-- The stable id of a workspace. -/
structure WorkspaceId where
  val : UInt64
deriving DecidableEq, Repr

/-- The stable id of a pane. -/
structure PaneId where
  val : UInt64
deriving DecidableEq, Repr

/-- The stable id of a tab. -/
structure TabId where
  val : UInt64
deriving DecidableEq, Repr

/-- The stable id of a split node. -/
structure SplitId where
  val : UInt64
deriving DecidableEq, Repr

instance : LinearOrder PaneId :=
  LinearOrder.lift' PaneId.val fun a b h => by cases a; cases b; exact congrArg _ h

/-! ## Data types -/

inductive AgentStatus
  | running
  | needsInput
  | idle
deriving DecidableEq, Repr

inductive NotificationState
  | none
  | unread
deriving DecidableEq, Repr

inductive SplitDirection
  | horizontal
  | vertical
deriving DecidableEq, Repr

inductive TerminalStatus
  | running
  | exited (code : Option UInt32) (endedAtMs : Option UInt64)
  | notStarted
deriving DecidableEq, Repr

inductive TabKind
  | terminal (ptySession : Option SessionId) (status : TerminalStatus) (cwd : Option String)
  | folderBrowser (path : String)
  | changesViewer (path : String)
  | textViewer (path : String) (scrollTop : F64)
  | markdownViewer (path : String) (scrollTop : F64)
deriving DecidableEq, Repr

structure Tab where
  id : TabId
  title : String
  kind : TabKind
  notification : NotificationState
  lastActivityMs : Option UInt64
deriving DecidableEq, Repr

structure Pane where
  id : PaneId
  tabs : List Tab
  activeTab : Option TabId
deriving DecidableEq, Repr

inductive SplitTree
  | leaf (pane : PaneId)
  | split (id : SplitId) (direction : SplitDirection) (ratio : F64) (first second : SplitTree)
deriving DecidableEq, Repr

structure Workspace where
  id : WorkspaceId
  name : String
  rootPath : Option String
  distro : Option String
  gitBranch : Option String
  gitDirty : Option Bool
  layout : SplitTree
  panes : OrdMap PaneId Pane
  activePane : PaneId
  agentStatus : AgentStatus
  lastAgentMessage : Option String
  agentStatusSource : Option TabId
deriving DecidableEq

structure AppState where
  workspaces : List Workspace
  activeWorkspace : Option WorkspaceId
  nextId : UInt64
  revision : UInt64
deriving DecidableEq

/-! ## The counters -/

/-- The sum of two 64-bit counters, if it fits. -/
def checkedAdd (a b : UInt64) : Option UInt64 :=
  if a.toNat + b.toNat < 2 ^ 64 then some (a + b) else none

theorem checkedAdd_eq_some {a b c : UInt64} :
    checkedAdd a b = some c ↔ c.toNat = a.toNat + b.toNat := by
  unfold checkedAdd
  split
  next h =>
    rw [Option.some_inj, ← UInt64.toNat_inj, UInt64.toNat_add, Nat.mod_eq_of_lt h]
    exact eq_comm
  next h =>
    have hc := c.toNat_lt
    simp only [reduceCtorEq, false_iff]
    omega

namespace AppState

def new : AppState := { workspaces := [], activeWorkspace := none, nextId := 1, revision := 0 }

/-- `alloc_id`: the next id, and the state with the counter moved on. -/
def allocId (s : AppState) : Option (UInt64 × AppState) :=
  (checkedAdd s.nextId 1).map fun nextId => (s.nextId, { s with nextId })

/-- `peek_id`: the id that the allocation after `offset` others will return. -/
def peekId (s : AppState) (offset : UInt64) : Option UInt64 := checkedAdd s.nextId offset

/-- `revision += 1`. -/
def bumpRevision (s : AppState) : Option AppState :=
  (checkedAdd s.revision 1).map fun revision => { s with revision }

def workspace (s : AppState) (id : WorkspaceId) : Option Workspace :=
  s.workspaces.find? fun ws => ws.id = id

end AppState

/-! ## The split tree -/

namespace SplitTree

/-- Replace the leaf `target` by a split of it and `newPane`; the flag says
whether the leaf was found. -/
def splitLeaf (target : PaneId) (direction : SplitDirection) (newPane : PaneId)
    (splitId : SplitId) : SplitTree → SplitTree × Bool
  | leaf pane =>
    if pane = target then
      (split splitId direction F64.half (leaf target) (leaf newPane), true)
    else (leaf pane, false)
  | split id d ratio first second =>
    let (first', found) := splitLeaf target direction newPane splitId first
    if found then (split id d ratio first' second, true)
    else
      let (second', found) := splitLeaf target direction newPane splitId second
      (split id d ratio first' second', found)

/-- Set the ratio of the split `target`; the flag says whether it was found. -/
def setRatio (target : SplitId) (ratio : F64) : SplitTree → SplitTree × Bool
  | leaf pane => (leaf pane, false)
  | split id d r first second =>
    if id = target then (split id d ratio first second, true)
    else
      let (first', found) := setRatio target ratio first
      if found then (split id d r first' second, true)
      else
        let (second', found) := setRatio target ratio second
        (split id d r first' second', found)

/-- Remove the leaf `target` and promote its sibling to the place of their
parent. A tree that is one leaf keeps it. -/
def remove (target : PaneId) : SplitTree → SplitTree × Bool
  | leaf pane => (leaf pane, false)
  | split id d ratio first second =>
    if first = leaf target then (second, true)
    else if second = leaf target then (first, true)
    else
      let (first', found) := remove target first
      if found then (split id d ratio first' second, true)
      else
        let (second', found) := remove target second
        (split id d ratio first' second', found)

/-- The leaves from left to right. -/
def leaves : SplitTree → List PaneId
  | leaf pane => [pane]
  | split _ _ _ first second => first.leaves ++ second.leaves

/-- The ids of the split nodes, parents first. -/
def splitIds : SplitTree → List SplitId
  | leaf _ => []
  | split id _ _ first second => id :: (first.splitIds ++ second.splitIds)

/-- The test of `validate_ratios` on one ratio. -/
def ratioInvalid (ratio : F64) : Bool :=
  !ratio.isFinite || ratio.le F64.zero || F64.one.le ratio

/-- The first split, parents first, whose ratio is not finite and strictly
between 0 and 1. -/
def validateRatios : SplitTree → Except (SplitId × F64) Unit
  | leaf _ => .ok ()
  | split id _ ratio first second =>
    if ratioInvalid ratio then .error (id, ratio)
    else do
      validateRatios first
      validateRatios second

end SplitTree

/-! ## Tabs and ids of a workspace -/

namespace Workspace

/-- Change every tab. -/
def mapTabs (f : Tab → Tab) (ws : Workspace) : Workspace :=
  { ws with panes := ws.panes.mapValues fun pane => { pane with tabs := pane.tabs.map f } }

/-- Change the tab at a pane and an index. -/
def modifyTab (pane : PaneId) (ti : Nat) (f : Tab → Tab) (ws : Workspace) : Workspace :=
  { ws with panes := ws.panes.modify pane fun p => { p with tabs := p.tabs.modify ti f } }

/-- Every tab of the workspace, in pane order. -/
def tabs (ws : Workspace) : List Tab := ws.panes.values.flatMap Pane.tabs

/-- Every stable id of the workspace, in the order `validate_app` claims them. -/
def ids (ws : Workspace) : List UInt64 :=
  ws.id.val :: (ws.layout.splitIds.map SplitId.val ++
    ws.panes.entries.flatMap fun e => e.1.val :: e.2.tabs.map fun t => t.id.val)

end Workspace

namespace AppState

/-- Every tab of the state. -/
def tabs (s : AppState) : List Tab := s.workspaces.flatMap Workspace.tabs

/-- Every stable id of the state. -/
def ids (s : AppState) : List UInt64 := s.workspaces.flatMap Workspace.ids

end AppState

/-- The PTY session a tab holds. -/
def Tab.session (t : Tab) : Option SessionId :=
  match t.kind with
  | .terminal ptySession _ _ => ptySession
  | _ => none

/-! ## Validation -/

/-- What `Workspace::validate` finds wrong. -/
inductive Violation
  | duplicateLeaf (ws : WorkspaceId)
  | duplicateSplit (ws : WorkspaceId)
  | ratio (ws : WorkspaceId) (split : SplitId) (ratio : F64)
  | leavesNotPanes (ws : WorkspaceId) (leaves keys : List PaneId)
  | activePane (ws : WorkspaceId) (pane : PaneId)
  | activeTab (pane : PaneId) (tab : TabId)
deriving DecidableEq, Repr

namespace Workspace

/-- The first pane, in key order, whose active tab is not one of its tabs. -/
def validateActiveTabs : List Pane → Except Violation Unit
  | [] => .ok ()
  | pane :: rest =>
    match pane.activeTab with
    | some tab =>
      if pane.tabs.any fun t => t.id = tab then validateActiveTabs rest
      else .error (.activeTab pane.id tab)
    | none => validateActiveTabs rest

/-- `Workspace::validate`: the structural check, first violation first. -/
def validate (ws : Workspace) : Except Violation Unit :=
  let leaves := ws.layout.leaves
  if ¬ leaves.Nodup then .error (.duplicateLeaf ws.id)
  else if ¬ ws.layout.splitIds.Nodup then .error (.duplicateSplit ws.id)
  else match ws.layout.validateRatios with
    | .error (split, ratio) => .error (.ratio ws.id split ratio)
    | .ok () =>
      if ¬ (leaves ⊆ ws.panes.keys ∧ ws.panes.keys ⊆ leaves) then
        .error (.leavesNotPanes ws.id leaves ws.panes.keys)
      else if ¬ ws.panes.contains ws.activePane then .error (.activePane ws.id ws.activePane)
      else validateActiveTabs ws.panes.values

end Workspace

end Mast
