import Mast.Diff
import Mast.Git.Reader
import Mast.Lib.Machine
import Mast.Lib.Requests
import Mast.Model

/-!
# The view of a repository's changes

`changes-view.ts` and `diff-presentation-view.ts`: a list of the files that git reports as changed,
and the diff of the selected one. The status and the diffs are answered late and in any order; each
answer is dropped unless it is the one to the last request.

The page is kept element by element, as the code writes it. What git answers is up to the system.
-/

namespace Mast

/-! ## Changes -/

def changeMatchesScope (change : GitChange) : GitScope → Bool
  | .working => change.untracked || change.worktreeStatus != "."
  | .staged => !change.untracked && change.indexStatus != "."
  | .all => true

/-- An entry of a status, told from an equal one by its place. -/
abbrev ListedChange := GitChange × Nat

def filterGitChanges (entries : List GitChange) (scope : GitScope) : List ListedChange :=
  entries.zipIdx.filter fun entry => changeMatchesScope entry.1 scope

/-- `gitChangeKey`, which writes this pair as a text. -/
abbrev ChangeKey := String × Bool

def gitChangeKey (change : GitChange) : ChangeKey := (change.path, change.untracked)

def gitDiffSource (change : GitChange) (scope : GitScope) : Option String :=
  let status := if scope = .working then change.worktreeStatus else change.indexStatus
  if scope = .all ∨ status = "R" ∨ status = "C" then change.originalPath else none

def gitChangeLabel (change : GitChange) : String :=
  match change.originalPath with
  | some original =>
    if original ≠ change.path then original ++ " → " ++ change.path else change.path
  | none => change.path

/-- What `loadDiff` asks for. -/
def gitDiffRequest (status : GitStatus) (scope : GitScope) (change : GitChange) :
    GitDiffRequest where
  root := status.root
  path := change.path
  originalPath := gitDiffSource change scope
  scope := scope
  untracked := change.untracked
  unborn := status.unborn

/-! ## The page -/

/-- A line that can be hidden, and marked as an error. -/
structure Notice where
  text : String
  hidden : Bool
  error : Bool
deriving DecidableEq, Repr

structure DiffSide where
  label : String
  runs : List Diff.DiffRun
deriving DecidableEq, Repr

/-- What `renderDiff` puts into its parent. -/
inductive DiffBlock
  | comparison (before after : DiffSide)
  | unified (runs : List Diff.DiffRun)
deriving DecidableEq, Repr

def beforeLabel (scope : GitScope) (untracked unborn : Bool) : String :=
  if untracked ∨ (unborn ∧ scope ≠ .working) then "Empty"
  else if scope = .working then "Index" else "HEAD"

def afterLabel (scope : GitScope) (untracked : Bool) : String :=
  if scope = .staged then "Index" else if untracked then "Untracked file" else "Working tree"

def renderDiff (diff : GitDiff) (scope : GitScope) (untracked unborn : Bool) :
    DiffBlock × Diff.DiffMode × Option String :=
  let presentation := Diff.presentDiff diff.text.toList diff.truncated
  let block := match presentation.mode with
    | .comparison => .comparison
        ⟨"Before · " ++ beforeLabel scope untracked unborn, presentation.before⟩
        ⟨"After · " ++ afterLabel scope untracked, presentation.after⟩
    | .unified => .unified presentation.unified
  (block, presentation.mode, presentation.notice)

structure DiffPane where
  header : String
  notice : Notice
  empty : String
  emptyHidden : Bool
  block : Option DiffBlock
  blockHidden : Bool
deriving DecidableEq, Repr

/-- A row of the list, and the entry that a click on it selects. -/
structure ChangeRow where
  key : ChangeKey
  selected : Bool
  label : String
  status : String
  entry : ListedChange
deriving DecidableEq, Repr

inductive ChangeList
  | empty (text : String)
  | files (rows : List ChangeRow)
deriving DecidableEq, Repr

/-- The marks of the rows, when another key is selected. -/
def ChangeList.mark (key : ChangeKey) : ChangeList → ChangeList
  | .empty text => .empty text
  | .files rows => .files (rows.map fun row => { row with selected := decide (row.key = key) })

structure ChangesPage where
  root : String
  /-- The filter button that is marked. -/
  pressed : GitScope
  refreshDisabled : Bool
  filtersDisabled : Bool
  notice : Notice
  count : String
  list : ChangeList
  pane : DiffPane
deriving DecidableEq, Repr

def selectFileText : String := "select a changed file to view its diff"

def countText (n : Nat) : String := toString n ++ " " ++ if n = 1 then "file" else "files"

def emptyDiffPane : DiffPane := ⟨"Diff", ⟨"", true, false⟩, selectFileText, false, none, true⟩

def changeRow (selected : Option ChangeKey) (entry : ListedChange) : ChangeRow where
  key := gitChangeKey entry.1
  selected := decide (some (gitChangeKey entry.1) = selected)
  label := gitChangeLabel entry.1
  status := entry.1.indexStatus ++ entry.1.worktreeStatus
  entry := entry

/-! ## The view -/

/-- A diff that is under way: the entry it is of, and what was asked. -/
structure DiffCall where
  change : GitChange
  request : GitDiffRequest
deriving DecidableEq, Repr

structure ChangesView where
  path : String
  scope : GitScope
  status : Option GitStatus
  statusError : Option String
  statusLoading : Bool
  selectedKey : Option ChangeKey
  selectedChange : Option ListedChange
  statusRequest : Requests String
  diffRequest : Requests DiffCall
  disposed : Bool
  page : ChangesPage

namespace ChangesView

variable (v : ChangesView)

def setStatusNotice (text : Option String) (error : Bool) : ChangesView :=
  { v with page.notice := ⟨text.getD "", text.isNone, error⟩ }

def updateControls : ChangesView :=
  { v with
    page.refreshDisabled := v.statusLoading
    page.filtersDisabled := v.statusLoading || v.status.isNone }

def updateFilterButtons : ChangesView := { v with page.pressed := v.scope }

/-- The entries of the list; without a status, there are none. -/
def listed : List ListedChange :=
  v.status.elim [] fun status => filterGitChanges status.entries v.scope

def emptyText : String :=
  if v.status = none then
    if v.statusLoading then "loading changes…"
    else if v.statusError = none then "no changes" else "changes unavailable"
  else "no changes"

def renderList : ChangesView :=
  { v with
    page.count := countText v.listed.length
    page.list := if v.listed = [] then .empty v.emptyText
      else .files (v.listed.map (changeRow v.selectedKey)) }

def clearSelection : ChangesView :=
  { v with
    selectedKey := none
    selectedChange := none
    diffRequest := v.diffRequest.cancel
    page.pane := { emptyDiffPane with notice.error := v.page.pane.notice.error } }

def clearDiffForStatusRefresh : ChangesView :=
  { v with
    page.pane := ⟨"Diff",
      ⟨if v.selectedKey = none then "" else "refreshing changes…", v.selectedKey.isNone, false⟩,
      selectFileText, v.selectedKey.isSome, none, true⟩ }

def loadDiff (change : GitChange) : ChangesView :=
  match v.status with
  | none => v
  | some status =>
    { v with
      diffRequest := v.diffRequest.issue ⟨change, gitDiffRequest status v.scope change⟩
      page.pane := ⟨"Diff", ⟨"loading diff…", false, false⟩, v.page.pane.empty, true, none, true⟩ }

def findVisibleChange : Option ChangeKey → Option ListedChange
  | none => none
  | some key => v.listed.find? fun entry => gitChangeKey entry.1 = key

/-- The body of `reconcileSelection`, and the end of `setScope`. -/
def reconcileSelection : ChangesView :=
  match v.findVisibleChange v.selectedKey with
  | none => v.clearSelection
  | some selected => { v with selectedChange := some selected }.loadDiff selected.1

def loadStatus : ChangesView :=
  { v with
    statusRequest := v.statusRequest.issue v.path
    diffRequest := v.diffRequest.cancel
    statusLoading := true
    status := none
    statusError := none
    page.root := v.path }
  |>.setStatusNotice (some "loading…") false
  |>.clearDiffForStatusRefresh |>.updateControls |>.renderList

/-- The constructor: the elements as they are made, and the first request. -/
def mount (kind : TabKind) : ChangesView :=
  let path := match kind with | .changesViewer path => path | _ => ""
  ({ path := path, scope := .all, status := none, statusError := none, statusLoading := false
     selectedKey := none, selectedChange := none, statusRequest := .none, diffRequest := .none
     disposed := false
     page := ⟨path, .all, false, false, ⟨"", true, false⟩, "", .files [], emptyDiffPane⟩ } :
      ChangesView)
  |>.updateFilterButtons |>.renderList |>.loadStatus

def update (kind : TabKind) : ChangesView :=
  match kind with
  | .changesViewer path =>
    if path = v.path then v
    else
      { v with path := path, page.root := path, scope := .all, statusError := none }
      |>.updateFilterButtons
      |> fun v => { v with status := none }
      |>.clearSelection |>.renderList |>.loadStatus
  | _ => v

def refresh : ChangesView := if v.disposed ∨ v.statusLoading then v else v.loadStatus

def setScope (scope : GitScope) : ChangesView :=
  if v.disposed ∨ v.statusLoading ∨ v.status = none ∨ scope = v.scope then v
  else
    { v with scope := scope }
    |>.updateFilterButtons |>.reconcileSelection |>.renderList

def selectChange (change : ListedChange) : ChangesView :=
  if v.disposed ∨ v.statusLoading ∨ v.status = none then v
  else
    let key := gitChangeKey change.1
    if some key = v.selectedKey ∧ v.selectedChange = some change then v
    else
      { v with
        selectedKey := some key
        selectedChange := some change
        page.list := v.page.list.mark key }
      |>.loadDiff change.1

/-- A click on a row of the list. -/
def click (i : Nat) : ChangesView :=
  match v.page.list with
  | .empty _ => v
  | .files rows =>
    match rows[i]? with
    | none => v
    | some row => v.selectChange row.entry

def dispose : ChangesView :=
  if v.disposed then v
  else { v with
    disposed := true
    statusRequest := v.statusRequest.cancel
    diffRequest := v.diffRequest.cancel }

/-! ### Answers -/

/-- The answer to the request of this number. -/
def statusAnswered (request : Nat) (result : Except String GitStatus) : ChangesView :=
  if v.disposed ∨ request ≠ v.statusRequest.last then v
  else
    match result with
    | .ok status =>
      { v with statusLoading := false, status := some status, statusError := none
               page.root := status.root }
      |>.reconcileSelection |>.renderList |>.updateControls
      |>.setStatusNotice
        (if status.truncated then some "status truncated — some changed files are not shown"
          else none) false
    | .error error =>
      { v with statusLoading := false, status := none, statusError := some error }
      |>.clearSelection |>.setStatusNotice (some ("cannot read git status: " ++ error)) true
      |>.updateControls |>.renderList

/-- The pane of a diff that has come. -/
def diffPane (scope : GitScope) (call : DiffCall) (diff : GitDiff) (pane : DiffPane) : DiffPane :=
  let (block, mode, notice) := renderDiff diff scope call.change.untracked call.request.unborn
  let notices := (if diff.truncated then ["diff truncated — showing the first 512 KiB"] else []) ++
    notice.toList
  { header := match mode with
      | .comparison => "Before / After · changed sections"
      | .unified => "Unified diff"
    notice := if notices = [] then ⟨"", true, pane.notice.error⟩
      else ⟨" · ".intercalate notices, false, false⟩
    empty := if diff.text = "" then "no diff for this file in this scope" else pane.empty
    emptyHidden := diff.text ≠ ""
    block := some block
    blockHidden := diff.text = "" }

def diffAnswered (request : Nat) (call : DiffCall) (result : Except String GitDiff) : ChangesView :=
  if v.disposed ∨ request ≠ v.diffRequest.last ∨
      v.selectedKey ≠ some (gitChangeKey call.change) then v
  else
    match result with
    | .ok diff => { v with page.pane := diffPane v.scope call diff v.page.pane }
    | .error error =>
      { v with page.pane := ⟨v.page.pane.header, ⟨"cannot read diff: " ++ error, false, true⟩,
        v.page.pane.empty, true, none, true⟩ }

end ChangesView

end Mast
