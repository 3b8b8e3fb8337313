import Mast.Changes

/-!
# What the view of changes shows

The view's own steps, and the answers of git in any order. What is on the screen is a function of
the path, the scope, the selection and the answers to the last requests: no answer to an earlier
one, and nothing of a former selection, is ever seen.

Results:
1. `sound_loadStatus`, `sound_statusAnswered_ok`, `sound_selectChange`, `sound_diffAnswered`: a step
   keeps the screen right.
2. `changes_shown`: the screen in every run.
-/

namespace Mast

/-! ## Runs -/

/-- What git answers to the requests, told apart by their numbers. -/
structure ChangesWorld where
  status : Nat → String → Except String GitStatus
  diff : Nat → GitDiffRequest → Except String GitDiff

namespace ChangesView

inductive Action
  | refresh
  | update (kind : TabKind)
  | setScope (scope : GitScope)
  | click (i : Nat)
  /-- One of the statuses under way is answered. -/
  | status (k : Nat)
  /-- One of the diffs under way is answered. -/
  | diff (k : Nat)
  | dispose

def step (w : ChangesWorld) (v : ChangesView) : Action → ChangesView
  | .refresh => v.refresh
  | .update kind => v.update kind
  | .setScope scope => v.setScope scope
  | .click i => v.click i
  | .status k =>
    match v.statusRequest.calls[k]? with
    | none => v
    | some (n, path) =>
      { v with statusRequest := v.statusRequest.take k }.statusAnswered n (w.status n path)
  | .diff k =>
    match v.diffRequest.calls[k]? with
    | none => v
    | some (n, call) =>
      { v with diffRequest := v.diffRequest.take k }.diffAnswered n call (w.diff n call.request)
  | .dispose => v.dispose

/-- A view is updated only while it is mounted. -/
def machine (w : ChangesWorld) : Machine ChangesView Action where
  step := step w
  admits v
    | .update _ => v.disposed = false
    | _ => True

def Start (v : ChangesView) : Prop := ∃ kind, v = mount kind

end ChangesView

/-! ## Screens -/

def Notice.shown (notice : Notice) : Option (String × Bool) :=
  if notice.hidden then none else some (notice.text, notice.error)

/-- What is to be seen of a pane. -/
structure PaneScreen where
  header : String
  notice : Option (String × Bool)
  empty : Option String
  block : Option DiffBlock
deriving DecidableEq, Repr

def DiffPane.screen (pane : DiffPane) : PaneScreen where
  header := pane.header
  notice := pane.notice.shown
  empty := if pane.emptyHidden then none else some pane.empty
  block := if pane.blockHidden then none else pane.block

/-- What is to be seen of the page. -/
structure ChangesScreen where
  root : String
  pressed : GitScope
  refreshDisabled : Bool
  filtersDisabled : Bool
  notice : Option (String × Bool)
  count : String
  list : ChangeList
  pane : PaneScreen
deriving DecidableEq, Repr

def ChangesPage.screen (page : ChangesPage) : ChangesScreen where
  root := page.root
  pressed := page.pressed
  refreshDisabled := page.refreshDisabled
  filtersDisabled := page.filtersDisabled
  notice := page.notice.shown
  count := page.count
  list := page.list
  pane := page.pane.screen

/-! ## The panel -/

/-- What the view is about: `none` is an answer that has not come. -/
structure ChangesPanel where
  path : String
  scope : GitScope
  status : Option (Except String GitStatus)
  key : Option ChangeKey
  diff : Option (Except String GitDiff)

namespace ChangesPanel

def selectPane : PaneScreen := ⟨"Diff", none, some selectFileText, none⟩

def loadingPane : PaneScreen := ⟨"Diff", some ("loading diff…", false), none, none⟩

def refreshingPane : PaneScreen := ⟨"Diff", some ("refreshing changes…", false), none, none⟩

def failedPane (error : String) : PaneScreen :=
  ⟨"Diff", some ("cannot read diff: " ++ error, true), none, none⟩

def diffPane (scope : GitScope) (untracked unborn : Bool) (diff : GitDiff) : PaneScreen :=
  let (block, mode, notice) := renderDiff diff scope untracked unborn
  let notices := (if diff.truncated then ["diff truncated — showing the first 512 KiB"] else []) ++
    notice.toList
  { header := match mode with
      | .comparison => "Before / After · changed sections"
      | .unified => "Unified diff"
    notice := if notices = [] then none else some (" · ".intercalate notices, false)
    empty := if diff.text = "" then some "no diff for this file in this scope" else none
    block := if diff.text = "" then none else some block }

def pane (p : ChangesPanel) : PaneScreen :=
  match p.key, p.status with
  | none, _ | _, some (.error _) => selectPane
  | some _, none => refreshingPane
  | some key, some (.ok status) =>
    match p.diff with
    | none => loadingPane
    | some (.error error) => failedPane error
    | some (.ok diff) => diffPane p.scope key.2 status.unborn diff

def list (p : ChangesPanel) (entries : List ListedChange) (text : String) : ChangeList :=
  if entries = [] then .empty text else .files (entries.map (changeRow p.key))

/-- The screen as it has to be. -/
def render (p : ChangesPanel) : ChangesScreen :=
  match p.status with
  | none =>
    ⟨p.path, p.scope, true, true, some ("loading…", false), countText 0, .empty "loading changes…",
      p.pane⟩
  | some (.error error) =>
    ⟨p.path, p.scope, false, true, some ("cannot read git status: " ++ error, true), countText 0,
      .empty "changes unavailable", p.pane⟩
  | some (.ok status) =>
    let entries := filterGitChanges status.entries p.scope
    ⟨status.root, p.scope, false, false,
      if status.truncated then some ("status truncated — some changed files are not shown", false)
      else none,
      countText entries.length, p.list entries "no changes", p.pane⟩

end ChangesPanel

namespace ChangesView

variable (w : ChangesWorld) (v : ChangesView)

/-- The answer to the last request of the path that is shown. -/
def statusOf : Option (Except String GitStatus) :=
  v.statusRequest.outcome fun n => w.status n v.path

/-- The answer to the last request for the selected entry, as it is now and in the scope that is
shown. -/
def diffOf : Option (Except String GitDiff) :=
  match v.statusOf w, v.selectedChange with
  | some (.ok status), some change =>
    v.diffRequest.outcome fun n => w.diff n (gitDiffRequest status v.scope change.1)
  | _, _ => none

def panel : ChangesPanel := ⟨v.path, v.scope, v.statusOf w, v.selectedKey, v.diffOf w⟩

/-- The selection is an entry of the list, and the diff that is waited for is the one of it. -/
def Selects (status : GitStatus) : Prop :=
  match v.selectedChange with
  | none => v.selectedKey = none
  | some change =>
    change ∈ filterGitChanges status.entries v.scope ∧
      v.selectedKey = some (gitChangeKey change.1) ∧
      ∀ call, v.diffRequest.Current call →
        call = ⟨change.1, gitDiffRequest status v.scope change.1⟩

/-- The fields, as the status has come or not. -/
def Holds : Option (Except String GitStatus) → Prop
  | none => v.statusLoading = true ∧ v.status = none ∧ ¬ v.diffRequest.Waiting
  | some (.ok status) => v.statusLoading = false ∧ v.status = some status ∧ v.Selects status
  | some (.error _) => v.statusLoading = false ∧ v.status = none ∧ v.selectedKey = none

structure Sound : Prop where
  statusNumbered : v.statusRequest.Numbered
  diffNumbered : v.diffRequest.Numbered
  asked : ∀ path, v.statusRequest.Current path → path = v.path
  holds : v.Holds (v.statusOf w)
  shown : v.page.screen = (v.panel w).render

end ChangesView

namespace ChangesLemmas

open ChangesView ChangesPanel

variable {w : ChangesWorld} {v : ChangesView} {status : GitStatus} {change : ListedChange}

/-! ### Loading -/

theorem screen_loadStatus (v : ChangesView) : v.loadStatus.page.screen =
    ⟨v.path, v.page.pressed, true, true, some ("loading…", false), countText 0,
      .empty "loading changes…", if v.selectedKey = none then selectPane else refreshingPane⟩ := by
  cases hkey : v.selectedKey <;>
    simp [loadStatus, renderList, updateControls, clearDiffForStatusRefresh, setStatusNotice,
      listed, emptyText, ChangesPage.screen, Notice.shown, DiffPane.screen, selectPane,
      refreshingPane, hkey]

theorem sound_loadStatus (hpressed : v.page.pressed = v.scope) (hs : v.statusRequest.Numbered)
    (hd : v.diffRequest.Numbered) : v.loadStatus.Sound w := by
  have hstatus : v.loadStatus.statusOf w = none := Requests.outcome_issue
  refine ⟨hs.issue _, hd.cancel, fun path h => (Requests.current_issue hs).mp h, ?_, ?_⟩
  · rw [hstatus]
    exact ⟨rfl, rfl, Requests.idle_cancel hd⟩
  · rw [screen_loadStatus, hpressed, render]
    have hkey : v.loadStatus.selectedKey = v.selectedKey := rfl
    cases h : v.selectedKey <;> simp [panel, hstatus, pane, hkey, h] <;> exact ⟨rfl, rfl⟩

/-! ### The selection -/

/-- A selection and the pane that goes with it, when nothing is known of its diff. -/
structure Chosen (status : GitStatus) (v : ChangesView) : Prop where
  numbered : v.diffRequest.Numbered
  selects : v.Selects status
  cleared : v.selectedKey = none → v.page.pane.screen = selectPane
  loading : v.selectedKey ≠ none → v.page.pane.screen = loadingPane ∧
    ∀ answer : Nat → Except String GitDiff, v.diffRequest.outcome answer = none

/-- Nothing but the selection and the pane has changed. -/
def SameBut (v v' : ChangesView) : Prop :=
  ∃ key change requests pane, v' = { v with
    selectedKey := key, selectedChange := change, diffRequest := requests, page.pane := pane }

theorem loadDiff_eq (hstatus : v.status = some status) (change : GitChange) :
    v.loadDiff change = { v with
      diffRequest := v.diffRequest.issue ⟨change, gitDiffRequest status v.scope change⟩
      page.pane := ⟨"Diff", ⟨"loading diff…", false, false⟩, v.page.pane.empty, true, none,
        true⟩ } := by
  rw [loadDiff, hstatus]

theorem listed_eq (hstatus : v.status = some status) :
    v.listed = filterGitChanges status.entries v.scope := by
  rw [listed, hstatus]
  rfl

/-- A diff is loaded for an entry of the list, which is selected. -/
theorem chosen_loadDiff (hstatus : v.status = some status) (hd : v.diffRequest.Numbered)
    (hmem : change ∈ filterGitChanges status.entries v.scope) (list : ChangeList) :
    Chosen status ({ v with
      selectedKey := some (gitChangeKey change.1), selectedChange := some change
      page.list := list }.loadDiff change.1) := by
  rw [loadDiff_eq (by exact hstatus)]
  refine ⟨hd.issue _, ⟨hmem, rfl, fun call h => (Requests.current_issue hd).mp h⟩, nofun, ?_⟩
  exact fun _ => ⟨rfl, fun _ => Requests.outcome_issue⟩

theorem chosen_reconcileSelection (hstatus : v.status = some status)
    (hd : v.diffRequest.Numbered) :
    SameBut v v.reconcileSelection ∧ Chosen status v.reconcileSelection := by
  have hclear : SameBut v v.clearSelection ∧ Chosen status v.clearSelection :=
    ⟨⟨_, _, _, _, rfl⟩, hd.cancel, rfl, fun _ => rfl, nofun⟩
  unfold reconcileSelection
  cases hkey : v.selectedKey with
  | none => exact hclear
  | some key =>
    unfold findVisibleChange
    rw [listed_eq hstatus]
    dsimp only
    split
    · exact hclear
    · rename_i change hfind
      have hsame : gitChangeKey change.1 = key := by simpa using List.find?_some hfind
      have h := chosen_loadDiff hstatus hd (List.mem_of_find?_eq_some hfind) v.page.list
      rw [hsame] at h
      refine ⟨?_, h⟩
      rw [loadDiff_eq (by exact hstatus)]
      exact ⟨_, _, _, _, rfl⟩

/-! ### The parts of the screen -/

/-- The notice of a status that has come. -/
def statusNotice (status : GitStatus) : Option (String × Bool) :=
  if status.truncated then some ("status truncated — some changed files are not shown", false)
  else none

theorem render_pressed (p : ChangesPanel) : p.render.pressed = p.scope := by
  unfold render
  split <;> rfl

theorem pressed_of_sound (h : v.Sound w) : v.page.pressed = v.scope :=
  (congrArg ChangesScreen.pressed h.shown).trans (render_pressed _)

theorem screen_of_ready (h : v.Sound w) (hof : v.statusOf w = some (.ok status)) :
    v.page.screen = ⟨status.root, v.scope, false, false, statusNotice status,
      countText (filterGitChanges status.entries v.scope).length,
      (v.panel w).list (filterGitChanges status.entries v.scope) "no changes",
      (v.panel w).pane⟩ := by
  have hpanel : (v.panel w).status = some (.ok status) := hof
  rw [h.shown, render, hpanel]
  rfl

/-- The screen of a status that has come, with the selection and its pane. -/
theorem sound_of_ready (hs : v.statusRequest.Numbered)
    (hasked : ∀ path, v.statusRequest.Current path → path = v.path)
    (hloading : v.statusLoading = false) (hstatus : v.status = some status)
    (hof : v.statusOf w = some (.ok status)) (h : Chosen status v)
    (hscreen : v.page.screen = ⟨status.root, v.scope, false, false, statusNotice status,
      countText (filterGitChanges status.entries v.scope).length,
      (v.panel w).list (filterGitChanges status.entries v.scope) "no changes",
      v.page.pane.screen⟩) : v.Sound w := by
  have hpanel : (v.panel w).status = some (.ok status) := hof
  have hpane : v.page.pane.screen = (v.panel w).pane := by
    unfold pane panel
    cases hkey : v.selectedKey with
    | none => exact h.cleared hkey
    | some key =>
      have hne : v.selectedKey ≠ none := hkey ▸ nofun
      have hdiff : v.diffOf w = none := by
        unfold diffOf
        rw [hof]
        cases v.selectedChange with
        | none => rfl
        | some change => exact (h.loading hne).2 _
      rw [(h.loading hne).1, hof, hdiff]
  refine ⟨hs, h.numbered, hasked, ?_, ?_⟩
  · rw [hof]
    exact ⟨hloading, hstatus, h.selects⟩
  · rw [hscreen, hpane, render, hpanel]
    rfl

/-! ### Answers to a status -/

variable {k n : Nat} {path : String}

theorem sound_status_late (h : v.Sound w) (hk : v.statusRequest.calls[k]? = some (n, path))
    (hn : n ≠ v.statusRequest.last) :
    ({ v with statusRequest := v.statusRequest.take k } : ChangesView).Sound w := by
  have hof : ({ v with statusRequest := v.statusRequest.take k } : ChangesView).statusOf w =
      v.statusOf w := Requests.outcome_late hk hn
  have hpanel : ({ v with statusRequest := v.statusRequest.take k } : ChangesView).panel w =
      v.panel w := by
    unfold panel diffOf
    rw [hof]
  refine ⟨h.statusNumbered.take k, h.diffNumbered, ?_, ?_, ?_⟩
  · exact fun path' hcurrent => h.asked path' ((Requests.current_late hk hn).mp hcurrent)
  · rw [hof]
    exact h.holds
  · rw [hpanel]
    exact h.shown

theorem asked_take (h : v.Sound w)
    (hk : v.statusRequest.calls[k]? = some (v.statusRequest.last, path)) (path' : String)
    (hcurrent : (v.statusRequest.take k).Current path') : path' = v.path :=
  absurd (Requests.waiting_iff.mpr ⟨_, hcurrent⟩) (Requests.idle_take h.statusNumbered hk)

theorem outcome_answered (h : v.Sound w)
    (hk : v.statusRequest.calls[k]? = some (v.statusRequest.last, path)) :
    (v.statusRequest.take k).outcome (fun n => w.status n v.path) =
      some (w.status v.statusRequest.last path) := by
  rw [Requests.outcome_take h.statusNumbered hk, ← h.asked path (List.mem_of_getElem? hk)]

theorem not_late (hlive : v.disposed = false) (k : Nat) :
    ¬ (v.disposed = true ∨ v.statusRequest.last ≠ (v.statusRequest.take k).last) := by
  simp [hlive, Requests.take]

theorem sound_statusAnswered_ok (h : v.Sound w) (hlive : v.disposed = false)
    (hk : v.statusRequest.calls[k]? = some (v.statusRequest.last, path))
    (hok : w.status v.statusRequest.last path = .ok status) :
    ({ v with statusRequest := v.statusRequest.take k }.statusAnswered v.statusRequest.last
      (.ok status)).Sound w := by
  have hof := outcome_answered h hk
  rw [hok] at hof
  unfold statusAnswered
  dsimp only
  rw [if_neg (not_late hlive k)]
  obtain ⟨⟨key, change, requests, pane, heq⟩, hchosen⟩ := chosen_reconcileSelection (v := { v with
    statusRequest := v.statusRequest.take k, statusLoading := false, status := some status
    statusError := none, page.root := status.root }) rfl h.diffNumbered
  rw [heq] at hchosen ⊢
  refine sound_of_ready (h.statusNumbered.take k) (asked_take h hk) rfl rfl hof
    ⟨hchosen.numbered, hchosen.selects, hchosen.cleared, hchosen.loading⟩ ?_
  have hpressed := pressed_of_sound h
  cases htruncated : status.truncated <;>
    simp [renderList, updateControls, setStatusNotice, listed, emptyText, ChangesPage.screen,
      Notice.shown, ChangesPanel.list, panel, statusNotice, hpressed, htruncated]

theorem shown_of_failed {error : String} (hof : v.statusOf w = some (.error error))
    (hscreen : v.page.screen = ⟨v.path, v.scope, false, true,
      some ("cannot read git status: " ++ error, true), countText 0, .empty "changes unavailable",
      (v.panel w).pane⟩) : v.page.screen = (v.panel w).render := by
  have hpanel : (v.panel w).status = some (.error error) := hof
  rw [hscreen, render, hpanel]
  rfl

theorem sound_statusAnswered_error (h : v.Sound w) (hlive : v.disposed = false)
    (hk : v.statusRequest.calls[k]? = some (v.statusRequest.last, path)) {error : String}
    (herror : w.status v.statusRequest.last path = .error error) :
    ({ v with statusRequest := v.statusRequest.take k }.statusAnswered v.statusRequest.last
      (.error error)).Sound w := by
  have hof := outcome_answered h hk
  rw [herror] at hof
  have hwaiting : (v.panel w).status = none :=
    show v.statusRequest.outcome (fun n => w.status n v.path) = none from
      Requests.outcome_waiting hk
  have hroot : v.page.root = v.path := by
    have hshown := congrArg ChangesScreen.root h.shown
    rw [render, hwaiting] at hshown
    exact hshown
  have hpressed := pressed_of_sound h
  unfold statusAnswered
  dsimp only
  rw [if_neg (not_late hlive k)]
  refine ⟨h.statusNumbered.take k, h.diffNumbered.cancel, asked_take h hk, ?_, ?_⟩
  · unfold statusOf
    exact hof ▸ ⟨rfl, rfl, rfl⟩
  · refine shown_of_failed (by exact hof) ?_
    simp [renderList, updateControls, setStatusNotice, clearSelection, listed, emptyText,
      ChangesPage.screen, Notice.shown, DiffPane.screen, emptyDiffPane, panel, pane, selectPane,
      hpressed, hroot]

/-! ### The user's steps -/

theorem ready_of_status (h : v.Sound w) (hstatus : v.status = some status) :
    v.statusOf w = some (.ok status) ∧ v.statusLoading = false ∧ v.Selects status := by
  have hholds := h.holds
  cases hof : v.statusOf w with
  | none =>
    rw [hof] at hholds
    cases hstatus.symm.trans hholds.2.1
  | some result =>
    rw [hof] at hholds
    cases result with
    | error error => cases hstatus.symm.trans hholds.2.1
    | ok status' =>
      obtain rfl := Option.some_inj.mp (hstatus.symm.trans hholds.2.1)
      exact ⟨rfl, hholds.1, hholds.2.2⟩

theorem sound_setScope (h : v.Sound w) (scope : GitScope) : (v.setScope scope).Sound w := by
  unfold setScope
  split
  · exact h
  rename_i hguard
  obtain ⟨status, hstatus⟩ := Option.ne_none_iff_exists'.mp fun hnone =>
    hguard (.inr (.inr (.inl hnone)))
  obtain ⟨hof, hloading, -⟩ := ready_of_status h hstatus
  obtain ⟨hroot, -, hrefresh, hfilters, hnotice, -, -, -⟩ :=
    ChangesScreen.mk.inj (screen_of_ready h hof)
  obtain ⟨⟨key, change, requests, pane, heq⟩, hchosen⟩ := chosen_reconcileSelection
    (v := { v with scope := scope }.updateFilterButtons) hstatus h.diffNumbered
  rw [heq] at hchosen ⊢
  refine sound_of_ready h.statusNumbered h.asked hloading hstatus hof
    ⟨hchosen.numbered, hchosen.selects, hchosen.cleared, hchosen.loading⟩ ?_
  simp [renderList, updateFilterButtons, listed, emptyText, ChangesPage.screen, hstatus, hroot,
    hrefresh, hfilters, hnotice, ChangesPanel.list, panel]

theorem mark_list (key : ChangeKey) (p : ChangesPanel) (entries : List ListedChange)
    (text : String) :
    (p.list entries text).mark key = { p with key := some key }.list entries text := by
  unfold ChangesPanel.list
  split
  · rfl
  · refine congrArg ChangeList.files ((List.map_map ..).trans (List.map_congr_left ?_))
    intro entry _
    have hmark : decide (gitChangeKey entry.1 = key) =
        decide (some (gitChangeKey entry.1) = some key) :=
      decide_eq_decide.mpr Option.some_inj.symm
    exact congrArg (fun selected => { changeRow (some key) entry with selected := selected }) hmark

theorem sound_selectChange (h : v.Sound w) (hstatus : v.status = some status)
    (hmem : change ∈ filterGitChanges status.entries v.scope) :
    (v.selectChange change).Sound w := by
  unfold selectChange
  split
  · exact h
  dsimp only
  split
  · exact h
  obtain ⟨hof, hloading, -⟩ := ready_of_status h hstatus
  obtain ⟨hroot, hpressed, hrefresh, hfilters, hnotice, hcount, hlist, -⟩ :=
    ChangesScreen.mk.inj (screen_of_ready h hof)
  have hchosen := chosen_loadDiff hstatus h.diffNumbered hmem
    (v.page.list.mark (gitChangeKey change.1))
  rw [loadDiff_eq (by exact hstatus)] at hchosen ⊢
  refine sound_of_ready h.statusNumbered h.asked hloading hstatus hof hchosen ?_
  have hmarked := mark_list (gitChangeKey change.1) (v.panel w)
    (filterGitChanges status.entries v.scope) "no changes"
  rw [← hlist] at hmarked
  exact (ChangesScreen.mk.injEq ..).mpr
    ⟨hroot, hpressed, hrefresh, hfilters, hnotice, hcount, hmarked, rfl⟩

/-- A row of the list is of an entry. -/
theorem mem_of_row (h : v.Sound w) (hstatus : v.status = some status) {rows : List ChangeRow}
    (hrows : v.page.list = .files rows) {row : ChangeRow} (hrow : row ∈ rows) :
    row.entry ∈ filterGitChanges status.entries v.scope := by
  obtain ⟨hof, -⟩ := ready_of_status h hstatus
  obtain ⟨-, -, -, -, -, -, hlist, -⟩ := ChangesScreen.mk.inj (screen_of_ready h hof)
  rw [hrows, ChangesPanel.list] at hlist
  split at hlist
  · cases hlist
  · rw [ChangeList.files.inj hlist] at hrow
    obtain ⟨entry, hentry, rfl⟩ := List.mem_map.mp hrow
    exact hentry

theorem sound_click (h : v.Sound w) (i : Nat) : (v.click i).Sound w := by
  unfold click
  split
  · exact h
  rename_i rows hrows
  split
  · exact h
  rename_i row hrow
  cases hstatus : v.status with
  | none =>
    unfold selectChange
    rw [if_pos (.inr (.inr hstatus))]
    exact h
  | some status =>
    exact sound_selectChange h hstatus (mem_of_row h hstatus hrows (List.mem_of_getElem? hrow))

/-! ### Answers to a diff -/

variable {call : DiffCall}

theorem sound_diff_late (h : v.Sound w) (hk : v.diffRequest.calls[k]? = some (n, call))
    (hn : n ≠ v.diffRequest.last) :
    ({ v with diffRequest := v.diffRequest.take k } : ChangesView).Sound w := by
  have hpanel : ({ v with diffRequest := v.diffRequest.take k } : ChangesView).panel w =
      v.panel w := by
    have hout (answer : Nat → Except String GitDiff) :
        (v.diffRequest.take k).outcome answer = v.diffRequest.outcome answer :=
      Requests.outcome_late hk hn
    unfold panel diffOf
    simp only [hout]
    rfl
  refine ⟨h.statusNumbered, h.diffNumbered.take k, h.asked, ?_, ?_⟩
  · have hholds := h.holds
    show ({ v with diffRequest := v.diffRequest.take k } : ChangesView).Holds (v.statusOf w)
    cases hof : v.statusOf w with
    | none =>
      rw [hof] at hholds
      exact ⟨hholds.1, hholds.2.1, fun hw => hholds.2.2 ((Requests.waiting_late hk hn).mp hw)⟩
    | some result =>
      rw [hof] at hholds
      cases result with
      | error error => exact hholds
      | ok status =>
        obtain ⟨hloading, hstatus, hselects⟩ := hholds
        refine ⟨hloading, hstatus, ?_⟩
        unfold Selects at hselects ⊢
        dsimp only
        cases hchange : v.selectedChange with
        | none =>
          rw [hchange] at hselects
          exact hselects
        | some change =>
          rw [hchange] at hselects
          exact ⟨hselects.1, hselects.2.1, fun call' hcall' =>
            hselects.2.2 call' ((Requests.current_late hk hn).mp hcall')⟩
  · rw [hpanel]
    exact h.shown

/-- A pane whose diff has come. -/
theorem screen_diffPane (scope : GitScope) (call : DiffCall) (diff : GitDiff) (pane : DiffPane) :
    (ChangesView.diffPane scope call diff pane).screen =
      ChangesPanel.diffPane scope call.change.untracked call.request.unborn diff := by
  unfold ChangesView.diffPane ChangesPanel.diffPane DiffPane.screen
  dsimp only
  congr 1
  · exact apply_ite Notice.shown _ _ _
  · by_cases htext : diff.text = "" <;> simp [htext]
  · by_cases htext : diff.text = "" <;> simp [htext]

theorem render_diff (p : ChangesPanel) (diff : Option (Except String GitDiff)) :
    { p with diff := diff }.render =
      { p.render with pane := ({ p with diff := diff } : ChangesPanel).pane } := by
  unfold render
  dsimp only
  split <;> rfl

theorem pane_unselected {p : ChangesPanel} (hkey : p.key = none) : p.pane = selectPane := by
  unfold pane
  rw [hkey]

/-- Only the pane has changed, with what is known of the diff. -/
theorem shown_of_diff {v' : ChangesView} (h : v.page.screen = (v.panel w).render)
    (hpanel : v'.panel w = { v.panel w with diff := v'.diffOf w })
    (hscreen : v'.page.screen = { v.page.screen with pane := v'.page.pane.screen })
    (hpane : v'.page.pane.screen = (v'.panel w).pane) : v'.page.screen = (v'.panel w).render := by
  rw [hscreen, h, hpane, hpanel]
  exact (render_diff _ _).symm

/-- A diff that is waited for is the one of the selected entry. -/
theorem waiting_cases (h : v.Sound w) (hcurrent : v.diffRequest.Current call) :
    v.selectedKey = none ∨ ∃ status change, v.statusOf w = some (.ok status) ∧
      v.selectedChange = some change ∧ v.selectedKey = some (gitChangeKey change.1) ∧
      call = ⟨change.1, gitDiffRequest status v.scope change.1⟩ := by
  have hholds := h.holds
  cases hof : v.statusOf w with
  | none =>
    rw [hof] at hholds
    exact absurd (Requests.waiting_iff.mpr ⟨_, hcurrent⟩) hholds.2.2
  | some result =>
    rw [hof] at hholds
    cases result with
    | error error => exact .inl hholds.2.2
    | ok status =>
      have hselects := hholds.2.2
      unfold Selects at hselects
      cases hchange : v.selectedChange with
      | none =>
        rw [hchange] at hselects
        exact .inl hselects
      | some change =>
        rw [hchange] at hselects
        obtain ⟨-, hkey, hcall⟩ := hselects
        exact .inr ⟨status, change, rfl, rfl, hkey, hcall call hcurrent⟩

theorem sound_unselected (h : v.Sound w)
    (hk : v.diffRequest.calls[k]? = some (v.diffRequest.last, call))
    (hkey : v.selectedKey = none) :
    ({ v with diffRequest := v.diffRequest.take k } : ChangesView).Sound w := by
  have hidle := Requests.idle_take h.diffNumbered hk
  refine ⟨h.statusNumbered, h.diffNumbered.take k, h.asked, ?_, ?_⟩
  · have hholds := h.holds
    show ({ v with diffRequest := v.diffRequest.take k } : ChangesView).Holds (v.statusOf w)
    cases hof : v.statusOf w with
    | none =>
      rw [hof] at hholds
      exact ⟨hholds.1, hholds.2.1, hidle⟩
    | some result =>
      rw [hof] at hholds
      cases result with
      | error error => exact hholds
      | ok status =>
        obtain ⟨hloading, hstatus, hselects⟩ := hholds
        refine ⟨hloading, hstatus, ?_⟩
        unfold Selects at hselects ⊢
        dsimp only
        cases hchange : v.selectedChange with
        | none => exact hkey
        | some change =>
          rw [hchange] at hselects
          cases hkey.symm.trans hselects.2.1
  · refine shown_of_diff h.shown rfl rfl ?_
    have hpane := congrArg ChangesScreen.pane h.shown
    rw [pane_unselected (by exact hkey)]
    refine hpane.trans (Eq.trans ?_ (pane_unselected (p := v.panel w) hkey))
    unfold render
    split <;> rfl

/-- A pane that shows the answer to the diff of the selection. -/
theorem sound_diff_shown (h : v.Sound w) (hof : v.statusOf w = some (.ok status))
    (hchange : v.selectedChange = some change)
    (hk : v.diffRequest.calls[k]? =
      some (v.diffRequest.last, ⟨change.1, gitDiffRequest status v.scope change.1⟩))
    {pane' : DiffPane}
    (hpane : pane'.screen = ({ v.panel w with
      diff := some (w.diff v.diffRequest.last (gitDiffRequest status v.scope change.1)) } :
        ChangesPanel).pane) :
    ({ v with diffRequest := v.diffRequest.take k, page.pane := pane' } : ChangesView).Sound w := by
  have hidle := Requests.idle_take h.diffNumbered hk
  have hof' : ({ v with diffRequest := v.diffRequest.take k, page.pane := pane' } :
      ChangesView).statusOf w = some (.ok status) := hof
  have hdiff : ({ v with diffRequest := v.diffRequest.take k, page.pane := pane' } :
      ChangesView).diffOf w =
        some (w.diff v.diffRequest.last (gitDiffRequest status v.scope change.1)) := by
    unfold diffOf
    rw [hof', hchange]
    exact Requests.outcome_take h.diffNumbered hk
  have hpanel : ({ v with diffRequest := v.diffRequest.take k, page.pane := pane' } :
      ChangesView).panel w = { v.panel w with
        diff := some (w.diff v.diffRequest.last (gitDiffRequest status v.scope change.1)) } :=
    congrArg (ChangesPanel.mk v.path v.scope (v.statusOf w) v.selectedKey) hdiff
  refine ⟨h.statusNumbered, h.diffNumbered.take k, h.asked, ?_, ?_⟩
  · have hholds := h.holds
    rw [hof] at hholds
    obtain ⟨hloading, hstatus, hselects⟩ := hholds
    rw [hof']
    refine ⟨hloading, hstatus, ?_⟩
    unfold Selects at hselects ⊢
    dsimp only
    rw [hchange] at hselects ⊢
    exact ⟨hselects.1, hselects.2.1, fun call hcall =>
      absurd (Requests.waiting_iff.mpr ⟨_, hcall⟩) hidle⟩
  · refine shown_of_diff h.shown rfl rfl ?_
    rw [hpanel]
    exact hpane

/-- The answer to the last diff is shown if its entry is still selected. -/
theorem sound_diffAnswered (h : v.Sound w) (hlive : v.disposed = false)
    (hk : v.diffRequest.calls[k]? = some (v.diffRequest.last, call)) :
    ({ v with diffRequest := v.diffRequest.take k }.diffAnswered v.diffRequest.last call
      (w.diff v.diffRequest.last call.request)).Sound w := by
  unfold diffAnswered
  dsimp only
  rcases waiting_cases h (List.mem_of_getElem? hk) with
    hnone | ⟨status, change, hof, hchange, hkey, rfl⟩
  · rw [if_pos (.inr (.inr (hnone ▸ nofun)))]
    exact sound_unselected h hk hnone
  have hguard : ¬ (v.disposed = true ∨ v.diffRequest.last ≠ (v.diffRequest.take k).last ∨
      v.selectedKey ≠ some (gitChangeKey change.1)) := by
    simp [hlive, Requests.take, hkey]
  rw [if_neg hguard]
  cases hresult : w.diff v.diffRequest.last (gitDiffRequest status v.scope change.1) with
  | ok diff =>
    refine sound_diff_shown h hof hchange hk ?_
    rw [screen_diffPane, hresult]
    simp [pane, panel, hof, hkey, gitDiffRequest, gitChangeKey]
  | error error =>
    refine sound_diff_shown h hof hchange hk ?_
    have hwaiting : v.diffOf w = none := by
      unfold diffOf
      rw [hof, hchange]
      exact Requests.outcome_waiting hk
    have hloading : v.page.pane.screen = loadingPane := by
      refine (congrArg ChangesScreen.pane h.shown).trans ?_
      simp [render, pane, panel, hof, hkey, hwaiting]
    have hheader : v.page.pane.header = "Diff" := congrArg PaneScreen.header hloading
    rw [hresult]
    simp [pane, panel, hof, hkey, failedPane, DiffPane.screen, Notice.shown, hheader]

/-! ### Runs -/

theorem sound_update (h : v.Sound w) (kind : TabKind) : (v.update kind).Sound w := by
  unfold update
  split
  · split
    · exact h
    · exact sound_loadStatus rfl h.statusNumbered h.diffNumbered.cancel
  · exact h

theorem sound_mount (kind : TabKind) : (mount kind).Sound w :=
  sound_loadStatus rfl Requests.numbered_none Requests.numbered_none

theorem sound_step (h : v.Sound w) (hlive : v.disposed = false) (a : ChangesView.Action)
    (ha : (v.step w a).disposed = false) : (v.step w a).Sound w := by
  cases a with
  | refresh =>
    unfold step refresh
    dsimp only
    split
    · exact h
    · exact sound_loadStatus (pressed_of_sound h) h.statusNumbered h.diffNumbered
  | update kind => exact sound_update h kind
  | setScope scope => exact sound_setScope h scope
  | click i => exact sound_click h i
  | status k =>
    unfold step
    dsimp only
    split
    · exact h
    rename_i n path hk
    by_cases hn : n = v.statusRequest.last
    · subst hn
      cases hresult : w.status v.statusRequest.last path with
      | ok status => exact sound_statusAnswered_ok h hlive hk hresult
      | error error => exact sound_statusAnswered_error h hlive hk hresult
    · unfold statusAnswered
      rw [if_pos (.inr hn)]
      exact sound_status_late h hk hn
  | diff k =>
    unfold step
    dsimp only
    split
    · exact h
    rename_i n call hk
    by_cases hn : n = v.diffRequest.last
    · subst hn
      exact sound_diffAnswered h hlive hk
    · unfold diffAnswered
      rw [if_pos (.inr (.inl hn))]
      exact sound_diff_late h hk hn
  | dispose =>
    have hdisposed : (v.step w .dispose).disposed = true := by
      unfold step dispose
      dsimp only
      rw [if_neg (by simp [hlive])]
    exact absurd (hdisposed.symm.trans ha) nofun

/-- A view that is disposed of stays as it is. -/
theorem page_disposed (hdisposed : v.disposed = true) {a : ChangesView.Action}
    (ha : (ChangesView.machine w).admits v a) :
    (v.step w a).disposed = true ∧ (v.step w a).page = v.page := by
  cases a with
  | refresh =>
    unfold step refresh
    dsimp only
    rw [if_pos (.inl hdisposed)]
    exact ⟨hdisposed, rfl⟩
  | update kind => cases hdisposed.symm.trans ha
  | setScope scope =>
    unfold step setScope
    dsimp only
    rw [if_pos (.inl hdisposed)]
    exact ⟨hdisposed, rfl⟩
  | click i =>
    unfold step click
    dsimp only
    split
    · exact ⟨hdisposed, rfl⟩
    split
    · exact ⟨hdisposed, rfl⟩
    unfold selectChange
    rw [if_pos (.inl hdisposed)]
    exact ⟨hdisposed, rfl⟩
  | status k =>
    unfold step
    dsimp only
    split
    · exact ⟨hdisposed, rfl⟩
    unfold statusAnswered
    rw [if_pos (.inl hdisposed)]
    exact ⟨hdisposed, rfl⟩
  | diff k =>
    unfold step
    dsimp only
    split
    · exact ⟨hdisposed, rfl⟩
    unfold diffAnswered
    rw [if_pos (.inl hdisposed)]
    exact ⟨hdisposed, rfl⟩
  | dispose =>
    unfold step dispose
    dsimp only
    rw [if_pos hdisposed]
    exact ⟨hdisposed, rfl⟩

theorem sound_of_reach (h : (ChangesView.machine w).Reach ChangesView.Start v) :
    v.disposed = false → v.Sound w := by
  refine Machine.Reach.invariant (I := fun v => v.disposed = false → v.Sound w) ?_ ?_ h
  · rintro s ⟨kind, rfl⟩ -
    exact sound_mount kind
  · intro s a _ ih ha hlive
    cases hdisposed : s.disposed with
    | true => cases (page_disposed hdisposed ha).1.symm.trans hlive
    | false => exact sound_step (ih hdisposed) hdisposed a hlive

end ChangesLemmas

open ChangesLemmas in
/-- What is to be seen is what has to be: the status and the diff are the answers to the last
requests, of the path that is shown and of the entry that is selected in it. Nothing changes once
the view is disposed of. -/
theorem changes_shown {w : ChangesWorld} {v : ChangesView}
    (h : (ChangesView.machine w).Reach ChangesView.Start v) :
    (v.disposed = false → v.page.screen = (v.panel w).render ∧
      (∀ path, v.statusRequest.Current path → path = v.path) ∧
      ∀ status, v.statusOf w = some (.ok status) → v.Selects status) ∧
    (v.disposed = true → ∀ a, (ChangesView.machine w).admits v a →
      (v.step w a).disposed = true ∧ (v.step w a).page = v.page) := by
  refine ⟨fun hlive => ?_, fun hdisposed a ha => page_disposed hdisposed ha⟩
  have hsound := sound_of_reach h hlive
  refine ⟨hsound.shown, hsound.asked, fun status hof => ?_⟩
  have hholds := hsound.holds
  rw [hof] at hholds
  exact hholds.2.2

/-- Two changed files, and diffs that fail with their numbers. -/
def lateWorld : ChangesWorld where
  status _ path := .ok ⟨path, false,
    [⟨"a", none, "M", ".", false, false⟩, ⟨"b", none, "M", "M", false, false⟩], false⟩
  diff n _ := .error (toString n)

/-- The scope changes while a diff is under way, which is answered first. -/
def lateView : ChangesView :=
  (ChangesView.machine lateWorld).run (.mount (.changesViewer "/repo"))
    [.status 0, .click 1, .setScope .working, .diff 0, .diff 0]

theorem changes_shown_late : lateView.page.screen = (lateView.panel lateWorld).render ∧
    lateView.page.screen.pane.notice = some ("cannot read diff: 4", true) := by
  have hstart : (ChangesView.machine lateWorld).Reach ChangesView.Start
      (.mount (.changesViewer "/repo")) := .init ⟨_, rfl⟩
  refine ⟨((changes_shown (hstart.of_trace _ ?_)).1 (by decide +kernel)).1, by decide +kernel⟩
  exact ⟨trivial, trivial, trivial, trivial, trivial, trivial⟩

end Mast
