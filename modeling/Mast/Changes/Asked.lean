import Mast.Changes.Shown

/-!
# What the view of changes asks for

The diffs that the view asks for are of entries that git itself has reported, so `git.rs` refuses
none of them, and the case of an untracked file in the staged scope does not arise.

Results:
1. `parseStatus_valid`: the paths of a status are paths that a diff accepts.
2. `asked_of_reach`: every diff under way is of an entry of a status.
3. `changes_asked`: the checks of a diff pass.
-/

namespace Mast

/-- The paths that a diff checks. -/
def GitChange.Valid (change : GitChange) : Prop :=
  validateFile change.path = .ok () ∧
    ∀ original, change.originalPath = some original → validateFile original = .ok ()

namespace ChangesView

/-- The entry was listed, by an answer of git, in the scope of the request. -/
def FromStatus (w : ChangesWorld) (call : DiffCall) : Prop :=
  ∃ status scope, (∃ n path, w.status n path = .ok status) ∧ call.change ∈ status.entries ∧
    changeMatchesScope call.change scope = true ∧
    call.request = gitDiffRequest status scope call.change

structure Asks (w : ChangesWorld) (v : ChangesView) : Prop where
  status : ∀ status, v.status = some status → ∃ n path, w.status n path = .ok status
  diffs : ∀ call ∈ v.diffRequest.calls, FromStatus w call.2

end ChangesView

/-- The statuses are those of `git.rs`, and git prints the root of a work tree as an absolute
path without dots. -/
structure GitAnswers (w : ChangesWorld) : Prop where
  status : ∀ n path status, w.status n path = .ok status →
    ∃ (git : GitWorld) (distro : Option String) (queries : List GitQuery),
      (git.status distro path).runFrom [] = (.ok status, queries)
  root : ∀ n path status, w.status n path = .ok status → validateRoot status.root = .ok ()

namespace AskedLemmas

open ChangesView ChangesLemmas

/-! ### The paths of a status -/

theorem readChange_valid {record : List Char} {change : GitChange} {renamed : Bool}
    (h : readChange record = some (.ok (change, renamed))) :
    validateFile change.path = .ok () ∧ change.originalPath = none := by
  unfold readChange at h
  split at h
  · split at h
    · cases h
    · rename_i hvalid
      cases h
      exact ⟨hvalid, rfl⟩
  split at h
  · cases h
  dsimp only at h
  split at h
  · cases h
  obtain ⟨statuses, -, h⟩ := Option.bind_eq_some_iff.mp h
  split at h
  · cases h
  obtain ⟨path, -, h⟩ := Option.bind_eq_some_iff.mp h
  split at h
  · cases h
  rename_i hvalid
  obtain ⟨⟨index, worktree⟩, -, h⟩ := Option.bind_eq_some_iff.mp h
  cases h
  exact ⟨hvalid, rfl⟩

theorem parseRecords_valid {truncated truncated' : Bool} {entries entries' : List GitChange}
    {unborn unborn' : Option Bool} {records : List (List UInt8)}
    (h : parseRecords truncated entries unborn records =
      some (.ok (entries', unborn', truncated')))
    (hvalid : ∀ change ∈ entries, change.Valid) : ∀ change ∈ entries', change.Valid := by
  induction entries, unborn, records using parseRecords.induct truncated with
  | case1 =>
    cases h
    exact hvalid
  | case3 entries unborn bytes rest record htext initial hheader ih =>
    simp only [parseRecords, htext, hheader] at h
    exact ih h hvalid
  | case7 entries unborn bytes rest record htext hheader hroom change hchange ih =>
    simp only [parseRecords, htext, hheader, hroom, hchange, if_false] at h
    refine ih h fun c hc => ?_
    rcases List.mem_append.mp hc with hold | hnew
    · exact hvalid c hold
    · obtain rfl := List.mem_singleton.mp hnew
      obtain ⟨hpath, hnone⟩ := readChange_valid hchange
      refine ⟨hpath, fun original h => ?_⟩
      cases hnone.symm.trans h
  | case12 entries unborn bytes record htext hheader hroom change hchange source rest original
      hsource horiginal ih =>
    simp only [parseRecords, htext, hheader, hroom, hchange, hsource, horiginal, if_false] at h
    refine ih h fun c hc => ?_
    rcases List.mem_append.mp hc with hold | hnew
    · exact hvalid c hold
    · obtain rfl := List.mem_singleton.mp hnew
      refine ⟨(readChange_valid hchange).1, fun original' h => ?_⟩
      obtain rfl := Option.some_inj.mp h
      exact horiginal
  | _ =>
    simp only [parseRecords, *, if_true, if_false, Bool.false_eq_true, Option.some.injEq,
      Except.ok.injEq, Prod.mk.injEq, reduceCtorEq] at h
    try exact h.1 ▸ hvalid

theorem parseStatus_valid {root : String} {bytes : List UInt8} {truncated : Bool}
    {status : GitStatus} (h : parseStatus root bytes truncated = some (.ok status)) :
    ∀ change ∈ status.entries, change.Valid := by
  unfold parseStatus at h
  split at h
  · cases h
  split at h
  · cases h
  · cases h
  rename_i hrecords
  split at h
  · cases h
  cases h
  exact parseRecords_valid hrecords nofun

theorem valid_of_status {git : GitWorld} {distro : Option String} {path : String}
    {status : GitStatus} {queries : List GitQuery}
    (h : (git.status distro path).runFrom [] = (.ok status, queries)) :
    ∀ change ∈ status.entries, change.Valid := by
  obtain ⟨_, _, _, _, -, -, -, -, -, hparse⟩ := GitReadLemmas.status_ok h
  exact parseStatus_valid hparse

/-! ### What is asked -/

variable {w : ChangesWorld} {v : ChangesView} {status : GitStatus} {change : ListedChange}

theorem mem_of_listed {entries : List GitChange} {scope : GitScope}
    (h : change ∈ filterGitChanges entries scope) :
    change.1 ∈ entries ∧ changeMatchesScope change.1 scope = true := by
  obtain ⟨hmem, hmatch⟩ := List.mem_filter.mp h
  exact ⟨List.fst_mem_of_mem_zipIdx hmem, hmatch⟩

/-- The request for an entry of the list. -/
theorem asks_loadDiff (h : v.Asks w) (hstatus : v.status = some status)
    (hmem : change ∈ filterGitChanges status.entries v.scope) : (v.loadDiff change.1).Asks w := by
  rw [loadDiff_eq hstatus]
  refine ⟨h.status, fun call hcall => ?_⟩
  rcases List.mem_append.mp hcall with hold | hnew
  · exact h.diffs call hold
  · obtain ⟨hentry, hmatch⟩ := mem_of_listed hmem
    rw [List.mem_singleton.mp hnew]
    exact ⟨status, v.scope, h.status status hstatus, hentry, hmatch, rfl⟩

theorem asks_reconcileSelection (h : v.Asks w) : v.reconcileSelection.Asks w := by
  unfold reconcileSelection
  split
  · exact ⟨h.status, h.diffs⟩
  rename_i selected hfind
  unfold findVisibleChange at hfind
  split at hfind
  · cases hfind
  have hmem := List.mem_of_find?_eq_some hfind
  obtain ⟨status, hstatus⟩ : ∃ status, v.status = some status := by
    refine Option.ne_none_iff_exists'.mp fun hnone => ?_
    rw [listed, hnone] at hmem
    cases hmem
  rw [listed_eq hstatus] at hmem
  exact asks_loadDiff (v := { v with selectedChange := some selected }) ⟨h.status, h.diffs⟩
    hstatus hmem

theorem asks_loadStatus (h : v.Asks w) : v.loadStatus.Asks w := ⟨nofun, h.diffs⟩

theorem asks_click (h : v.Asks w) (hsound : v.disposed = false → v.Sound w) (i : Nat) :
    (v.click i).Asks w := by
  unfold click
  split
  · exact h
  rename_i rows hrows
  split
  · exact h
  rename_i row hrow
  unfold selectChange
  split
  · exact h
  rename_i hguard
  dsimp only
  split
  · exact h
  have hlive : v.disposed = false := Bool.eq_false_iff.mpr fun hd => hguard (.inl hd)
  obtain ⟨status, hstatus⟩ := Option.ne_none_iff_exists'.mp fun hnone =>
    hguard (.inr (.inr hnone))
  have hmem := mem_of_row (hsound hlive) hstatus hrows (List.mem_of_getElem? hrow)
  refine asks_loadDiff (v := { v with
    selectedKey := some (gitChangeKey row.entry.1), selectedChange := some row.entry
    page.list := v.page.list.mark (gitChangeKey row.entry.1) }) ⟨h.status, h.diffs⟩ hstatus hmem

theorem asks_statusAnswered (h : v.Asks w) {n : Nat} {path : String} :
    (v.statusAnswered n (w.status n path)).Asks w := by
  unfold statusAnswered
  split
  · exact h
  split
  · rename_i status hstatus
    have hasks := asks_reconcileSelection (w := w) (v := { v with
      statusLoading := false, status := some status, statusError := none
      page.root := status.root }) ⟨fun status' hsome => ?_, h.diffs⟩
    · exact ⟨hasks.status, hasks.diffs⟩
    · obtain rfl := Option.some_inj.mp hsome
      exact ⟨n, path, hstatus⟩
  · exact ⟨nofun, h.diffs⟩

theorem asks_diffAnswered (h : v.Asks w) (n : Nat) (call : DiffCall)
    (result : Except String GitDiff) : (v.diffAnswered n call result).Asks w := by
  unfold diffAnswered
  split
  · exact h
  split
  · exact ⟨h.status, h.diffs⟩
  · exact ⟨h.status, h.diffs⟩

theorem asks_step (h : v.Asks w) (hsound : v.disposed = false → v.Sound w)
    (a : ChangesView.Action) : (v.step w a).Asks w := by
  cases a with
  | refresh =>
    unfold step refresh
    dsimp only
    split
    · exact h
    · exact asks_loadStatus h
  | update kind =>
    unfold step update
    dsimp only
    split
    · split
      · exact h
      · exact ⟨nofun, h.diffs⟩
    · exact h
  | setScope scope =>
    unfold step setScope
    dsimp only
    split
    · exact h
    · have hasks := asks_reconcileSelection (w := w)
        (v := { v with scope := scope }.updateFilterButtons) ⟨h.status, h.diffs⟩
      exact ⟨hasks.status, hasks.diffs⟩
  | click i => exact asks_click h hsound i
  | status k =>
    unfold step
    dsimp only
    split
    · exact h
    · exact asks_statusAnswered (v := { v with statusRequest := v.statusRequest.take k })
        ⟨h.status, h.diffs⟩
  | diff k =>
    unfold step
    dsimp only
    split
    · exact h
    · exact asks_diffAnswered (v := { v with diffRequest := v.diffRequest.take k })
        ⟨h.status, fun call hcall => h.diffs call (List.mem_of_mem_eraseIdx hcall)⟩ _ _ _
  | dispose =>
    unfold step dispose
    dsimp only
    split
    · exact h
    · exact ⟨h.status, h.diffs⟩

theorem asked_of_reach (h : (ChangesView.machine w).Reach ChangesView.Start v) : v.Asks w := by
  refine h.invariant ?_ ?_
  · rintro s ⟨kind, rfl⟩
    exact ⟨nofun, nofun⟩
  · intro s a hreach ih _
    exact asks_step ih (sound_of_reach hreach) a

/-- The checks of a diff pass for an entry of a status of git. -/
theorem validateRequest_ok (git : GitWorld) {status : GitStatus} {change : GitChange}
    (hroot : validateRoot status.root = .ok ()) (hvalid : change.Valid) (scope : GitScope) :
    git.validateRequest (gitDiffRequest status scope change) = .ok () := by
  obtain ⟨hpath, horiginal⟩ := hvalid
  unfold GitWorld.validateRequest gitDiffRequest
  dsimp only
  rw [hroot, hpath]
  cases hsource : gitDiffSource change scope with
  | none => rfl
  | some original =>
    have hsame : change.originalPath = some original := by
      unfold gitDiffSource at hsource
      exact (Option.ite_none_right_eq_some.mp hsource).2
    simp only [horiginal original hsame]
    rfl

end AskedLemmas

open AskedLemmas ChangesView in
/-- A diff that is under way is of an entry that git has listed, in the scope of the list. It passes
the checks of `git.rs`, and is not of the kind that `git.rs` answers without git. -/
theorem changes_asked {w : ChangesWorld} (hw : GitAnswers w) {v : ChangesView}
    (h : (ChangesView.machine w).Reach ChangesView.Start v) :
    ∀ call ∈ v.diffRequest.calls, FromStatus w call.2 ∧
      (∀ git : GitWorld, git.validateRequest call.2.request = .ok ()) ∧
      ¬ (call.2.request.untracked = true ∧ call.2.request.scope = .staged) := by
  intro call hcall
  obtain ⟨status, scope, ⟨n, path, hstatus⟩, hentry, hmatch, hrequest⟩ :=
    (asked_of_reach h).diffs call hcall
  obtain ⟨git, distro, queries, hrun⟩ := hw.status n path status hstatus
  refine ⟨⟨status, scope, ⟨n, path, hstatus⟩, hentry, hmatch, hrequest⟩, fun git' => ?_, ?_⟩
  · rw [hrequest]
    exact validateRequest_ok git' (hw.root n path status hstatus)
      (valid_of_status hrun _ hentry) scope
  · rw [hrequest]
    rintro ⟨huntracked, hstaged⟩
    change call.2.change.untracked = true at huntracked
    change scope = .staged at hstaged
    rw [hstaged, changeMatchesScope, huntracked] at hmatch
    cases hmatch

/-- One repository, which has one untracked file. -/
def untrackedWorld : ChangesWorld where
  status _ path := if path = "/r" then .ok untrackedStatus else .error "no repository"
  diff _ _ := .ok ⟨"", false⟩

theorem gitAnswers_untracked : GitAnswers untrackedWorld := by
  have hone {n : Nat} {path : String} {status : GitStatus}
      (h : untrackedWorld.status n path = .ok status) :
      path = "/r" ∧ status = untrackedStatus := by
    unfold untrackedWorld at h
    dsimp only at h
    split at h
    · rename_i hpath
      exact ⟨hpath, (Except.ok.inj h).symm⟩
    · cases h
  refine ⟨fun n path status h => ?_, fun n path status h => ?_⟩
  · obtain ⟨rfl, rfl⟩ := hone h
    refine ⟨GitReadLemmas.answering [Utf8.bytes "false\n", Utf8.bytes "/r\n",
      GitReadLemmas.untrackedReport], none, _, GitReadLemmas.eq_of_fst ?_⟩
    decide +kernel
  · obtain ⟨-, rfl⟩ := hone h
    decide +kernel

/-- The file is selected. -/
def untrackedView : ChangesView :=
  (ChangesView.machine untrackedWorld).run (.mount (.changesViewer "/r")) [.status 0, .click 0]

theorem changes_asked_untracked :
    (untrackedView.diffRequest.calls.map fun call => call.2.request.path) = ["a"] ∧
    ∀ call ∈ untrackedView.diffRequest.calls, ∀ git : GitWorld,
      git.validateRequest call.2.request = .ok () := by
  have hstart : (ChangesView.machine untrackedWorld).Reach ChangesView.Start
      (.mount (.changesViewer "/r")) := .init ⟨_, rfl⟩
  have hreach := hstart.of_trace [.status 0, .click 0] ⟨trivial, trivial, trivial⟩
  exact ⟨by decide +kernel, fun call hcall =>
    (changes_asked gitAnswers_untracked hreach call hcall).2.1⟩

end Mast
