import Mast.Diff.Sides

/-!
# What the parser of a diff has read

The events of the parser are the lines it was given, and the hunks are as long as their headers
say. How many lines of a hunk are due after some lines is found from the lines alone.

Results:
1. `reads_patchLine`, `reads_patchLines`: the parser loses no line and is where the counts say.
2. `no_next_of_bad`: it does not get past a bad line.
3. `reads_parsePatch`: the patch of a parse that is neither malformed nor combined.
-/

namespace Mast.Diff

open Lines

/-! ## Patches that are well formed -/

def BodyEntry.WellFormed (e : BodyEntry) : Prop :=
  bodyKind (bodyOf e.raw) = some (.entry e.kind) ∧ e.markers.length ≤ 1 ∧
    ∀ marker ∈ e.markers, bodyOf marker = noNewlineMarker

/-- So many entries are of some kinds. -/
def countOf (kinds : EntryKind → Bool) (entries : List BodyEntry) : Nat :=
  (entries.filter fun e => kinds e.kind).length

/-- A hunk has exactly the lines that its header states. -/
def Event.WellFormed : Event → Prop
  | .metadata raw =>
    parseHunkHeader (bodyOf raw) = none ∧ (bodyOf raw = [] ∨ isMetadataLine (bodyOf raw) = true)
  | .hunk header entries =>
    parseHunkHeader (bodyOf header) =
      some ⟨countOf EntryKind.isOld entries, countOf EntryKind.isNew entries⟩ ∧
      ∀ e ∈ entries, e.WellFormed

/-! ## The lines that are due -/

/-- The old and the new lines that the last header still asks for, after one more line. -/
def dueStep (due : Nat × Nat) (line : Text) : Nat × Nat :=
  if due = (0, 0) then
    match parseHunkHeader (bodyOf line) with
    | some range => (range.oldCount, range.newCount)
    | none => (0, 0)
  else
    match bodyKind (bodyOf line) with
    | some (.entry kind) => (due.1 - kind.oldIncrement, due.2 - kind.newIncrement)
    | _ => due

/-- The lines due after some lines: none, outside of hunks. -/
def due (ls : List Text) : Nat × Nat := ls.foldl dueStep (0, 0)

/-- A line that no patch has: a broken header outside of hunks, an unknown line in one. -/
def BadLine (due : Nat × Nat) (line : Text) : Prop :=
  due = (0, 0) ∧ "@@".toList <+: bodyOf line ∧ parseHunkHeader (bodyOf line) = none ∨
    due ≠ (0, 0) ∧ bodyKind (bodyOf line) = none

namespace PatchLemmas

variable {s s' : PatchState} {h h' : Hunk} {done ls : List Text} {raw : Text}
  {entries : List BodyEntry} {kind : EntryKind}

/-- A line with its body. -/
def lineOf (raw : Text) : SourceLine := ⟨raw, bodyOf raw⟩

theorem due_snoc (ls : List Text) (raw : Text) : due (ls ++ [raw]) = dueStep (due ls) raw := by
  rw [due, List.foldl_append]
  rfl

theorem countOf_snoc (kinds : EntryKind → Bool) (entries : List BodyEntry) (e : BodyEntry) :
    countOf kinds (entries ++ [e]) = countOf kinds entries + if kinds e.kind then 1 else 0 := by
  unfold countOf
  rw [List.filter_append, List.length_append]
  cases h : kinds e.kind <;> simp [h]

theorem oldIncrement_eq (kind : EntryKind) :
    kind.oldIncrement = if kind.isOld then 1 else 0 := by
  cases kind <;> rfl

theorem newIncrement_eq (kind : EntryKind) :
    kind.newIncrement = if kind.isNew then 1 else 0 := by
  cases kind <;> rfl

theorem marker_iff {body : Text} : bodyKind body = some .marker ↔ body = noNewlineMarker := by
  unfold bodyKind
  split
  · next hbody => exact ⟨fun _ => hbody, fun _ => rfl⟩
  · next hbody =>
    refine ⟨fun hmarker => ?_, fun hmarker => absurd hmarker hbody⟩
    split at hmarker <;> cases hmarker

/-! ## The open hunk -/

def hunkLines (h : Hunk) : List Text := h.header :: h.entries.flatMap BodyEntry.lines

def openLines (hunk : Option Hunk) : List Text := hunk.elim [] hunkLines

structure HunkReads (h : Hunk) : Prop where
  range : parseHunkHeader (bodyOf h.header) = some ⟨h.oldCount, h.newCount⟩
  old : h.oldSeen = countOf EntryKind.isOld h.entries
  new : h.newSeen = countOf EntryKind.isNew h.entries
  oldLe : h.oldSeen ≤ h.oldCount
  newLe : h.newSeen ≤ h.newCount
  entries : ∀ e ∈ h.entries, e.WellFormed

/-- The lines that an open hunk waits for. -/
def remaining (h : Hunk) : Nat × Nat := (h.oldCount - h.oldSeen, h.newCount - h.newSeen)

theorem complete_iff (h : HunkReads h') : h'.complete = true ↔ remaining h' = (0, 0) := by
  have hold := h.oldLe
  have hnew := h.newLe
  rw [Hunk.complete, remaining, Bool.and_eq_true, decide_eq_true_iff, decide_eq_true_iff,
    Prod.mk.injEq]
  omega

/-- A marker is one more line of the last entry. -/
theorem reads_attachMarker (hreads : HunkReads h) (hmarker : bodyOf raw = noNewlineMarker)
    (hattach : h.attachMarker raw = some h') :
    HunkReads h' ∧ hunkLines h' = hunkLines h ++ [raw] ∧ remaining h' = remaining h := by
  unfold Hunk.attachMarker at hattach
  split at hattach
  · cases hattach
  next previous hlast =>
  split at hattach
  · cases hattach
  next hnone =>
  cases hattach
  have hempty : previous.markers = [] := not_not.mp hnone
  obtain ⟨front, hfront⟩ := List.getLast?_eq_some_iff.mp hlast
  obtain ⟨hrange, hold, hnew, holdLe, hnewLe, hentries⟩ := hreads
  rw [hfront] at hold hnew hentries
  rw [hfront, List.dropLast_concat, hempty, List.nil_append]
  refine ⟨⟨hrange, ?_, ?_, holdLe, hnewLe, ?_⟩, ?_, rfl⟩
  · rw [countOf_snoc] at hold ⊢
    exact hold
  · rw [countOf_snoc] at hnew ⊢
    exact hnew
  · intro e he
    rcases List.mem_append.mp he with he | he
    · exact hentries e (List.mem_append_left _ he)
    · rw [List.mem_singleton.mp he]
      obtain ⟨hkind, -, -⟩ := hentries previous (by simp)
      exact ⟨hkind, Nat.le_refl 1, fun m hm => List.mem_singleton.mp hm ▸ hmarker⟩
  · simp [hunkLines, hfront, BodyEntry.lines, hempty]

/-- A counted line is one more entry. -/
theorem reads_entry (hreads : HunkReads h) (hkind : bodyKind (bodyOf raw) = some (.entry kind))
    (hold : h.oldSeen + kind.oldIncrement ≤ h.oldCount)
    (hnew : h.newSeen + kind.newIncrement ≤ h.newCount) :
    HunkReads { h with
      entries := h.entries ++ [⟨kind, raw, []⟩]
      oldSeen := h.oldSeen + kind.oldIncrement
      newSeen := h.newSeen + kind.newIncrement } := by
  refine ⟨hreads.range, ?_, ?_, hold, hnew, ?_⟩
  · rw [countOf_snoc, hreads.old, oldIncrement_eq]
  · rw [countOf_snoc, hreads.new, newIncrement_eq]
  · intro e he
    rcases List.mem_append.mp he with he | he
    · exact hreads.entries e he
    · rw [List.mem_singleton.mp he]
      exact ⟨hkind, Nat.zero_le 1, nofun⟩

/-! ## The parser -/

/-- What the parser has read, where all of it is known. -/
structure Reads (s : PatchState) (done : List Text) : Prop where
  lines : s.events.flatMap Event.lines ++ openLines s.hunk = done
  events : s.unknownOutsideHunk = false → ∀ event ∈ s.events, event.WellFormed
  hunk : ∀ h ∈ s.hunk, HunkReads h
  due : due done = s.hunk.elim (0, 0) remaining

theorem reads_init : Reads PatchState.init [] := ⟨rfl, nofun, nofun, rfl⟩

theorem reads_closeHunk (hreads : Reads s done) (hhunk : s.hunk = some h)
    (hcomplete : h.complete = true) : Reads (s.closeHunk h) done := by
  have hh := hreads.hunk h hhunk
  have hnone := (complete_iff hh).mp hcomplete
  have hdue := hreads.due
  have hlines := hreads.lines
  rw [hhunk] at hdue hlines
  refine ⟨?_, ?_, nofun, hdue.trans hnone⟩
  · rw [← hlines, PatchState.closeHunk, List.flatMap_append, List.flatMap_singleton]
    exact List.append_nil _
  · intro hknown event hevent
    rcases List.mem_append.mp hevent with hevent | hevent
    · exact hreads.events hknown event hevent
    · rw [List.mem_singleton.mp hevent]
      rw [remaining, Prod.mk.injEq] at hnone
      have hold : h.oldCount = h.oldSeen :=
        Nat.le_antisymm (Nat.sub_eq_zero_iff_le.mp hnone.1) hh.oldLe
      have hnew : h.newCount = h.newSeen :=
        Nat.le_antisymm (Nat.sub_eq_zero_iff_le.mp hnone.2) hh.newLe
      refine ⟨?_, hh.entries⟩
      rw [hh.range, hold, hnew, hh.old, hh.new]

theorem reads_outsideLine (hreads : Reads s done) (hhunk : s.hunk = none)
    (hstep : s.outsideLine (lineOf raw) = .next s') : Reads s' (done ++ [raw]) := by
  have hdue := hreads.due
  have hlines := hreads.lines
  rw [hhunk, Option.elim_none] at hdue
  rw [hhunk, openLines, Option.elim_none, List.append_nil] at hlines
  have hsnoc := due_snoc done raw
  rw [dueStep, if_pos hdue] at hsnoc
  unfold PatchState.outsideLine at hstep
  split at hstep
  · cases hstep
  split at hstep
  · next range hrange =>
    cases hstep
    rw [show parseHunkHeader (bodyOf raw) = some range from hrange] at hsnoc
    refine ⟨?_, hreads.events, ?_, hsnoc⟩
    · rw [← hlines]
      rfl
    · rintro _ ⟨⟩
      exact ⟨hrange, rfl, rfl, Nat.zero_le _, Nat.zero_le _, nofun⟩
  next hrange =>
  rw [show parseHunkHeader (bodyOf raw) = none from hrange] at hsnoc
  split at hstep
  · cases hstep
  split at hstep
  · cases hstep
  · cases hstep
    refine ⟨?_, ?_, hreads.hunk, ?_⟩
    · rw [hhunk, ← hlines, List.flatMap_append, List.flatMap_singleton]
      exact List.append_nil _
    · intro hknown event hevent
      obtain ⟨hbefore, hline⟩ := Bool.or_eq_false_iff.mp hknown
      rcases List.mem_append.mp hevent with hevent | hevent
      · exact hreads.events hbefore event hevent
      · rw [List.mem_singleton.mp hevent]
        refine ⟨hrange, ?_⟩
        by_cases hempty : bodyOf raw = []
        · exact .inl hempty
        · simpa [lineOf, hempty] using hline
    · rw [hhunk]
      exact hsnoc

theorem reads_markerLine (hreads : Reads s done) (hhunk : s.hunk = some h)
    (hkind : bodyKind (bodyOf raw) = some .marker)
    (hdue : dueStep (due done) raw = due done)
    (hstep : s.markerLine h raw = .next s') : Reads s' (done ++ [raw]) := by
  unfold PatchState.markerLine at hstep
  split at hstep
  · next h' hattach =>
    cases hstep
    obtain ⟨hh, hlines, hremaining⟩ :=
      reads_attachMarker (hreads.hunk h hhunk) (marker_iff.mp hkind) hattach
    have hbefore := hreads.lines
    have hdone := hreads.due
    rw [hhunk] at hbefore hdone
    refine ⟨?_, hreads.events, by rintro _ ⟨⟩; exact hh, ?_⟩
    · rw [← hbefore, List.append_assoc]
      exact congrArg _ hlines
    · rw [due_snoc, hdue, hdone]
      exact hremaining.symm
  · cases hstep

theorem reads_bodyLine (hreads : Reads s done) (hhunk : s.hunk = some h)
    (hopen : h.complete ≠ true) (hstep : s.bodyLine h (lineOf raw) = .next s') :
    Reads s' (done ++ [raw]) := by
  have hh := hreads.hunk h hhunk
  have hdone := hreads.due
  rw [hhunk, Option.elim_some] at hdone
  have hne : due done ≠ (0, 0) := fun heq => hopen ((complete_iff hh).mpr (hdone.symm.trans heq))
  unfold PatchState.bodyLine at hstep
  split at hstep
  · next hkind =>
    have hdue : dueStep (due done) raw = due done := by
      rw [dueStep, if_neg hne, show bodyKind (bodyOf raw) = some .marker from hkind]
    exact reads_markerLine hreads hhunk hkind hdue hstep
  · cases hstep
  · next kind hkind =>
    split at hstep
    · cases hstep
    next hroom =>
    cases hstep
    rw [not_or, Nat.not_lt, Nat.not_lt] at hroom
    have hbefore := hreads.lines
    rw [hhunk] at hbefore
    refine ⟨?_, hreads.events, by rintro _ ⟨⟩; exact reads_entry hh hkind hroom.1 hroom.2, ?_⟩
    · rw [← hbefore]
      simp [openLines, hunkLines, BodyEntry.lines, lineOf]
    · rw [due_snoc, dueStep, if_neg hne,
        show bodyKind (bodyOf raw) = some (.entry kind) from hkind, hdone]
      simp [remaining, Nat.sub_add_eq]

/-- The parser loses no line and is where the counts say. -/
theorem reads_patchLine (hreads : Reads s done) (hstep : s.patchLine (lineOf raw) = .next s') :
    Reads s' (done ++ [raw]) := by
  unfold PatchState.patchLine at hstep
  split at hstep
  · next hhunk => exact reads_outsideLine hreads hhunk hstep
  next h hhunk =>
  split at hstep
  · next hcomplete =>
    split at hstep
    · next hkind =>
      refine reads_markerLine hreads hhunk hkind ?_ hstep
      have hdone := hreads.due
      have hrange : parseHunkHeader (bodyOf raw) = none := by
        rw [show bodyOf raw = noNewlineMarker from marker_iff.mp hkind]
        rfl
      rw [hhunk, Option.elim_some, (complete_iff (hreads.hunk h hhunk)).mp hcomplete] at hdone
      rw [dueStep, hrange, if_pos hdone, hdone]
    · exact reads_outsideLine (reads_closeHunk hreads hhunk hcomplete) rfl hstep
  · next hopen => exact reads_bodyLine hreads hhunk hopen hstep

theorem reads_patchLines (hreads : Reads s done)
    (hsteps : s.patchLines (ls.map lineOf) = .next s') : Reads s' (done ++ ls) := by
  induction ls generalizing s done with
  | nil =>
    cases hsteps
    rw [List.append_nil]
    exact hreads
  | cons raw ls ih =>
    rw [List.map_cons, PatchState.patchLines] at hsteps
    split at hsteps
    · next hstep =>
      rw [List.append_cons]
      exact ih (reads_patchLine hreads hstep) hsteps
    · next verdict hother => exact absurd hsteps (hother s')

/-- The parser does not get past a bad line. -/
theorem no_next_of_bad (hreads : Reads s done) (hbad : BadLine (due done) raw) :
    s.patchLine (lineOf raw) ≠ .next s' := by
  have hheader {s : PatchState} (hstart : "@@".toList <+: bodyOf raw)
      (hrange : parseHunkHeader (bodyOf raw) = none) : s.outsideLine (lineOf raw) ≠ .next s' := by
    unfold PatchState.outsideLine
    split
    · exact nofun
    rw [show parseHunkHeader (lineOf raw).body = none from hrange]
    dsimp only
    rw [if_pos (show "@@".toList <+: (lineOf raw).body from hstart)]
    exact nofun
  have hdue := hreads.due
  unfold PatchState.patchLine
  split
  · next hhunk =>
    rw [hhunk] at hdue
    rcases hbad with ⟨-, hstart, hrange⟩ | ⟨hne, -⟩
    · exact hheader hstart hrange
    · exact absurd hdue hne
  next h hhunk =>
  rw [hhunk, Option.elim_some] at hdue
  have hcomplete := complete_iff (hreads.hunk h hhunk)
  rcases hbad with ⟨hnone, hstart, hrange⟩ | ⟨hne, hkind⟩
  · rw [if_pos (hcomplete.mpr (hdue ▸ hnone))]
    split
    · next hmarker =>
      rw [show bodyOf raw = noNewlineMarker from marker_iff.mp hmarker] at hstart
      exact absurd hstart (by decide)
    · exact hheader hstart hrange
  · rw [if_neg fun h => hne (hdue.trans (hcomplete.mp h)), PatchState.bodyLine,
      show bodyKind (lineOf raw).body = none from hkind]
    exact nofun

theorem patchLines_append (s : PatchState) (front back : List SourceLine)
    (hsteps : s.patchLines (front ++ back) = .next s') :
    ∃ s₁, s.patchLines front = .next s₁ ∧ s₁.patchLines back = .next s' := by
  induction front generalizing s with
  | nil => exact ⟨s, rfl, hsteps⟩
  | cons line front ih =>
    rw [List.cons_append, PatchState.patchLines] at hsteps
    rw [PatchState.patchLines]
    split at hsteps
    · exact ih _ hsteps
    · next verdict hother => exact absurd hsteps (hother s')

theorem finish_malformed (s : PatchState) : (s.finish true).malformed = true := by
  unfold PatchState.finish
  split
  · rfl
  · split <;> rfl

/-- Behind the last line no hunk is open. -/
theorem reads_finish (hreads : Reads s done) (hfinish : (s.finish false).malformed = false) :
    ∃ s₁, Reads s₁ done ∧ s₁.hunk = none ∧ (s.finish false).events = s₁.events ∧
      (s.finish false).unknownOutsideHunk = s₁.unknownOutsideHunk := by
  unfold PatchState.finish at hfinish ⊢
  split at hfinish
  · next hhunk => exact ⟨s, hreads, hhunk, rfl, rfl⟩
  next h hhunk =>
  dsimp only at hfinish ⊢
  split at hfinish
  · next hcomplete =>
    rw [if_pos hcomplete]
    exact ⟨s.closeHunk h, reads_closeHunk hreads hhunk hcomplete, rfl, rfl, rfl⟩
  · cases hfinish

/-- What is known of a parse that is shown as two sides. -/
theorem reads_parsePatch (hmalformed : (parsePatch (ls.map lineOf)).malformed = false)
    (hcombined : (parsePatch (ls.map lineOf)).combined = false)
    (hknown : (parsePatch (ls.map lineOf)).unknownOutsideHunk = false) :
    (parsePatch (ls.map lineOf)).events.flatMap Event.lines = ls ∧
      (∀ event ∈ (parsePatch (ls.map lineOf)).events, event.WellFormed) ∧
      due ls = (0, 0) ∧
      ∀ front bad back, ls = front ++ bad :: back → ¬ BadLine (due front) bad := by
  unfold parsePatch at hmalformed hcombined hknown ⊢
  cases hsteps : PatchState.init.patchLines (ls.map lineOf) with
  | malformed s =>
    rw [hsteps] at hmalformed
    cases (finish_malformed s).symm.trans hmalformed
  | combined s =>
    rw [hsteps] at hcombined
    cases hcombined
  | next s =>
    rw [hsteps] at hmalformed hknown
    obtain ⟨s₁, hreads, hnone, hevents, hflag⟩ :=
      reads_finish (reads_patchLines reads_init hsteps) hmalformed
    obtain ⟨hlines, hwell, -, hdue⟩ := hreads
    rw [hnone, openLines, Option.elim_none, List.append_nil] at hlines
    rw [hnone] at hdue
    dsimp only at hknown ⊢
    rw [hevents]
    refine ⟨hlines, hwell (hflag ▸ hknown), hdue, fun front bad back hls hbad => ?_⟩
    rw [hls, List.map_append, List.map_cons] at hsteps
    obtain ⟨s₂, hfront, hback⟩ := patchLines_append _ _ _ hsteps
    rw [PatchState.patchLines] at hback
    split at hback
    · next hstep => exact no_next_of_bad (reads_patchLines reads_init hfront) hbad hstep
    · next verdict hother => exact hother s hback

end PatchLemmas

end Mast.Diff
