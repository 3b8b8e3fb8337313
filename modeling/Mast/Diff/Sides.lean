import Mast.Diff
import Mast.Lib.Lines

/-!
# The two sides of a diff

What is shown, line by line: the runs of a side are lines again, and the two sides are the
columns of one table. A row has the same line on both sides, or a line or a gap on each.

Results:
1. `shows_appendRun`: merging texts into runs loses no line.
2. `shows_renderComparison`: the rows of a patch are what is shown.
3. `shared_patchRows`, `old_patchRows`, `new_patchRows`: the columns are the lines of the
   patch.
4. `text_renderUnified`: the unified text is the lines as they are.
-/

namespace Mast.Diff

open Lines

/-- The lines of a side, with their tones. -/
def runLines (runs : List DiffRun) : List (DiffTone × Text) :=
  runs.flatMap fun run => (lines '\n' run.text).map fun line => (run.tone, line)

/-- The text of a side. -/
def runText (runs : List DiffRun) : Text := (runs.map DiffRun.text).flatten

/-! ## Patches -/

def BodyEntry.lines (e : BodyEntry) : List Text := e.raw :: e.markers

/-- The lines of the diff. -/
def Event.lines : Event → List Text
  | .metadata raw => [raw]
  | .hunk header entries => header :: entries.flatMap BodyEntry.lines

def EntryKind.tone : EntryKind → DiffTone
  | context => .context
  | added => .added
  | removed => .removed

/-- An entry as it is shown: its markers have the tone of context. -/
def BodyEntry.shown (e : BodyEntry) : List (DiffTone × Text) :=
  (e.kind.tone, e.raw) :: e.markers.map fun marker => (.context, marker)

/-- The lines of an event that are shown for entries of some kinds. -/
def Event.shown (kinds : EntryKind → Bool) : Event → List (DiffTone × Text)
  | .metadata raw => [(.metadata, raw)]
  | .hunk header entries =>
    (.metadata, header) :: (entries.filter fun e => kinds e.kind).flatMap BodyEntry.shown

/-- The kinds of lines that are on both sides. -/
def EntryKind.isShared (kind : EntryKind) : Bool := kind = .context

def EntryKind.isOld (kind : EntryKind) : Bool := kind ≠ .added

def EntryKind.isNew (kind : EntryKind) : Bool := kind ≠ .removed

/-! ## Rows -/

inductive Row
  | both (tone : DiffTone) (line : Text)
  | split (old new : Option (DiffTone × Text))
deriving DecidableEq, Repr

def gapLine : DiffTone × Text := (.gap, ['\n'])

def Row.left : Row → DiffTone × Text
  | both tone line => (tone, line)
  | split old _ => old.getD gapLine

def Row.right : Row → DiffTone × Text
  | both tone line => (tone, line)
  | split _ new => new.getD gapLine

/-- The line that is on both sides of a row. -/
def Row.shared? : Row → Option (DiffTone × Text)
  | both tone line => some (tone, line)
  | split _ _ => none

/-- Markers of changed lines, side by side. -/
def markerRows : List Text → List Text → List Row
  | [], new => new.map fun marker => .split none (some (.context, marker))
  | marker :: old, [] => .split (some (.context, marker)) none :: markerRows old []
  | marker :: old, marker' :: new =>
    .split (some (.context, marker)) (some (.context, marker')) :: markerRows old new

def markersOf (e : Option BodyEntry) : List Text := (e.map BodyEntry.markers).getD []

/-- Two changed lines, side by side. -/
def entryRows (old new : Option BodyEntry) : List Row :=
  .split (old.map fun e => (.removed, e.raw)) (new.map fun e => (.added, e.raw)) ::
    markerRows (markersOf old) (markersOf new)

def blockRows : List BodyEntry → List BodyEntry → List Row
  | [], added => added.flatMap fun new => entryRows none (some new)
  | old :: removed, [] => entryRows (some old) none ++ blockRows removed []
  | old :: removed, new :: added => entryRows (some old) (some new) ++ blockRows removed added

def changeRows (changes : List BodyEntry) : List Row :=
  blockRows (changes.filter fun e => e.kind = .removed) (changes.filter fun e => e.kind = .added)

def hunkRows (changes : List BodyEntry) : List BodyEntry → List Row
  | [] => changeRows changes
  | e :: rest =>
    if e.kind = .context then
      changeRows changes ++ (e.lines.map (Row.both .context) ++ hunkRows [] rest)
    else hunkRows (changes ++ [e]) rest

def eventRows : Event → List Row
  | .metadata raw => [.both .metadata raw]
  | .hunk header entries => .both .metadata header :: hunkRows [] entries

def patchRows (patch : List Event) : List Row := patch.flatMap eventRows

namespace SidesLemmas

variable {runs : List DiffRun} {out : List (DiffTone × Text)} {ls : List Text} {line : Text}
  {tone : DiffTone} {s : Sides} {rows : List Row} {e : BodyEntry} {old new : Option BodyEntry}
  {entries changes : List BodyEntry} {patch : List Event}

/-! ## Runs -/

/-- The runs are made of whole lines, and these are the lines. -/
structure Shows (runs : List DiffRun) (out : List (DiffTone × Text)) : Prop where
  whole : ∀ run ∈ runs, ∃ ls : List Text, (∀ line ∈ ls, IsLine '\n' line) ∧ run.text = ls.flatten
  shown : runLines runs = out

theorem shows_nil : Shows [] [] := ⟨nofun, rfl⟩

/-- Merging texts into runs loses no line. -/
theorem shows_appendRun (h : Shows runs out) (hls : ∀ line ∈ ls, IsLine '\n' line)
    (tone : DiffTone) :
    Shows (appendRun runs tone ls.flatten) (out ++ ls.map fun line => (tone, line)) := by
  obtain ⟨hwhole, rfl⟩ := h
  have hpush : Shows (runs ++ [⟨tone, ls.flatten⟩])
      (runLines runs ++ ls.map fun line => (tone, line)) := by
    constructor
    · intro run hrun
      rcases List.mem_append.mp hrun with hrun | hrun
      · exact hwhole run hrun
      · rw [List.mem_singleton.mp hrun]
        exact ⟨ls, hls, rfl⟩
    · rw [runLines, List.flatMap_append, List.flatMap_singleton, lines_of_flatten hls]
      rfl
  unfold appendRun
  split
  · next hempty =>
    have hnil : ls = [] := by
      rw [← lines_of_flatten hls, hempty]
      rfl
    rw [hnil, List.map_nil, List.append_nil]
    exact ⟨hwhole, rfl⟩
  split
  · next previous hlast =>
    split
    · next htone =>
      obtain ⟨front, rfl⟩ := List.getLast?_eq_some_iff.mp hlast
      obtain ⟨done, hdone, htext⟩ := hwhole previous (by simp)
      have hboth : ∀ line ∈ done ++ ls, IsLine '\n' line := by
        intro line hline
        rcases List.mem_append.mp hline with hline | hline
        · exact hdone line hline
        · exact hls line hline
      have hmerged : previous.text ++ ls.flatten = (done ++ ls).flatten := by
        rw [htext, List.flatten_append]
      rw [List.dropLast_concat]
      constructor
      · intro run hrun
        rcases List.mem_append.mp hrun with hrun | hrun
        · exact hwhole run (List.mem_append_left _ hrun)
        · rw [List.mem_singleton.mp hrun]
          exact ⟨done ++ ls, hboth, hmerged⟩
      · rw [runLines, List.flatMap_append, List.flatMap_singleton, runLines, List.flatMap_append,
          List.flatMap_singleton, hmerged, lines_of_flatten hboth, htext, lines_of_flatten hdone,
          List.map_append, List.append_assoc, htone]
    · exact hpush
  · exact hpush

theorem shows_appendLine (h : Shows runs out) (hline : IsLine '\n' line) (tone : DiffTone) :
    Shows (appendRun runs tone line) (out ++ [(tone, line)]) := by
  have hone : ∀ l ∈ [line], IsLine '\n' l := fun l hl => List.mem_singleton.mp hl ▸ hline
  simpa using shows_appendRun h hone tone

theorem isLine_gap : IsLine '\n' ['\n'] := ⟨[], List.not_mem_nil, rfl⟩

theorem shows_appendGap (h : Shows runs out) (n : Nat) :
    Shows (appendRun runs .gap (List.replicate n '\n')) (out ++ List.replicate n gapLine) := by
  have hls : ∀ line ∈ List.replicate n ['\n'], IsLine '\n' line :=
    fun line hline => (List.eq_of_mem_replicate hline) ▸ isLine_gap
  simpa [gapLine] using shows_appendRun h hls .gap

/-! ## Rows as they are rendered -/

/-- The sides are the columns of the rows. -/
structure Columns (s : Sides) (rows : List Row) : Prop where
  before : Shows s.before (rows.map Row.left)
  after : Shows s.after (rows.map Row.right)

/-- The lines of an entry are whole. -/
def Whole (e : BodyEntry) : Prop := ∀ line ∈ e.lines, IsLine '\n' line

theorem shows_foldl_before (h : Shows s.before out) (hls : ∀ line ∈ ls, IsLine '\n' line) :
    Shows (ls.foldl (·.appendBefore .context ·) s).before
      (out ++ ls.map fun line => (.context, line)) ∧
      (ls.foldl (·.appendBefore .context ·) s).after = s.after := by
  induction ls generalizing s out with
  | nil =>
    rw [List.map_nil, List.append_nil]
    exact ⟨h, rfl⟩
  | cons line ls ih =>
    obtain ⟨hline, hrest⟩ := List.forall_mem_cons.mp hls
    obtain ⟨hbefore, hafter⟩ :=
      ih (s := s.appendBefore .context line) (shows_appendLine h hline .context) hrest
    refine ⟨?_, hafter⟩
    rw [List.map_cons, List.append_cons]
    exact hbefore

theorem shows_foldl_after (h : Shows s.after out) (hls : ∀ line ∈ ls, IsLine '\n' line) :
    Shows (ls.foldl (·.appendAfter .context ·) s).after
      (out ++ ls.map fun line => (.context, line)) ∧
      (ls.foldl (·.appendAfter .context ·) s).before = s.before := by
  induction ls generalizing s out with
  | nil =>
    rw [List.map_nil, List.append_nil]
    exact ⟨h, rfl⟩
  | cons line ls ih =>
    obtain ⟨hline, hrest⟩ := List.forall_mem_cons.mp hls
    obtain ⟨hafter, hbefore⟩ :=
      ih (s := s.appendAfter .context line) (shows_appendLine h hline .context) hrest
    refine ⟨?_, hbefore⟩
    rw [List.map_cons, List.append_cons]
    exact hafter

theorem left_markerRows (old new : List Text) : (markerRows old new).map Row.left =
    (old.map fun m => (.context, m)) ++ List.replicate (new.length - old.length) gapLine := by
  induction old generalizing new with
  | nil => simp [markerRows, Row.left, Function.comp_def]
  | cons marker old ih => cases new <;> simp [markerRows, Row.left, ih]

theorem right_markerRows (old new : List Text) : (markerRows old new).map Row.right =
    (new.map fun m => (.context, m)) ++ List.replicate (old.length - new.length) gapLine := by
  induction old generalizing new with
  | nil => simp [markerRows, Row.right, Function.comp_def]
  | cons marker old ih => cases new <;> simp [markerRows, Row.right, ih, List.replicate_succ]

theorem shows_old (h : Shows s.before out) (he : Whole e) :
    Shows (e.markers.foldl (·.appendBefore .context ·) (s.appendBefore .removed e.raw)).before
      (out ++ (.removed, e.raw) :: e.markers.map fun marker => (.context, marker)) ∧
      (e.markers.foldl (·.appendBefore .context ·) (s.appendBefore .removed e.raw)).after =
        s.after := by
  obtain ⟨hraw, hmarkers⟩ := List.forall_mem_cons.mp he
  obtain ⟨hbefore, hafter⟩ := shows_foldl_before (s := s.appendBefore .removed e.raw)
    (shows_appendLine h hraw .removed) hmarkers
  refine ⟨?_, hafter⟩
  rw [List.append_cons]
  exact hbefore

theorem shows_new (h : Shows s.after out) (he : Whole e) :
    Shows (e.markers.foldl (·.appendAfter .context ·) (s.appendAfter .added e.raw)).after
      (out ++ (.added, e.raw) :: e.markers.map fun marker => (.context, marker)) ∧
      (e.markers.foldl (·.appendAfter .context ·) (s.appendAfter .added e.raw)).before =
        s.before := by
  obtain ⟨hraw, hmarkers⟩ := List.forall_mem_cons.mp he
  obtain ⟨hafter, hbefore⟩ := shows_foldl_after (s := s.appendAfter .added e.raw)
    (shows_appendLine h hraw .added) hmarkers
  refine ⟨?_, hbefore⟩
  rw [List.append_cons]
  exact hafter

/-- The side with fewer markers gets the gaps that it lacks. -/
theorem columns_pad (left right : Option (DiffTone × Text)) (oldMarkers newMarkers : List Text)
    (hbefore : Shows s.before (rows.map Row.left ++
      left.getD gapLine :: oldMarkers.map fun marker => (.context, marker)))
    (hafter : Shows s.after (rows.map Row.right ++
      right.getD gapLine :: newMarkers.map fun marker => (.context, marker))) :
    Columns
      (if newMarkers.length < oldMarkers.length then
        s.appendAfter .gap (List.replicate (oldMarkers.length - newMarkers.length) '\n')
      else if oldMarkers.length < newMarkers.length then
        s.appendBefore .gap (List.replicate (newMarkers.length - oldMarkers.length) '\n')
      else s)
      (rows ++ .split left right :: markerRows oldMarkers newMarkers) := by
  have hleft : (rows ++ .split left right :: markerRows oldMarkers newMarkers).map Row.left =
      rows.map Row.left ++ (left.getD gapLine :: oldMarkers.map fun m => (.context, m)) ++
        List.replicate (newMarkers.length - oldMarkers.length) gapLine := by
    rw [List.map_append, List.map_cons, left_markerRows, List.append_assoc]
    rfl
  have hright : (rows ++ .split left right :: markerRows oldMarkers newMarkers).map Row.right =
      rows.map Row.right ++ (right.getD gapLine :: newMarkers.map fun m => (.context, m)) ++
        List.replicate (oldMarkers.length - newMarkers.length) gapLine := by
    rw [List.map_append, List.map_cons, right_markerRows, List.append_assoc]
    rfl
  have hkept {m n : Nat} (h : m ≤ n) (out : List (DiffTone × Text)) :
      out ++ List.replicate (m - n) gapLine = out := by
    rw [Nat.sub_eq_zero_of_le h, List.replicate_zero, List.append_nil]
  split
  · next hlt =>
    refine ⟨?_, ?_⟩
    · rw [hleft, hkept (Nat.le_of_lt hlt)]
      exact hbefore
    · rw [hright]
      exact shows_appendGap hafter _
  next hle =>
  split
  · next hlt =>
    refine ⟨?_, ?_⟩
    · rw [hleft]
      exact shows_appendGap hbefore _
    · rw [hright, hkept (Nat.le_of_lt hlt)]
      exact hafter
  · next hge =>
    refine ⟨?_, ?_⟩
    · rw [hleft, hkept (Nat.not_lt.mp hge)]
      exact hbefore
    · rw [hright, hkept (Nat.not_lt.mp hle)]
      exact hafter

theorem columns_renderRow (h : Columns s rows) (hold : ∀ e ∈ old, Whole e)
    (hnew : ∀ e ∈ new, Whole e) : Columns (s.renderRow old new) (rows ++ entryRows old new) := by
  cases old with
  | none =>
    have hgap := shows_appendLine h.before isLine_gap .gap
    cases new with
    | none => exact columns_pad none none [] [] hgap (shows_appendLine h.after isLine_gap .gap)
    | some new =>
      obtain ⟨hafter, hkept⟩ :=
        shows_new (s := s.appendBefore .gap ['\n']) h.after (hnew new rfl)
      exact columns_pad none (some (.added, new.raw)) [] new.markers (hkept ▸ hgap) hafter
  | some old =>
    obtain ⟨hbefore, hkept⟩ := shows_old h.before (hold old rfl)
    have hafter := h.after
    rw [← hkept] at hafter
    cases new with
    | none =>
      exact columns_pad (some (.removed, old.raw)) none old.markers [] hbefore
        (shows_appendLine hafter isLine_gap .gap)
    | some new =>
      obtain ⟨hnext, hkept'⟩ := shows_new hafter (hnew new rfl)
      exact columns_pad (some (.removed, old.raw)) (some (.added, new.raw)) old.markers new.markers
        (hkept' ▸ hbefore) hnext

theorem columns_foldl_new (h : Columns s rows) (hentries : ∀ e ∈ entries, Whole e) :
    Columns (entries.foldl (fun s new => s.renderRow none (some new)) s)
      (rows ++ entries.flatMap fun new => entryRows none (some new)) := by
  induction entries generalizing s rows with
  | nil =>
    rw [List.flatMap_nil, List.append_nil]
    exact h
  | cons new entries ih =>
    obtain ⟨hnew, hrest⟩ := List.forall_mem_cons.mp hentries
    rw [List.flatMap_cons, ← List.append_assoc]
    exact ih (columns_renderRow h nofun (by rintro _ ⟨⟩; exact hnew)) hrest

theorem columns_renderRows {removed added : List BodyEntry} (h : Columns s rows)
    (hremoved : ∀ e ∈ removed, Whole e) (hadded : ∀ e ∈ added, Whole e) :
    Columns (s.renderRows removed added) (rows ++ blockRows removed added) := by
  induction removed generalizing added s rows with
  | nil => exact columns_foldl_new h hadded
  | cons old removed ih =>
    obtain ⟨hold, hremoved⟩ := List.forall_mem_cons.mp hremoved
    cases added with
    | nil =>
      rw [blockRows, ← List.append_assoc]
      exact ih (columns_renderRow h (by rintro _ ⟨⟩; exact hold) nofun) hremoved hadded
    | cons new added =>
      obtain ⟨hnew, hadded⟩ := List.forall_mem_cons.mp hadded
      rw [blockRows, ← List.append_assoc]
      exact ih (columns_renderRow h (by rintro _ ⟨⟩; exact hold) (by rintro _ ⟨⟩; exact hnew))
        hremoved hadded

theorem columns_renderChangeBlock (h : Columns s rows) (hchanges : ∀ e ∈ changes, Whole e) :
    Columns (s.renderChangeBlock changes) (rows ++ changeRows changes) :=
  columns_renderRows h (fun e he => hchanges e (List.mem_filter.mp he).1)
    fun e he => hchanges e (List.mem_filter.mp he).1

theorem columns_appendBoth (h : Columns s rows) (hline : IsLine '\n' line) :
    Columns (s.appendBoth tone line) (rows ++ [.both tone line]) := by
  refine ⟨?_, ?_⟩
  · rw [List.map_append]
    exact shows_appendLine h.before hline tone
  · rw [List.map_append]
    exact shows_appendLine h.after hline tone

theorem columns_foldl_both (h : Columns s rows) (hls : ∀ line ∈ ls, IsLine '\n' line) :
    Columns (ls.foldl (·.appendBoth tone ·) s) (rows ++ ls.map (Row.both tone)) := by
  induction ls generalizing s rows with
  | nil =>
    rw [List.map_nil, List.append_nil]
    exact h
  | cons line ls ih =>
    obtain ⟨hline, hrest⟩ := List.forall_mem_cons.mp hls
    rw [List.map_cons, List.append_cons]
    exact ih (columns_appendBoth h hline) hrest

theorem columns_renderEntries (h : Columns s rows) (hchanges : ∀ e ∈ changes, Whole e)
    (hentries : ∀ e ∈ entries, Whole e) :
    Columns (s.renderEntries changes entries) (rows ++ hunkRows changes entries) := by
  induction entries generalizing changes s rows with
  | nil => exact columns_renderChangeBlock h hchanges
  | cons e entries ih =>
    obtain ⟨he, hrest⟩ := List.forall_mem_cons.mp hentries
    rw [Sides.renderEntries, hunkRows]
    split
    · rw [← List.append_assoc, ← List.append_assoc]
      exact ih (columns_foldl_both (columns_renderChangeBlock h hchanges) he) nofun hrest
    · refine ih h ?_ hrest
      intro e' he'
      rcases List.mem_append.mp he' with he' | he'
      · exact hchanges e' he'
      · exact List.mem_singleton.mp he' ▸ he

theorem columns_renderEvent {event : Event} (h : Columns s rows)
    (hlines : ∀ line ∈ event.lines, IsLine '\n' line) :
    Columns (s.renderEvent event) (rows ++ eventRows event) := by
  cases event with
  | metadata raw => exact columns_appendBoth h (hlines raw (List.mem_singleton.mpr rfl))
  | hunk header entries =>
    obtain ⟨hheader, hentries⟩ := List.forall_mem_cons.mp hlines
    rw [eventRows, List.append_cons]
    refine columns_renderEntries (columns_appendBoth h hheader) nofun fun e he line hline => ?_
    exact hentries line (List.mem_flatMap.mpr ⟨e, he, hline⟩)

theorem columns_foldl_renderEvent (h : Columns s rows)
    (hlines : ∀ line ∈ patch.flatMap Event.lines, IsLine '\n' line) :
    Columns (patch.foldl Sides.renderEvent s) (rows ++ patchRows patch) := by
  induction patch generalizing s rows with
  | nil =>
    rw [patchRows, List.flatMap_nil, List.append_nil]
    exact h
  | cons event patch ih =>
    rw [List.flatMap_cons] at hlines
    rw [patchRows, List.flatMap_cons, ← List.append_assoc]
    exact ih (columns_renderEvent h fun line hline => hlines line (List.mem_append_left _ hline))
      fun line hline => hlines line (List.mem_append_right _ hline)

/-- The rows of a patch are what is shown. -/
theorem shows_renderComparison (hlines : ∀ line ∈ patch.flatMap Event.lines, IsLine '\n' line) :
    Columns (renderComparison patch) (patchRows patch) :=
  have hstart : Columns ⟨[], []⟩ [] := ⟨shows_nil, shows_nil⟩
  columns_foldl_renderEvent hstart hlines

/-! ## What the columns are -/

/-- Not a gap. -/
def solid (row : DiffTone × Text) : Bool := row.1 ≠ .gap

theorem filter_gaps (n : Nat) : (List.replicate n gapLine).filter solid = [] := by
  rw [List.filter_replicate]
  rfl

theorem filter_markers (markers : List Text) :
    (markers.map fun marker => ((.context, marker) : DiffTone × Text)).filter solid =
      markers.map fun marker => (.context, marker) :=
  List.filter_eq_self.mpr fun row hrow => by
    obtain ⟨marker, -, rfl⟩ := List.mem_map.mp hrow
    rfl

theorem shared_markerRows (old new : List Text) :
    (markerRows old new).filterMap Row.shared? = [] := by
  induction old generalizing new with
  | nil => simp [markerRows, Row.shared?]
  | cons marker old ih => cases new <;> exact (List.filterMap_cons_none rfl).trans (ih _)

theorem shared_entryRows (old new : Option BodyEntry) :
    (entryRows old new).filterMap Row.shared? = [] :=
  shared_markerRows _ _

theorem shared_blockRows (removed added : List BodyEntry) :
    (blockRows removed added).filterMap Row.shared? = [] := by
  induction removed generalizing added with
  | nil =>
    rw [blockRows, List.filterMap_flatMap]
    simp [shared_entryRows]
  | cons old removed ih =>
    cases added <;> rw [blockRows, List.filterMap_append, shared_entryRows, ih, List.append_nil]

theorem old_entryRows (old new : Option BodyEntry) :
    ((entryRows old new).map Row.left).filter solid =
    old.elim [] fun e => (.removed, e.raw) :: e.markers.map fun marker => (.context, marker) := by
  rw [entryRows, List.map_cons, left_markerRows, List.filter_cons, List.filter_append,
    filter_gaps, filter_markers, List.append_nil]
  cases old <;> rfl

theorem new_entryRows (old new : Option BodyEntry) :
    ((entryRows old new).map Row.right).filter solid =
      new.elim [] fun e => (.added, e.raw) :: e.markers.map fun marker => (.context, marker) := by
  rw [entryRows, List.map_cons, right_markerRows, List.filter_cons, List.filter_append,
    filter_gaps, filter_markers, List.append_nil]
  cases new <;> rfl

theorem old_blockRows {removed : List BodyEntry} (hkinds : ∀ e ∈ removed, e.kind = .removed)
    (added : List BodyEntry) :
    ((blockRows removed added).map Row.left).filter solid = removed.flatMap BodyEntry.shown := by
  induction removed generalizing added with
  | nil =>
    induction added with
    | nil => rfl
    | cons new added ih =>
      rw [blockRows] at ih ⊢
      rw [List.flatMap_cons, List.map_append, List.filter_append, old_entryRows, ih]
      rfl
  | cons old removed ih =>
    obtain ⟨hold, hrest⟩ := List.forall_mem_cons.mp hkinds
    cases added <;>
      rw [blockRows, List.map_append, List.filter_append, old_entryRows, ih hrest,
        List.flatMap_cons, BodyEntry.shown, hold] <;> rfl

theorem new_blockRows (removed : List BodyEntry) {added : List BodyEntry}
    (hkinds : ∀ e ∈ added, e.kind = .added) :
    ((blockRows removed added).map Row.right).filter solid = added.flatMap BodyEntry.shown := by
  induction removed generalizing added with
  | nil =>
    rw [blockRows]
    induction added with
    | nil => rfl
    | cons new added ih =>
      obtain ⟨hnew, hrest⟩ := List.forall_mem_cons.mp hkinds
      rw [List.flatMap_cons, List.map_append, List.filter_append, new_entryRows, ih hrest,
        List.flatMap_cons, BodyEntry.shown, hnew]
      rfl
  | cons old removed ih =>
    cases added with
    | nil =>
      rw [blockRows, List.map_append, List.filter_append, new_entryRows, ih hkinds]
      rfl
    | cons new added =>
      obtain ⟨hnew, hrest⟩ := List.forall_mem_cons.mp hkinds
      rw [blockRows, List.map_append, List.filter_append, new_entryRows, ih hrest,
        List.flatMap_cons, BodyEntry.shown, hnew]
      rfl

theorem kind_of_mem_filter {kind : EntryKind} (he : e ∈ changes.filter fun e => e.kind = kind) :
    e.kind = kind :=
  of_decide_eq_true (List.mem_filter.mp he).2

section View

variable {view : Row → Option (DiffTone × Text)} {kinds : EntryKind → Bool}
  (hboth : ∀ tone line, tone ≠ .gap → view (.both tone line) = some (tone, line))
  (hcontext : kinds .context = true)
  (hchanged : ∀ changes : List BodyEntry, (∀ e ∈ changes, e.kind ≠ .context) →
    (changeRows changes).filterMap view =
      (changes.filter fun e => kinds e.kind).flatMap BodyEntry.shown)

include hboth hcontext hchanged

/-- Changed lines wait behind no context line. -/
theorem view_hunkRows (hchanges : ∀ e ∈ changes, e.kind ≠ .context) (entries : List BodyEntry) :
    (hunkRows changes entries).filterMap view =
      ((changes ++ entries).filter fun e => kinds e.kind).flatMap BodyEntry.shown := by
  induction entries generalizing changes with
  | nil => rw [hunkRows, hchanged changes hchanges, List.append_nil]
  | cons e entries ih =>
    rw [hunkRows]
    split
    · next hkind =>
      have hrest := @ih [] nofun
      have hkeep : kinds e.kind = true := hkind ▸ hcontext
      have hlines : (e.lines.map (Row.both .context)).filterMap view = e.shown := by
        rw [List.filterMap_map, BodyEntry.shown, hkind]
        simp [BodyEntry.lines, hboth, EntryKind.tone]
      rw [List.nil_append] at hrest
      rw [List.filterMap_append, List.filterMap_append, hchanged changes hchanges, hlines, hrest,
        List.filter_append, List.flatMap_append, List.filter_cons, if_pos hkeep, List.flatMap_cons]
    · next hkind =>
      rw [ih, List.append_assoc, List.singleton_append]
      intro e' he'
      rcases List.mem_append.mp he' with he' | he'
      · exact hchanges e' he'
      · exact List.mem_singleton.mp he' ▸ hkind

theorem view_patchRows (patch : List Event) :
    (patchRows patch).filterMap view = patch.flatMap (Event.shown kinds) := by
  have hmetadata (line : Text) := hboth .metadata line nofun
  rw [patchRows, List.filterMap_flatMap]
  refine List.flatMap_congr fun event _ => ?_
  cases event with
  | metadata raw =>
    rw [eventRows, List.filterMap_cons_some (hmetadata raw)]
    rfl
  | hunk header entries =>
    have hrows : (hunkRows [] entries).filterMap view = _ :=
      view_hunkRows hboth hcontext hchanged (List.forall_mem_nil _) entries
    rw [eventRows, List.filterMap_cons_some (hmetadata header)]
    exact congrArg (_ :: ·) hrows

end View

/-- The lines on both sides are the shared lines of the patch. -/
theorem shared_patchRows (patch : List Event) : (patchRows patch).filterMap Row.shared? =
    patch.flatMap (Event.shown EntryKind.isShared) := by
  refine view_patchRows (fun _ _ _ => rfl) rfl (fun changes hchanges => ?_) patch
  have hnone : (changes.filter fun e => e.kind.isShared) = [] :=
    List.filter_eq_nil_iff.mpr fun e he => by simpa [EntryKind.isShared] using hchanges e he
  rw [changeRows, shared_blockRows, hnone, List.flatMap_nil]

/-- The lines of one side but its gaps. -/
theorem filter_side (side : Row → DiffTone × Text) (rows : List Row) :
    (rows.map side).filter solid = rows.filterMap fun row => Option.guard solid (side row) := by
  rw [← List.filterMap_eq_filter, List.filterMap_map]
  rfl

theorem old_patchRows (patch : List Event) : ((patchRows patch).map Row.left).filter solid =
    patch.flatMap (Event.shown EntryKind.isOld) := by
  rw [filter_side]
  refine view_patchRows (fun tone line hsolid => ?_) rfl (fun changes hchanges => ?_) patch
  · exact Option.guard_pos (decide_eq_true hsolid)
  · rw [← filter_side, changeRows, old_blockRows fun e he => kind_of_mem_filter he]
    congr 1
    refine List.filter_congr fun e he => ?_
    have hkind := hchanges e he
    cases h : e.kind <;> simp_all [EntryKind.isOld]

theorem new_patchRows (patch : List Event) : ((patchRows patch).map Row.right).filter solid =
    patch.flatMap (Event.shown EntryKind.isNew) := by
  rw [filter_side]
  refine view_patchRows (fun tone line hsolid => ?_) rfl (fun changes hchanges => ?_) patch
  · exact Option.guard_pos (decide_eq_true hsolid)
  · rw [← filter_side, changeRows, new_blockRows _ fun e he => kind_of_mem_filter he]
    congr 1
    refine List.filter_congr fun e he => ?_
    have hkind := hchanges e he
    cases h : e.kind <;> simp_all [EntryKind.isNew]

/-! ## The unified text -/

theorem text_appendRun (runs : List DiffRun) (tone : DiffTone) (text : Text) :
    runText (appendRun runs tone text) = runText runs ++ text := by
  have hpush : runText (runs ++ [⟨tone, text⟩]) = runText runs ++ text := by
    simp [runText]
  unfold appendRun
  split
  · next hempty => rw [hempty, List.append_nil]
  split
  · next previous hlast =>
    obtain ⟨front, rfl⟩ := List.getLast?_eq_some_iff.mp hlast
    split
    · simp [runText]
    · exact hpush
  · exact hpush

theorem runs_line (combined : Bool) (s : UnifiedState) (line : SourceLine) :
    ∃ tone, (UnifiedState.line combined s line).runs = appendRun s.runs tone line.raw := by
  unfold UnifiedState.line
  split
  · exact ⟨.metadata, rfl⟩
  repeat' first | exact ⟨.metadata, rfl⟩ | split
  · exact ⟨_, rfl⟩
  · exact ⟨_, rfl⟩

/-- The unified text is the lines as they are. -/
theorem text_renderUnified (ls : List SourceLine) (combined : Bool) :
    runText (renderUnified ls combined) = (ls.map SourceLine.raw).flatten := by
  suffices h : ∀ s, runText (ls.foldl (UnifiedState.line combined) s).runs =
      runText s.runs ++ (ls.map SourceLine.raw).flatten from h _
  induction ls with
  | nil => exact fun s => (List.append_nil _).symm
  | cons line ls ih =>
    intro s
    obtain ⟨tone, htone⟩ := runs_line combined s line
    rw [List.foldl_cons, ih, htone, text_appendRun, List.map_cons, List.flatten_cons,
      List.append_assoc]

end SidesLemmas

end Mast.Diff
