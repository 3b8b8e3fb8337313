import Mast.Diff.Patch

/-!
# A diff that ends with a line end, presented

Results:
1. `takeLines_eq`: the lines that are shown are the first lines of the text.
2. `compares_of_comparison`: two sides are the columns of one table, made of the lines of a
   well-formed patch.
3. `diff_presented`: with this, what is never shown as two sides, and the unified text.
-/

namespace Mast.Diff

open Lines

/-- The text is the patch, and the presentation shows its lines in the rows. -/
structure Compares (text : Text) (shown : DiffPresentation) (patch : List Event)
    (rows : List Row) : Prop where
  lines : patch.flatMap Event.lines = lines '\n' text
  wellFormed : ∀ event ∈ patch, event.WellFormed
  before : runLines shown.before = rows.map Row.left
  after : runLines shown.after = rows.map Row.right
  old : runLines (shown.before.filter fun run => run.tone ≠ .gap) =
    patch.flatMap (Event.shown EntryKind.isOld)
  new : runLines (shown.after.filter fun run => run.tone ≠ .gap) =
    patch.flatMap (Event.shown EntryKind.isNew)
  length : (runLines shown.before).length = (runLines shown.after).length
  shared : rows.filterMap Row.shared? = patch.flatMap (Event.shown EntryKind.isShared)

namespace PresentedLemmas

open SidesLemmas PatchLemmas

variable {text : Text} {truncated : Bool}

theorem lines_cutLine {text : Text} (h : text ≠ []) :
    lines '\n' text = (cutLine text).1 :: lines '\n' (cutLine text).2 := by
  induction text with
  | nil => exact absurd rfl h
  | cons c text ih =>
    rw [lines, cutLine]
    split
    · rfl
    · cases text with
      | nil => rfl
      | cons d text => rw [ih (List.cons_ne_nil _ _)]

theorem takeLines_eq (n : Nat) (text : Text) :
    takeLines n text = ((lines '\n' text).take n, ((lines '\n' text).drop n).flatten) := by
  induction n generalizing text with
  | zero => rw [takeLines, List.take_zero, List.drop_zero, lines_flatten]
  | succ n ih =>
    cases text with
    | nil => rfl
    | cons c text =>
      rw [lines_cutLine (List.cons_ne_nil c text), List.take_succ_cons, List.drop_succ_cons,
        takeLines.eq_3 _ _ (List.cons_ne_nil c text)]
      dsimp only
      rw [ih]

theorem sourceLines_eq (text : Text) :
    sourceLines text = (((lines '\n' text).take maxDiffLines).map lineOf,
      decide (((lines '\n' text).drop maxDiffLines).flatten ≠ [])) := by
  rw [sourceLines, takeLines_eq]
  rfl

/-- A text that is cut short is not shown as two sides. -/
theorem mustUseUnified_false {ls : List SourceLine} {parsed : ParsedPatch} {capped : Bool}
    (h : mustUseUnified ls parsed truncated capped = false) :
    capped = false ∧ parsed.malformed = false ∧ parsed.combined = false ∧
      parsed.unknownOutsideHunk = false := by
  unfold mustUseUnified at h
  simp only [Bool.or_eq_false_iff] at h
  obtain ⟨⟨⟨⟨⟨⟨-, hcapped⟩, hcombined⟩, hmalformed⟩, hknown⟩, -⟩, -⟩ := h
  exact ⟨hcapped, hmalformed, hcombined, hknown⟩

theorem take_of_drop_nil {n : Nat} (hterm : Terminated '\n' text)
    (h : ((lines '\n' text).drop n).flatten = []) :
    (lines '\n' text).take n = lines '\n' text := by
  have htext : ((lines '\n' text).take n).flatten = text := by
    calc ((lines '\n' text).take n).flatten
      _ = ((lines '\n' text).take n).flatten ++ ((lines '\n' text).drop n).flatten := by
        rw [h, List.append_nil]
      _ = text := by
        rw [← List.flatten_append, List.take_append_drop, lines_flatten]
  have hwhole : ∀ line ∈ (lines '\n' text).take n, IsLine '\n' line :=
    fun line hline => isLine_of_mem hterm (List.mem_of_mem_take hline)
  rw [← lines_of_flatten hwhole, htext]

theorem filter_runLines (runs : List DiffRun) :
    (runLines runs).filter solid = runLines (runs.filter fun run => run.tone ≠ .gap) := by
  induction runs with
  | nil => rfl
  | cons run runs ih =>
    rw [runLines, List.flatMap_cons, List.filter_append]
    rw [runLines] at ih
    rw [ih, List.filter_cons]
    split
    · next hsolid =>
      rw [List.filter_eq_self.mpr]
      · rfl
      · intro row hrow
        obtain ⟨line, -, rfl⟩ := List.mem_map.mp hrow
        exact hsolid
    · next hgap =>
      rw [List.filter_eq_nil_iff.mpr]
      · rfl
      · intro row hrow
        obtain ⟨line, -, rfl⟩ := List.mem_map.mp hrow
        exact hgap

/-- Two sides are the columns of one table, made of the lines of a well-formed patch. -/
theorem compares_of_comparison (hterm : Terminated '\n' text)
    (hmode : (presentDiff text truncated).mode = .comparison) :
    (∃ patch rows, Compares text (presentDiff text truncated) patch rows) ∧
      due (lines '\n' text) = (0, 0) ∧
      ∀ front bad back, lines '\n' text = front ++ bad :: back → ¬ BadLine (due front) bad := by
  unfold presentDiff at hmode ⊢
  rw [sourceLines_eq] at hmode ⊢
  dsimp only at hmode ⊢
  split at hmode
  · cases hmode
  next hunified =>
  obtain ⟨hcapped, hmalformed, hcombined, hknown⟩ :=
    mustUseUnified_false (Bool.eq_false_iff.mpr hunified)
  have hall := take_of_drop_nil hterm (by simpa using hcapped)
  rw [if_neg hunified]
  rw [hall] at hmalformed hcombined hknown ⊢
  obtain ⟨hlines, hwell, hdue, hbad⟩ := reads_parsePatch hmalformed hcombined hknown
  generalize (parsePatch ((lines '\n' text).map lineOf)).events = patch at hlines hwell ⊢
  refine ⟨⟨patch, patchRows patch, ?_⟩, hdue, hbad⟩
  have hwhole : ∀ line ∈ patch.flatMap Event.lines, IsLine '\n' line := by
    rw [hlines]
    exact fun line hline => isLine_of_mem hterm hline
  obtain ⟨hbefore, hafter⟩ := shows_renderComparison hwhole
  refine ⟨hlines, hwell, hbefore.shown, hafter.shown, ?_, ?_, ?_, shared_patchRows _⟩
  · rw [← filter_runLines, hbefore.shown, old_patchRows]
  · rw [← filter_runLines, hafter.shown, new_patchRows]
  · rw [hbefore.shown, hafter.shown, List.length_map, List.length_map]

theorem unified_eq (hmode : (presentDiff text truncated).mode = .unified) :
    runText (presentDiff text truncated).unified =
      ((lines '\n' text).take maxDiffLines).flatten := by
  unfold presentDiff at hmode ⊢
  rw [sourceLines_eq] at hmode ⊢
  dsimp only at hmode ⊢
  split at hmode
  · next hunified =>
    rw [if_pos hunified, text_renderUnified, List.map_map]
    exact congrArg List.flatten (List.map_id _)
  · cases hmode

end PresentedLemmas

open PresentedLemmas in
/-- Two sides show the lines of a well-formed patch, each on its side and the shared ones in the
same rows; a diff with a bad line or an unfinished hunk is not shown so; and the unified text is
the first lines of the diff. -/
theorem diff_presented (text : Text) (truncated : Bool) (hterm : Terminated '\n' text) :
    ((presentDiff text truncated).mode = .comparison →
      ∃ patch rows, Compares text (presentDiff text truncated) patch rows) ∧
    ((∃ front bad back, lines '\n' text = front ++ bad :: back ∧ BadLine (due front) bad) ∨
        due (lines '\n' text) ≠ (0, 0) →
      (presentDiff text truncated).mode ≠ .comparison) ∧
    ((presentDiff text truncated).mode = .unified →
      runText (presentDiff text truncated).unified =
        ((lines '\n' text).take maxDiffLines).flatten) := by
  refine ⟨fun hmode => (compares_of_comparison hterm hmode).1, ?_, unified_eq⟩
  rintro hnever hmode
  obtain ⟨-, hdue, hbad⟩ := compares_of_comparison hterm hmode
  rcases hnever with ⟨front, bad, back, hlines, hline⟩ | hopen
  · exact hbad front bad back hlines hline
  · exact hopen hdue

/-- The last line of a file is changed and loses its end. -/
def markedDiff : Text :=
  "diff --git a/f b/f\n@@ -1,2 +1,2 @@\n a\n-b\n+b\n\\ No newline at end of file\n".toList

theorem diff_presented_marked :
    ∃ patch rows, Compares markedDiff (presentDiff markedDiff false) patch rows :=
  (diff_presented markedDiff false (.inr (by decide +kernel))).1 (by decide +kernel)

end Mast.Diff
