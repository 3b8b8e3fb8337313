import Mast.Lib.Cover
import Mast.TextWindow.Frame

/-!
# From the first window to the last

The next window is read from where the last one ended. It begins there only if a newline lies
before that place, or none follows it, so the rest of a line that is longer than a window is left
out; and a file whose second line is so long, behind an empty one, is not read on at all.

Results:
1. `next_of_continues`, `continues_of_next`: when the next window leaves nothing out.
2. `shown_of_lines`: text whose lines fit into a window is shown whole.
3. `shown_iff`: the files that are shown whole.
4. `not_shown`: a line that is longer than a window is not.
-/

namespace Mast

namespace TextWindow

open Occurrence

/-- A page from an offset ends behind its last newline, or with its last whole sequence. -/
def PageEnd (file : List UInt8) (start stop : Nat) : Prop :=
  (∃ q, LastIn lineFeed file start (start + windowBytes) q ∧ stop = q + 1) ∨
    NoneIn lineFeed file start (start + windowBytes) ∧
      stop = sequenceEnd file (start + windowBytes)

/-- The places at which a file is cut into pages. -/
inductive Break (file : List UInt8) : Nat → Prop
  | first {e : Nat} : windowBytes < file.length → PageEnd file 0 e → Break file e
  | next {e e' : Nat} : Break file e → e + windowBytes < file.length → PageEnd file e e' →
    Break file e'

/-- The next page goes on where this one ends: from there or before on, behind a newline where
there is one, some byte begins a sequence. At the second byte, there must be a newline to go to,
or the end of the file. -/
def Continues (file : List UInt8) (e : Nat) : Prop :=
  (min (file.length - windowBytes) e = 1 ∧
    (file.length = windowBytes + 1 ∨ ¬ NoneIn lineFeed file 1 (windowBytes + 1))) ∨
  min (file.length - windowBytes) e ≠ 1 ∧
    ∃ a p, Resumes file (min (file.length - windowBytes) e - 1)
      (min (file.length - windowBytes) e + windowBytes) a ∧ a ≤ p ∧ p ≤ e ∧ ¬ Continuation file p

/-- The next window is taken until there is none. -/
inductive Walk (decode : List UInt8 → String) (file : List UInt8) :
    TextWindow → List TextWindow → Prop
  | last {w : TextWindow} : moveWindow decode file .next w = none → Walk decode file w [w]
  | next {w w' : TextWindow} {ws : List TextWindow} :
    moveWindow decode file .next w = some w' → Walk decode file w' ws → Walk decode file w (w :: ws)

/-- A window shows the lines of its range. -/
structure Shows (decode : List UInt8 → String) (file : List UInt8) (w : TextWindow) : Prop where
  le : w.start ≤ w.stop
  within : w.stop ≤ file.length
  lines : w.lines = (Lines.lines lineFeed
    (fsReadChunk file w.start (w.stop - w.start))).map (lineText decode)

/-- The walk ends with the file, and leaves nothing out: the windows show all bytes, and every
line is shown in windows that follow one another. -/
structure ShownBy (decode : List UInt8 → String) (file : List UInt8) (windows : List TextWindow) :
    Prop where
  walk : Walk decode file (opened decode file) windows
  ends : ∀ last, windows.getLast? = some last → last.stop = file.length
  joined : windows.IsChain fun a b => b.start ≤ a.stop
  shows : ∀ w ∈ windows, Shows decode file w
  covers : ∀ i < file.length, ∃ w ∈ windows, w.start ≤ i ∧ i < w.stop
  whole : ∀ before line after, Lines.lines lineFeed file = before ++ line :: after →
    ∃ first more last, first :: more <:+: windows ∧ first.start ≤ before.flatten.length ∧
      before.flatten.length < first.stop ∧ (first :: more).getLast? = some last ∧
      last.start < before.flatten.length + line.length ∧
      before.flatten.length + line.length ≤ last.stop

def Shown (decode : List UInt8 → String) (file : List UInt8) : Prop :=
  ∃ windows, ShownBy decode file windows

end TextWindow

namespace TextWindowLemmas

open TextWindow Occurrence

variable {decode : List UInt8 → String} {file : List UInt8} {w w' : TextWindow}
  {ws : List TextWindow} {a b e e' t : Nat}

/-! ## Pages -/

theorem eight_le_windowBytes : 8 ≤ windowBytes := by
  unfold windowBytes
  decide

theorem PageEnd.bounds (h : PageEnd file e e') : e < e' ∧ e' ≤ e + windowBytes := by
  rcases h with ⟨q, hq, rfl⟩ | ⟨-, rfl⟩
  · exact ⟨Nat.lt_succ_of_le hq.ge, hq.lt⟩
  · have hcut := cutPartial_bounds file 0 (e + windowBytes)
    have height := eight_le_windowBytes
    rw [sequenceEnd]
    omega

theorem PageEnd.eq {e'' : Nat} (h : PageEnd file e e') (h' : PageEnd file e e'') : e' = e'' := by
  rcases h with ⟨q, hq, rfl⟩ | ⟨hnone, rfl⟩
  · rcases h' with ⟨q', hq', rfl⟩ | ⟨hnone', -⟩
    · rw [hq.eq hq']
    · exact absurd hnone' (not_noneIn_of_lastIn hq)
  · rcases h' with ⟨q', hq', -⟩ | ⟨-, rfl⟩
    · exact absurd hnone (not_noneIn_of_lastIn hq')
    · rfl

theorem Break.bounds (h : Break file e) :
    windowBytes < file.length ∧ 0 < e ∧ e < file.length := by
  cases h with
  | first hlong hend =>
    have hbounds := PageEnd.bounds hend
    exact ⟨hlong, by omega, by omega⟩
  | next _ hlong hend =>
    have hbounds := PageEnd.bounds hend
    exact ⟨by omega, by omega, by omega⟩

/-- A break behind the first byte is behind a newline. -/
theorem Break.newline (h : Break file 1) : file[0]? = some lineFeed := by
  have height := eight_le_windowBytes
  cases h with
  | first _ hend =>
    rcases hend with ⟨q, hq, heq⟩ | ⟨-, heq⟩
    · obtain rfl : q = 0 := by omega
      exact hq.found
    · have hcut := cutPartial_bounds file 0 (0 + windowBytes)
      rw [sequenceEnd] at heq
      omega
  | next hbreak _ hend =>
    have hbounds := PageEnd.bounds hend
    have hpos := (Break.bounds hbreak).2.1
    omega

theorem Resumes.eq {start stop : Nat} {a' : Nat} (h : Resumes file start stop a)
    (h' : Resumes file start stop a') : a = a' := by
  rcases h with ⟨q, hq, rfl⟩ | ⟨hnone, rfl⟩
  · rcases h' with ⟨q', hq', rfl⟩ | ⟨hnone', -⟩
    · rw [hq.eq hq']
    · exact absurd hnone' (not_noneIn_of_firstIn hq)
  · rcases h' with ⟨q', hq', -⟩ | ⟨-, rfl⟩
    · exact absurd hnone (not_noneIn_of_firstIn hq')
    · rfl

/-! ## Windows that are read -/

/-- A window behind which there may be more is read from one byte before its target. -/
theorem loadWindow_eq (hlong : windowBytes < file.length) (ht : t ≤ file.length - windowBytes)
    (decode : List UInt8 → String) :
    loadWindow decode file t false = decodeWindow decode
      (fsReadChunk file (t - 1) (t + windowBytes - (t - 1))) (t - 1)
      (decide (file.length ≤ t + windowBytes)) := by
  have hstart : min t file.length = t := Nat.min_eq_left (by omega)
  have hlt : ¬ t ≥ file.length := by
    have hpos := eight_le_windowBytes
    omega
  have hoffset : (if t > 0 then t - 1 else 0) = t - 1 := by
    split <;> omega
  have hlen : windowBytes + (t - (t - 1)) = t + windowBytes - (t - 1) := by omega
  have hlength : (fsReadChunk file (t - 1) (t + windowBytes - (t - 1))).length =
      t + windowBytes - (t - 1) := length_fsReadChunk (by omega) (by omega)
  have heof : (decide (t + windowBytes - (t - 1) < t + windowBytes - (t - 1)) ||
      decide (t - 1 + (t + windowBytes - (t - 1)) ≥ file.length)) =
      decide (file.length ≤ t + windowBytes) := by
    rw [decide_eq_false (Nat.lt_irrefl _), Bool.false_or]
    exact decide_eq_decide.mpr (by omega)
  unfold loadWindow
  simp only [Bool.false_eq_true, if_false, hstart, if_neg hlt, hoffset, hlen, hlength, heof]

theorem opened_eq (decode : List UInt8 → String) (file : List UInt8) :
    opened decode file = loadWindow decode file 0 false := by
  simp [opened, loadWindow, windowStartForRestore]

/-- A file that fits into one window is read at once. -/
theorem opened_short (hshort : file.length ≤ windowBytes) (decode : List UInt8 → String) :
    opened decode file = decodeWindow decode (fsReadChunk file 0 file.length) 0 true := by
  have hstart : (if 0 ≥ file.length then file.length - windowBytes else 0) = 0 := by
    split <;> omega
  have hchunk : fsReadChunk file 0 windowBytes = fsReadChunk file 0 file.length := by
    rw [fsReadChunk, fsReadChunk, List.drop_zero, List.take_of_length_le hshort, List.take_length]
  have hlength : (fsReadChunk file 0 file.length).length = file.length :=
    length_fsReadChunk (Nat.zero_le _) (Nat.le_refl _)
  have heof : (decide (file.length < windowBytes) || decide (0 + file.length ≥ file.length)) =
      true := by
    rw [Nat.zero_add, decide_eq_true (Nat.le_refl file.length), Bool.or_true]
  rw [opened_eq]
  unfold loadWindow
  simp only [Bool.false_eq_true, if_false, Nat.zero_min, hstart, Nat.lt_irrefl, gt_iff_lt,
    Nat.sub_zero, Nat.add_zero, hchunk, hlength, heof]

/-- What the window at a target is, in a file that is longer than one. -/
theorem framed_loadWindow (hlong : windowBytes < file.length)
    (ht : t ≤ file.length - windowBytes) (decode : List UInt8 → String) : ∃ a b,
      Framed file (t - 1) (t + windowBytes) (decide (file.length ≤ t + windowBytes)) a b
        (loadWindow decode file t false) := by
  rw [loadWindow_eq hlong ht]
  exact framed_decodeWindow decode _ (by omega) (by omega)

theorem shows_loadWindow (hlong : windowBytes < file.length)
    (ht : t ≤ file.length - windowBytes) (decode : List UInt8 → String) :
    Shows decode file (loadWindow decode file t false) := by
  obtain ⟨a, b, hframe⟩ := framed_loadWindow hlong ht decode
  obtain ⟨hle, hstop⟩ := hframe.range
  refine ⟨hle, hstop.trans (by omega), ?_⟩
  exact lines_decodeWindow (loadWindow_eq hlong ht decode) (hstop.trans (by omega))

/-- A window that is not the last one ends a page. -/
theorem pageEnd_of_framed {r : Nat} (h : Framed file r (e + windowBytes) false a b w)
    (hends : Ends file e (e + windowBytes) b) (hstart : w.start ≤ e) : PageEnd file e w.stop := by
  have height := eight_le_windowBytes
  rcases hends with ⟨q, hq, rfl⟩ | ⟨hnone, rfl⟩
  · exact .inl ⟨q, hq, h.stop_line rfl (Nat.succ_pos q) hq.found⟩
  · exact .inr ⟨hnone, h.stop_sequence rfl (by omega)⟩

/-- The first window ends the first page. -/
theorem pageEnd_opened (hlong : windowBytes < file.length) (decode : List UInt8 → String) :
    (opened decode file).start = 0 ∧ PageEnd file 0 (opened decode file).stop := by
  rw [opened_eq]
  obtain ⟨a, b, hframe⟩ := framed_loadWindow hlong (Nat.zero_le _) decode
  have ha : a = 0 := hframe.lead
  have hstart := hframe.start
  rw [if_pos ha] at hstart
  rw [decide_eq_false (by omega)] at hframe
  exact ⟨hstart, pageEnd_of_framed hframe (ha ▸ hframe.trail) hstart.le⟩

/-! ## The next window -/

/-- Behind a page that is read on, the next window ends its own. -/
theorem ends_of_resumes {m : Nat} (h : Resumes file (e - 1) m a) (ha : a ≤ e)
    (hends : Ends file a m b) : Ends file e m b := by
  rcases h with ⟨q, hq, rfl⟩ | ⟨hnone, rfl⟩
  · have heq : q + 1 = e := by
      have hge := hq.ge
      omega
    exact heq ▸ hends
  · rcases hends with ⟨q, hq, -⟩ | ⟨-, rfl⟩
    · exact absurd hnone (not_noneIn_of_lastIn hq)
    · exact .inr ⟨hnone.mono ha (Nat.le_refl _), rfl⟩

/-- A window that resumes in time skips nothing that was not shown. -/
theorem start_le_of_skips {p s : Nat} (h : Skips file a b s) (ha : a ≤ p) (hp : p ≤ e)
    (hnot : ¬ Continuation file p) : s ≤ e := by
  by_contra hlt
  exact hnot (h.skipped p ha (by omega))

/-- The next window is read from here on, unless it is the last one. -/
theorem target_cases (hlong : windowBytes < file.length) (e : Nat) :
    (file.length ≤ e + windowBytes →
      min (file.length - windowBytes) e + windowBytes = file.length) ∧
    (e + windowBytes < file.length → min (file.length - windowBytes) e = e) := by
  constructor <;> omega

/-- The next window of a page that continues leaves nothing out. -/
theorem next_of_continues (decode : List UInt8 → String) (hbreak : Break file e)
    (hcontinues : Continues file e)
    (hw' : w' = loadWindow decode file (min (file.length - windowBytes) e) false) :
    w'.start ≤ e ∧ (file.length ≤ e + windowBytes → w'.stop = file.length) ∧
      (e + windowBytes < file.length → PageEnd file e w'.stop) := by
  obtain ⟨hlong, hpos, hlt⟩ := Break.bounds hbreak
  obtain ⟨a, b, hframe⟩ := framed_loadWindow hlong (Nat.min_le_left _ e) decode
  rw [← hw'] at hframe
  unfold Continues at hcontinues
  obtain ⟨heofTarget, hmidTarget⟩ := target_cases hlong e
  generalize min (file.length - windowBytes) e = t at hframe hcontinues heofTarget hmidTarget
  have hlead := hframe.lead
  have hskips := hframe.start
  have htrail := hframe.trail
  -- It is enough to know that the window starts in time, and where its lines end.
  have hstops (hstart : w'.start ≤ e)
      (hends : e + windowBytes < file.length → Ends file t (t + windowBytes) b) :
      w'.start ≤ e ∧ (file.length ≤ e + windowBytes → w'.stop = file.length) ∧
        (e + windowBytes < file.length → PageEnd file e w'.stop) := by
    refine ⟨hstart, fun heof => ?_, fun hmid => ?_⟩
    · have htarget := heofTarget heof
      have hdecide : decide (file.length ≤ t + windowBytes) = true := decide_eq_true htarget.ge
      rw [if_pos hdecide] at htrail
      rw [hframe.stop_eof hdecide, htrail, htarget]
    · obtain rfl := hmidTarget hmid
      rw [decide_eq_false (by omega)] at hframe
      exact pageEnd_of_framed hframe (hends hmid) hstart
  rcases hcontinues with ⟨rfl, hnewline⟩ | ⟨hone, a', p, hresumes, hap, hpe, hnot⟩
  · -- The window is read from the first byte, so its last newline must be a later one.
    rw [if_pos rfl] at hlead
    subst hlead
    rw [if_pos rfl] at hskips
    refine hstops (by omega) fun hmid => ?_
    obtain rfl := hmidTarget hmid
    rw [if_neg (by simpa using hmid)] at htrail
    have hsome := hnewline.resolve_left (by omega)
    rw [Nat.add_comm] at hsome
    rcases htrail with ⟨q, hq, rfl⟩ | ⟨hnone, -⟩
    · rcases Nat.eq_zero_or_pos q with rfl | hq0
      · exact absurd hq.none hsome
      · exact .inl ⟨q, ⟨hq0, hq.lt, hq.found, hq.none⟩, rfl⟩
    · exact absurd (hnone.mono (Nat.zero_le _) (Nat.le_refl _)) hsome
  · -- It resumes where the condition says, and skips nothing behind `p`.
    rw [if_neg (by omega)] at hlead
    obtain rfl := Resumes.eq hlead hresumes
    have ha : a ≠ 0 := by
      rcases hlead with ⟨q, -, rfl⟩ | ⟨-, rfl⟩ <;> omega
    rw [if_neg ha] at hskips
    refine hstops (start_le_of_skips hskips hap hpe hnot) fun hmid => ?_
    obtain rfl := hmidTarget hmid
    rw [if_neg (by simpa using hmid)] at htrail
    exact ends_of_resumes hlead (hap.trans hpe) htrail

theorem Ends.gt (h : Ends file e (e + windowBytes) b) : e < b := by
  have height := eight_le_windowBytes
  rcases h with ⟨q, hq, rfl⟩ | ⟨-, rfl⟩
  · exact Nat.lt_succ_of_le hq.ge
  · omega

/-- A next window that leaves nothing out, and that is not the same one again, continues. -/
theorem continues_of_next (hbreak : Break file e)
    (hw' : w' = loadWindow decode file (min (file.length - windowBytes) e) false)
    (hstart : w'.start ≤ e) (hnext : w'.stop ≠ e) : Continues file e := by
  obtain ⟨hlong, hpos, hlt⟩ := Break.bounds hbreak
  obtain ⟨a, b, hframe⟩ := framed_loadWindow hlong (Nat.min_le_left _ e) decode
  rw [← hw'] at hframe
  unfold Continues
  obtain ⟨heofTarget, hmidTarget⟩ := target_cases hlong e
  generalize min (file.length - windowBytes) e = t at hframe heofTarget hmidTarget
  have hlead := hframe.lead
  have hskips := hframe.start
  have htrail := hframe.trail
  by_cases hone : t = 1
  · subst hone
    refine .inl ⟨rfl, ?_⟩
    -- Without a newline behind the first byte it would be the same window again.
    by_contra hstuck
    obtain ⟨hlength, hnone⟩ := not_or.mp hstuck
    have hmid : e + windowBytes < file.length := by
      by_contra hle
      have htarget := heofTarget (Nat.le_of_not_lt hle)
      omega
    obtain rfl := hmidTarget hmid
    rw [if_pos rfl] at hlead
    subst hlead
    rw [if_neg (by simpa using hmid)] at htrail
    have hnewline := Break.newline hbreak
    rw [Nat.add_comm, not_not] at hnone
    rcases htrail with ⟨q, hq, rfl⟩ | ⟨hnone', -⟩
    · rcases Nat.eq_zero_or_pos q with rfl | hq0
      · rw [decide_eq_false (by omega)] at hframe
        exact hnext (hframe.stop_line rfl Nat.one_pos hnewline)
      · exact hnone q hq0 hq.lt hq.found
    · exact hnone' 0 (Nat.le_refl _) (by omega) hnewline
  · refine .inr ⟨hone, a, w'.start, ?_⟩
    have htpos : t ≠ 0 := by
      rcases Nat.lt_or_ge (e + windowBytes) file.length with hmid | heof
      · have htarget := hmidTarget hmid
        omega
      · have htarget := heofTarget heof
        omega
    rw [if_neg (by omega)] at hlead
    have ha : a ≠ 0 := by
      rcases hlead with ⟨q, -, rfl⟩ | ⟨-, rfl⟩ <;> omega
    rw [if_neg ha] at hskips
    -- The window itself starts with a byte that does not continue a sequence.
    refine ⟨hlead, hskips.ge, hstart, hskips.stops (hstart.trans_lt ?_)⟩
    rcases Nat.lt_or_ge (e + windowBytes) file.length with hmid | heof
    · obtain rfl := hmidTarget hmid
      rw [if_neg (by simpa using hmid)] at htrail
      exact Ends.gt (ends_of_resumes hlead (hskips.ge.trans hstart) htrail)
    · have htarget := heofTarget heof
      rw [if_pos (decide_eq_true htarget.ge)] at htrail
      omega

/-! ## The walk -/

theorem moveWindow_next (decode : List UInt8 → String) (file : List UInt8) (w : TextWindow) :
    moveWindow decode file .next w =
      if w.stop ≥ file.length then none
      else some (loadWindow decode file (min (file.length - windowBytes) w.stop) false) := by
  simp [moveWindow, windowButtonsDisabled, nextWindowStart]

theorem Walk.head (h : Walk decode file w ws) : ∃ rest, ws = w :: rest := by
  cases h with
  | last _ => exact ⟨[], rfl⟩
  | next _ _ => exact ⟨_, rfl⟩

/-- A window that is its own next one is on no walk. -/
theorem Walk.not_stuck (h : Walk decode file w ws)
    (hstuck : moveWindow decode file .next w = some w) : False := by
  induction h with
  | last hnone => cases hnone.symm.trans hstuck
  | next hsome _ ih =>
    obtain rfl := Option.some_inj.mp (hstuck.symm.trans hsome)
    exact ih hstuck

/-- Where all pages continue, the walk goes on to the end. -/
theorem exists_walk (hall : ∀ e, Break file e → Continues file e) (decode : List UInt8 → String)
    (w : TextWindow) (hbreak : Break file w.stop) : ∃ ws, Walk decode file w (w :: ws) ∧
      (w :: ws).IsChain (fun a b => b.start ≤ a.stop) ∧
      (∀ last, (w :: ws).getLast? = some last → last.stop = file.length) ∧
      ∀ w' ∈ ws, Shows decode file w' := by
  induction hleft : file.length - w.stop using Nat.strong_induction_on generalizing w with
  | _ left ih =>
  obtain ⟨hlong, hpos, hlt⟩ := Break.bounds hbreak
  have hmove := moveWindow_next decode file w
  rw [if_neg (Nat.not_le_of_lt hlt)] at hmove
  have hshows := shows_loadWindow hlong (Nat.min_le_left _ w.stop) decode
  obtain ⟨hstart, heof, hmid⟩ := next_of_continues decode hbreak (hall _ hbreak) rfl
  generalize loadWindow decode file (min (file.length - windowBytes) w.stop) false = w' at *
  -- The next window ends a page, or it is the last one.
  rcases Nat.lt_or_ge (w.stop + windowBytes) file.length with hmore | hend
  · have hpage := hmid hmore
    have hbreak' := Break.next hbreak hmore hpage
    have hgrows := (PageEnd.bounds hpage).1
    obtain ⟨ws, hwalk, hjoined, hends, hshown⟩ := ih _ (by omega) w' hbreak' rfl
    refine ⟨w' :: ws, .next hmove hwalk, List.isChain_cons_cons.mpr ⟨hstart, hjoined⟩,
      fun last hlast => hends last ?_, List.forall_mem_cons.mpr ⟨hshows, hshown⟩⟩
    rwa [List.getLast?_cons_cons] at hlast
  · have hstop := heof hend
    have hnone : moveWindow decode file .next w' = none := by
      rw [moveWindow_next, if_pos hstop.ge]
    refine ⟨[w'], .next hmove (.last hnone), List.isChain_cons_cons.mpr ⟨hstart, .singleton _⟩,
      fun last hlast => ?_, List.forall_mem_singleton.mpr hshows⟩
    obtain rfl := Option.some_inj.mp hlast
    exact hstop

/-- A walk goes on with another window. -/
theorem Walk.step (hwalk : Walk decode file w (w :: ws))
    (hjoined : (w :: ws).IsChain fun a b => b.start ≤ a.stop) (hlt : w.stop < file.length) :
    ∃ w' ws', w' = loadWindow decode file (min (file.length - windowBytes) w.stop) false ∧
      Walk decode file w' (w' :: ws') ∧ (w' :: ws').IsChain (fun a b => b.start ≤ a.stop) ∧
      w'.start ≤ w.stop ∧ w'.stop ≠ w.stop := by
  have hmove := moveWindow_next decode file w
  rw [if_neg (Nat.not_le_of_lt hlt)] at hmove
  cases hwalk with
  | last hnone => cases hnone.symm.trans hmove
  | next hsome hwalk' =>
    rename_i w'
    obtain ⟨ws', rfl⟩ := Walk.head hwalk'
    obtain ⟨hstart, hjoined'⟩ := List.isChain_cons_cons.mp hjoined
    refine ⟨w', ws', Option.some_inj.mp (hsome.symm.trans hmove), hwalk', hjoined', hstart,
      fun heq => Walk.not_stuck hwalk' ?_⟩
    rw [moveWindow_next, heq, ← moveWindow_next]
    exact hsome

/-- A walk that leaves nothing out comes to every break, and goes on there. -/
theorem reaches_break (hwalk : Walk decode file (opened decode file) ws)
    (hjoined : ws.IsChain fun a b => b.start ≤ a.stop) (hbreak : Break file e) :
    ∃ w ws, w.stop = e ∧ Walk decode file w (w :: ws) ∧
      (w :: ws).IsChain fun a b => b.start ≤ a.stop := by
  induction hbreak with
  | first hlong hend =>
    obtain ⟨rest, rfl⟩ := Walk.head hwalk
    exact ⟨_, rest, PageEnd.eq (pageEnd_opened hlong decode).2 hend, hwalk, hjoined⟩
  | next hbreak hmore hend ih =>
    obtain ⟨w, ws', rfl, hw, hw'⟩ := ih
    obtain ⟨w', ws'', heq, hwalk', hjoined', hstart, hne⟩ :=
      Walk.step hw hw' (Break.bounds hbreak).2.2
    have hcontinues := continues_of_next hbreak heq hstart hne
    have hpage := (next_of_continues decode hbreak hcontinues heq).2.2 hmore
    exact ⟨w', ws'', PageEnd.eq hpage hend, hwalk', hjoined'⟩

theorem continues_of_shown (h : Shown decode file) (hbreak : Break file e) : Continues file e := by
  obtain ⟨windows, hshown⟩ := h
  obtain ⟨w, ws, rfl, hwalk, hjoined⟩ := reaches_break hshown.walk hshown.joined hbreak
  obtain ⟨w', ws', heq, -, -, hstart, hne⟩ :=
    Walk.step hwalk hjoined (Break.bounds hbreak).2.2
  exact continues_of_next hbreak heq hstart hne

/-- A walk to the end that leaves nothing out shows all. -/
theorem shownBy_of_walk (hwalk : Walk decode file (opened decode file) (opened decode file :: ws))
    (hstart : (opened decode file).start = 0)
    (hjoined : (opened decode file :: ws).IsChain fun a b => b.start ≤ a.stop)
    (hends : ∀ last, (opened decode file :: ws).getLast? = some last → last.stop = file.length)
    (hshows : ∀ w ∈ opened decode file :: ws, Shows decode file w) :
    ShownBy decode file (opened decode file :: ws) where
  walk := hwalk
  ends := hends
  joined := hjoined
  shows := hshows
  covers i hi := by
    obtain ⟨first, more, last, hinfix, hle, hlt, -⟩ := Cover.exists_infix hjoined
      (hstart.le.trans (Nat.zero_le i)) (Nat.lt_succ_self i)
      fun last hlast => (hends last hlast).symm ▸ hi
    exact ⟨first, hinfix.subset List.mem_cons_self, hle, hlt⟩
  whole before line after heq := by
    have hlength : before.flatten.length + line.length + after.flatten.length = file.length := by
      rw [← Lines.lines_flatten lineFeed file, heq, List.flatten_append, List.flatten_cons,
        List.length_append, List.length_append, Nat.add_assoc]
    have hmem : line ∈ Lines.lines lineFeed file := heq ▸ List.mem_append_right _ List.mem_cons_self
    have hline := List.length_pos_of_ne_nil (Lines.ne_nil_of_mem hmem)
    exact Cover.exists_infix hjoined (hstart.le.trans (Nat.zero_le _))
      (Nat.lt_add_of_pos_right hline) fun last hlast => by
        rw [hends last hlast]
        omega

/-- A file that fits into one window is shown in it. -/
theorem shown_of_short (hshort : file.length ≤ windowBytes) (decode : List UInt8 → String) :
    Shown decode file := by
  have hopened := opened_short hshort decode
  obtain ⟨a, b, hframe⟩ := framed_decodeWindow (r := 0) (m := file.length) decode true
    (Nat.zero_le _) (Nat.le_refl _)
  rw [Nat.sub_zero, ← hopened] at hframe
  have ha : a = 0 := hframe.lead
  have hstart := hframe.start
  rw [if_pos ha] at hstart
  have hstop : (opened decode file).stop = file.length :=
    (hframe.stop_eof rfl).trans hframe.trail
  have hshows : Shows decode file (opened decode file) :=
    ⟨hframe.range.1, hframe.range.2, lines_decodeWindow hopened (by omega)⟩
  have hlast : moveWindow decode file .next (opened decode file) = none := by
    rw [moveWindow_next, if_pos hstop.ge]
  refine ⟨_, shownBy_of_walk (.last hlast) hstart (.singleton _) (fun last h => ?_)
    (List.forall_mem_singleton.mpr hshows)⟩
  exact Option.some_inj.mp h ▸ hstop

/-- A longer one is shown whole where all its pages continue. -/
theorem shown_of_long (hlong : windowBytes < file.length)
    (hall : ∀ e, Break file e → Continues file e) (decode : List UInt8 → String) :
    Shown decode file := by
  obtain ⟨hstart, hpage⟩ := pageEnd_opened hlong decode
  have hshows := shows_loadWindow hlong (Nat.zero_le _) decode
  rw [← opened_eq] at hshows
  obtain ⟨ws, hwalk, hjoined, hends, hrest⟩ := exists_walk hall decode _ (.first hlong hpage)
  exact ⟨_, shownBy_of_walk hwalk hstart hjoined hends (List.forall_mem_cons.mpr ⟨hshows, hrest⟩)⟩

/-- Where every window has a newline, a page ends behind one. -/
theorem Break.behind_newline (hlines : ∀ i, i + windowBytes ≤ file.length →
      ¬ NoneIn lineFeed file i (i + windowBytes)) (h : Break file e) :
    ∃ q, file[q]? = some lineFeed ∧ e = q + 1 := by
  have hend {from_ : Nat} (hlong : from_ + windowBytes < file.length)
      (hpage : PageEnd file from_ e) : ∃ q, file[q]? = some lineFeed ∧ e = q + 1 := by
    rcases hpage with ⟨q, hq, heq⟩ | ⟨hnone, -⟩
    · exact ⟨q, hq.found, heq⟩
    · exact absurd hnone (hlines from_ hlong.le)
  cases h with
  | first hlong hpage => exact hend (by omega) hpage
  | next _ hlong hpage => exact hend hlong hpage

end TextWindowLemmas

open TextWindow TextWindowLemmas Occurrence in
/-- A file is shown whole if no line is longer than a window and every line begins a sequence. -/
theorem shown_of_lines (decode : List UInt8 → String) (file : List UInt8)
    (hlines : ∀ i, i + windowBytes ≤ file.length → ¬ NoneIn lineFeed file i (i + windowBytes))
    (hstarts : ∀ q, file[q]? = some lineFeed → ¬ Continuation file (q + 1)) :
    Shown decode file := by
  rcases Nat.lt_or_ge windowBytes file.length with hlong | hshort
  case inr => exact shown_of_short hshort decode
  refine shown_of_long hlong (fun e hbreak => ?_) decode
  obtain ⟨-, hpos, hlt⟩ := Break.bounds hbreak
  obtain ⟨q, hq, rfl⟩ := Break.behind_newline hlines hbreak
  have height := eight_le_windowBytes
  unfold Continues
  by_cases hone : min (file.length - windowBytes) (q + 1) = 1
  · refine .inl ⟨hone, .inr ?_⟩
    have hsome := hlines 1 (by omega)
    rwa [Nat.add_comm] at hsome
  · -- The page resumes behind the newline at its end, or behind one before it.
    refine .inr ⟨hone, ?_⟩
    have ht : min (file.length - windowBytes) (q + 1) - 1 ≤ q := by omega
    have hread : q + 1 ≤ min (file.length - windowBytes) (q + 1) + windowBytes := by omega
    generalize min (file.length - windowBytes) (q + 1) = t at ht hread
    obtain ⟨first, hfirst⟩ := exists_firstIn ht hq
    exact ⟨first + 1, q + 1, .inl ⟨first, hfirst.mono hread, rfl⟩, hfirst.lt, Nat.le_refl _,
      hstarts q hq⟩

open TextWindow TextWindowLemmas in
/-- A file is shown whole if and only if the next page goes on wherever one ends. -/
theorem shown_iff (decode : List UInt8 → String) (file : List UInt8) :
    Shown decode file ↔ ∀ e, Break file e → Continues file e := by
  constructor
  · exact fun h e => continues_of_shown h
  · intro hall
    rcases Nat.lt_or_ge windowBytes file.length with hlong | hshort
    · exact shown_of_long hlong hall decode
    · exact shown_of_short hshort decode

namespace TextWindow

/-- A line that is longer than a window. -/
def longLine : List UInt8 := List.replicate (windowBytes + 1) 97 ++ [lineFeed]

end TextWindow

namespace TextWindowLemmas

open TextWindow Occurrence

theorem length_longLine : longLine.length = windowBytes + 2 := by
  rw [longLine, List.length_append, List.length_replicate, List.length_singleton]

theorem getElem?_longLine {i : Nat} (h : i ≤ windowBytes) : longLine[i]? = some 97 := by
  have hlt : i < windowBytes + 1 := Nat.lt_succ_of_le h
  rw [longLine, List.getElem?_append_left (by rwa [List.length_replicate]),
    List.getElem?_replicate_of_lt hlt]

theorem noneIn_longLine {start stop : Nat} (h : stop ≤ windowBytes + 1) :
    NoneIn lineFeed longLine start stop := by
  intro i _ hi
  rw [getElem?_longLine (Nat.le_of_lt_succ (hi.trans_le h))]
  decide

theorem break_longLine : Break longLine windowBytes := by
  refine .first (by rw [length_longLine]; omega) (.inr ⟨noneIn_longLine (by omega), ?_⟩)
  have height := eight_le_windowBytes
  have hlength : lengthAt longLine (0 + windowBytes - 1) = 1 := by
    rw [lengthAt, getElem?_longLine (by omega)]
    decide
  rw [sequenceEnd, cutPartial_of_length hlength, Nat.zero_add]

/-- The next window is read from behind the newline, which is two bytes behind the first one. -/
theorem not_continues_longLine : ¬ Continues longLine windowBytes := by
  have height := eight_le_windowBytes
  have htarget : min (longLine.length - windowBytes) windowBytes = 2 := by
    rw [length_longLine]
    omega
  unfold Continues
  rw [htarget]
  rintro (⟨htwo, -⟩ | ⟨-, a, p, hresumes, hap, hp, -⟩)
  · cases htwo
  · rcases hresumes with ⟨q, hq, rfl⟩ | ⟨hnone, -⟩
    · exact noneIn_longLine (Nat.le_refl _) q (Nat.zero_le q) (by omega) hq.found
    · refine hnone (windowBytes + 1) (by omega) (by omega) ?_
      rw [longLine, List.getElem?_append_right (by rw [List.length_replicate]),
        List.length_replicate, Nat.sub_self]
      rfl

end TextWindowLemmas

open TextWindow TextWindowLemmas in
theorem not_shown : ¬ ∀ (decode : List UInt8 → String) (file : List UInt8), Shown decode file :=
  fun h => not_continues_longLine (continues_of_shown (h (fun _ => "") longLine) break_longLine)

end Mast
