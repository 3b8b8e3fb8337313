import Mast.Lib.Occurrence
import Mast.TextWindow

/-!
# Where a window begins and ends in the file

What `decodeWindow` makes of a chunk, in the offsets of the file: it resumes behind the first
newline, skips the rest of a sequence, and ends behind the last newline or at the end of a
sequence.

Results:
1. `framed_decodeWindow`: the start and the end of a window.
2. `lines_decodeWindow`: its lines are those of the bytes between them.
-/

namespace Mast

namespace TextWindow

open Occurrence

/-- A window that is read from `start` resumes behind the first newline, if there is one. -/
def Resumes (file : List UInt8) (start stop a : Nat) : Prop :=
  (∃ q, FirstIn lineFeed file start stop q ∧ a = q + 1) ∨
    NoneIn lineFeed file start stop ∧ a = start

/-- It ends behind the last newline, if there is one. -/
def Ends (file : List UInt8) (start stop b : Nat) : Prop :=
  (∃ q, LastIn lineFeed file start stop q ∧ b = q + 1) ∨
    NoneIn lineFeed file start stop ∧ b = stop

/-- The byte goes on with a sequence. -/
def Continuation (file : List UInt8) (i : Nat) : Prop :=
  ∃ byte, file[i]? = some byte ∧ isContinuation byte = true

/-- From `a` to `s` there are only such bytes. -/
structure Skips (file : List UInt8) (a b s : Nat) : Prop where
  ge : a ≤ s
  le : s ≤ b
  skipped : ∀ i, a ≤ i → i < s → Continuation file i
  stops : s < b → ¬ Continuation file s

/-- The end of the last whole sequence before `stop`. -/
def sequenceEnd (file : List UInt8) (stop : Nat) : Nat := cutPartial file 0 stop

/-- What is shown of a line. -/
def lineText (decode : List UInt8 → String) (line : List UInt8) : String :=
  decodeLine decode (if line.getLast? = some lineFeed then line.dropLast else line)

/-- The start and the end of a window that is read from `r` to `m`. -/
structure Framed (file : List UInt8) (r m : Nat) (atEof : Bool) (a b : Nat) (win : TextWindow) :
    Prop where
  lead : if r = 0 then a = 0 else Resumes file r m a
  trail : if atEof then b = m else Ends file a m b
  le : a ≤ b
  start : if a = 0 then win.start = 0 else Skips file a b win.start
  range : win.start ≤ win.stop ∧ win.stop ≤ m
  stop_eof : atEof = true → win.stop = b
  stop_line : atEof = false → 0 < b → file[b - 1]? = some lineFeed → win.stop = b
  stop_sequence : atEof = false → win.start + 4 ≤ b → win.stop = sequenceEnd file b

end TextWindow

namespace TextWindowLemmas

open TextWindow Occurrence

variable {file bytes : List UInt8} {x byte : UInt8} {r m a b i start stop : Nat} {atEof : Bool}
  {decode : List UInt8 → String}

/-! ## Newlines -/

theorem firstIn_of_indexOf (h : indexOf x bytes = some i) : FirstIn x bytes 0 bytes.length i := by
  obtain ⟨hi, hx, hbefore⟩ := List.findIdx?_eq_some_iff_getElem.mp h
  refine ⟨Nat.zero_le _, hi, ?_, fun j _ hj hat => ?_⟩
  · rw [List.getElem?_eq_getElem hi, of_decide_eq_true hx]
  · have hne := hbefore j hj
    obtain ⟨hlt, heq⟩ := List.getElem?_eq_some_iff.mp hat
    exact hne (decide_eq_true heq)

theorem noneIn_of_indexOf (h : indexOf x bytes = none) : NoneIn x bytes 0 bytes.length := by
  have hall := List.findIdx?_eq_none_iff.mp h
  intro i _ _ hat
  exact absurd rfl (of_decide_eq_false (hall x (List.mem_of_getElem? hat)))

theorem lastIndexOf_spec (x : UInt8) (bytes : List UInt8) :
    match lastIndexOf x bytes with
    | some i => LastIn x bytes 0 bytes.length i
    | none => NoneIn x bytes 0 bytes.length := by
  induction bytes with
  | nil => exact noneIn_of_le (Nat.le_refl _)
  | cons b rest ih =>
    have hshift {q : Nat} (h : NoneIn x rest q rest.length) :
        NoneIn x (b :: rest) (q + 1) (b :: rest).length := by
      intro i hi hi'
      obtain ⟨j, rfl⟩ : ∃ j, i = j + 1 := ⟨i - 1, by omega⟩
      rw [List.getElem?_cons_succ]
      rw [List.length_cons] at hi'
      exact h j (by omega) (by omega)
    rw [lastIndexOf]
    cases hlast : lastIndexOf x rest with
    | some i =>
      rw [hlast] at ih
      exact ⟨Nat.zero_le _, Nat.succ_lt_succ ih.lt, by rw [List.getElem?_cons_succ, ih.found],
        hshift ih.none⟩
    | none =>
      rw [hlast] at ih
      by_cases heq : b = x
      · simp only [if_pos heq]
        exact ⟨Nat.zero_le _, Nat.succ_pos _, by rw [List.getElem?_cons_zero, heq], hshift ih⟩
      · simp only [if_neg heq]
        refine (hshift ih).cons fun hat => heq ?_
        rw [List.getElem?_cons_zero] at hat
        exact Option.some_inj.mp hat

/-! ## The chunk -/

theorem length_fsReadChunk (hr : r ≤ m) (hm : m ≤ file.length) :
    (fsReadChunk file r (m - r)).length = m - r := by
  rw [fsReadChunk, List.length_take, List.length_drop]
  omega

theorem getElem?_fsReadChunk (h : i < m - r) : (fsReadChunk file r (m - r))[i]? = file[r + i]? :=
  getElem?_slice h

theorem resumes_lineFrom (hr : r ≤ m) (hm : m ≤ file.length) (hpos : 0 < r) :
    Resumes file r m (r + lineFrom (fsReadChunk file r (m - r)) r) := by
  have hlength := length_fsReadChunk hr hm
  rw [lineFrom, if_pos hpos]
  cases hindex : indexOf lineFeed (fsReadChunk file r (m - r)) with
  | some nl =>
    have hfirst := FirstIn.of_slice (hlength.le) (firstIn_of_indexOf hindex)
    rw [hlength, Nat.add_zero, Nat.add_sub_cancel' hr] at hfirst
    exact .inl ⟨_, hfirst, rfl⟩
  | none =>
    have hnone := (noneIn_slice hlength.le).mp (noneIn_of_indexOf hindex)
    rw [hlength, Nat.add_zero, Nat.add_sub_cancel' hr] at hnone
    exact .inr ⟨hnone, rfl⟩

theorem lineFrom_le (hr : r ≤ m) (hm : m ≤ file.length) :
    r + lineFrom (fsReadChunk file r (m - r)) r ≤ m := by
  rcases Nat.eq_zero_or_pos r with rfl | hpos
  · exact Nat.zero_le _
  · rcases resumes_lineFrom hr hm hpos with ⟨q, hq, heq⟩ | ⟨-, heq⟩
    · exact heq.trans_le hq.lt
    · exact heq.trans_le hr

/-- Where the lines of a window end. -/
theorem ends_lineTo (hr : r ≤ m) (hm : m ≤ file.length) (start : Nat) :
    Ends file (r + start) m (r + lineTo (fsReadChunk file r (m - r)) start false) := by
  have hlength := length_fsReadChunk hr hm
  have hspec := lastIndexOf_spec lineFeed (fsReadChunk file r (m - r))
  have hall : r + (m - r) = m := Nat.add_sub_cancel' hr
  rw [lineTo, if_neg Bool.false_ne_true]
  cases hlast : lastIndexOf lineFeed (fsReadChunk file r (m - r)) with
  | some nl =>
    rw [hlast] at hspec
    have hlastIn := LastIn.of_slice hlength.le hspec
    rw [hlength, Nat.add_zero, hall] at hlastIn
    dsimp only
    split
    next hge => exact .inl ⟨r + nl, ⟨by omega, hlastIn.lt, hlastIn.found, hlastIn.none⟩, rfl⟩
    next hlt =>
      refine .inr ⟨hlastIn.none.mono (by omega) (Nat.le_refl _), ?_⟩
      rw [hlength, hall]
  | none =>
    rw [hlast] at hspec
    have hnone := (noneIn_slice hlength.le).mp hspec
    rw [hlength, Nat.add_zero, hall] at hnone
    exact .inr ⟨hnone.mono (Nat.le_add_right _ _) (Nat.le_refl _), by rw [hlength, hall]⟩

theorem Ends.bounds (h : Ends file a m b) (ha : a ≤ m) : a ≤ b ∧ b ≤ m := by
  rcases h with ⟨q, hq, rfl⟩ | ⟨-, rfl⟩
  · exact ⟨hq.ge.trans (Nat.le_succ _), hq.lt⟩
  · exact ⟨ha, Nat.le_refl _⟩

/-! ## Sequences -/

/-- `takeWhile` stops at the first element that does not satisfy the condition. -/
theorem takeWhile_spec (p : UInt8 → Bool) (l : List UInt8) :
    (∀ i, i < (l.takeWhile p).length → ∃ byte, l[i]? = some byte ∧ p byte = true) ∧
      (∀ byte, l[(l.takeWhile p).length]? = some byte → p byte = false) := by
  induction l with
  | nil => exact ⟨nofun, nofun⟩
  | cons c l ih =>
    rw [List.takeWhile_cons]
    cases hc : p c with
    | true =>
      refine ⟨fun i hi => ?_, fun byte hbyte => ih.2 byte ?_⟩
      · cases i with
        | zero => exact ⟨c, rfl, hc⟩
        | succ i => exact ih.1 i (Nat.lt_of_succ_lt_succ hi)
      · exact hbyte
    | false =>
      refine ⟨nofun, fun byte hbyte => ?_⟩
      exact Option.some_inj.mp hbyte ▸ hc

theorem skips_skipContinuation (hstart : start ≤ stop) (hstop : stop ≤ bytes.length) :
    Skips bytes start stop (skipContinuation bytes start stop) := by
  have hspec := takeWhile_spec isContinuation ((bytes.drop start).take (stop - start))
  have hle := List.takeWhile_sublist (l := (bytes.drop start).take (stop - start)) isContinuation
    |>.length_le
  rw [List.length_take, List.length_drop] at hle
  refine ⟨Nat.le_add_right _ _, by rw [skipContinuation]; omega, fun i hi hlt => ?_,
    fun hlt => ?_⟩
  · rw [skipContinuation] at hlt
    obtain ⟨byte, hbyte, hcontinues⟩ := hspec.1 (i - start) (by omega)
    rw [getElem?_slice (by omega), Nat.add_sub_cancel' hi] at hbyte
    exact ⟨byte, hbyte, hcontinues⟩
  · rintro ⟨byte, hbyte, hcontinues⟩
    rw [skipContinuation] at hlt hbyte
    have hnot := hspec.2 byte (by rwa [getElem?_slice (by omega)])
    rw [hnot] at hcontinues
    cases hcontinues

theorem continuation_fsReadChunk (h : i < m - r) :
    Continuation (fsReadChunk file r (m - r)) i ↔ Continuation file (r + i) := by
  rw [Continuation, Continuation, getElem?_fsReadChunk h]

/-- The same in the offsets of the file. -/
theorem Skips.of_chunk {s : Nat} (h : Skips (fsReadChunk file r (m - r)) a b s) (hb : b ≤ m - r) :
    Skips file (r + a) (r + b) (r + s) where
  ge := Nat.add_le_add_left h.ge r
  le := Nat.add_le_add_left h.le r
  skipped i hi hlt := by
    have hs := h.le
    have hat := h.skipped (i - r) (by omega) (by omega)
    rwa [continuation_fsReadChunk (by omega), Nat.add_sub_cancel' (by omega)] at hat
  stops hlt := by
    have hs : s < b := Nat.lt_of_add_lt_add_left hlt
    rw [← continuation_fsReadChunk (hs.trans_le hb)]
    exact h.stops hs

theorem sequenceLength_le (byte : UInt8) : sequenceLength byte ≤ 4 := by
  unfold sequenceLength
  repeat' split
  all_goals decide

theorem lengthAt_le (bytes : List UInt8) (i : Nat) : lengthAt bytes i ≤ 4 := by
  unfold lengthAt
  cases bytes[i]? with
  | none => exact Nat.zero_le _
  | some byte => exact sequenceLength_le byte

theorem cutBack_bounds (bytes : List UInt8) (start stop : Nat) (ks : List Nat) :
    cutBack bytes start stop ks ≤ stop ∧ stop ≤ cutBack bytes start stop ks + 3 ∧
      (start ≤ stop → start ≤ cutBack bytes start stop ks) := by
  induction ks with
  | nil => exact ⟨Nat.le_refl _, Nat.le_add_right _ _, id⟩
  | cons k ks ih =>
    have hle := lengthAt_le bytes (stop - k)
    rw [cutBack]
    repeat' split
    · exact ih
    all_goals omega

/-- A window is cut by less than the length of a sequence. -/
theorem cutPartial_bounds (bytes : List UInt8) (start stop : Nat) :
    cutPartial bytes start stop ≤ stop ∧ stop ≤ cutPartial bytes start stop + 3 ∧
      (start ≤ stop → start ≤ cutPartial bytes start stop) :=
  cutBack_bounds bytes start stop _

/-- Behind a byte that is a sequence of its own, nothing is cut. -/
theorem cutPartial_of_length (h : lengthAt bytes (stop - 1) = 1) :
    cutPartial bytes start stop = stop := by
  rw [cutPartial, cutBack, h]
  split <;> rfl

theorem cutPartial_of_line (hline : bytes[stop - 1]? = some lineFeed) :
    cutPartial bytes start stop = stop := by
  refine cutPartial_of_length ?_
  rw [lengthAt, hline]
  decide

theorem cutBack_eq (hstop : stop ≤ m - r) {ks : List Nat}
    (hks : ∀ k ∈ ks, 0 < k ∧ start + k ≤ stop) :
    r + cutBack (fsReadChunk file r (m - r)) start stop ks = cutBack file 0 (r + stop) ks := by
  induction ks with
  | nil => rfl
  | cons k ks ih =>
    obtain ⟨⟨hpos, hle⟩, hrest⟩ := List.forall_mem_cons.mp hks
    have hlength : lengthAt (fsReadChunk file r (m - r)) (stop - k) =
        lengthAt file (r + stop - k) := by
      rw [lengthAt, lengthAt, getElem?_fsReadChunk (by omega), Nat.add_sub_assoc (by omega)]
    have hback : 0 + k ≤ r + stop := by omega
    rw [cutBack, cutBack, if_pos hle, if_pos hback, hlength]
    split
    · exact ih hrest
    · split
      · omega
      · rfl

/-- Where a window is cut depends on the last bytes only. -/
theorem cutPartial_eq (hstart : start + 4 ≤ stop) (hstop : stop ≤ m - r) :
    r + cutPartial (fsReadChunk file r (m - r)) start stop = sequenceEnd file (r + stop) := by
  refine cutBack_eq hstop fun k hk => ?_
  simp only [List.mem_cons, List.not_mem_nil, or_false] at hk
  omega

theorem framed_decodeWindow (decode : List UInt8 → String) (atEof : Bool) (hr : r ≤ m)
    (hm : m ≤ file.length) : ∃ a b,
      Framed file r m atEof a b (decodeWindow decode (fsReadChunk file r (m - r)) r atEof) := by
  have hlength := length_fsReadChunk hr hm
  have hall : r + (m - r) = m := Nat.add_sub_cancel' hr
  have hfrom := lineFrom_le hr hm
  have hends : (if atEof then r + lineTo (fsReadChunk file r (m - r))
      (lineFrom (fsReadChunk file r (m - r)) r) atEof = m
      else Ends file (r + lineFrom (fsReadChunk file r (m - r)) r) m (r + lineTo
        (fsReadChunk file r (m - r)) (lineFrom (fsReadChunk file r (m - r)) r) atEof)) := by
    cases atEof with
    | true => exact (congrArg (r + ·) hlength).trans hall
    | false => exact ends_lineTo hr hm _
  -- From here on the chunk counts only through where it is cut.
  generalize hstart : lineFrom (fsReadChunk file r (m - r)) r = start at hfrom hends
  generalize hstop : lineTo (fsReadChunk file r (m - r)) start atEof = stop at hends
  have hbounds : start ≤ stop ∧ stop ≤ m - r := by
    cases atEof with
    | true =>
      have hm : r + stop = m := hends
      omega
    | false =>
      have hm := Ends.bounds hends hfrom
      omega
  have hskips := skips_skipContinuation hbounds.1 (hlength ▸ hbounds.2)
  have hwinStart : (decodeWindow decode (fsReadChunk file r (m - r)) r atEof).start =
      r + if r + start > 0 then skipContinuation (fsReadChunk file r (m - r)) start stop
        else start := by
    rw [decodeWindow, hstart, hstop]
  generalize hs : (if r + start > 0 then skipContinuation (fsReadChunk file r (m - r)) start stop
    else start) = s at hwinStart
  have hwinStop : (decodeWindow decode (fsReadChunk file r (m - r)) r atEof).stop =
      r + if atEof then stop else cutPartial (fsReadChunk file r (m - r)) s stop := by
    rw [decodeWindow, hstart, hstop, hs]
  have hcut := cutPartial_bounds (fsReadChunk file r (m - r)) s stop
  have hsle : s ≤ stop := by
    rw [← hs]
    split
    · exact hskips.le
    · exact hbounds.1
  refine ⟨r + start, r + stop, ?_⟩
  exact
    { lead := by
        split
        next hzero =>
          subst hzero
          rw [← hstart]
          rfl
        next hne => exact hstart ▸ resumes_lineFrom hr hm (Nat.pos_of_ne_zero hne)
      trail := hends
      le := Nat.add_le_add_left hbounds.1 r
      start := by
        rw [hwinStart, ← hs]
        split
        next hzero =>
          -- At the start of the file nothing is skipped.
          rw [if_neg (by omega)]
          exact hzero
        next hne =>
          rw [if_pos (Nat.pos_of_ne_zero hne)]
          exact Skips.of_chunk hskips hbounds.2
      range := by
        rw [hwinStart, hwinStop]
        have hcutLe := hcut.2.2 hsle
        split <;> omega
      stop_eof := fun heof => by rw [hwinStop, if_pos heof]
      stop_line := fun hnot hpos hline => by
        rw [hwinStop, hnot, if_neg Bool.false_ne_true]
        rcases Nat.eq_zero_or_pos stop with rfl | hpos
        · rw [Nat.le_zero.mp hcut.1]
        · rw [cutPartial_of_line]
          rwa [getElem?_fsReadChunk (by omega), ← Nat.add_sub_assoc hpos]
      stop_sequence := fun hnot hfar => by
        rw [hwinStart] at hfar
        rw [hwinStop, hnot, if_neg Bool.false_ne_true]
        -- The last four bytes lie in the window, so they are those of the file.
        exact cutPartial_eq (by omega) hbounds.2 }

/-! ## Lines -/

theorem lines_of_not_mem {line : List UInt8} (h : lineFeed ∉ line) (hne : line ≠ []) :
    Lines.lines lineFeed line = [line] := by
  induction line with
  | nil => exact absurd rfl hne
  | cons b line ih =>
    obtain ⟨hb, hline⟩ := not_or.mp (mt List.mem_cons.mpr h)
    rw [Lines.lines, if_neg (Ne.symm hb)]
    cases line with
    | nil => rfl
    | cons c line => rw [ih hline (List.cons_ne_nil _ _)]

theorem snd_readLines (decode : List UInt8 → String) (offset : Nat) {line : List UInt8}
    (h : lineFeed ∉ line) (bytes : List UInt8) :
    (readLines decode offset line bytes).map Prod.snd =
      (Lines.lines lineFeed (line ++ bytes)).map (lineText decode) := by
  induction bytes generalizing offset line with
  | nil =>
    rw [readLines, List.append_nil]
    split
    next hnil =>
      rw [hnil]
      rfl
    next hne =>
      rw [lines_of_not_mem h hne, List.map_singleton, List.map_singleton, lineText, if_neg]
      exact fun hlast => h (List.mem_of_getLast? hlast)
  | cons b rest ih =>
    rw [readLines]
    split
    next hb =>
      subst hb
      have hline : Lines.lines lineFeed (line ++ lineFeed :: rest) =
          (line ++ [lineFeed]) :: Lines.lines lineFeed rest := by
        rw [List.append_cons]
        exact Lines.lines_append_line ⟨line, h, rfl⟩ rest
      have htext : lineText decode (line ++ [lineFeed]) = decodeLine decode line := by
        rw [lineText, if_pos (by simp), List.dropLast_concat]
      rw [hline, List.map_cons, List.map_cons, htext, ih _ List.not_mem_nil, List.nil_append]
    next hb =>
      rw [ih offset (List.not_mem_append h fun hmem => hb (List.mem_singleton.mp hmem).symm),
        List.append_assoc, List.singleton_append]

theorem slice_fsReadChunk {len : Nat} (h : stop ≤ len) :
    ((fsReadChunk file r len).drop start).take (stop - start) =
      fsReadChunk file (r + start) (stop - start) := by
  rw [fsReadChunk, fsReadChunk, List.drop_take, List.drop_drop, List.take_take,
    Nat.min_eq_left (Nat.sub_le_sub_right h start)]

/-- The lines of a window are those of the bytes from its start to its end. -/
theorem lines_decodeWindow {len : Nat} {win : TextWindow}
    (hwin : win = decodeWindow decode (fsReadChunk file r len) r atEof) (h : win.stop ≤ r + len) :
    win.lines = (Lines.lines lineFeed
      (fsReadChunk file win.start (win.stop - win.start))).map (lineText decode) := by
  rw [hwin] at h ⊢
  unfold decodeWindow at h ⊢
  dsimp only at h ⊢
  rw [snd_readLines decode _ List.not_mem_nil, List.nil_append,
    slice_fsReadChunk (Nat.le_of_add_le_add_left h), Nat.add_sub_add_left]

end TextWindowLemmas

end Mast
