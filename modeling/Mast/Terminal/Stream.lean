import Mast.Terminal.Machine
import Mast.Terminal.Scanner

/-!
# The stream of a terminal

Every chunk that the reader accounts extends the stream. What the session keeps
follows from the stream alone, however the threads interleave: the offset counts it,
the replay buffer holds its end, and the tracked modes are what its control sequences
set.

Results:
1. `StreamInv`, `streamInv_of_reach`: the invariant.
2. `StreamInv.snapshot`: a snapshot ends the stream.
-/

namespace Mast

/-- The chunk that was scanned and is not accounted yet. -/
def Reader.unaccounted : Reader → List UInt8
  | .scanned chunk _ => chunk
  | _ => []

/-- The modes after a list of events, for a terminal in no mode. -/
def modesAfter (events : List OscEvent) : DecModes :=
  (events.filter isModeEvent).foldl applyModeEvent .empty

namespace Terminal

/-- What the session keeps follows from the stream. -/
structure StreamInv (t : Terminal) : Prop where
  bytesOut : t.inner.bytesOut.toNat = t.stream.length
  nonempty : ∀ chunk ∈ t.chunks, chunk ≠ []
  retained : t.inner.replay.bytes <:+ t.stream
  scanner : t.scanner = (OscScanner.new.feed (t.stream ++ t.reader.unaccounted)).1
  modes : t.inner.decModes = modesAfter (OscScanner.new.feed t.stream).2
  scanned : ∀ chunk modeEvents, t.reader = .scanned chunk modeEvents → chunk ≠ [] ∧
    modeEvents = ((OscScanner.new.feed t.stream).1.feed chunk).2.filter isModeEvent
  accounted : ∀ offset chunk, t.reader = .accounted offset chunk →
    ∃ before, t.chunks = before ++ [chunk] ∧ offset.toNat = before.flatten.length

end Terminal

namespace StreamLemmas

open Terminal

variable {t t' : Terminal}

theorem feed_append_fst (s : OscScanner) (first second : List UInt8) :
    (s.feed (first ++ second)).1 = ((s.feed first).1.feed second).1 := by
  rw [OscScanner.feed, OscScanner.feed, OscScanner.feed, Transducer.feed_append]

theorem feed_append_snd (s : OscScanner) (first second : List UInt8) :
    (s.feed (first ++ second)).2 = (s.feed first).2 ++ ((s.feed first).1.feed second).2 := by
  rw [OscScanner.feed, OscScanner.feed, OscScanner.feed, Transducer.feed_append]

theorem modesAfter_append (first second : List OscEvent) :
    modesAfter (first ++ second) =
      (second.filter isModeEvent).foldl applyModeEvent (modesAfter first) := by
  rw [modesAfter, modesAfter, List.filter_append, List.foldl_append]

/-- A snapshot ends the stream. -/
theorem StreamInv.snapshot (h : t.StreamInv) : t.inner.replay.snapshot <:+ t.stream :=
  (ReplayLemmas.isSuffix_snapshot _).trans h.retained

/-- A step that reads and accounts nothing. -/
theorem StreamInv.frame (h : t.StreamInv) (hchunks : t'.chunks = t.chunks)
    (hbytes : t'.inner.bytesOut = t.inner.bytesOut) (hmodes : t'.inner.decModes = t.inner.decModes)
    (hreplay : t'.inner.replay.bytes <:+ t.inner.replay.bytes) (hscanner : t'.scanner = t.scanner)
    (hreader : t'.reader = t.reader ∨ t.reader.unaccounted = [] ∧
      ∀ chunk, (∀ events, t'.reader ≠ .scanned chunk events) ∧
        ∀ offset, t'.reader ≠ .accounted offset chunk) : t'.StreamInv := by
  have hstream : t'.stream = t.stream := congrArg List.flatten hchunks
  refine
    { bytesOut := by rw [hbytes, hstream]; exact h.bytesOut
      nonempty := hchunks ▸ h.nonempty
      retained := hstream ▸ hreplay.trans h.retained
      scanner := ?_
      modes := by rw [hmodes, hstream]; exact h.modes
      scanned := fun chunk events heq => ?_
      accounted := fun offset chunk heq => ?_ }
  · rw [hscanner, hstream, h.scanner]
    rcases hreader with hsame | ⟨hnone, hidle⟩
    · rw [hsame]
    · have hnone' : t'.reader.unaccounted = [] := by
        cases hr : t'.reader with
        | scanned chunk events => exact absurd hr ((hidle chunk).1 events)
        | _ => rfl
      rw [hnone, hnone']
  · rcases hreader with hsame | ⟨-, hidle⟩
    · rw [hstream]
      exact h.scanned chunk events (hsame ▸ heq)
    · exact absurd heq ((hidle chunk).1 events)
  · rcases hreader with hsame | ⟨-, hidle⟩
    · rw [hchunks]
      exact h.accounted offset chunk (hsame ▸ heq)
    · exact absurd heq ((hidle chunk).2 offset)

/-- The reader goes on without a chunk. -/
theorem StreamInv.moveTo (h : t.StreamInv) (reader : Reader) (hnone : t.reader.unaccounted = [])
    (hidle : ∀ chunk, (∀ events, reader ≠ .scanned chunk events) ∧
      ∀ offset, reader ≠ .accounted offset chunk) : StreamInv { t with reader } :=
  StreamInv.frame h rfl rfl rfl List.suffix_rfl rfl (.inr ⟨hnone, hidle⟩)

theorem StreamInv.check (h : t.StreamInv) : t.check.StreamInv := by
  unfold Terminal.check
  split
  next hreader =>
    refine StreamInv.moveTo h _ (by rw [hreader]; rfl) fun chunk => ⟨fun events => ?_,
      fun offset => ?_⟩ <;> (repeat' split) <;> simp
  next => exact h

theorem StreamInv.read (h : t.StreamInv) {chunk : List UInt8} (hchunk : chunk ≠ []) :
    (t.read chunk).StreamInv := by
  unfold Terminal.read
  split
  next hreader =>
    have hscanner : t.scanner = (OscScanner.new.feed t.stream).1 := by
      rw [h.scanner, hreader]
      exact congrArg (fun input => (OscScanner.new.feed input).1) (List.append_nil _)
    refine
      { bytesOut := h.bytesOut
        nonempty := h.nonempty
        retained := h.retained
        scanner := ?_
        modes := h.modes
        scanned := fun c events heq => ?_
        accounted := fun _ _ heq => by cases heq }
    · show (t.scanner.feed chunk).1 = (OscScanner.new.feed (t.stream ++ chunk)).1
      rw [hscanner, feed_append_fst]
    · cases heq
      exact ⟨hchunk, by rw [hscanner]; rfl⟩
  next => exact h

/-- The reader accounts the chunk it scanned. -/
theorem StreamInv.account (h : t.StreamInv) : t.account.StreamInv := by
  unfold Terminal.account
  split
  next chunk modeEvents hreader =>
    obtain ⟨hchunk, hevents⟩ := h.scanned _ _ hreader
    unfold Inner.account
    split
    next offset inner haccount =>
      split at haccount
      next hfits =>
        cases haccount
        have hstream : (t.chunks ++ [chunk]).flatten = t.stream ++ chunk := by
          rw [List.flatten_append, List.flatten_singleton, Terminal.stream]
        refine
          { bytesOut := ?_
            nonempty := fun c hc => ?_
            retained := ?_
            scanner := ?_
            modes := ?_
            scanned := fun _ _ heq => by cases heq
            accounted := fun offset c heq => ?_ }
        · show (UInt64.ofNat (t.inner.bytesOut.toNat + chunk.length)).toNat =
            (t.chunks ++ [chunk]).flatten.length
          rw [UInt64.toNat_ofNat_of_lt' hfits, hstream, List.length_append, h.bytesOut]
        · rcases List.mem_append.mp hc with hold | hnew
          · exact h.nonempty c hold
          · obtain rfl := List.mem_singleton.mp hnew
            exact hchunk
        · obtain ⟨before, hbefore⟩ := h.retained
          refine (ReplayLemmas.isSuffix_push _ _).trans ⟨before, ?_⟩
          rw [← List.append_assoc, hbefore]
          exact hstream.symm
        · show t.scanner = (OscScanner.new.feed ((t.chunks ++ [chunk]).flatten ++ [])).1
          rw [h.scanner, hreader, Reader.unaccounted, List.append_nil, hstream]
        · show modeEvents.foldl applyModeEvent t.inner.decModes =
            modesAfter (OscScanner.new.feed (t.chunks ++ [chunk]).flatten).2
          rw [hstream, feed_append_snd, modesAfter_append, hevents, h.modes]
        · cases heq
          exact ⟨t.chunks, rfl, h.bytesOut⟩
      next => cases haccount
    next => exact h
  next => exact h

theorem StreamInv.output (h : t.StreamInv) (sends : Bool) : (t.output sends).StreamInv := by
  unfold Terminal.output
  split
  next offset chunk hreader =>
    have hnone : t.reader.unaccounted = [] := by rw [hreader]; rfl
    split
    · split
      · exact StreamInv.frame h rfl rfl rfl List.suffix_rfl rfl (.inr ⟨hnone, by simp⟩)
      · exact StreamInv.frame h rfl rfl rfl List.suffix_rfl rfl (.inr ⟨hnone, by simp⟩)
    · exact StreamInv.moveTo h _ hnone (by simp)
  next => exact h

theorem StreamInv.rollback (h : t.StreamInv) : t.rollback.StreamInv := by
  unfold Terminal.rollback
  split
  next n hreader =>
    have hnone : t.reader.unaccounted = [] := by rw [hreader]; rfl
    exact StreamInv.frame h rfl rfl rfl List.suffix_rfl rfl (.inr ⟨hnone, by simp⟩)
  next => exact h

theorem StreamInv.wake (h : t.StreamInv) : t.wake.StreamInv := by
  unfold Terminal.wake
  split
  next hreader => exact StreamInv.moveTo h _ (by rw [hreader]; rfl) (by simp)
  next => exact h

theorem StreamInv.step (h : t.StreamInv) {a : Action} (ha : t.admits a) : (t.step a).StreamInv := by
  have hsame {t' : Terminal} (hchunks : t'.chunks = t.chunks)
      (hbytes : t'.inner.bytesOut = t.inner.bytesOut)
      (hmodes : t'.inner.decModes = t.inner.decModes)
      (hreplay : t'.inner.replay = t.inner.replay) (hscanner : t'.scanner = t.scanner)
      (hreader : t'.reader = t.reader) : t'.StreamInv :=
    StreamInv.frame h hchunks hbytes hmodes (hreplay ▸ List.suffix_rfl) hscanner (.inl hreader)
  cases a with
  | check => exact StreamInv.check h
  | read chunk => exact StreamInv.read h ha
  | interrupted =>
    simp only [Terminal.step, Terminal.interrupted]
    split
    next hreader => exact StreamInv.moveTo h _ (by rw [hreader]; rfl) (by simp)
    next => exact h
  | readEnd =>
    simp only [Terminal.step, Terminal.readEnd]
    split
    next hreader => exact StreamInv.moveTo h _ (by rw [hreader]; rfl) (by simp)
    next => exact h
  | account => exact StreamInv.account h
  | output sends => exact StreamInv.output h sends
  | rollback => exact StreamInv.rollback h
  | wake => exact StreamInv.wake h
  | notify => exact StreamInv.frame (StreamInv.wake h) rfl rfl rfl List.suffix_rfl rfl (.inl rfl)
  | ack n =>
    have hacked : StreamInv
        { t with
          inner := (t.inner.ack n).1
          log := (.acked n, (t.inner.flow.onAcked n).2) :: t.log } := hsame rfl rfl rfl rfl rfl rfl
    simp only [Terminal.step, Terminal.ack]
    split
    · exact StreamInv.wake hacked
    · exact hacked
  | kill =>
    simp only [Terminal.step, Terminal.kill]
    split
    · exact h
    · exact hsame rfl rfl rfl rfl rfl rfl
  | takeRecord =>
    simp only [Terminal.step, Terminal.takeRecord, Inner.takeRecord]
    split
    · exact h
    · exact StreamInv.frame h rfl rfl rfl (List.nil_suffix) rfl (.inl rfl)
  | resetFlow | exit | attach | detach | reattach _ | arrive _ | respond _ =>
    exact hsame rfl rfl rfl rfl rfl rfl

theorem streamInv_of_reach (h : machine.Reach Start t) : t.StreamInv := by
  refine Machine.Reach.invariant (I := StreamInv) ?_ (fun t a _ hinv ha => StreamInv.step hinv ha) h
  rintro t ⟨replayCap, highWater, lowWater, hmarks, rfl⟩
  exact ⟨rfl, by simp [new], List.suffix_rfl, rfl, rfl, by simp [new], by simp [new]⟩

end StreamLemmas

end Mast
