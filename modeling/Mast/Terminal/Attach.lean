import Mast.Lib.Pieces
import Mast.Terminal.Stream

/-!
# What an attached terminal shows

A view attaches its channel first and asks for the snapshot later. A chunk that was
accounted in between is in the snapshot and on the channel; the gate tells such
chunks by their offset. Since chunks are accounted whole, the end of the snapshot is
the beginning of a chunk, and no chunk straddles it.

Results:
1. `GateInv`: the gate judges every frame it received, and each once.
2. `ViewInv`, `viewInv_of_reach`: a channel carries the chunks from where it was
   attached, in order and without a gap.
3. `attached_terminal`: what a terminal shows is a contiguous piece of the stream.
-/

namespace Mast

open Pieces

/-- The frame of a chunk. -/
def frameAt (chunks : List (List UInt8)) (i : Nat) : Frame :=
  ⟨UInt64.ofNat (offsetAt chunks i), chunks.getD i []⟩

/-- The gate, the terminal and the frames that reached them. -/
def View.GateInv (v : View) : Prop :=
  match v.gate.endOffset with
  | none => v.gate.queued = v.received ∧ v.terminal = [] ∧ v.delivered = [] ∧ v.discarded = 0
  | some endOffset =>
    v.gate.queued = [] ∧
      (⟨v.delivered, v.discarded⟩ : GateResult) = AttachGate.judgeAll endOffset v.received ∧
      ∃ answered bytes, v.answer = some (answered, bytes) ∧ answered.toNat = endOffset ∧
        v.terminal = bytes ++ v.delivered.flatten

/-- A snapshot that begins where a chunk begins, in a terminal with its modes set. -/
def Answers (chunks : List (List UInt8)) (start : Nat) (endOffset : UInt64)
    (bytes : List UInt8) : Prop :=
  ∃ i modes snapshot, start ≤ i ∧ i ≤ chunks.length ∧ endOffset.toNat = offsetAt chunks i ∧
    bytes = decModePreamble modes ++ snapshot ∧ snapshot <:+ (chunks.take i).flatten

namespace Terminal

/-- A view and its channel against the stream. -/
structure ViewInv (t : Terminal) (view : Nat) (v : View) : Prop where
  channel : v.channel = (List.range' v.start v.channel.length).map (frameAt t.chunks)
  sent_le : v.start + v.channel.length ≤ t.cursor
  current : t.slot = some view → v.start + v.channel.length = t.cursor
  arrived_le : v.arrived ≤ v.channel.length
  received_le : v.received.length ≤ v.arrived
  received : v.received = v.channel.take v.received.length
  refused : v.received.length < v.arrived →
    maxSafeInteger < offsetAt t.chunks (v.start + v.received.length)
  answer : ∀ endOffset bytes, v.answer = some (endOffset, bytes) →
    Answers t.chunks v.start endOffset bytes
  gate : v.GateInv

/-- The views and the slot. -/
structure ViewsInv (t : Terminal) : Prop where
  views : ∀ view v, t.views[view]? = some v → t.ViewInv view v
  slot : ∀ view, t.slot = some view → view < t.views.length

end Terminal

namespace AttachLemmas

open AttachGate Terminal

variable {v : View} {t : Terminal} {view : Nat}

/-! ## The gate -/

theorem judgeAll_append (endOffset : Nat) (frames : List Frame) (frame : Frame) :
    judgeAll endOffset (frames ++ [frame]) =
      ⟨(judgeAll endOffset frames).deliver ++ (judge endOffset frame).deliver,
        (judgeAll endOffset frames).discardedBytes + (judge endOffset frame).discardedBytes⟩ := by
  simp [judgeAll]

/-- Every byte of a judged frame is delivered or discarded. -/
theorem length_judgeAll (endOffset : Nat) (frames : List Frame) :
    (judgeAll endOffset frames).deliver.flatten.length +
      (judgeAll endOffset frames).discardedBytes = (frames.map fun f => f.bytes.length).sum := by
  induction frames with
  | nil => rfl
  | cons frame frames ih =>
    simp only [judgeAll, List.flatMap_cons, List.map_cons, List.sum_cons, List.flatten_append,
      List.length_append] at ih ⊢
    have hframe : (judge endOffset frame).deliver.flatten.length +
        (judge endOffset frame).discardedBytes = frame.bytes.length := by
      unfold judge
      split <;> simp
    omega

/-- A frame reaches the gate. -/
theorem GateInv.push (h : v.GateInv) (frame : Frame) :
    ({ v with received := v.received ++ [frame] }.apply (v.gate.push frame).1
      (v.gate.push frame).2).GateInv := by
  unfold View.GateInv at h
  unfold AttachGate.push
  cases hend : v.gate.endOffset with
  | none =>
    rw [hend] at h
    obtain ⟨hqueued, hterminal, hdelivered, hdiscarded⟩ := h
    simp only [View.GateInv, View.apply]
    rw [hqueued, hterminal, hdelivered, hdiscarded]
    exact ⟨rfl, rfl, rfl, rfl⟩
  | some endOffset =>
    rw [hend] at h
    obtain ⟨hqueued, hresult, answered, bytes, hanswer, hanswered, hterminal⟩ := h
    simp only [View.GateInv, View.apply, hend]
    refine ⟨hqueued, ?_, answered, bytes, hanswer, hanswered, ?_⟩
    · rw [judgeAll_append, ← hresult]
    · rw [hterminal, List.flatten_append, List.append_assoc]

theorem GateInv.arrive (h : v.GateInv) : v.arrive.GateInv := by
  unfold View.arrive
  split
  next frame hframe =>
    dsimp only
    split
    · exact GateInv.push h frame
    · exact h
  next => exact h

theorem GateInv.respond (h : v.GateInv) : v.respond.GateInv := by
  unfold View.respond
  split
  next endOffset bytes hanswer =>
    split
    next =>
      unfold onSnapshot
      cases hend : v.gate.endOffset with
      | none =>
        unfold View.GateInv at h
        rw [hend] at h
        obtain ⟨hqueued, hterminal, hdelivered, hdiscarded⟩ := h
        simp only [View.GateInv, View.apply]
        refine ⟨trivial, ?_, endOffset, bytes, hanswer, rfl, ?_⟩
        · rw [hdelivered, hdiscarded, hqueued, List.nil_append, Nat.zero_add]
        · rw [hterminal, hdelivered, List.nil_append, List.nil_append]
      | some _ => exact h
    next => exact h
  next => exact h

theorem GateInv.answered (h : v.GateInv) (endOffset : UInt64) (bytes : List UInt8) :
    (v.answered endOffset bytes).GateInv := by
  unfold View.answered
  split
  next hnone =>
    unfold View.GateInv at h ⊢
    split
    next hend =>
      rw [hend] at h
      exact h
    next _ hend =>
      rw [hend] at h
      obtain ⟨-, -, answered, bytes', hanswer, -⟩ := h
      rw [hnone] at hanswer
      cases hanswer
  next => exact h

/-! ## Frames of the stream -/

theorem frameAt_append {chunks : List (List UInt8)} {i : Nat} (h : i < chunks.length)
    (rest : List (List UInt8)) : frameAt (chunks ++ rest) i = frameAt chunks i := by
  have hget : (chunks ++ rest).getD i [] = chunks.getD i [] := by
    rw [List.getD_eq_getElem?_getD, List.getElem?_append_left h, List.getD_eq_getElem?_getD]
  rw [frameAt, frameAt, offsetAt_append h.le, hget]

theorem map_frameAt_append {chunks : List (List UInt8)} {i n : Nat} (h : i + n ≤ chunks.length)
    (rest : List (List UInt8)) : (List.range' i n).map (frameAt (chunks ++ rest)) =
      (List.range' i n).map (frameAt chunks) := by
  refine List.map_congr_left fun j hj => frameAt_append ?_ rest
  have := List.mem_range'_1.mp hj
  omega

theorem Answers.append {chunks : List (List UInt8)} {start : Nat} {endOffset : UInt64}
    {bytes : List UInt8} (h : Answers chunks start endOffset bytes) (rest : List (List UInt8)) :
    Answers (chunks ++ rest) start endOffset bytes := by
  obtain ⟨i, modes, snapshot, hstart, hi, hend, hbytes, hsuffix⟩ := h
  refine ⟨i, modes, snapshot, hstart, ?_, ?_, hbytes, ?_⟩
  · rw [List.length_append]
    omega
  · rw [offsetAt_append hi, hend]
  · rw [List.take_append_of_le_length hi]
    exact hsuffix

theorem toNat_offset (h : t.StreamInv) (i : Nat) :
    (frameAt t.chunks i).offset.toNat = offsetAt t.chunks i := by
  have hle : offsetAt t.chunks i ≤ t.inner.bytesOut.toNat := by
    rw [h.bytesOut]
    exact offsetAt_le _ _
  exact UInt64.toNat_ofNat_of_lt' (Nat.lt_of_le_of_lt hle t.inner.bytesOut.toNat_lt)

/-! ## The views -/

theorem cursor_le (t : Terminal) : t.cursor ≤ t.chunks.length := by
  unfold cursor
  split
  · exact Nat.sub_le _ _
  · exact Nat.le_refl _

/-- A step that leaves the chunks and the views as they are. -/
theorem ViewsInv.frame {t' : Terminal} (h : t.ViewsInv) (hviews : t'.views = t.views)
    (hchunks : t'.chunks = t.chunks) (hcursor : t'.cursor = t.cursor)
    (hslot : t'.slot = t.slot ∨ t'.slot = none) : t'.ViewsInv := by
  have hslot' : ∀ view, t'.slot = some view → t.slot = some view := by
    intro view heq
    rcases hslot with hsame | hnone
    · exact hsame ▸ heq
    · exact absurd (hnone.symm.trans heq) (by simp)
  refine ⟨fun view v hv => ?_, fun view heq => hviews ▸ h.slot view (hslot' view heq)⟩
  have hinv := h.views view v (hviews ▸ hv)
  exact
    { channel := hchunks ▸ hinv.channel
      sent_le := hcursor ▸ hinv.sent_le
      current := fun heq => hcursor ▸ hinv.current (hslot' view heq)
      arrived_le := hinv.arrived_le
      received_le := hinv.received_le
      received := hinv.received
      refused := hchunks ▸ hinv.refused
      answer := hchunks ▸ hinv.answer
      gate := hinv.gate }

/-- The reader goes on while no chunk is on its way to the sink. -/
theorem ViewsInv.moveTo (h : t.ViewsInv) (reader : Reader)
    (hbefore : ∀ offset chunk, t.reader ≠ .accounted offset chunk)
    (hafter : ∀ offset chunk, reader ≠ .accounted offset chunk) :
    ViewsInv { t with reader } := by
  refine ViewsInv.frame h rfl rfl ?_ (.inl rfl)
  have hcursor (t : Terminal) (hidle : ∀ offset chunk, t.reader ≠ .accounted offset chunk) :
      t.cursor = t.chunks.length := by
    unfold cursor
    split
    next offset chunk heq => exact absurd heq (hidle offset chunk)
    next => rfl
  rw [hcursor t hbefore]
  exact hcursor { t with reader } hafter

/-- A change of one view that concerns only itself. -/
theorem ViewsInv.modify (h : t.ViewsInv) (view : Nat) (f : View → View)
    (hf : ∀ v, t.ViewInv view v → t.ViewInv view (f v)) :
    ViewsInv { t with views := t.views.modify view f } := by
  refine ⟨fun i v hv => ?_, fun i heq => ?_⟩
  · have hsame {v : View} (hinv : t.ViewInv i v) :
        ViewInv { t with views := t.views.modify view f } i v := { hinv with }
    dsimp only at hv
    rw [List.getElem?_modify] at hv
    obtain ⟨old, hold, rfl⟩ := Option.map_eq_some_iff.mp hv
    split
    next heq => exact hsame (heq ▸ hf old (heq ▸ h.views i old hold))
    next => exact hsame (h.views i old hold)
  · rw [List.length_modify]
    exact h.slot i heq

theorem ViewInv.arrive (hstream : t.StreamInv) (h : t.ViewInv view v) :
    t.ViewInv view v.arrive := by
  have hgate := GateInv.arrive h.gate
  unfold View.arrive at hgate ⊢
  split
  next frame hframe =>
    have hlt : v.arrived < v.channel.length := (List.getElem?_eq_some_iff.mp hframe).1
    -- the frame is the one of the next chunk
    have hoffset : frame.offset.toNat = offsetAt t.chunks (v.start + v.arrived) := by
      rw [h.channel, List.getElem?_map, List.getElem?_range' hlt] at hframe
      simp only [Option.map_some, Option.some_inj] at hframe
      rw [← hframe, toNat_offset hstream, Nat.one_mul]
    rw [hframe] at hgate
    dsimp only at hgate ⊢
    split
    next hsafe =>
      rw [if_pos hsafe] at hgate
      -- nothing was refused so far, for offsets grow
      have hall : v.received.length = v.arrived := by
        refine Nat.le_antisymm h.received_le (Nat.le_of_not_lt fun hgap => ?_)
        have hrefused := h.refused hgap
        have hmono : offsetAt t.chunks (v.start + v.received.length) ≤
            offsetAt t.chunks (v.start + v.arrived) :=
          offsetAt_mono (Nat.add_le_add_left h.received_le v.start)
        omega
      refine
        { channel := h.channel
          sent_le := h.sent_le
          current := h.current
          arrived_le := hlt
          received_le := ?_
          received := ?_
          refused := fun hgap => ?_
          answer := h.answer
          gate := hgate }
      · show (v.received ++ [frame]).length ≤ v.arrived + 1
        rw [List.length_append, hall]
        exact Nat.le_refl _
      · show v.received ++ [frame] = v.channel.take (v.received ++ [frame]).length
        rw [List.length_append, List.length_singleton, hall, List.take_add_one, hframe,
          Option.toList_some]
        conv => lhs; rw [h.received, hall]
      · have hgap' : (v.received ++ [frame]).length < v.arrived + 1 := hgap
        rw [List.length_append, List.length_singleton, hall] at hgap'
        exact absurd hgap' (Nat.lt_irrefl _)
    next hunsafe =>
      rw [if_neg hunsafe] at hgate
      refine { h with
        arrived_le := hlt
        received_le := Nat.le_succ_of_le h.received_le
        refused := fun hgap => ?_
        gate := hgate }
      rcases Nat.lt_or_ge v.received.length v.arrived with hold | hnew
      · exact h.refused hold
      · have hall : v.received.length = v.arrived := Nat.le_antisymm h.received_le hnew
        show maxSafeInteger < offsetAt t.chunks (v.start + v.received.length)
        rw [hall, ← hoffset]
        exact Nat.lt_of_not_le hunsafe
  next => exact h

theorem ViewInv.respond (h : t.ViewInv view v) : t.ViewInv view v.respond := by
  have hgate := GateInv.respond h.gate
  revert hgate
  unfold View.respond
  split
  next =>
    split
    next =>
      split
      next => exact fun hgate => { h with gate := hgate }
      next => exact fun _ => h
    next => exact fun _ => h
  next => exact fun _ => h

theorem ViewInv.answered (hstream : t.StreamInv) (h : t.ViewInv view v) :
    t.ViewInv view (v.answered t.inner.bytesOut t.inner.screenBytes) := by
  have hgate := GateInv.answered h.gate t.inner.bytesOut t.inner.screenBytes
  unfold View.answered at hgate ⊢
  split
  next hnone =>
    simp only [hnone] at hgate
    refine { h with
      answer := fun endOffset bytes heq => ?_
      gate := hgate }
    cases heq
    refine ⟨t.chunks.length, t.inner.decModes, t.inner.replay.snapshot, ?_, Nat.le_refl _, ?_, rfl,
      ?_⟩
    · exact (Nat.le_of_add_right_le h.sent_le).trans (cursor_le t)
    · rw [offsetAt_length]
      exact hstream.bytesOut
    · rw [List.take_length]
      exact StreamLemmas.StreamInv.snapshot hstream
  next => exact h

theorem ViewsInv.wake (h : t.ViewsInv) : t.wake.ViewsInv := by
  unfold Terminal.wake
  split
  next hreader => exact ViewsInv.moveTo h _ (by rw [hreader]; simp) (by simp)
  next => exact h

theorem ViewsInv.attach (h : t.ViewsInv) : t.attach.ViewsInv := by
  refine ⟨fun view v hv => ?_, fun view heq => ?_⟩
  · have hv' : (t.views ++ [View.attached t.cursor])[view]? = some v := hv
    rw [List.getElem?_append] at hv'
    split at hv'
    next hlt =>
      refine { h.views view v hv' with current := fun heq => ?_ }
      -- the slot holds the new view now
      cases heq
      exact absurd hlt (Nat.lt_irrefl _)
    next =>
      obtain ⟨hi, rfl⟩ := List.getElem?_eq_some_iff.mp hv'
      simp only [List.getElem_singleton]
      exact
        { channel := rfl
          sent_le := Nat.le_refl _
          current := fun _ => rfl
          arrived_le := Nat.le_refl _
          received_le := Nat.le_refl _
          received := rfl
          refused := fun hgap => absurd hgap (Nat.lt_irrefl _)
          answer := fun _ _ heq => by cases heq
          gate := ⟨rfl, rfl, rfl, rfl⟩ }
  · cases heq
    show t.views.length < (t.views ++ [View.attached t.cursor]).length
    rw [List.length_append]
    exact Nat.lt_succ_self _

theorem ViewsInv.account (h : t.ViewsInv) : t.account.ViewsInv := by
  unfold Terminal.account
  split
  next chunk modeEvents hreader =>
    split
    next offset inner _ =>
      have hcursor : t.cursor = t.chunks.length := by unfold cursor; rw [hreader]
      have hgrown : cursor { t with
          inner
          reader := .accounted offset chunk
          chunks := t.chunks ++ [chunk]
          log := (.sent chunk.length, (t.inner.flow.onSent chunk.length).2) :: t.log } =
          t.cursor := by
        rw [hcursor]
        show (t.chunks ++ [chunk]).length - 1 = t.chunks.length
        rw [List.length_append]
        rfl
      refine ⟨fun view v hv => ?_, h.slot⟩
      have hinv := h.views view v hv
      have hsent : v.start + v.channel.length ≤ t.chunks.length := hcursor ▸ hinv.sent_le
      have hreceived := hinv.received_le.trans hinv.arrived_le
      exact
        { channel := hinv.channel.trans (map_frameAt_append hsent [chunk]).symm
          sent_le := hgrown.symm ▸ hinv.sent_le
          current := fun heq => hgrown.symm ▸ hinv.current heq
          arrived_le := hinv.arrived_le
          received_le := hinv.received_le
          received := hinv.received
          refused := fun hgap => by
            rw [offsetAt_append (by omega)]
            exact hinv.refused hgap
          answer := fun endOffset bytes heq => Answers.append (hinv.answer _ _ heq) [chunk]
          gate := hinv.gate }
    next => exact h
  next => exact h

/-- The chunk on its way to the sink goes to the channel in the slot, and to no other. -/
theorem ViewsInv.output (hstream : t.StreamInv) (h : t.ViewsInv) (sends : Bool) :
    (t.output sends).ViewsInv := by
  unfold Terminal.output
  split
  next offset chunk hreader =>
    obtain ⟨before, hchunks, hoffset⟩ := hstream.accounted _ _ hreader
    have hlength : t.chunks.length = before.length + 1 := by rw [hchunks, List.length_append]; rfl
    have hcursor : t.cursor = before.length := by
      unfold cursor
      rw [hreader, hlength]
      rfl
    -- without the chunk being sent, the cursor moves past it
    have hskip (t' : Terminal) (hviews : t'.views = t.views) (hchunks' : t'.chunks = t.chunks)
        (hcursor' : t'.cursor = t.chunks.length) (hslot : t'.slot = none) : t'.ViewsInv := by
      refine ⟨fun view v hv => ?_, fun view heq => absurd (hslot.symm.trans heq) (by simp)⟩
      have hinv := h.views view v (hviews ▸ hv)
      exact
        { channel := hchunks' ▸ hinv.channel
          sent_le := hcursor' ▸ hinv.sent_le.trans (cursor_le t)
          current := fun heq => absurd (hslot.symm.trans heq) (by simp)
          arrived_le := hinv.arrived_le
          received_le := hinv.received_le
          received := hinv.received
          refused := hchunks' ▸ hinv.refused
          answer := hchunks' ▸ hinv.answer
          gate := hinv.gate }
    split
    next current hslot =>
      split
      next =>
        have hframe : (⟨offset, chunk⟩ : Frame) = frameAt t.chunks before.length := by
          have hbytes : t.chunks.getD before.length [] = chunk := by simp [hchunks]
          have hstart : offsetAt t.chunks before.length = offset.toNat := by
            rw [hoffset, hchunks, offsetAt_append (Nat.le_refl _), offsetAt_length]
          rw [frameAt, hbytes, hstart, UInt64.ofNat_toNat]
        refine ⟨fun view v hv => ?_, fun view heq => ?_⟩
        · dsimp only at hv
          rw [List.getElem?_modify] at hv
          obtain ⟨old, hold, rfl⟩ := Option.map_eq_some_iff.mp hv
          have hinv := h.views view old hold
          split
          next heq =>
            have hcurrent : old.start + old.channel.length = before.length :=
              hcursor ▸ hinv.current (heq ▸ hslot)
            have hall : (old.channel ++ [(⟨offset, chunk⟩ : Frame)]).length =
                old.channel.length + 1 := by rw [List.length_append]; rfl
            refine { hinv with
              channel := ?_
              sent_le := ?_
              current := fun _ => ?_
              arrived_le := ?_
              received := ?_ }
            · show old.channel ++ [(⟨offset, chunk⟩ : Frame)] =
                (List.range' old.start (old.channel ++ [(⟨offset, chunk⟩ : Frame)]).length).map
                  (frameAt t.chunks)
              rw [hall, List.range'_concat, List.map_append, ← hinv.channel, List.map_singleton,
                Nat.one_mul, hcurrent, hframe]
            · show old.start + (old.channel ++ [(⟨offset, chunk⟩ : Frame)]).length ≤ t.chunks.length
              omega
            · show old.start + (old.channel ++ [(⟨offset, chunk⟩ : Frame)]).length =
                t.chunks.length
              omega
            · show old.arrived ≤ (old.channel ++ [(⟨offset, chunk⟩ : Frame)]).length
              have := hinv.arrived_le
              omega
            · show old.received =
                (old.channel ++ [(⟨offset, chunk⟩ : Frame)]).take old.received.length
              rw [List.take_append_of_le_length (hinv.received_le.trans hinv.arrived_le)]
              exact hinv.received
          next hne =>
            refine { hinv with
              sent_le := hinv.sent_le.trans (cursor_le t)
              current := fun heq => ?_ }
            exact absurd (Option.some_inj.mp (hslot.symm.trans heq)) hne
        · rw [List.length_modify]
          exact h.slot view heq
      next => exact hskip _ rfl rfl rfl rfl
    next hslot => exact hskip _ rfl rfl rfl hslot
  next => exact h

theorem ViewsInv.step (hstream : t.StreamInv) (h : t.ViewsInv) (a : Action) :
    (t.step a).ViewsInv := by
  cases a with
  | check =>
    simp only [Terminal.step, Terminal.check]
    split
    next hreader =>
      refine ViewsInv.moveTo h _ (by rw [hreader]; simp) fun offset chunk => ?_
      repeat' split
      all_goals simp
    next => exact h
  | read chunk =>
    simp only [Terminal.step, Terminal.read]
    split
    next hreader =>
      -- A chunk that is scanned is not yet accounted, so no view may have seen it.
      exact ViewsInv.frame (ViewsInv.moveTo h
        (.scanned chunk ((t.scanner.feed chunk).2.filter isModeEvent)) (by rw [hreader]; simp)
        (by simp)) rfl rfl rfl (.inl rfl)
    next => exact h
  | interrupted =>
    simp only [Terminal.step, Terminal.interrupted]
    split
    next hreader => exact ViewsInv.moveTo h _ (by rw [hreader]; simp) (by simp)
    next => exact h
  | readEnd =>
    simp only [Terminal.step, Terminal.readEnd]
    split
    next hreader => exact ViewsInv.moveTo h _ (by rw [hreader]; simp) (by simp)
    next => exact h
  | account => exact ViewsInv.account h
  | output sends => exact ViewsInv.output hstream h sends
  | rollback =>
    simp only [Terminal.step, Terminal.rollback]
    split
    next hreader =>
      -- What is taken back was not delivered to a view.
      exact ViewsInv.frame (ViewsInv.moveTo h .top (by rw [hreader]; simp) (by simp)) rfl rfl rfl
        (.inl rfl)
    next => exact h
  | wake => exact ViewsInv.wake h
  | notify => exact ViewsInv.frame (ViewsInv.wake h) rfl rfl rfl (.inl rfl)
  | ack n =>
    have hacked : ViewsInv
        { t with
          inner := (t.inner.ack n).1
          log := (.acked n, (t.inner.flow.onAcked n).2) :: t.log } :=
      ViewsInv.frame h rfl rfl rfl (.inl rfl)
    simp only [Terminal.step, Terminal.ack]
    split
    · exact ViewsInv.wake hacked
    · exact hacked
  | kill =>
    simp only [Terminal.step, Terminal.kill]
    split
    · exact h
    · exact ViewsInv.frame h rfl rfl rfl (.inl rfl)
  | resetFlow | exit | takeRecord => exact ViewsInv.frame h rfl rfl rfl (.inl rfl)
  | attach => exact ViewsInv.attach h
  | detach => exact ViewsInv.frame h rfl rfl rfl (.inr rfl)
  | reattach view =>
    exact ViewsInv.frame
      (ViewsInv.modify h view _ fun v hv => ViewInv.answered hstream hv) rfl rfl rfl (.inl rfl)
  | arrive view => exact ViewsInv.modify h view _ fun v hv => ViewInv.arrive hstream hv
  | respond view => exact ViewsInv.modify h view _ fun v hv => ViewInv.respond hv

theorem viewsInv_of_reach (h : machine.Reach Start t) : t.ViewsInv := by
  refine Machine.Reach.invariant (I := ViewsInv) ?_ (fun t a hreach hinv _ =>
    ViewsInv.step (StreamLemmas.streamInv_of_reach hreach) hinv a) h
  rintro t ⟨replayCap, highWater, lowWater, hmarks, rfl⟩
  exact ⟨by simp [Terminal.new], by simp [Terminal.new]⟩

/-! ## What the terminal shows -/

/-- Of the frames from the attachment on, the gate delivers the chunks from the end of
the snapshot on. -/
theorem deliver_eq (h : t.StreamInv) {start i n : Nat} (hstart : start ≤ i)
    (hi : i ≤ t.chunks.length) (hn : start + n ≤ t.chunks.length) :
    (judgeAll (offsetAt t.chunks i) ((List.range' start n).map (frameAt t.chunks))).deliver =
      (t.chunks.drop i).take (start + n - i) := by
  have hdiscard : ∀ j, j < i →
      (judge (offsetAt t.chunks i) (frameAt t.chunks j)).deliver = [] := by
    intro j hj
    rw [judge, if_pos (by rw [toNat_offset h]; exact offsetAt_lt h.nonempty hj hi)]
  have hdeliver : ∀ j, i ≤ j →
      (judge (offsetAt t.chunks i) (frameAt t.chunks j)).deliver = [t.chunks.getD j []] := by
    intro j hj
    rw [judge, if_neg (by rw [toNat_offset h]; exact Nat.not_lt.mpr (offsetAt_mono hj)), frameAt]
  have hmap : (judgeAll (offsetAt t.chunks i) ((List.range' start n).map
      (frameAt t.chunks))).deliver = (List.range' start n).flatMap fun j =>
        (judge (offsetAt t.chunks i) (frameAt t.chunks j)).deliver := by
    rw [judgeAll, List.flatMap_map]
  rw [hmap]
  rcases Nat.le_total (start + n) i with hall | hsome
  · rw [Nat.sub_eq_zero_of_le hall, List.take_zero, List.flatMap_eq_nil_iff]
    intro j hj
    exact hdiscard j (by have := List.mem_range'_1.mp hj; omega)
  · have hsplit : List.range' start n =
        List.range' start (i - start) ++ List.range' i (start + n - i) := by
      have happend := List.range'_append_1 (s := start) (m := i - start) (n := start + n - i)
      have hmid : start + (i - start) = i := by omega
      have hcount : i - start + (start + n - i) = n := by omega
      rw [hmid, hcount] at happend
      exact happend.symm
    have hfront : (List.range' start (i - start)).flatMap (fun j =>
        (judge (offsetAt t.chunks i) (frameAt t.chunks j)).deliver) = [] := by
      refine List.flatMap_eq_nil_iff.mpr fun j hj => hdiscard j ?_
      have := List.mem_range'_1.mp hj
      omega
    have hback : (List.range' i (start + n - i)).flatMap (fun j =>
        (judge (offsetAt t.chunks i) (frameAt t.chunks j)).deliver) =
          (List.range' i (start + n - i)).map fun j => t.chunks.getD j [] := by
      rw [List.map_eq_flatMap]
      refine List.flatMap_congr fun j hj => hdeliver j (List.mem_range'_1.mp hj).1
    rw [hsplit, List.flatMap_append, hfront, hback, List.nil_append, map_range' (by omega)]

/-- The frames that a gate received are the first ones of its channel, and all that
arrived as long as offsets are exact. -/
theorem received_eq (h : t.ViewInv view v) :
    v.received = (List.range' v.start v.received.length).map (frameAt t.chunks) ∧
      (t.stream.length ≤ maxSafeInteger → v.received = v.channel.take v.arrived) := by
  refine ⟨?_, fun hsafe => ?_⟩
  · have hle := h.received_le.trans h.arrived_le
    conv => lhs; rw [h.received, h.channel, ← List.map_take, List.take_range'_of_length_ge hle]
  · have hall : v.received.length = v.arrived := by
      refine Nat.le_antisymm h.received_le (Nat.le_of_not_lt fun hgap => ?_)
      have hrefused := h.refused hgap
      have hle := offsetAt_le t.chunks (v.start + v.received.length)
      have hstream : t.stream.length = t.chunks.flatten.length := rfl
      omega
    rw [← hall]
    exact h.received

end AttachLemmas

open AttachLemmas in
/-- In every run: before the snapshot arrives, a view only queues. From then on its
terminal shows the modes, the snapshot and what its gate delivered, and the snapshot
and the delivered chunks are a contiguous piece of the stream, which reaches its end
once the channel is drained. Every byte that the gate received is acknowledged once. -/
theorem attached_terminal {t : Terminal} (h : Terminal.machine.Reach Terminal.Start t)
    {view : Nat} {v : View} (hv : t.views[view]? = some v) :
    (t.stream.length ≤ maxSafeInteger → v.received = v.channel.take v.arrived) ∧
    (v.gate.endOffset = none → v.gate.queued = v.received ∧ v.terminal = [] ∧
      v.delivered = [] ∧ v.discarded = 0) ∧
    ∀ endOffset, v.gate.endOffset = some endOffset →
      (∃ modes snapshot before after answered,
        v.answer = some (answered, decModePreamble modes ++ snapshot) ∧
        answered.toNat = endOffset ∧
        v.terminal = decModePreamble modes ++ (snapshot ++ v.delivered.flatten) ∧
        t.stream = before ++ (snapshot ++ v.delivered.flatten) ++ after ∧
        (before ++ snapshot).length = endOffset ∧
        (t.slot = some view → t.cursor = t.chunks.length → v.arrived = v.channel.length →
          t.stream.length ≤ maxSafeInteger → after = [])) ∧
      v.gate.queued = [] ∧
      v.delivered.flatten.length + v.discarded = (v.received.map fun f => f.bytes.length).sum := by
  have hstream := StreamLemmas.streamInv_of_reach h
  have hinv := (viewsInv_of_reach h).views view v hv
  have hgate := hinv.gate
  unfold View.GateInv at hgate
  refine ⟨(received_eq hinv).2, fun hnone => ?_, fun endOffset hend => ?_⟩
  · rw [hnone] at hgate
    exact hgate
  rw [hend] at hgate
  obtain ⟨hqueued, hresult, answered, bytes, hanswer, hanswered, hterminal⟩ := hgate
  obtain ⟨i, modes, snapshot, hstart, hi, hoffset, rfl, pre, hpre⟩ := hinv.answer _ _ hanswer
  have hbound : v.start + v.received.length ≤ t.chunks.length := by
    have := hinv.sent_le.trans (cursor_le t)
    have := hinv.received_le.trans hinv.arrived_le
    omega
  have hdelivered : v.delivered =
      (t.chunks.drop i).take (v.start + v.received.length - i) := by
    rw [← deliver_eq hstream hstart hi hbound, ← (received_eq hinv).1, ← hoffset, hanswered,
      ← hresult]
  have hacked := length_judgeAll endOffset v.received
  rw [← hresult] at hacked
  refine ⟨⟨modes, snapshot, pre, ((t.chunks.drop i).drop (v.start + v.received.length - i)).flatten,
    answered, hanswer, hanswered, ?_, ?_, ?_, ?_⟩, hqueued, hacked⟩
  · rw [hterminal, List.append_assoc]
  · rw [hdelivered, ← List.append_assoc, hpre]
    exact flatten_split t.chunks i _
  · rw [hpre, ← hanswered, hoffset, offsetAt]
  · intro hslot hcursor harrived hsafe
    have hcurrent := hinv.current hslot
    have hall : v.received.length = v.channel.length := by
      rw [(received_eq hinv).2 hsafe, List.length_take, harrived, Nat.min_self]
    have hend : v.start + v.received.length = t.chunks.length := by omega
    rw [hend, List.drop_drop, Nat.add_sub_cancel' hi, List.drop_length, List.flatten_nil]

/-- A chunk is accounted, the view attaches and asks for the snapshot, and only then
the chunk is handed to the sink; a second chunk follows. -/
def straddling : List Terminal.Action :=
  [.check, .read [65], .account, .attach, .reattach 0, .output true, .check, .read [66], .account,
    .output true, .arrive 0, .respond 0, .arrive 0]

/-- The view after that run. -/
def straddled : View where
  start := 0
  channel := [⟨0, [65]⟩, ⟨1, [66]⟩]
  arrived := 2
  answer := some (1, [65])
  gate := ⟨some 1, []⟩
  received := [⟨0, [65]⟩, ⟨1, [66]⟩]
  terminal := [65, 66]
  delivered := [[66]]
  discarded := 1

/-- The chunk that is in the snapshot and on the channel is shown once, and both
chunks are acknowledged. -/
theorem attached_terminal_straddling :
    (Terminal.machine.run (.new (.new 16 8 4 (by decide))) straddling).views = [straddled] ∧
      straddled.delivered.flatten.length + straddled.discarded = 2 := by
  have hstart : Terminal.machine.Reach Terminal.Start (.new (.new 16 8 4 (by decide))) :=
    .init ⟨16, 8, 4, by decide, rfl⟩
  have hread (chunk : List UInt8) (h : chunk ≠ []) (t : Terminal) :
      Terminal.machine.admits t (.read chunk) := h
  have hrun := hstart.of_trace straddling
    ⟨trivial, hread _ (by decide) _, fun _ _ h => by cases h; decide, trivial, trivial, trivial,
      trivial, hread _ (by decide) _, fun _ _ h => by cases h; decide, trivial, trivial, trivial,
      trivial, trivial⟩
  have hviews : (Terminal.machine.run (.new (.new 16 8 4 (by decide))) straddling).views =
      [straddled] := by decide
  have hview : (Terminal.machine.run (.new (.new 16 8 4 (by decide))) straddling).views[0]? =
      some straddled := by rw [hviews]; rfl
  exact ⟨hviews, ((attached_terminal hrun hview).2.2 1 rfl).2.2⟩

end Mast
