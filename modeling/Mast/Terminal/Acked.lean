import Mast.Terminal.Acks

/-!
# No session waits for a view that is done

Every byte on a channel is acknowledged once, by the view of the channel. The account of a
session starts over when a view is attached or detached; from then on it covers no more than
what the view in the slot has not acknowledged yet.

Results:
1. `admits_ack`: the views acknowledge only what reached a channel, as the session takes for
   granted.
2. `AckInv.step`: every step keeps the counts of the views and the account of the session.
3. `acks_flow`: a session whose view has nothing left to do is not held up.
-/

namespace Mast

namespace AckLemmas

open Terminal Paired

variable {v v' : View} {av : AckedView} {now n : Nat} {t : Terminal} {s : Acking}
  {a : Terminal.Action}

/-- The invariant. -/
structure AckInv (s : Acking) : Prop where
  reach : Terminal.machine.Reach Terminal.Start s.terminal
  views : List.Forall₂ (ViewAcks s.now) s.terminal.views s.views
  acked : s.terminal.log.acked = (s.views.map AckedView.acked).sum
  covers : s.current = true → s.Covers

theorem acked_le_sent {i : Nat} (h : AckInv s) (hv : s.terminal.views[i]? = some v)
    (hav : s.views[i]? = some av) : av.acked + av.calls.sum ≤ v.sent := by
  have hacks := get h.views hv hav
  have hsent := consumed_le_sent ((AttachLemmas.viewsInv_of_reach h.reach).views i v hv) av.written
  have hle := hacks.credited_le
  unfold AckedView.credited at hle
  omega

/-- A call under way is one that the session admits. -/
theorem admits_ack {i k : Nat} (h : AckInv s) (hav : s.views[i]? = some av)
    (hn : av.calls[k]? = some n) : Terminal.machine.admits s.terminal (.ack n) := by
  obtain ⟨v, hv, -⟩ := partner h.views.flip hav
  have hcall : n ≤ av.calls.sum := List.le_sum_of_mem (List.mem_of_getElem? hn)
  have hroom : av.acked + n ≤ v.sent := by
    have := acked_le_sent h hv hav
    omega
  have hsum : (s.views.map AckedView.acked).sum + n ≤ (s.terminal.views.map View.sent).sum := by
    have hpaired : List.Forall₂ (fun (v : View) (av : AckedView) => av.acked ≤ v.sent)
        s.terminal.views s.views := by
      refine List.forall₂_iff_get.mpr ⟨h.views.length_eq, fun j hj hj' => ?_⟩
      have := acked_le_sent h (List.getElem?_eq_getElem hj) (List.getElem?_eq_getElem hj')
      simp only [List.get_eq_getElem]
      omega
    exact sum_add_le hpaired (fun _ _ hle => hle) hv hav hroom
  show n ≤ s.terminal.log.unacked
  rw [FlowLog.unacked, delivered_of_reach h.reach, h.acked]
  omega

theorem owed_eq {i : Nat} (hslot : s.terminal.slot = some i) (hv : s.terminal.views[i]? = some v)
    (hav : s.views[i]? = some av) : s.owed = v.sent - av.acked := by
  rw [Acking.owed, hslot, Option.elim_some, hv, hav]
  rfl

/-- The slot is the same: what its view owes is what it owed and what was delivered. -/
theorem owed_session (h : AckInv s) (ha : a.ofSession = true)
    (hslot : (s.terminal.step a).slot = s.terminal.slot) :
    (s.session a).owed = s.owed + s.terminal.delivers a := by
  cases hcur : s.terminal.slot with
  | none =>
    have hnone : s.terminal.delivers a = 0 := by
      rcases views_session s.terminal ha with ⟨rfl, -⟩ | ⟨-, i, -, -, hsome, -⟩
      · rfl
      · by_contra hne
        have := hcur.symm.trans (hsome hne)
        cases this
    have hcur' : (s.session a).terminal.slot = none := hslot.trans hcur
    rw [Acking.owed, Acking.owed, hcur, hcur', hnone]
    rfl
  | some view =>
    have hlt := (AttachLemmas.viewsInv_of_reach h.reach).slot view hcur
    obtain ⟨v, hv⟩ : ∃ v, s.terminal.views[view]? = some v := ⟨_, List.getElem?_eq_getElem hlt⟩
    obtain ⟨av, hav, -⟩ := partner h.views hv
    have hle := acked_le_sent h hv hav
    have hcur' : (s.session a).terminal.slot = some view := hslot.trans hcur
    rcases views_session s.terminal ha with ⟨rfl, -⟩ | ⟨hattach, i, f, hviews, hsome, hf⟩
    · have hnew : some s.terminal.views.length = some view := hslot.trans hcur
      exact absurd (Option.some_inj.mp hnew) (Nat.ne_of_gt hlt)
    · have hav' : (s.session a).views[view]? = some av := by
        rw [Acking.session]
        simpa [hattach] using hav
      obtain ⟨v', hv', hsent⟩ : ∃ v', (s.session a).terminal.views[view]? = some v' ∧
          v'.sent = v.sent + s.terminal.delivers a := by
        show ∃ v', (s.terminal.step a).views[view]? = some v' ∧ _
        rw [hviews, List.getElem?_modify, hv, Option.map_eq_map, Option.map_some]
        by_cases hi : i = view
        · exact ⟨_, by rw [if_pos hi], (hf v).2.2⟩
        · refine ⟨_, by rw [if_neg hi], ?_⟩
          have hnone : s.terminal.delivers a = 0 := by
            by_contra hne
            exact hi (Option.some_inj.mp ((hsome hne).symm.trans hcur))
          rw [hnone]
          rfl
      rw [owed_eq hcur' hv' hav', owed_eq hcur hv hav, hsent]
      omega

theorem AckInv.session (h : AckInv s) (ha : a.ofSession = true)
    (hadmits : Terminal.machine.admits s.terminal a) : AckInv (s.session a) where
  reach := .step h.reach hadmits
  views := by
    rcases views_session s.terminal ha with ⟨rfl, hviews⟩ | ⟨hattach, i, f, hviews, -, hf⟩
    · show List.Forall₂ _ (s.terminal.step .attach).views _
      rw [hviews]
      exact List.rel_append h.views (.cons (viewAcks_new _ _ _) .nil)
    · show List.Forall₂ _ (s.terminal.step a).views (s.views ++ _)
      rw [hviews, if_neg hattach, List.append_nil, ← List.modify_id i s.views]
      refine Paired.modify h.views fun v av _ _ hacks => ?_
      exact ViewAcks.frame hacks (hf v).1 (hf v).2.1
  acked := by
    have hlog := (log_step s.terminal a).2
    have hnone : a.acks = 0 := by
      cases a <;> first | rfl | cases ha
    have hviews : ((s.session a).views.map AckedView.acked).sum =
        (s.views.map AckedView.acked).sum := by
      rw [Acking.session]
      dsimp only
      split <;> simp [AckedView.new]
    rw [hviews, ← h.acked]
    exact hlog.trans (by rw [hnone]; rfl)
  covers hcurrent := by
    have hcurrent : (a.resets || s.current &&
        decide ((s.terminal.step a).slot = s.terminal.slot)) = true := hcurrent
    cases hresets : a.resets with
    | true =>
      have hzero : (s.terminal.step a).inner.flow.pending = 0 := by
        cases a <;> first | rfl | cases hresets
      exact (Nat.le_of_eq hzero).trans (Nat.zero_le _)
    | false =>
      rw [hresets, Bool.false_or, Bool.and_eq_true, decide_eq_true_eq] at hcurrent
      have hcovers : s.Covers := h.covers hcurrent.1
      have hpending := pending_session ha hcovers
      rw [← owed_session h ha hcurrent.2] at hpending
      exact hpending

/-- The account of a terminal to whose views no more is owed. -/
theorem covers_of_same {s' : Acking} (h : s.Covers)
    (hpending : s'.terminal.inner.flow.pending = s.terminal.inner.flow.pending)
    (hflight : s'.terminal.reader.inFlight = s.terminal.reader.inFlight)
    (howed : s'.owed = s.owed) : s'.Covers := by
  rw [Acking.Covers, hpending, hflight, howed]
  exact h

theorem elim_modify {α : Type} {l : List α} {i : Nat} {f : α → α} {g : α → Nat}
    (hf : ∀ a, l[i]? = some a → g (f a) = g a) (j : Nat) :
    (l.modify i f)[j]?.elim 0 g = l[j]?.elim 0 g := by
  have hmap := congrArg (fun l => l[j]?.getD 0) (ListEdit.map_modify f g hf)
  have helim : ∀ l : List α, (l.map g)[j]?.getD 0 = l[j]?.elim 0 g := by
    intro l
    rw [List.getElem?_map]
    cases l[j]? <;> rfl
  rw [← helim, ← helim]
  exact hmap

/-- A view turns to itself. -/
theorem AckInv.turn (h : AckInv s) {i : Nat} {g : AckedView → AckedView}
    (hg : ∀ v av, s.terminal.views[i]? = some v → s.views[i]? = some av → ViewAcks s.now v av →
      ViewAcks s.now v (g av)) (hacked : ∀ av, (g av).acked = av.acked) :
    AckInv { s with views := s.views.modify i g } where
  reach := h.reach
  views := by
    have hpaired := Paired.modify (f := id) h.views hg
    rwa [List.modify_id] at hpaired
  acked := by
    rw [h.acked]
    exact congrArg List.sum (ListEdit.map_modify g AckedView.acked fun av _ => hacked av).symm
  covers hcurrent := by
    refine covers_of_same (h.covers hcurrent) rfl rfl ?_
    unfold Acking.owed
    dsimp only
    cases s.terminal.slot with
    | none => rfl
    | some view =>
      rw [Option.elim_some, Option.elim_some, elim_modify fun av _ => hacked av]

/-- The gate of a view judges what it got. -/
theorem AckInv.judge (h : AckInv s) {i : Nat} {f : View → View} (hav : s.views[i]? = some av)
    (hopen : av.batcher.disposed = false) (hstep : s.terminal.step a =
      { s.terminal with views := s.terminal.views.modify i f })
    (hadmits : Terminal.machine.admits s.terminal a)
    (hf : ∀ v : View, (∃ rest, (f v).delivered = v.delivered ++ rest) ∧
      v.discarded ≤ (f v).discarded)
    (hchannel : ∀ v : View, (f v).channel = v.channel) : AckInv (s.applyGateResult i a) := by
  have hsame : s.applyGateResult i a = { s with
      terminal := s.terminal.step a
      views := s.views.modify i
        (·.credit s.now ((s.terminal.step a).discarded i - s.terminal.discarded i)) } := by
    rw [Acking.applyGateResult, hav]
    exact if_neg (by simp [hopen])
  have hreach := Machine.Reach.step h.reach hadmits
  rw [hsame]
  refine ⟨hreach, ?_, ?_, fun hcurrent => ?_⟩
  · dsimp only
    rw [hstep]
    refine Paired.modify h.views fun v av' hv hav' hacks => ?_
    obtain rfl := Option.some_inj.mp (hav.symm.trans hav')
    have hdiscarded : Terminal.discarded { s.terminal with
        views := s.terminal.views.modify i f } i = (f v).discarded := by
      simp [Terminal.discarded, hv]
    have hdiscarded' : s.terminal.discarded i = v.discarded := by
      rw [Terminal.discarded, hv]
      rfl
    obtain ⟨⟨rest, hdelivered⟩, hle⟩ := hf v
    rw [hdiscarded, hdiscarded']
    exact ViewAcks.judge hacks hopen hdelivered hle
  · dsimp only
    rw [hstep]
    exact h.acked.trans (congrArg List.sum
      (ListEdit.map_modify _ AckedView.acked fun av _ => acked_credit s.now _ av).symm)
  · have hpending : (s.terminal.step a).inner = s.terminal.inner := by rw [hstep]
    have hreader : (s.terminal.step a).reader = s.terminal.reader := by rw [hstep]
    refine covers_of_same (h.covers hcurrent) (by rw [hpending]) (by rw [hreader]) ?_
    unfold Acking.owed
    dsimp only
    rw [hstep]
    cases s.terminal.slot with
    | none => rfl
    | some view =>
      rw [Option.elim_some, Option.elim_some, elim_modify fun v _ => sent_of_channel (hchannel v),
        elim_modify fun av _ => acked_credit s.now _ av]

/-- An acknowledgement arrives. -/
theorem AckInv.ack (h : AckInv s) (i k : Nat) : AckInv (s.ack i k) := by
  unfold Acking.ack
  split
  next n hn =>
    obtain ⟨av, hav, hcall⟩ := Option.bind_eq_some_iff.mp hn
    obtain ⟨hviews, hslot, hflight, hpending⟩ := views_ack s.terminal n
    obtain ⟨v, hv, hacks⟩ := partner h.views.flip hav
    refine ⟨.step h.reach (admits_ack h hav hcall), ?_, ?_, fun hcurrent => ?_⟩
    · show List.Forall₂ _ (s.terminal.step (.ack n)).views _
      rw [hviews, ← List.modify_id i s.terminal.views]
      refine Paired.modify h.views fun v' av' _ hav' hacks' => ?_
      obtain rfl := Option.some_inj.mp (hav.symm.trans hav')
      exact ViewAcks.arrived hacks' hcall
    · have hsum : ((s.views.modify i (·.arrived k n)).map AckedView.acked).sum =
          (s.views.map AckedView.acked).sum + n := sum_modify hav rfl
      show (s.terminal.step (.ack n)).log.acked = _
      rw [(log_step s.terminal (.ack n)).2, h.acked, hsum, Terminal.Action.acks]
    · have hcovers := h.covers hcurrent
      unfold Acking.Covers at hcovers ⊢
      have hle := acked_le_sent h hv hav
      have hcalls : n ≤ av.calls.sum := List.le_sum_of_mem (List.mem_of_getElem? hcall)
      show (s.terminal.step (.ack n)).inner.flow.pending ≤
        _ + (s.terminal.step (.ack n)).reader.inFlight
      rw [hpending, hflight]
      -- what the view in the slot owes shrinks by the acknowledgement, if it is its own
      have howed : s.owed ≤ Acking.owed { s with
          terminal := s.terminal.step (.ack n)
          views := s.views.modify i (·.arrived k n) } + n := by
        unfold Acking.owed
        dsimp only
        rw [hslot, hviews]
        cases hcur : s.terminal.slot with
        | none => exact Nat.zero_le _
        | some view =>
          rw [Option.elim_some, Option.elim_some, List.getElem?_modify]
          by_cases hi : i = view
          · subst hi
            rw [hv, hav]
            simp [AckedView.arrived]
            omega
          · simp [hi]
      omega
  next => exact h

theorem AckInv.step (h : AckInv s) {x : Acking.Step} (hx : Acking.machine.admits s x) :
    AckInv (s.step x) := by
  have hgate : ∀ i a f, (s.terminal.step a =
        { s.terminal with views := s.terminal.views.modify i f }) →
      Terminal.machine.admits s.terminal a →
      (∀ v : View, (∃ rest, (f v).delivered = v.delivered ++ rest) ∧
        v.discarded ≤ (f v).discarded) →
      (∀ v : View, (f v).channel = v.channel) → AckInv (s.applyGateResult i a) := by
    intro i a f hstep hadmits hf hchannel
    cases hav : s.views[i]? with
    | none =>
      rw [Acking.applyGateResult, hav]
      exact h
    | some av =>
      cases hopen : av.batcher.disposed with
      | false => exact AckInv.judge h hav hopen hstep hadmits hf hchannel
      | true =>
        rw [Acking.applyGateResult, hav]
        dsimp only
        rw [if_pos hopen]
        exact h
  cases x with
  | session a => exact AckInv.session h hx.1 hx.2
  | arrive i => exact hgate i (.arrive i) View.arrive rfl trivial extends_arrive channel_arrive
  | respond i => exact hgate i (.respond i) View.respond rfl trivial extends_respond channel_respond
  | written i =>
    unfold Acking.step Acking.written
    dsimp only
    split
    next v av hv hav =>
      split
      next bytes hbytes =>
        refine AckInv.turn h (fun v' av' hv' hav' hacks => ?_) fun av => acked_credit _ _ _
        obtain rfl := Option.some_inj.mp (hv.symm.trans hv')
        obtain rfl := Option.some_inj.mp (hav.symm.trans hav')
        exact ViewAcks.write hacks hbytes
      next => exact h
    next => exact h
  | timeout i => exact AckInv.turn h (fun _ _ _ _ hacks => ViewAcks.timeout hacks) fun _ => rfl
  | ack i k => exact AckInv.ack h i k
  | dispose i => exact AckInv.turn h (fun _ _ _ _ hacks => ViewAcks.dispose hacks) fun _ => rfl
  | reload =>
    refine ⟨h.reach, ?_, ?_, fun hcurrent => covers_of_same (h.covers hcurrent) rfl rfl ?_⟩
    · exact List.forall₂_map_right_iff.mpr (h.views.imp fun _ _ hacks => ViewAcks.lose hacks)
    · refine h.acked.trans (congrArg List.sum ?_)
      show s.views.map AckedView.acked = (s.views.map AckedView.lose).map AckedView.acked
      rw [List.map_map]
      rfl
    · unfold Acking.owed Acking.step
      dsimp only
      cases s.terminal.slot with
      | none => rfl
      | some view =>
        rw [Option.elim_some, Option.elim_some, List.getElem?_map]
        cases s.views[view]? <;> rfl
  | tick ms =>
    exact ⟨h.reach, h.views.imp fun _ _ hacks => ViewAcks.tick hacks ms, h.acked, h.covers⟩

theorem ackInv_of_reach (h : Acking.machine.Reach Acking.Start s) : AckInv s := by
  refine h.invariant (fun s hs => ?_) fun s x _ hI hx => AckInv.step hI hx
  obtain ⟨hstart, hviews, -⟩ := hs
  have hreach := Machine.Reach.init (M := Terminal.machine) hstart
  obtain ⟨replayCap, highWater, lowWater, hmarks, hterminal⟩ := hstart
  have hnew : s.terminal.views = [] := by rw [hterminal]; rfl
  refine ⟨hreach, ?_, ?_, fun _ => ?_⟩
  · rw [hnew, hviews]
    exact .nil
  · rw [hterminal, hviews]
    rfl
  · have hpending : s.terminal.inner.flow.pending = 0 := by rw [hterminal]; rfl
    exact (Nat.le_of_eq hpending).trans (Nat.zero_le _)

/-- A view that got everything and has written it has consumed its channel. -/
theorem consumed_eq_sent {i : Nat} (hstream : t.StreamInv) (h : t.ViewInv i v)
    (hexact : t.inner.bytesOut.toNat ≤ maxSafeInteger) (harrived : v.arrived = v.channel.length)
    (hopen : v.gate.endOffset ≠ none) : v.consumed v.delivered.length = v.sent := by
  have hall : v.received.length = v.arrived := by
    refine Nat.le_antisymm h.received_le (Nat.le_of_not_lt fun hrefused => ?_)
    have hfar := h.refused hrefused
    have hend := Pieces.offsetAt_le t.chunks (v.start + v.received.length)
    have hbytes := hstream.bytesOut
    unfold Terminal.stream at hbytes
    omega
  have hreceived : v.received = v.channel := by
    rw [h.received, hall, harrived, List.take_length]
  have hgate := h.gate
  unfold View.GateInv at hgate
  cases hend : v.gate.endOffset with
  | none => exact absurd hend hopen
  | some endOffset =>
    rw [hend] at hgate
    obtain ⟨-, hresult, -⟩ := hgate
    have hjudged := AttachLemmas.length_judgeAll endOffset v.received
    rw [← hresult] at hjudged
    rw [View.consumed, List.take_length, View.sent, ← hreceived]
    exact hjudged

end AckLemmas

/-- The view has something left to do: a frame or the answer to receive, a write to complete, a
timer to wait for, or an acknowledgement under way. -/
def AckedView.Busy (v : View) (av : AckedView) : Prop :=
  v.arrived < v.channel.length ∨ v.gate.endOffset = none ∨ av.written < v.delivered.length ∨
    av.batcher.timer ≠ none ∨ av.calls ≠ []

open AckLemmas in
/-- In every run: the views acknowledge only what reached a channel, so that what holds of a
terminal holds here; an open view has counted exactly what its terminal has written and its
gate discarded; what waits in a batch is below the threshold and has a timer, due before any
byte of it is older than the delay; and as long as the slot is what it was when the account
started over, the reader is held up only while a chunk is in flight, a notification is due, or
the view in the slot is busy or was disposed of and is about to be detached. -/
theorem acks_flow {s : Acking} (h : Acking.machine.Reach Acking.Start s) :
    Terminal.machine.Reach Terminal.Start s.terminal ∧
    (∀ (i : Nat) (v : View) (av : AckedView), s.terminal.views[i]? = some v →
      s.views[i]? = some av →
      (av.batcher.disposed = false → av.credited = v.consumed av.written) ∧
      av.batcher.accumulated < av.batcher.options.thresholdBytes ∧
      (av.batcher.timer = none ↔ av.unsent = []) ∧
      ∀ due, av.batcher.timer = some due →
        ∀ e ∈ av.unsent, due ≤ e.1 + av.batcher.options.maxDelayMs) ∧
    (s.current = true → s.terminal.inner.bytesOut.toNat ≤ maxSafeInteger →
      s.terminal.inner.flow.paused = true ∨ s.terminal.reader = .asleep →
      0 < s.terminal.reader.inFlight ∨ 0 < s.terminal.notifying ∨
        ∃ (i : Nat) (v : View) (av : AckedView), s.terminal.slot = some i ∧
          s.terminal.views[i]? = some v ∧ s.views[i]? = some av ∧
          (av.batcher.disposed = true ∨ AckedView.Busy v av)) := by
  have hinv := ackInv_of_reach h
  have hviewsInv := AttachLemmas.viewsInv_of_reach hinv.reach
  have hflow := FlowLemmas.flowInv_of_reach hinv.reach
  refine ⟨hinv.reach, fun i v av hv hav => ?_, fun hcurrent hexact hheld => ?_⟩
  · obtain ⟨hbatched, -, -, hcredited⟩ := Paired.get hinv.views hv hav
    refine ⟨hcredited, hbatched.below, ⟨fun hnone => ?_, fun hnil => ?_⟩,
      fun due hdue => (hbatched.punctual due hdue).2⟩
    · exact hbatched.gathered (hbatched.timer.mp hnone)
    · refine hbatched.timer.mpr ?_
      rw [← hbatched.unsent, hnil]
      rfl
  · rcases Nat.eq_zero_or_pos s.terminal.notifying with hquiet | hnotify
    swap
    · exact .inr (.inl hnotify)
    rcases Nat.eq_zero_or_pos s.terminal.reader.inFlight with hflight | hflight
    swap
    · exact .inl hflight
    have hpaused : s.terminal.inner.flow.paused = true :=
      hheld.elim id fun hasleep => (hflow.awake hasleep).resolve_right (by omega)
    have hpending : 0 < s.terminal.inner.flow.pending := by
      rcases hflow.balanced.paused_pending hpaused with hlow | ⟨hpos, -⟩ <;> omega
    have howed : 0 < s.owed := by
      have hcovers := hinv.covers hcurrent
      unfold Acking.Covers at hcovers
      omega
    cases hslot : s.terminal.slot with
    | none => rw [Acking.owed, hslot] at howed; cases howed
    | some i =>
      obtain ⟨v, hv⟩ : ∃ v, s.terminal.views[i]? = some v :=
        ⟨_, List.getElem?_eq_getElem (hviewsInv.slot i hslot)⟩
      obtain ⟨av, hav, hacks⟩ := Paired.partner hinv.views hv
      refine .inr (.inr ⟨i, v, av, rfl, hv, hav, ?_⟩)
      by_contra hidle
      simp only [AckedView.Busy, not_or, Bool.not_eq_true, not_not, Nat.not_lt] at hidle
      obtain ⟨hopen, harrived, hgate, hwritten, htimer, hcalls⟩ := hidle
      have hview := hviewsInv.views i v hv
      have hcredited := hacks.credited hopen
      have hdone : av.written = v.delivered.length := Nat.le_antisymm hacks.written_le hwritten
      have hsent := consumed_eq_sent (StreamLemmas.streamInv_of_reach hinv.reach) hview hexact
        (Nat.le_antisymm hview.arrived_le harrived) hgate
      rw [owed_eq hslot hv hav] at howed
      rw [AckedView.credited, hcalls, hacks.batched.timer.mp htimer, hdone, hsent] at hcredited
      simp only [List.sum_nil] at hcredited
      omega

/-- A chunk is read and paused on, and reaches its view, which gets the answer and writes it. -/
def writtenTrace : List Acking.Step :=
  [.session .attach, .session (.reattach 0), .session .notify, .session .check,
    .session (.read [65]), .session .account, .session (.output true), .session .check,
    .arrive 0, .respond 0, .written 0]

/-- The reader sleeps, and the timer of the view is set. -/
theorem acks_flow_written :
    (Acking.machine.run ⟨{}, oneByteMarks, [], 0, true⟩ writtenTrace).terminal.reader = .asleep ∧
    ∃ (i : Nat) (v : View) (av : AckedView),
      (Acking.machine.run ⟨{}, oneByteMarks, [], 0, true⟩ writtenTrace).terminal.slot = some i ∧
      (av.batcher.disposed = true ∨ AckedView.Busy v av) := by
  have hstart : Acking.Start ⟨{}, oneByteMarks, [], 0, true⟩ :=
    ⟨⟨16, 1, 1, Nat.le_refl _, rfl⟩, rfl, rfl⟩
  have hadmitted : Acking.machine.Admitted ⟨{}, oneByteMarks, [], 0, true⟩ writtenTrace :=
    ⟨⟨rfl, trivial⟩, ⟨rfl, trivial⟩, ⟨rfl, trivial⟩, ⟨rfl, trivial⟩, ⟨rfl, List.cons_ne_nil _ _⟩,
      ⟨rfl, fun _ _ h => by cases h; decide⟩, ⟨rfl, trivial⟩, ⟨rfl, trivial⟩, trivial, trivial,
      trivial, trivial⟩
  obtain ⟨-, -, hheld⟩ := acks_flow (.of_trace (.init hstart) writtenTrace hadmitted)
  rcases hheld (by decide) (by decide) (.inr (by decide)) with hflight | hnotify | hbusy
  · exact absurd hflight (by decide)
  · exact absurd hnotify (by decide)
  · obtain ⟨i, v, av, hslot, -, -, hbusy⟩ := hbusy
    exact ⟨by decide, i, v, av, hslot, hbusy⟩

end Mast
