import Mast.Terminal.Machine

/-!
# The flow account over all runs

Acknowledgements of two channels, the rollback of a chunk that was not delivered and
resets all reach one saturating counter. The counter never exceeds what is
outstanding, so a session without outstanding bytes is not paused, and a reader that
sleeps is paused or about to be woken.

Results:
1. `Balanced`: the account against the history, kept by each of its operations.
2. `FlowInv`, `flowInv_of_reach`: the invariant of the terminal.
3. `flow_account`: what a run promises about the account.
-/

namespace Mast

/-- The bytes that were accounted and neither delivered nor taken back. -/
def Reader.inFlight : Reader → Nat
  | .accounted _ chunk => chunk.length
  | .dropped n => n
  | _ => 0

/-- The account, the history and the bytes in flight agree. -/
structure Balanced (flow : FlowControl) (log : FlowLog) (inFlight : Nat) : Prop where
  balance : log.sent = log.delivered + log.rolledBack + inFlight
  acked_le : log.acked ≤ log.delivered
  pending_le : flow.pending ≤ log.outstanding
  pending_le_max : flow.pending ≤ usizeMax
  paused_eq : flow.paused = log.pausing
  alternates : log.Alternates
  paused_pending : flow.paused = true → flow.lowWater < flow.pending ∨
    0 < flow.pending ∧ flow.pending = flow.lowWater ∧ flow.highWater = flow.lowWater ∧ log.Unacked

namespace Terminal

/-- The account is balanced, and the reader does not sleep through the end of a pause. -/
structure FlowInv (t : Terminal) : Prop where
  balanced : Balanced t.inner.flow t.log t.reader.inFlight
  nonempty : ∀ chunk modeEvents, t.reader = .scanned chunk modeEvents → chunk ≠ []
  awake : t.reader = .asleep → t.inner.flow.paused = true ∨ 0 < t.notifying

end Terminal

namespace FlowLemmas

open FlowLog Terminal

variable {flow : FlowControl} {log : FlowLog} {n inFlight : Nat} {t : Terminal}

/-! ## The account -/

theorem total_cons (weight : FlowEvent → Nat) (e : FlowEvent) (action : FlowAction)
    (log : FlowLog) : FlowLog.total weight ((e, action) :: log) =
      weight e + FlowLog.total weight log := by
  rw [FlowLog.total, List.map_cons, List.sum_cons, FlowLog.total]

/-- Bytes are sent. Only an account that was not paused decides to pause, and then it
is at the high mark. -/
theorem Balanced.sent (h : Balanced flow log 0) (hn : 0 < n) :
    Balanced (flow.onSent n).1 ((.sent n, (flow.onSent n).2) :: log) n where
  balance := by
    simp only [FlowLog.sent, FlowLog.delivered, FlowLog.rolledBack, total_cons]
    have := h.balance
    simp only [FlowLog.sent, FlowLog.delivered, FlowLog.rolledBack] at this
    omega
  acked_le := by
    simp only [FlowLog.acked, FlowLog.delivered, total_cons, Nat.zero_add]
    exact h.acked_le
  pending_le := by
    have hpending := h.pending_le
    have hbalance := h.balance
    have hacked := h.acked_le
    simp only [FlowLog.outstanding, FlowLog.sent, FlowLog.delivered, FlowLog.acked,
      FlowLog.rolledBack, total_cons, pending_onSent] at hpending hbalance hacked ⊢
    omega
  pending_le_max := by
    rw [pending_onSent]
    exact Nat.min_le_right _ _
  paused_eq := by
    obtain ⟨-, -, hsent⟩ | ⟨-, hsent⟩ := onSent_cases flow n <;> rw [hsent]
    · rfl
    · exact h.paused_eq
  alternates := by
    obtain ⟨hpaused, -, hsent⟩ | ⟨-, hsent⟩ := onSent_cases flow n <;> rw [hsent]
    · exact ⟨h.paused_eq.symm.trans hpaused, h.alternates⟩
    · exact h.alternates
  paused_pending := by
    have hmax : 0 < usizeMax := by decide
    have hle := h.pending_le_max
    obtain ⟨-, hfull, hsent⟩ | ⟨-, hsent⟩ := onSent_cases flow n <;> rw [hsent]
    · intro _
      have hmarks := flow.low_le_high
      rcases Nat.lt_or_ge flow.lowWater (min (flow.pending + n) usizeMax) with hlow | hlow
      · exact .inl hlow
      · refine .inr ⟨?_, ?_, ?_, trivial⟩ <;> dsimp only <;> omega
    · intro hpaused
      rcases h.paused_pending hpaused with hlow | ⟨hpos, hlow, hmarks, hunacked⟩
      · exact .inl (show flow.lowWater < min (flow.pending + n) usizeMax by omega)
      · rcases Nat.lt_or_ge flow.lowWater (min (flow.pending + n) usizeMax) with hgrown | hgrown
        · exact .inl hgrown
        · refine .inr ⟨?_, ?_, hmarks, rfl, hunacked⟩ <;> dsimp only <;> omega

/-- Bytes are counted down, by an acknowledgement or a rollback. -/
theorem Balanced.paused_onAcked (h : Balanced flow log inFlight) (e : FlowEvent) (n : Nat)
    (he : isAck e = true) :
    (flow.onAcked n).1.paused = pausing ((e, (flow.onAcked n).2) :: log) ∧
      Alternates ((e, (flow.onAcked n).2) :: log) ∧
      ((flow.onAcked n).1.paused = true → flow.lowWater < (flow.onAcked n).1.pending) := by
  obtain ⟨hpaused, -, hacked⟩ | ⟨hlow, hacked⟩ := onAcked_cases flow n <;> rw [hacked]
  · refine ⟨?_, ⟨h.paused_eq.symm.trans hpaused, h.alternates⟩, fun hp => absurd hp (by simp)⟩
    cases e <;> rfl
  · refine ⟨?_, h.alternates, hlow⟩
    have hsame : FlowControl.paused { flow with pending := flow.pending - n } = flow.paused := rfl
    rw [hsame, h.paused_eq]
    cases e <;> first | rfl | cases he

theorem Balanced.acked (h : Balanced flow log inFlight) (hn : n ≤ log.unacked) :
    Balanced (flow.onAcked n).1 ((.acked n, (flow.onAcked n).2) :: log) inFlight where
  balance := by
    simp only [FlowLog.sent, FlowLog.delivered, FlowLog.rolledBack, total_cons, Nat.zero_add]
    exact h.balance
  acked_le := by
    have hacked := h.acked_le
    simp only [FlowLog.unacked, FlowLog.acked, FlowLog.delivered, total_cons] at hn hacked ⊢
    omega
  pending_le := by
    have hpending := h.pending_le
    simp only [FlowLog.outstanding, FlowLog.sent, FlowLog.acked, FlowLog.rolledBack, total_cons,
      pending_onAcked] at hpending ⊢
    omega
  pending_le_max := by
    rw [pending_onAcked]
    exact (Nat.sub_le _ _).trans h.pending_le_max
  paused_eq := (Balanced.paused_onAcked h (.acked n) n rfl).1
  alternates := (Balanced.paused_onAcked h (.acked n) n rfl).2.1
  paused_pending hpaused := by
    rw [lowWater_onAcked]
    exact .inl ((Balanced.paused_onAcked h (.acked n) n rfl).2.2 hpaused)

theorem Balanced.rolledBack (h : Balanced flow log n) :
    Balanced (flow.onAcked n).1 ((.rolledBack n, (flow.onAcked n).2) :: log) 0 where
  balance := by
    have hbalance := h.balance
    simp only [FlowLog.sent, FlowLog.delivered, FlowLog.rolledBack, total_cons] at hbalance ⊢
    omega
  acked_le := by
    simp only [FlowLog.acked, FlowLog.delivered, total_cons, Nat.zero_add]
    exact h.acked_le
  pending_le := by
    have hpending := h.pending_le
    simp only [FlowLog.outstanding, FlowLog.sent, FlowLog.acked, FlowLog.rolledBack, total_cons,
      pending_onAcked] at hpending ⊢
    omega
  pending_le_max := by
    rw [pending_onAcked]
    exact (Nat.sub_le _ _).trans h.pending_le_max
  paused_eq := (Balanced.paused_onAcked h (.rolledBack n) n rfl).1
  alternates := (Balanced.paused_onAcked h (.rolledBack n) n rfl).2.1
  paused_pending hpaused := by
    rw [lowWater_onAcked]
    exact .inl ((Balanced.paused_onAcked h (.rolledBack n) n rfl).2.2 hpaused)

/-- The chunk in flight reached a channel. -/
theorem Balanced.delivered (h : Balanced flow log n) :
    Balanced flow ((.delivered n, .none) :: log) 0 where
  balance := by
    have hbalance := h.balance
    simp only [FlowLog.sent, FlowLog.delivered, FlowLog.rolledBack, total_cons] at hbalance ⊢
    omega
  acked_le := by
    have hacked := h.acked_le
    simp only [FlowLog.acked, FlowLog.delivered, total_cons] at hacked ⊢
    omega
  pending_le := by
    have hpending := h.pending_le
    simp only [FlowLog.outstanding, FlowLog.sent, FlowLog.acked, FlowLog.rolledBack,
      total_cons] at hpending ⊢
    omega
  pending_le_max := h.pending_le_max
  paused_eq := h.paused_eq
  alternates := h.alternates
  paused_pending hpaused := by
    rcases h.paused_pending hpaused with hlow | ⟨hpos, hlow, hmarks, hunacked⟩
    · exact .inl hlow
    · exact .inr ⟨hpos, hlow, hmarks, rfl, hunacked⟩

theorem Balanced.reset (h : Balanced flow log inFlight) :
    Balanced flow.reset ((.reset, .none) :: log) inFlight where
  balance := by
    simp only [FlowLog.sent, FlowLog.delivered, FlowLog.rolledBack, total_cons, Nat.zero_add]
    exact h.balance
  acked_le := by
    simp only [FlowLog.acked, FlowLog.delivered, total_cons, Nat.zero_add]
    exact h.acked_le
  pending_le := Nat.zero_le _
  pending_le_max := Nat.zero_le _
  paused_eq := rfl
  alternates := h.alternates
  paused_pending hpaused := absurd hpaused (by simp [FlowControl.reset])

/-! ## The terminal -/

/-- The parts of the terminal that the invariant does not speak about. -/
theorem FlowInv.frame {t' : Terminal} (h : t.FlowInv) (hflow : t'.inner.flow = t.inner.flow)
    (hlog : t'.log = t.log) (hreader : t'.reader = t.reader) (hle : t.notifying ≤ t'.notifying) :
    t'.FlowInv where
  balanced := by rw [hflow, hlog, hreader]; exact h.balanced
  nonempty := by rw [hreader]; exact h.nonempty
  awake hasleep := by
    rw [hflow]
    exact (h.awake (hreader ▸ hasleep)).imp_right fun hlt => Nat.lt_of_lt_of_le hlt hle

/-- The reader goes on without a chunk. -/
theorem FlowInv.moveTo (h : t.FlowInv) (reader : Reader) (hflight : t.reader.inFlight = 0)
    (hreader : reader.inFlight = 0)
    (hscanned : ∀ chunk modeEvents, reader = .scanned chunk modeEvents → chunk ≠ [])
    (hasleep : reader = .asleep → t.inner.flow.paused = true) :
    FlowInv { t with reader } where
  balanced := by
    have hbalanced := h.balanced
    rw [hflight] at hbalanced
    exact hreader.symm ▸ hbalanced
  nonempty := hscanned
  awake heq := .inl (hasleep heq)

theorem FlowInv.wake (h : t.FlowInv) : t.wake.FlowInv := by
  unfold Terminal.wake
  split
  next hreader => exact FlowInv.moveTo h .top (by rw [hreader]; rfl) rfl (by simp) (by simp)
  next => exact h

theorem not_asleep_wake (t : Terminal) : t.wake.reader ≠ .asleep := by
  unfold Terminal.wake
  split
  next => simp
  next h => exact h

theorem FlowInv.check (h : t.FlowInv) : t.check.FlowInv := by
  unfold Terminal.check
  split
  next hreader =>
    refine FlowInv.moveTo h _ (by rw [hreader]; rfl) ?_ ?_ ?_ <;> split
    · rfl
    · split <;> rfl
    · simp
    · split <;> simp
    next hpaused => exact fun _ => (Bool.and_eq_true_iff.mp hpaused).1
    · split <;> simp
  next => exact h

theorem FlowInv.read (h : t.FlowInv) {chunk : List UInt8} (hchunk : chunk ≠ []) :
    (t.read chunk).FlowInv := by
  unfold Terminal.read
  split
  next hreader =>
    refine FlowInv.frame (FlowInv.moveTo h
      (.scanned chunk ((t.scanner.feed chunk).2.filter isModeEvent)) (by rw [hreader]; rfl) rfl
      (fun c modeEvents heq => ?_) (by simp)) rfl rfl rfl (Nat.le_refl _)
    cases heq
    exact hchunk
  next => exact h

theorem FlowInv.account (h : t.FlowInv) : t.account.FlowInv := by
  unfold Terminal.account
  split
  next chunk modeEvents hreader =>
    have hpos : 0 < chunk.length := List.length_pos_iff.mpr (h.nonempty _ _ hreader)
    have hbalanced := h.balanced
    rw [hreader] at hbalanced
    unfold Inner.account
    split
    next offset inner haccount =>
      split at haccount
      · cases haccount
        exact ⟨Balanced.sent hbalanced hpos, by simp, by simp⟩
      · cases haccount
    next => exact h
  next => exact h

theorem FlowInv.output (h : t.FlowInv) (sends : Bool) : (t.output sends).FlowInv := by
  unfold Terminal.output
  split
  next offset chunk hreader =>
    have hbalanced := h.balanced
    rw [hreader] at hbalanced
    split
    next =>
      split
      · exact ⟨Balanced.delivered hbalanced, by simp, by simp⟩
      · exact ⟨hbalanced, by simp, by simp⟩
    next => exact ⟨hbalanced, by simp, by simp⟩
  next => exact h

theorem FlowInv.rollback (h : t.FlowInv) : t.rollback.FlowInv := by
  unfold Terminal.rollback
  split
  next n hreader =>
    have hbalanced := h.balanced
    rw [hreader] at hbalanced
    exact ⟨Balanced.rolledBack hbalanced, by simp, by simp⟩
  next => exact h

/-- An acknowledgement that ends the pause wakes the reader. -/
theorem FlowInv.ack (h : t.FlowInv) (hn : n ≤ t.log.unacked) : (t.ack n).FlowInv := by
  have hbalanced := Balanced.acked h.balanced hn
  unfold Terminal.ack
  dsimp only
  split
  next =>
    unfold Terminal.wake
    split
    next hreader =>
      have hidle : t.reader = .asleep := hreader
      rw [hidle] at hbalanced
      exact ⟨hbalanced, by simp, by simp⟩
    next hreader => exact ⟨hbalanced, h.nonempty, fun heq => absurd heq hreader⟩
  next hquiet =>
    refine ⟨hbalanced, h.nonempty, fun heq => ?_⟩
    refine (h.awake heq).imp_left fun hpaused => ?_
    show (t.inner.flow.onAcked n).1.paused = true
    obtain ⟨-, -, hacked⟩ | ⟨-, hacked⟩ := onAcked_cases t.inner.flow n
    · simp [Inner.ack, hacked] at hquiet
    · rw [hacked]
      exact hpaused

theorem FlowInv.step (h : t.FlowInv) {a : Action} (ha : t.admits a) : (t.step a).FlowInv := by
  have hreset (views : List View) : FlowInv
      { t with
        inner := t.inner.resetFlow
        views
        log := (.reset, .none) :: t.log
        notifying := t.notifying + 1 } :=
    ⟨Balanced.reset h.balanced, h.nonempty, fun _ => .inr (Nat.succ_pos _)⟩
  cases a with
  | check => exact FlowInv.check h
  | read chunk => exact FlowInv.read h ha
  | interrupted =>
    simp only [Terminal.step, Terminal.interrupted]
    split
    next hreader => exact FlowInv.moveTo h _ (by rw [hreader]; rfl) rfl (by simp) (by simp)
    next => exact h
  | readEnd =>
    simp only [Terminal.step, Terminal.readEnd]
    split
    next hreader => exact FlowInv.moveTo h _ (by rw [hreader]; rfl) rfl (by simp) (by simp)
    next => exact h
  | account => exact FlowInv.account h
  | output sends => exact FlowInv.output h sends
  | rollback => exact FlowInv.rollback h
  | wake => exact FlowInv.wake h
  | notify =>
    have hwake := FlowInv.wake h
    exact ⟨hwake.balanced, hwake.nonempty, fun heq => absurd heq (not_asleep_wake t)⟩
  | ack n => exact FlowInv.ack h ha
  | resetFlow => exact hreset t.views
  | kill =>
    simp only [Terminal.step, Terminal.kill]
    split
    · exact h
    · exact FlowInv.frame h rfl rfl rfl (Nat.le_succ _)
  | exit => exact FlowInv.frame h rfl rfl rfl (Nat.le_succ _)
  | takeRecord =>
    refine FlowInv.frame h ?_ rfl rfl (Nat.le_refl _)
    simp only [Terminal.step, Terminal.takeRecord, Inner.takeRecord]
    split <;> rfl
  | reattach view => exact hreset _
  | attach | detach | arrive _ | respond _ => exact FlowInv.frame h rfl rfl rfl (Nat.le_refl _)

theorem flowInv_of_reach (h : machine.Reach Start t) : t.FlowInv := by
  refine Machine.Reach.invariant (I := FlowInv) ?_ (fun t a _ hinv ha => FlowInv.step hinv ha) h
  rintro t ⟨replayCap, highWater, lowWater, hmarks, rfl⟩
  refine ⟨⟨rfl, Nat.le_refl _, Nat.le_refl _, Nat.zero_le _, rfl, trivial, ?_⟩, ?_, ?_⟩ <;>
    simp [new, Inner.new, FlowControl.new]

/-- What another thread does when it ends a pause. -/
theorem notifies_step (t : Terminal) {a : Action} (hthread : a.ofReader = false)
    (hpaused : t.inner.flow.paused = true) (hgoes : (t.step a).inner.flow.paused = false) :
    (t.step a).reader ≠ .asleep ∨ t.notifying < (t.step a).notifying := by
  cases a with
  | ack n =>
    refine .inl ?_
    have hresume : (t.inner.ack n).2 = true := by
      obtain ⟨-, -, hacked⟩ | ⟨-, hacked⟩ := onAcked_cases t.inner.flow n
      · simp [Inner.ack, hacked]
      · refine absurd hpaused ?_
        have hsame : (t.step (.ack n)).inner.flow.paused = t.inner.flow.paused := by
          simp [Terminal.step, Terminal.ack, Inner.ack, hacked]
        rw [← hsame, hgoes]
        decide
    simp only [Terminal.step, Terminal.ack, hresume, if_true]
    exact not_asleep_wake _
  | resetFlow | reattach _ | exit => exact .inr (Nat.lt_succ_self _)
  | kill =>
    simp only [Terminal.step, Terminal.kill] at hgoes ⊢
    split at hgoes
    next => simp [hpaused] at hgoes
    next hkilled =>
      rw [if_neg hkilled]
      exact .inr (Nat.lt_succ_self _)
  | takeRecord =>
    simp only [Terminal.step, Terminal.takeRecord, Inner.takeRecord] at hgoes
    split at hgoes <;> simp [hpaused] at hgoes
  | notify => exact .inl (not_asleep_wake t)
  | attach | detach | arrive _ | respond _ =>
    exact absurd (hpaused.symm.trans hgoes) (by decide)
  | check | read _ | interrupted | readEnd | account | output _ | rollback | wake => cases hthread

end FlowLemmas

open FlowLemmas in
/-- In every run, whatever the two marks and the order of the steps: the account does
not exceed what is outstanding; a paused session is above its low mark, or at both
marks and without an acknowledgement since; pauses and resumptions alternate between
resets; and what ends a pause wakes the reader. -/
theorem flow_account {t : Terminal} (h : Terminal.machine.Reach Terminal.Start t) :
    t.inner.flow.pending ≤ t.log.outstanding ∧
    (t.log.outstanding = 0 → t.inner.flow.paused = false) ∧
    (t.inner.flow.paused = true → t.inner.flow.lowWater < t.inner.flow.pending ∨
      t.inner.flow.pending = t.inner.flow.lowWater ∧
        t.inner.flow.highWater = t.inner.flow.lowWater ∧ t.log.Unacked) ∧
    t.log.Alternates ∧
    (∀ a, Terminal.machine.admits t a → a.ofReader = false → t.inner.flow.paused = true →
      (t.step a).inner.flow.paused = false →
      (t.step a).reader ≠ .asleep ∨ t.notifying < (t.step a).notifying) ∧
    (t.reader = .asleep → t.inner.flow.paused = false → 0 < t.notifying) ∧
    t.notify.reader ≠ .asleep := by
  have hinv := flowInv_of_reach h
  refine ⟨hinv.balanced.pending_le, fun hnone => ?_, fun hpaused => ?_, hinv.balanced.alternates,
    fun a _ => notifies_step t, fun hasleep hgoes => ?_, not_asleep_wake t⟩
  · have hpending := hinv.balanced.pending_le
    cases hpaused : t.inner.flow.paused with
    | false => rfl
    | true => rcases hinv.balanced.paused_pending hpaused with hlow | ⟨hpos, -⟩ <;> omega
  · exact (hinv.balanced.paused_pending hpaused).imp_right And.right
  · exact (hinv.awake hasleep).resolve_left fun hpaused => by simp [hgoes] at hpaused

/-- A session with both marks at one byte. -/
def oneByteMarks : Terminal := .new (.new 16 1 1 (Nat.le_refl _))

/-- The reader sends a byte, is paused at both marks, and sleeps. -/
def sleeping : List Terminal.Action :=
  [.attach, .check, .read [0], .account, .output true, .check]

/-- A reset ends the pause of a reader that sleeps, and a notification is due. -/
theorem flow_account_asleep :
    (Terminal.machine.run oneByteMarks sleeping).inner.flow.paused = true ∧
    0 < (Terminal.machine.run oneByteMarks (sleeping ++ [.resetFlow])).notifying := by
  have hstart : Terminal.machine.Reach Terminal.Start oneByteMarks :=
    .init ⟨16, 1, 1, Nat.le_refl _, rfl⟩
  have hrun : Terminal.machine.Reach Terminal.Start
      (Terminal.machine.run oneByteMarks (sleeping ++ [.resetFlow])) :=
    hstart.of_trace _ ⟨trivial, trivial, by simp [Terminal.machine, Terminal.admits],
      fun _ _ h => by cases h; decide, trivial, trivial, trivial, trivial⟩
  obtain ⟨-, -, -, -, -, hawake, -⟩ := flow_account hrun
  exact ⟨by decide, hawake (by decide) (by decide)⟩

end Mast
