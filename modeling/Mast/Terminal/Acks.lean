import Mast.Lib.ListEdit
import Mast.Lib.Paired
import Mast.Terminal.Attach
import Mast.Terminal.Flow

/-!
# Acknowledgements

`ack-batcher.ts` and `view.ts`: a view counts the bytes that its gate discards, and those that
its terminal has written, and acknowledges them in batches. Here the terminal runs together with
its views: their writes, their timers and their calls of `ack_output`, each at any time.

Results:
1. `Batched.credit`: what waits in a batch is below the threshold, and its timer is due in time.
2. `ViewAcks.judge`, `ViewAcks.write`: a view counts what it consumes.
3. `sent_step`, `pending_session`: what a step of the session puts on the channels, and what it
   adds to the account.
-/

namespace Mast

/-! ## The batcher -/

/-- The options. A threshold of zero is refused at construction. -/
structure AckBatcherOptions where
  thresholdBytes : Nat := 64 * 1024
  maxDelayMs : Nat := 50
  positive : 0 < thresholdBytes := by decide

/-- `timer` is when the timer is due, if it is set. -/
structure AckBatcher where
  options : AckBatcherOptions
  accumulated : Nat
  timer : Option Nat
  disposed : Bool

namespace AckBatcher

def new (options : AckBatcherOptions) : AckBatcher := ⟨options, 0, none, false⟩

/-- `flush`, with the call of `onFlush`, if there is one. -/
def flush (b : AckBatcher) : AckBatcher × Option Nat :=
  ({ b with accumulated := 0, timer := none },
    if b.accumulated = 0 then none else some b.accumulated)

/-- The timer is set with the first byte and is not put off by later ones. -/
def add (now bytes : Nat) (b : AckBatcher) : AckBatcher × Option Nat :=
  if b.disposed || bytes == 0 then (b, none)
  else
    let b := { b with accumulated := b.accumulated + bytes }
    if b.options.thresholdBytes ≤ b.accumulated then b.flush
    else ({ b with timer := b.timer.or (some (now + b.options.maxDelayMs)) }, none)

def dispose (b : AckBatcher) : AckBatcher × Option Nat :=
  if b.disposed then (b, none) else ({ b.flush.1 with disposed := true }, b.flush.2)

end AckBatcher

/-! ## The views -/

/-- What a view has to acknowledge. `disposed` of the view is that of its batcher. `acked` and
`unsent`, the bytes that arrived at the session and those that wait with the times they were
added, are only spoken about. -/
structure AckedView where
  batcher : AckBatcher
  /-- The writes of the terminal that are complete. -/
  written : Nat
  /-- The calls of `ack_output` under way. -/
  calls : List Nat
  acked : Nat
  unsent : List (Nat × Nat)

namespace AckedView

def new (options : AckBatcherOptions) : AckedView := ⟨.new options, 0, [], 0, []⟩

def credit (now bytes : Nat) (v : AckedView) : AckedView :=
  let added := v.batcher.add now bytes
  { v with
    batcher := added.1
    calls := v.calls ++ added.2.toList
    unsent := if added.1.accumulated = 0 then [] else v.unsent ++ [(now, bytes)] }

/-- The callback of the timer. -/
def timeout (v : AckedView) : AckedView :=
  { v with
    batcher := v.batcher.flush.1
    calls := v.calls ++ v.batcher.flush.2.toList
    unsent := [] }

def dispose (v : AckedView) : AckedView :=
  { v with
    batcher := v.batcher.dispose.1
    calls := v.calls ++ v.batcher.dispose.2.toList
    unsent := [] }

/-- The callback of the next write. -/
def write (now bytes : Nat) (v : AckedView) : AckedView :=
  { v with written := v.written + 1 }.credit now bytes

/-- A call arrives at the session. -/
def arrived (k n : Nat) (v : AckedView) : AckedView :=
  { v with calls := v.calls.eraseIdx k, acked := v.acked + n }

/-- The page of the view is gone. -/
def lose (v : AckedView) : AckedView :=
  { v with
    batcher := { v.batcher with accumulated := 0, timer := none, disposed := true }
    unsent := [] }

end AckedView

/-! ## The terminal with its views -/

/-- `current`: the slot is what it was when the account started over last. It is only spoken
about. -/
structure Acking where
  options : AckBatcherOptions
  terminal : Terminal
  views : List AckedView
  now : Nat
  current : Bool

/-- The steps that are not those of a view. -/
def Terminal.Action.ofSession : Terminal.Action → Bool
  | .ack _ | .arrive _ | .respond _ => false
  | _ => true

def Terminal.Action.resets : Terminal.Action → Bool
  | .resetFlow | .reattach _ => true
  | _ => false

/-- The bytes that a step acknowledges. -/
def Terminal.Action.acks : Terminal.Action → Nat
  | .ack n => n
  | _ => 0

/-- The bytes that a step puts on a channel. -/
def Terminal.delivers (t : Terminal) : Terminal.Action → Nat
  | .output true =>
    match t.reader, t.slot with
    | .accounted _ chunk, some _ => chunk.length
    | _, _ => 0
  | _ => 0

/-- What a view has discarded. -/
def Terminal.discarded (t : Terminal) (view : Nat) : Nat :=
  t.views[view]?.elim 0 View.discarded

namespace Acking

inductive Step
  | session (a : Terminal.Action)
  | arrive (view : Nat)
  | respond (view : Nat)
  | written (view : Nat)
  | timeout (view : Nat)
  | ack (view call : Nat)
  | dispose (view : Nat)
  | reload
  | tick (ms : Nat)
deriving DecidableEq

def session (s : Acking) (a : Terminal.Action) : Acking :=
  { s with
    terminal := s.terminal.step a
    views := s.views ++ if a = .attach then [.new s.options] else []
    current := a.resets || s.current && decide ((s.terminal.step a).slot = s.terminal.slot) }

/-- `applyGateResult`: the writes are under way, and what was discarded is counted at once. A
view that is disposed of takes neither frames nor the answer. -/
def applyGateResult (s : Acking) (view : Nat) (a : Terminal.Action) : Acking :=
  match s.views[view]? with
  | some v =>
    if v.batcher.disposed then s
    else
      let terminal := s.terminal.step a
      { s with
        terminal
        views := s.views.modify view
          (·.credit s.now (terminal.discarded view - s.terminal.discarded view)) }
  | none => s

def written (s : Acking) (view : Nat) : Acking :=
  match s.terminal.views[view]?, s.views[view]? with
  | some v, some av =>
    match v.delivered[av.written]? with
    | some bytes => { s with views := s.views.modify view (·.write s.now bytes.length) }
    | none => s
  | _, _ => s

def ack (s : Acking) (view call : Nat) : Acking :=
  match s.views[view]?.bind (·.calls[call]?) with
  | some n =>
    { s with
      terminal := s.terminal.step (.ack n)
      views := s.views.modify view (·.arrived call n) }
  | none => s

def step (s : Acking) : Step → Acking
  | .session a => s.session a
  | .arrive view => s.applyGateResult view (.arrive view)
  | .respond view => s.applyGateResult view (.respond view)
  | .written view => s.written view
  | .timeout view => { s with views := s.views.modify view AckedView.timeout }
  | .ack view call => s.ack view call
  | .dispose view => { s with views := s.views.modify view AckedView.dispose }
  | .reload => { s with views := s.views.map AckedView.lose }
  | .tick ms => { s with now := s.now + ms }

/-- The steps of the session are those of a terminal, except that nothing is promised about
what the views acknowledge. A timer fires when it is due. -/
def machine : Machine Acking Step where
  step := step
  admits s
    | .session a => a.ofSession = true ∧ Terminal.machine.admits s.terminal a
    | .timeout view => ∃ v due, s.views[view]? = some v ∧ v.batcher.timer = some due ∧ due ≤ s.now
    | _ => True

def Start (s : Acking) : Prop :=
  Terminal.Start s.terminal ∧ s.views = [] ∧ s.current = true

end Acking

/-! ## The accounts of the views -/

/-- The bytes that a view has counted: acknowledged, on their way, or gathered. -/
def AckedView.credited (v : AckedView) : Nat := v.acked + v.calls.sum + v.batcher.accumulated

/-- The bytes that were discarded, or written by the first writes. -/
def View.consumed (v : View) (written : Nat) : Nat :=
  (v.delivered.take written).flatten.length + v.discarded

/-- The bytes on the channel. -/
def View.sent (v : View) : Nat := (v.channel.map fun f => f.bytes.length).sum

/-- The batcher: it waits with less than its threshold, while its timer is set, and the timer is
due before any gathered byte is too old. -/
structure Batched (now : Nat) (v : AckedView) : Prop where
  closed : v.batcher.disposed = true → v.batcher.accumulated = 0
  timer : v.batcher.timer = none ↔ v.batcher.accumulated = 0
  below : v.batcher.accumulated < v.batcher.options.thresholdBytes
  unsent : (v.unsent.map Prod.snd).sum = v.batcher.accumulated
  gathered : v.batcher.accumulated = 0 → v.unsent = []
  punctual : ∀ due, v.batcher.timer = some due → due ≤ now + v.batcher.options.maxDelayMs ∧
    ∀ e ∈ v.unsent, due ≤ e.1 + v.batcher.options.maxDelayMs

/-- What a view has counted is what it has consumed; a view that is gone has counted less. -/
structure ViewAcks (now : Nat) (v : View) (av : AckedView) : Prop where
  batched : Batched now av
  written_le : av.written ≤ v.delivered.length
  credited_le : av.credited ≤ v.consumed av.written
  credited : av.batcher.disposed = false → av.credited = v.consumed av.written

/-- What the view in the slot has not acknowledged. -/
def Acking.owed (s : Acking) : Nat :=
  s.terminal.slot.elim 0 fun view =>
    (s.terminal.views[view]?.elim 0 View.sent) - s.views[view]?.elim 0 AckedView.acked

/-- The account of the session covers no more than the view in the slot still owes, and the
chunk in flight. -/
def Acking.Covers (s : Acking) : Prop :=
  s.terminal.inner.flow.pending ≤ s.owed + s.terminal.reader.inFlight

namespace AckLemmas

open Terminal Paired

variable {v v' : View} {av : AckedView} {now n : Nat} {b : AckBatcher} {t : Terminal}
  {s : Acking} {a : Terminal.Action}

/-! ## The batcher -/

theorem add_cases (b : AckBatcher) (now n : Nat) :
    ((b.disposed = true ∨ n = 0) ∧ b.add now n = (b, none)) ∨
    (b.disposed = false ∧ 0 < n ∧ b.options.thresholdBytes ≤ b.accumulated + n ∧
      b.add now n = ({ b with accumulated := 0, timer := none }, some (b.accumulated + n))) ∨
    (b.disposed = false ∧ 0 < n ∧ b.accumulated + n < b.options.thresholdBytes ∧
      b.add now n = ({ b with
        accumulated := b.accumulated + n
        timer := b.timer.or (some (now + b.options.maxDelayMs)) }, none)) := by
  unfold AckBatcher.add AckBatcher.flush
  split
  next h => exact .inl ⟨by simpa using h, rfl⟩
  next h =>
    simp only [Bool.or_eq_true, beq_iff_eq, not_or, Bool.not_eq_true] at h
    have hpos : 0 < n := Nat.pos_of_ne_zero h.2
    dsimp only
    split
    next hfull => exact .inr (.inl ⟨h.1, hpos, hfull, by rw [if_neg (by omega)]⟩)
    next hroom => exact .inr (.inr ⟨h.1, hpos, Nat.lt_of_not_le hroom, rfl⟩)

/-- A batcher that has nothing gathered. -/
theorem Batched.empty {options : AckBatcherOptions} {disposed : Bool}
    (hbatcher : av.batcher = ⟨options, 0, none, disposed⟩) (hunsent : av.unsent = []) :
    Batched now av where
  closed _ := by rw [hbatcher]
  timer := by simp [hbatcher]
  below := by rw [hbatcher]; exact options.positive
  unsent := by rw [hbatcher, hunsent]; rfl
  gathered _ := hunsent
  punctual due hdue := by rw [hbatcher] at hdue; cases hdue

/-- The batcher ignores what it is given: it is disposed of, or there is nothing to count. -/
theorem Batched.keep (h : Batched now av) {n : Nat}
    (hn : av.batcher.accumulated = 0 ∨ n = 0) :
    Batched now { av with
      unsent := if av.batcher.accumulated = 0 then [] else av.unsent ++ [(now, n)] } := by
  split
  next hzero =>
    exact
      { h with
        unsent := hzero.symm
        gathered := fun _ => rfl
        punctual := fun due hdue => ⟨(h.punctual due hdue).1, by simp⟩ }
  next hsome =>
    obtain rfl := hn.resolve_left hsome
    refine { h with unsent := ?_, gathered := fun hzero => absurd hzero hsome, punctual := ?_ }
    · simp [h.unsent]
    · intro due hdue
      obtain ⟨hnow, hall⟩ := h.punctual due hdue
      exact ⟨hnow, List.forall_mem_append.mpr ⟨hall, List.forall_mem_singleton.mpr hnow⟩⟩

theorem Batched.credit (h : Batched now av) (n : Nat) : Batched now (av.credit now n) := by
  unfold AckedView.credit
  rcases add_cases av.batcher now n with ⟨hidle, heq⟩ | ⟨-, -, -, heq⟩ | ⟨hopen, hn, hlow, heq⟩
  · rw [heq]
    exact { Batched.keep h (hidle.imp_left h.closed) with }
  · rw [heq]
    exact Batched.empty rfl rfl
  · rw [heq]
    have hne : av.batcher.accumulated + n ≠ 0 := by omega
    refine ⟨fun hclosed => ?_, ?_, hlow, ?_, fun hzero => absurd hzero hne, fun due hdue => ?_⟩
    · simp [hopen] at hclosed
    · simp [Nat.ne_of_gt hn]
    · simp only [hne, if_false, List.map_append, List.sum_append, h.unsent, List.map_cons,
        List.map_nil, List.sum_singleton]
    · -- the timer is the one that was set, or is set now for the first byte
      simp only [hne, if_false, List.forall_mem_append, List.forall_mem_singleton]
      cases htimer : av.batcher.timer with
      | none =>
        have hfirst := h.gathered (h.timer.mp htimer)
        simp only [htimer, Option.none_or, Option.some_inj] at hdue
        subst hdue
        exact ⟨Nat.le_refl _, by simp [hfirst], Nat.le_refl _⟩
      | some due' =>
        simp only [htimer, Option.some_or, Option.some_inj] at hdue
        subst hdue
        obtain ⟨hnow, hall⟩ := h.punctual _ htimer
        exact ⟨hnow, hall, hnow⟩

theorem Batched.tick (h : Batched now av) (ms : Nat) : Batched (now + ms) av :=
  { h with punctual := fun due hdue => ⟨(h.punctual due hdue).1.trans (by omega),
      (h.punctual due hdue).2⟩ }

theorem sum_toList_flush (b : AckBatcher) : b.flush.2.toList.sum = b.accumulated := by
  unfold AckBatcher.flush
  dsimp only
  split
  next hzero => exact hzero.symm
  next => simp

/-! ## One view -/

theorem credited_credit (now n : Nat) (av : AckedView) : (av.credit now n).credited =
    av.credited + if av.batcher.disposed then 0 else n := by
  unfold AckedView.credit AckedView.credited
  rcases add_cases av.batcher now n with ⟨hidle, heq⟩ | ⟨hopen, -, -, heq⟩ | ⟨hopen, -, -, heq⟩
  · rw [heq]
    have hnone : (if av.batcher.disposed then 0 else n) = 0 := by
      rcases hidle with hclosed | rfl
      · rw [hclosed]; rfl
      · simp
    simp [hnone]
  · rw [heq, hopen]
    simp
    omega
  · rw [heq, hopen]
    simp
    omega

theorem disposed_credit (now n : Nat) (av : AckedView) :
    (av.credit now n).batcher.disposed = av.batcher.disposed := by
  unfold AckedView.credit
  rcases add_cases av.batcher now n with ⟨-, heq⟩ | ⟨-, -, -, heq⟩ | ⟨-, -, -, heq⟩ <;> rw [heq]

@[simp] theorem acked_credit (now n : Nat) (av : AckedView) :
    (av.credit now n).acked = av.acked := rfl

@[simp] theorem written_credit (now n : Nat) (av : AckedView) :
    (av.credit now n).written = av.written := rfl

/-- What was written and discarded grows with what arrives. -/
theorem consumed_of_extends {k : Nat} {rest : List (List UInt8)} (hk : k ≤ v.delivered.length)
    (hdelivered : v'.delivered = v.delivered ++ rest) (hdiscarded : v.discarded ≤ v'.discarded) :
    v'.consumed k = v.consumed k + (v'.discarded - v.discarded) := by
  rw [View.consumed, View.consumed, hdelivered, List.take_append_of_le_length hk]
  omega

/-- A frame or the answer reaches a view. -/
theorem ViewAcks.judge (h : ViewAcks now v av) (hopen : av.batcher.disposed = false)
    {rest : List (List UInt8)} (hdelivered : v'.delivered = v.delivered ++ rest)
    (hdiscarded : v.discarded ≤ v'.discarded) :
    ViewAcks now v' (av.credit now (v'.discarded - v.discarded)) := by
  have hconsumed := consumed_of_extends h.written_le hdelivered hdiscarded
  have hcredited : (av.credit now (v'.discarded - v.discarded)).credited =
      v'.consumed av.written := by
    rw [credited_credit, hopen, if_neg (by decide), h.credited hopen, hconsumed]
  refine ⟨Batched.credit h.batched _, ?_, hcredited.le, fun _ => hcredited⟩
  rw [hdelivered, List.length_append]
  exact h.written_le.trans (Nat.le_add_right _ _)

/-- A write is complete. -/
theorem ViewAcks.write (h : ViewAcks now v av) {bytes : List UInt8}
    (hbytes : v.delivered[av.written]? = some bytes) :
    ViewAcks now v (av.write now bytes.length) := by
  have hconsumed : v.consumed (av.written + 1) = v.consumed av.written + bytes.length := by
    rw [View.consumed, View.consumed, List.take_add_one, hbytes, List.flatten_append,
      List.length_append]
    simp
    omega
  obtain ⟨hlt, -⟩ := List.getElem?_eq_some_iff.mp hbytes
  have hcredited := credited_credit now bytes.length { av with written := av.written + 1 }
  have hle := h.credited_le
  have hsame : ({ av with written := av.written + 1 } : AckedView).credited = av.credited := rfl
  have hbatched : Batched now { av with written := av.written + 1 } := { h.batched with }
  refine ⟨Batched.credit hbatched _, ?_, ?_, fun hopen => ?_⟩
  · exact (written_credit now bytes.length { av with written := av.written + 1 }) ▸ hlt
  · show (AckedView.credit now bytes.length { av with written := av.written + 1 }).credited ≤
      v.consumed (av.written + 1)
    rw [hcredited, hconsumed, hsame]
    split <;> omega
  · have hopen : av.batcher.disposed = false := by
      rw [← hopen]
      exact (disposed_credit now bytes.length { av with written := av.written + 1 }).symm
    show (AckedView.credit now bytes.length { av with written := av.written + 1 }).credited =
      v.consumed (av.written + 1)
    rw [hcredited, hconsumed, hsame, hopen, if_neg (by decide), h.credited hopen]

theorem ViewAcks.timeout (h : ViewAcks now v av) : ViewAcks now v av.timeout := by
  have hcredited : av.timeout.credited = av.credited := by
    have hflush := sum_toList_flush av.batcher
    unfold AckedView.timeout AckedView.credited
    rw [List.sum_append, hflush]
    exact (Nat.add_assoc _ _ _).symm
  refine ⟨Batched.empty rfl rfl, h.written_le, ?_, fun hopen => ?_⟩
  · rw [hcredited]
    exact h.credited_le
  · rw [hcredited]
    exact h.credited hopen

theorem ViewAcks.dispose (h : ViewAcks now v av) : ViewAcks now v av.dispose := by
  unfold AckedView.dispose AckBatcher.dispose
  split
  next hclosed =>
    have hzero := h.batched.closed hclosed
    refine ⟨{ h.batched with unsent := hzero.symm, gathered := fun _ => rfl, punctual := ?_ },
      h.written_le, ?_, fun hopen => absurd (hclosed.symm.trans hopen) (by decide)⟩
    · exact fun due hdue => ⟨(h.batched.punctual due hdue).1, by simp⟩
    · simpa [AckedView.credited] using h.credited_le
  next hopen =>
    refine ⟨Batched.empty rfl rfl, h.written_le, ?_, fun h => by cases h⟩
    refine Eq.trans_le ?_ h.credited_le
    have hflush := sum_toList_flush av.batcher
    unfold AckedView.credited
    dsimp only
    rw [List.sum_append, hflush]
    exact (Nat.add_assoc _ _ _).symm

theorem ViewAcks.lose (h : ViewAcks now v av) : ViewAcks now v av.lose := by
  refine ⟨Batched.empty rfl rfl, h.written_le, ?_, fun h => by cases h⟩
  refine Nat.le_trans ?_ h.credited_le
  exact Nat.add_le_add_left (Nat.zero_le _) _

theorem sum_eraseIdx {l : List Nat} {k : Nat} (h : l[k]? = some n) :
    (l.eraseIdx k).sum + n = l.sum := by
  induction l generalizing k with
  | nil => cases h
  | cons m l ih =>
    cases k with
    | zero =>
      obtain rfl := Option.some_inj.mp h
      simp [Nat.add_comm]
    | succ k =>
      have := ih h
      simp only [List.eraseIdx_cons_succ, List.sum_cons]
      omega

theorem ViewAcks.arrived {k : Nat} (h : ViewAcks now v av) (hn : av.calls[k]? = some n) :
    ViewAcks now v (av.arrived k n) := by
  have hcredited : (av.arrived k n).credited = av.credited := by
    have hsum := sum_eraseIdx hn
    show av.acked + n + (av.calls.eraseIdx k).sum + av.batcher.accumulated =
      av.acked + av.calls.sum + av.batcher.accumulated
    omega
  refine ⟨{ h.batched with }, h.written_le, ?_, fun hopen => ?_⟩
  · rw [hcredited]
    exact h.credited_le
  · rw [hcredited]
    exact h.credited hopen

theorem ViewAcks.tick (h : ViewAcks now v av) (ms : Nat) : ViewAcks (now + ms) v av :=
  { h with batched := Batched.tick h.batched ms }

/-- What the session does to a view leaves alone what the view has consumed. -/
theorem ViewAcks.frame (h : ViewAcks now v av) (hdelivered : v'.delivered = v.delivered)
    (hdiscarded : v'.discarded = v.discarded) : ViewAcks now v' av where
  batched := h.batched
  written_le := hdelivered ▸ h.written_le
  credited_le := by
    rw [View.consumed, hdelivered, hdiscarded]
    exact h.credited_le
  credited hopen := by
    rw [View.consumed, hdelivered, hdiscarded]
    exact h.credited hopen

theorem viewAcks_new (options : AckBatcherOptions) (start now : Nat) :
    ViewAcks now (.attached start) (.new options) where
  batched := Batched.empty rfl rfl
  written_le := Nat.le_refl _
  credited_le := Nat.le_refl _
  credited _ := rfl

/-! ## The terminal -/

theorem sent_of_channel (h : v'.channel = v.channel) : v'.sent = v.sent := by
  rw [View.sent, h, View.sent]

theorem channel_apply (v : View) (gate : AttachGate) (result : GateResult) :
    (v.apply gate result).channel = v.channel := rfl

theorem channel_arrive (v : View) : v.arrive.channel = v.channel := by
  unfold View.arrive
  split
  · dsimp only
    split
    · exact channel_apply _ _ _
    · rfl
  · rfl

theorem channel_respond (v : View) : v.respond.channel = v.channel := by
  unfold View.respond
  split
  · split
    · split
      · exact channel_apply _ _ _
      · rfl
    · rfl
  · rfl

theorem answered_frame (v : View) (endOffset : UInt64) (bytes : List UInt8) :
    (v.answered endOffset bytes).channel = v.channel ∧
      (v.answered endOffset bytes).delivered = v.delivered ∧
      (v.answered endOffset bytes).discarded = v.discarded := by
  unfold View.answered
  split <;> exact ⟨rfl, rfl, rfl⟩

/-- What a view is given is behind what it had. -/
theorem extends_arrive (v : View) : (∃ rest, v.arrive.delivered = v.delivered ++ rest) ∧
    v.discarded ≤ v.arrive.discarded := by
  unfold View.arrive
  split
  · dsimp only
    split
    · exact ⟨⟨_, rfl⟩, Nat.le_add_right _ _⟩
    · exact ⟨⟨[], (List.append_nil _).symm⟩, Nat.le_refl _⟩
  · exact ⟨⟨[], (List.append_nil _).symm⟩, Nat.le_refl _⟩

theorem extends_respond (v : View) : (∃ rest, v.respond.delivered = v.delivered ++ rest) ∧
    v.discarded ≤ v.respond.discarded := by
  unfold View.respond
  split
  · split
    · split
      · exact ⟨⟨_, rfl⟩, Nat.le_add_right _ _⟩
      · exact ⟨⟨[], (List.append_nil _).symm⟩, Nat.le_refl _⟩
    · exact ⟨⟨[], (List.append_nil _).symm⟩, Nat.le_refl _⟩
  · exact ⟨⟨[], (List.append_nil _).symm⟩, Nat.le_refl _⟩

/-- A view consumes no more than its channel carried. -/
theorem consumed_le_sent {view : Nat} (h : t.ViewInv view v) (k : Nat) :
    v.consumed k ≤ v.sent := by
  have hreceived : (v.received.map fun f => f.bytes.length).sum ≤ v.sent := by
    rw [h.received, List.map_take]
    exact (List.take_sublist _ _).sum_le_sum fun _ _ => Nat.zero_le _
  have htake : (v.delivered.take k).flatten.length ≤ v.delivered.flatten.length := by
    rw [List.length_flatten, List.length_flatten, List.map_take]
    exact (List.take_sublist _ _).sum_le_sum fun _ _ => Nat.zero_le _
  have hgate := h.gate
  unfold View.GateInv at hgate
  unfold View.consumed
  cases hend : v.gate.endOffset with
  | none =>
    rw [hend] at hgate
    obtain ⟨-, -, hdelivered, hdiscarded⟩ := hgate
    rw [hdelivered, hdiscarded]
    simp
  | some endOffset =>
    rw [hend] at hgate
    obtain ⟨-, hresult, -⟩ := hgate
    have hall := AttachLemmas.length_judgeAll endOffset v.received
    rw [← hresult] at hall
    dsimp only at hall
    omega

/-- A step of the session adds a view, or what it does to a view concerns the channel. -/
theorem views_session (t : Terminal) (ha : a.ofSession = true) :
    (a = .attach ∧ (t.step a).views = t.views ++ [.attached t.cursor]) ∨
    (a ≠ .attach ∧ ∃ i f, (t.step a).views = t.views.modify i f ∧
      (t.delivers a ≠ 0 → t.slot = some i) ∧
      ∀ v, (f v).delivered = v.delivered ∧ (f v).discarded = v.discarded ∧
        (f v).sent = v.sent + t.delivers a) := by
  have hsame : ∀ t' : Terminal, t'.views = t.views → t.delivers a = 0 →
      ∃ i f, t'.views = t.views.modify i f ∧ (t.delivers a ≠ 0 → t.slot = some i) ∧
        ∀ v, (f v).delivered = v.delivered ∧ (f v).discarded = v.discarded ∧
          (f v).sent = v.sent + t.delivers a := by
    intro t' h hnone
    refine ⟨0, id, by rw [h, List.modify_id], fun hsome => absurd hnone hsome, fun v => ?_⟩
    exact ⟨rfl, rfl, by rw [hnone]; rfl⟩
  cases a with
  | attach => exact .inl ⟨rfl, rfl⟩
  | ack _ | arrive _ | respond _ => cases ha
  | output sends =>
    refine .inr ⟨by simp, ?_⟩
    cases hreader : t.reader with
    | accounted offset chunk =>
      rcases Option.eq_none_or_eq_some t.slot with hslot | ⟨view, hslot⟩
      · refine hsame (t.step (.output sends))
          (by simp [Terminal.step, Terminal.output, hreader, hslot]) ?_
        cases sends <;> simp [Terminal.delivers, hreader, hslot]
      · cases sends with
        | false =>
          exact hsame (t.step (.output false))
            (by simp [Terminal.step, Terminal.output, hreader, hslot]) rfl
        | true =>
          have hdelivers : t.delivers (.output true) = chunk.length := by
            simp [Terminal.delivers, hreader, hslot]
          refine ⟨view, fun v => { v with channel := v.channel ++ [⟨offset, chunk⟩] },
            by simp only [Terminal.step, Terminal.output, hreader, hslot, if_true],
            fun _ => hslot, fun v => ⟨rfl, rfl, ?_⟩⟩
          rw [hdelivers]
          simp [View.sent]
    | _ =>
      refine hsame (t.step (.output sends)) (by simp [Terminal.step, Terminal.output, hreader]) ?_
      cases sends <;> simp [Terminal.delivers, hreader]
  | reattach view =>
    refine .inr ⟨by simp, view, _, rfl, fun hsome => absurd rfl hsome, fun v => ?_⟩
    obtain ⟨hchannel, hdelivered, hdiscarded⟩ :=
      answered_frame v t.inner.reattach.2.1 t.inner.reattach.2.2
    exact ⟨hdelivered, hdiscarded, sent_of_channel hchannel⟩
  | check | read _ | interrupted | readEnd | account | rollback | wake | kill =>
    refine .inr ⟨by simp, hsame _ ?_ rfl⟩
    unfold Terminal.step
    dsimp only [Terminal.check, Terminal.read, Terminal.interrupted, Terminal.readEnd,
      Terminal.account, Terminal.rollback, Terminal.wake, Terminal.kill]
    repeat' split
    all_goals rfl
  | notify =>
    refine .inr ⟨by simp, hsame _ ?_ rfl⟩
    unfold Terminal.step Terminal.notify Terminal.wake
    dsimp only
    split <;> rfl
  | resetFlow | exit | takeRecord | detach => exact .inr ⟨by simp, hsame _ rfl rfl⟩

/-- What the log counts as delivered, and as acknowledged. -/
theorem log_step (t : Terminal) (a : Terminal.Action) :
    (t.step a).log.delivered = t.log.delivered + t.delivers a ∧
      (t.step a).log.acked = t.log.acked + a.acks := by
  cases a with
  | output sends =>
    unfold Terminal.step Terminal.output Terminal.delivers
    cases hreader : t.reader <;> cases hslot : t.slot <;> cases sends <;>
      simp [FlowLog.delivered, FlowLog.acked, FlowLemmas.total_cons, Terminal.Action.acks,
        Nat.add_comm]
  | ack n =>
    unfold Terminal.step Terminal.ack Terminal.wake
    dsimp only
    split
    · split <;>
        simp [FlowLog.delivered, FlowLog.acked, FlowLemmas.total_cons, Terminal.delivers,
          Terminal.Action.acks, Nat.add_comm]
    · simp [FlowLog.delivered, FlowLog.acked, FlowLemmas.total_cons, Terminal.delivers,
        Terminal.Action.acks, Nat.add_comm]
  | check | read _ | interrupted | readEnd | account | rollback | wake | kill =>
    unfold Terminal.step
    dsimp only [Terminal.check, Terminal.read, Terminal.interrupted, Terminal.readEnd,
      Terminal.account, Terminal.rollback, Terminal.wake, Terminal.kill]
    repeat' split
    all_goals
      simp [FlowLog.delivered, FlowLog.acked, FlowLemmas.total_cons, Terminal.delivers,
        Terminal.Action.acks]
  | notify =>
    unfold Terminal.step Terminal.notify Terminal.wake
    dsimp only
    split <;> exact ⟨rfl, rfl⟩
  | resetFlow | reattach _ =>
    simp [Terminal.step, Terminal.resetFlow, Terminal.reattach, FlowLog.delivered, FlowLog.acked,
      FlowLemmas.total_cons, Terminal.delivers, Terminal.Action.acks]
  | _ => exact ⟨rfl, rfl⟩

theorem views_ack (t : Terminal) (n : Nat) : (t.step (.ack n)).views = t.views ∧
    (t.step (.ack n)).slot = t.slot ∧ (t.step (.ack n)).reader.inFlight = t.reader.inFlight ∧
    (t.step (.ack n)).inner.flow.pending = t.inner.flow.pending - n := by
  unfold Terminal.step Terminal.ack Terminal.wake Inner.ack
  dsimp only
  split
  · split
    next hreader =>
      refine ⟨rfl, rfl, ?_, FlowLemmas.pending_onAcked _ _⟩
      rw [hreader]
      rfl
    next => exact ⟨rfl, rfl, rfl, FlowLemmas.pending_onAcked _ _⟩
  · exact ⟨rfl, rfl, rfl, FlowLemmas.pending_onAcked _ _⟩

/-- What a step puts on the channels. -/
theorem sent_step (hviews : t.ViewsInv) (a : Terminal.Action) :
    ((t.step a).views.map View.sent).sum = (t.views.map View.sent).sum + t.delivers a := by
  have hkeep : ∀ (i : Nat) (f : View → View), (∀ v, (f v).sent = v.sent) →
      ((t.views.modify i f).map View.sent).sum = (t.views.map View.sent).sum :=
    fun i f hf => congrArg List.sum (ListEdit.map_modify f View.sent fun v _ => hf v)
  cases hview : a.ofSession with
  | false =>
    cases a with
    | ack n => rw [(views_ack t n).1]; rfl
    | arrive view => exact hkeep view _ fun v => sent_of_channel (channel_arrive v)
    | respond view => exact hkeep view _ fun v => sent_of_channel (channel_respond v)
    | _ => cases hview
  | true =>
    rcases views_session t hview with ⟨rfl, hviews'⟩ | ⟨-, i, f, hviews', hslot, hf⟩
    · rw [hviews', List.map_append, List.sum_append]
      rfl
    · rw [hviews']
      by_cases hnone : t.delivers a = 0
      · rw [hnone]
        exact hkeep i f fun v => by rw [(hf v).2.2, hnone]; rfl
      · have hv := List.getElem?_eq_getElem (hviews.slot i (hslot hnone))
        exact sum_modify hv (hf _).2.2

/-- What was delivered is on the channels. -/
theorem delivered_of_reach (h : Terminal.machine.Reach Terminal.Start t) :
    t.log.delivered = (t.views.map View.sent).sum := by
  refine h.invariant (I := fun t => t.log.delivered = (t.views.map View.sent).sum)
    (fun t ht => ?_) fun t a hr hI _ => ?_
  · obtain ⟨replayCap, highWater, lowWater, hmarks, rfl⟩ := ht
    rfl
  · exact (log_step t a).1.trans (hI ▸ (sent_step (AttachLemmas.viewsInv_of_reach hr) a).symm)

/-- A step of the session makes nothing pending but what it delivers or keeps in flight. -/
theorem pending_session (ha : a.ofSession = true) {owed : Nat}
    (h : t.inner.flow.pending ≤ owed + t.reader.inFlight) :
    (t.step a).inner.flow.pending ≤ owed + t.delivers a + (t.step a).reader.inFlight := by
  cases a with
  | ack _ | arrive _ | respond _ => cases ha
  | output sends =>
    unfold Terminal.step Terminal.output Terminal.delivers
    cases hreader : t.reader <;> cases hslot : t.slot <;> cases sends <;>
      simp [hreader, Reader.inFlight] at h ⊢ <;> omega
  | account =>
    unfold Terminal.step Terminal.account Terminal.delivers
    dsimp only
    split
    next chunk events hreader =>
      split
      next offset inner haccount =>
        unfold Inner.account at haccount
        split at haccount
        · obtain ⟨rfl, rfl⟩ := Prod.mk.inj (Option.some_inj.mp haccount)
          simp only [FlowLemmas.pending_onSent, Reader.inFlight]
          rw [hreader] at h
          simp only [Reader.inFlight] at h
          omega
        · cases haccount
      next => exact h
    next => exact h
  | rollback =>
    unfold Terminal.step Terminal.rollback Terminal.delivers
    dsimp only
    split
    next n hreader =>
      rw [hreader] at h
      simp only [Inner.rollback, FlowLemmas.pending_onAcked, Reader.inFlight] at h ⊢
      omega
    next => exact h
  | resetFlow => exact Nat.zero_le _
  | reattach view => exact Nat.zero_le _
  | check =>
    unfold Terminal.step Terminal.check Terminal.delivers
    dsimp only
    split
    next hreader =>
      rw [hreader] at h
      refine h.trans (Nat.add_le_add_left ?_ _)
      exact Nat.zero_le _
    next => exact h
  | read chunk =>
    unfold Terminal.step Terminal.read Terminal.delivers
    dsimp only
    split
    next hreader =>
      rw [hreader] at h
      exact h
    next => exact h
  | interrupted | readEnd =>
    unfold Terminal.step Terminal.delivers
    dsimp only [Terminal.interrupted, Terminal.readEnd]
    split
    next hreader =>
      rw [hreader] at h
      exact h
    next => exact h
  | wake | notify =>
    unfold Terminal.step Terminal.delivers
    dsimp only [Terminal.wake, Terminal.notify]
    split
    next hreader =>
      rw [hreader] at h
      exact h
    next => exact h
  | kill =>
    unfold Terminal.step Terminal.kill Terminal.delivers
    dsimp only
    split <;> exact h
  | exit | attach | detach => exact h
  | takeRecord =>
    unfold Terminal.step Terminal.takeRecord Inner.takeRecord Terminal.delivers
    dsimp only
    split <;> exact h

end AckLemmas

end Mast
