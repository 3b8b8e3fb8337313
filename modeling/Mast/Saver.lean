import Mathlib.Order.Nat
import Mast.Lib.Machine

/-!
# The background saver

`persist.rs`: states are scheduled into one slot, where a newer one replaces an older
one, and a worker writes the slot to disk. A flush waits until the generation that was
the last one at its beginning is on disk.

Every section under the slot's lock is one step; the write itself is outside the lock.
The worker may look at the slot at any time, whether it was woken or not. What is
scheduled and written is kept along, only to be spoken about.

Results:
1. `SaverInv`, `saverInv_of_reach`: the generations of the slot, the worker and the disk.
2. `saver_contract`: what a run promises about flushes, writes and the final drop.
-/

namespace Mast

/-- What the worker and its callers share, for states of any type. A generation is the
number of schedules up to one. -/
structure SaverSlot (S : Type) where
  pending : Option S
  deadline : Nat
  scheduled : Nat
  written : Nat
  flushTarget : Nat
  closed : Bool
  workerDead : Bool

/-- Where the worker is: at the top of its loop or waiting there, writing a state
outside the lock, behind the write, or gone. -/
inductive SaverWorker (S : Type)
  | idle
  | writing (generation : Nat) (state : S)
  | wrote (generation : Nat)
  | exited

/-- A call of `flush`: the generation it waits for, and whether it returned. -/
structure SaverFlush where
  target : Nat
  returned : Bool

structure Saver (S : Type) where
  slot : SaverSlot S
  debounce : Nat
  worker : SaverWorker S
  flushes : List SaverFlush
  now : Nat
  disk : Option S
  /-- The states in the order in which they were scheduled. -/
  schedules : List S
  /-- The generations and states written, the newest first. -/
  writes : List (Nat × S)
  /-- When the slot last went from empty to full. -/
  filledAt : Nat

namespace Saver

variable {S : Type}

/-- `spawn`: the disk may hold an older file. -/
def spawn (debounce now : Nat) (disk : Option S) : Saver S where
  slot := ⟨none, now, 0, 0, 0, false, false⟩
  debounce
  worker := .idle
  flushes := []
  now
  disk
  schedules := []
  writes := []
  filledAt := now

inductive Action (S : Type)
  | schedule (state : S)
  | flush
  | flushWakes (call : Nat)
  | examine
  | write
  | acknowledge
  | tick (elapsed : Nat)
  | drop

def schedule (t : Saver S) (state : S) : Saver S :=
  if t.slot.workerDead then t
  else
    { t with
      slot :=
        { t.slot with
          deadline := if t.slot.pending.isNone then t.now + t.debounce else t.slot.deadline
          scheduled := t.slot.scheduled + 1
          pending := some state }
      schedules := t.schedules ++ [state] }

/-- The first section of a flush: it returns at once, or begins to wait. -/
def flush (t : Saver S) : Saver S :=
  if t.slot.workerDead || decide (t.slot.scheduled ≤ t.slot.written) then
    { t with flushes := t.flushes ++ [⟨t.slot.scheduled, true⟩] }
  else
    { t with
      slot := { t.slot with flushTarget := max t.slot.flushTarget t.slot.scheduled }
      flushes := t.flushes ++ [⟨t.slot.scheduled, false⟩] }

/-- A waiting flush looks at the slot again. -/
def flushWakes (t : Saver S) (call : Nat) : Saver S :=
  { t with
    flushes := t.flushes.modify call fun f =>
      if t.slot.written < f.target && !t.slot.workerDead then f else { f with returned := true } }

/-- The slot is to be written now. -/
def due (t : Saver S) : Bool :=
  t.slot.pending.isSome &&
    (decide (t.slot.written < t.slot.flushTarget) || t.slot.closed ||
      decide (t.slot.deadline ≤ t.now))

/-- The worker looks at the slot: it takes the state, or ends, or waits. -/
def examine (t : Saver S) : Saver S :=
  match t.worker with
  | .idle =>
    match t.slot.pending with
    | some state =>
      if t.due then
        { t with
          slot := { t.slot with pending := none }
          worker := .writing t.slot.scheduled state }
      else if t.slot.closed then
        { t with worker := .exited, slot := { t.slot with workerDead := true } }
      else t
    | none =>
      if t.slot.closed then
        { t with worker := .exited, slot := { t.slot with workerDead := true } }
      else t
  | _ => t

/-- `write_state`, which succeeds: the file is replaced. -/
def write (t : Saver S) : Saver S :=
  match t.worker with
  | .writing generation state =>
    { t with
      worker := .wrote generation
      disk := some state
      writes := (generation, state) :: t.writes }
  | _ => t

/-- Behind the write, the generation that was taken is acknowledged. -/
def acknowledge (t : Saver S) : Saver S :=
  match t.worker with
  | .wrote generation =>
    { t with worker := .idle, slot := { t.slot with written := generation } }
  | _ => t

def act (t : Saver S) : Action S → Saver S
  | .schedule state => t.schedule state
  | .flush => t.flush
  | .flushWakes call => t.flushWakes call
  | .examine => t.examine
  | .write => t.write
  | .acknowledge => t.acknowledge
  | .tick elapsed => { t with now := t.now + elapsed }
  | .drop => { t with slot := { t.slot with closed := true } }

/-- A step, with the time at which it filled the slot. -/
def step (t : Saver S) (a : Action S) : Saver S :=
  let after := t.act a
  if t.slot.pending.isNone && after.slot.pending.isSome then { after with filledAt := t.now }
  else after

/-- The drop owns the saver: no call is under way, and none comes later. -/
def admits (t : Saver S) : Action S → Prop
  | .schedule _ | .flush => t.slot.closed = false
  | .drop => ∀ f ∈ t.flushes, f.returned = true
  | _ => True

/-- The saver as a machine. -/
def machine : Machine (Saver S) (Action S) := ⟨step, admits⟩

def Start (t : Saver S) : Prop := ∃ debounce now disk, t = spawn debounce now disk

/-! ## Generations -/

/-- The generation on disk; none is 0. -/
def onDisk (t : Saver S) : Nat := (t.writes.head?.map Prod.fst).getD 0

/-- The last generation that was taken out of the slot. -/
def taken (t : Saver S) : Nat :=
  match t.worker with
  | .writing generation _ => generation
  | _ => t.onDisk

/-- A generation and the state that was scheduled under it. -/
def IsScheduled (t : Saver S) (generation : Nat) (state : S) : Prop :=
  0 < generation ∧ t.schedules[generation - 1]? = some state

/-- The worker and what it holds. -/
def WorkerInv (t : Saver S) : Prop :=
  match t.worker with
  | .idle => t.slot.written = t.onDisk
  | .writing generation state =>
    t.slot.written = t.onDisk ∧ t.onDisk < generation ∧ t.IsScheduled generation state
  | .wrote generation => generation = t.onDisk ∧ t.slot.written < generation
  | .exited => t.slot.written = t.onDisk ∧ t.slot.pending = none

/-- The generations of the slot, the worker, the disk and the flushes. -/
structure SaverInv (t : Saver S) : Prop where
  scheduled : t.slot.scheduled = t.schedules.length
  pending_last : ∀ state ∈ t.slot.pending, t.schedules.getLast? = some state
  taken_eq : t.slot.pending = none → t.taken = t.slot.scheduled
  taken_lt : t.slot.pending ≠ none → t.taken < t.slot.scheduled
  worker : t.WorkerInv
  exited : t.worker = .exited ↔ t.slot.workerDead = true
  dead : t.slot.workerDead = true → t.slot.closed = true
  closed : t.slot.closed = true → ∀ f ∈ t.flushes, f.returned = true
  increasing : t.writes.Pairwise fun a b => b.1 < a.1
  writes_scheduled : ∀ w ∈ t.writes, t.IsScheduled w.1 w.2
  disk : ∀ w ∈ t.writes.head?, t.disk = some w.2
  flushed : ∀ f ∈ t.flushes, f.returned = true → f.target ≤ t.slot.written

/-- The deadline of a pending state. -/
def DeadlineInv (t : Saver S) : Prop :=
  t.slot.pending.isSome = true → t.slot.deadline = t.filledAt + t.debounce

end Saver

namespace SaverLemmas

open Saver

variable {S : Type} {t : Saver S}

theorem IsScheduled.append {generation : Nat} {state : S} {t' : Saver S}
    (h : t.IsScheduled generation state) {more : List S}
    (hschedules : t'.schedules = t.schedules ++ more) : t'.IsScheduled generation state := by
  refine ⟨h.1, ?_⟩
  have hlt := (List.getElem?_eq_some_iff.mp h.2).1
  rw [hschedules, List.getElem?_append_left hlt]
  exact h.2

/-- The last state that was scheduled has the last generation. -/
theorem isScheduled_last (h : t.SaverInv) {state : S} (hpending : t.slot.pending = some state) :
    t.IsScheduled t.slot.scheduled state := by
  have hlast := h.pending_last state hpending
  have hpos : 0 < t.schedules.length :=
    List.length_pos_iff.mpr fun hnil => by simp [hnil] at hlast
  rw [List.getLast?_eq_getElem?] at hlast
  exact ⟨h.scheduled ▸ hpos, by rw [h.scheduled]; exact hlast⟩

theorem written_le (h : t.SaverInv) : t.slot.written ≤ t.onDisk := by
  have hworker := h.worker
  unfold WorkerInv at hworker
  split at hworker
  · exact hworker.le
  · exact hworker.1.le
  · exact hworker.1 ▸ hworker.2.le
  · exact hworker.1.le

theorem alive (h : t.SaverInv) (hworker : t.worker ≠ .exited) : ¬ t.slot.workerDead = true :=
  fun hdead => hworker (h.exited.mpr hdead)

/-! ## Steps -/

theorem SaverInv.schedule (h : t.SaverInv) (hopen : t.slot.closed = false) (state : S) :
    (t.schedule state).SaverInv := by
  have halive : t.slot.workerDead = false := by
    cases hdead : t.slot.workerDead with
    | false => rfl
    | true => exact absurd (h.dead hdead) (by simp [hopen])
  have htaken : t.taken ≤ t.slot.scheduled := by
    cases hpending : t.slot.pending with
    | none => exact (h.taken_eq hpending).le
    | some state => exact (h.taken_lt (by simp [hpending])).le
  unfold Saver.schedule
  rw [halive, if_neg Bool.false_ne_true]
  refine
    { scheduled := ?_
      pending_last := fun state' heq => ?_
      taken_eq := fun hnone => by cases hnone
      taken_lt := fun _ => Nat.lt_succ_of_le htaken
      worker := ?_
      exited := h.exited
      dead := fun hdead => absurd (halive.symm.trans hdead) (by simp)
      closed := h.closed
      increasing := h.increasing
      writes_scheduled := fun w hw => IsScheduled.append (h.writes_scheduled w hw) rfl
      disk := h.disk
      flushed := h.flushed }
  · show t.slot.scheduled + 1 = (t.schedules ++ [state]).length
    rw [List.length_append, h.scheduled]
    rfl
  · cases heq
    exact List.getLast?_concat
  · have hworker := h.worker
    unfold WorkerInv at hworker ⊢
    cases heq : t.worker with
    | idle => rw [heq] at hworker; exact hworker
    | writing generation state =>
      rw [heq] at hworker
      exact ⟨hworker.1, hworker.2.1, IsScheduled.append hworker.2.2 rfl⟩
    | wrote generation => rw [heq] at hworker; exact hworker
    | exited => exact absurd (h.exited.mp heq) (by simp [halive])

theorem SaverInv.flush (h : t.SaverInv) (hopen : t.slot.closed = false) : t.flush.SaverInv := by
  have halive : t.slot.workerDead = false := by
    cases hdead : t.slot.workerDead with
    | false => rfl
    | true => exact absurd (h.dead hdead) (by simp [hopen])
  unfold Saver.flush
  rw [halive, Bool.false_or]
  split
  next hwritten =>
    refine { h with
      closed := fun hclosed => absurd (hopen.symm.trans hclosed) (by simp)
      flushed := fun f hf hreturned => ?_ }
    rcases List.mem_append.mp hf with hold | hnew
    · exact h.flushed f hold hreturned
    · obtain rfl := List.mem_singleton.mp hnew
      exact of_decide_eq_true hwritten
  next =>
    refine { h with
      closed := fun hclosed => absurd (hopen.symm.trans hclosed) (by simp)
      flushed := fun f hf hreturned => ?_ }
    rcases List.mem_append.mp hf with hold | hnew
    · exact h.flushed f hold hreturned
    · obtain rfl := List.mem_singleton.mp hnew
      cases hreturned

/-- A waiting flush returns when its generation was acknowledged: the worker does not
end while a flush waits. -/
theorem SaverInv.flushWakes (h : t.SaverInv) (call : Nat) : (t.flushWakes call).SaverInv := by
  have hmem {f : SaverFlush} (hf : f ∈ (t.flushWakes call).flushes) : ∃ f₀ ∈ t.flushes,
      f.target = f₀.target ∧ (f₀.returned = true → f.returned = true) ∧
        (f.returned = true → f₀.returned = true ∨ f₀.target ≤ t.slot.written ∨
          t.slot.workerDead = true) := by
    obtain ⟨i, hi⟩ := List.mem_iff_getElem?.mp hf
    simp only [Saver.flushWakes, List.getElem?_modify] at hi
    obtain ⟨f₀, hf₀, rfl⟩ := Option.map_eq_some_iff.mp hi
    refine ⟨f₀, List.mem_of_getElem? hf₀, ?_⟩
    split
    · split
      next => exact ⟨rfl, id, .inl⟩
      next hstop =>
        refine ⟨rfl, fun _ => rfl, fun _ => ?_⟩
        by_cases hdead : t.slot.workerDead = true
        · exact .inr (.inr hdead)
        · refine .inr (.inl (Nat.le_of_not_lt fun hlt => hstop ?_))
          simp [hlt, hdead]
    · exact ⟨rfl, id, .inl⟩
  refine { h with
    closed := fun hclosed f hf => ?_
    flushed := fun f hf hreturned => ?_ }
  · obtain ⟨f₀, hf₀, -, hkeeps, -⟩ := hmem hf
    exact hkeeps (h.closed hclosed f₀ hf₀)
  · obtain ⟨f₀, hf₀, htarget, -, hcases⟩ := hmem hf
    have hold : f₀.returned = true → f.target ≤ t.slot.written := fun hr =>
      htarget ▸ h.flushed f₀ hf₀ hr
    rcases hcases hreturned with hr | hle | hdead
    · exact hold hr
    · exact htarget ▸ hle
    · exact hold (h.closed (h.dead hdead) f₀ hf₀)

theorem SaverInv.examine (h : t.SaverInv) : t.examine.SaverInv := by
  unfold Saver.examine
  split
  next hidle =>
    have hworker : t.slot.written = t.onDisk := by
      have hworker := h.worker
      unfold WorkerInv at hworker
      rwa [hidle] at hworker
    have halive : ¬ t.slot.workerDead = true := alive h (by simp [hidle])
    have hexit (hclosed : t.slot.closed = true) (hpending : t.slot.pending = none) : SaverInv
        { t with worker := .exited, slot := { t.slot with workerDead := true } } :=
      { h with
        taken_eq := fun hnone => by
          have htaken := h.taken_eq hnone
          unfold taken at htaken
          rw [hidle] at htaken
          exact htaken
        taken_lt := fun hsome => absurd hpending hsome
        worker := ⟨hworker, hpending⟩
        exited := ⟨fun _ => rfl, fun _ => rfl⟩
        dead := fun _ => hclosed }
    split
    next state hpending =>
      have htaken : t.onDisk < t.slot.scheduled := by
        have hlt := h.taken_lt (by simp [hpending])
        unfold taken at hlt
        rwa [hidle] at hlt
      split
      next =>
        exact { h with
          pending_last := fun _ heq => by cases heq
          taken_eq := fun _ => rfl
          taken_lt := fun hsome => absurd rfl hsome
          worker := ⟨hworker, htaken, isScheduled_last h hpending⟩
          exited := iff_of_false (by simp) halive }
      next hlater =>
        split
        next hclosed => simp [due, hpending, hclosed] at hlater
        next => exact h
    next hpending =>
      split
      next hclosed => exact hexit hclosed hpending
      next => exact h
  next => exact h

theorem SaverInv.write (h : t.SaverInv) : t.write.SaverInv := by
  unfold Saver.write
  split
  next generation state hwriting =>
    have hworker := h.worker
    unfold WorkerInv at hworker
    rw [hwriting] at hworker
    obtain ⟨hwritten, hlt, hscheduled⟩ := hworker
    have htaken : t.taken = generation := by unfold taken; rw [hwriting]
    have halive : ¬ t.slot.workerDead = true := alive h (by simp [hwriting])
    exact
      { h with
        taken_eq := fun hnone => htaken.symm.trans (h.taken_eq hnone)
        taken_lt := fun hsome => htaken.symm.trans_lt (h.taken_lt hsome)
        worker := ⟨rfl, hwritten ▸ hlt⟩
        exited := iff_of_false (by simp) halive
        increasing := by
          refine List.pairwise_cons.mpr ⟨fun w hw => ?_, h.increasing⟩
          -- the newest write is the largest
          have hle : w.1 ≤ t.onDisk := by
            unfold onDisk
            cases hwrites : t.writes with
            | nil => simp [hwrites] at hw
            | cons first rest =>
              have hincreasing := h.increasing
              rw [hwrites] at hw hincreasing
              rcases List.mem_cons.mp hw with rfl | hrest
              · exact Nat.le_refl _
              · exact ((List.pairwise_cons.mp hincreasing).1 w hrest).le
          exact Nat.lt_of_le_of_lt hle hlt
        writes_scheduled := fun w hw => by
          rcases List.mem_cons.mp hw with rfl | hold
          · exact hscheduled
          · exact h.writes_scheduled w hold
        disk := fun w hw => by
          cases hw
          rfl }
  next => exact h

theorem SaverInv.acknowledge (h : t.SaverInv) : t.acknowledge.SaverInv := by
  unfold Saver.acknowledge
  split
  next generation hwrote =>
    have hworker := h.worker
    unfold WorkerInv at hworker
    rw [hwrote] at hworker
    obtain ⟨hdisk, hlt⟩ := hworker
    have htaken : t.taken = t.onDisk := by unfold taken; rw [hwrote]
    have halive : ¬ t.slot.workerDead = true := alive h (by simp [hwrote])
    exact
      { h with
        taken_eq := fun hnone => htaken.symm.trans (h.taken_eq hnone)
        taken_lt := fun hsome => htaken.symm.trans_lt (h.taken_lt hsome)
        worker := hdisk
        exited := iff_of_false (by simp) halive
        flushed := fun f hf hreturned => (h.flushed f hf hreturned).trans hlt.le }
  next => exact h

theorem SaverInv.act (h : t.SaverInv) {a : Action S} (ha : t.admits a) : (t.act a).SaverInv := by
  cases a with
  | schedule state => exact SaverInv.schedule h ha state
  | flush => exact SaverInv.flush h ha
  | flushWakes call => exact SaverInv.flushWakes h call
  | examine => exact SaverInv.examine h
  | write => exact SaverInv.write h
  | acknowledge => exact SaverInv.acknowledge h
  | tick elapsed => exact { h with }
  | drop => exact { h with dead := fun _ => rfl, closed := fun _ => ha }

theorem saverInv_of_reach (h : machine.Reach Start t) : t.SaverInv := by
  refine Machine.Reach.invariant (I := SaverInv) ?_ (fun t a _ hinv ha => ?_) h
  · rintro t ⟨debounce, now, disk, rfl⟩
    constructor <;> simp [spawn, taken, onDisk, WorkerInv]
  · have hact := SaverInv.act hinv ha
    simp only [machine, Saver.step]
    split
    · exact { hact with }
    · exact hact

/-- Only an empty slot gets a new deadline. -/
theorem DeadlineInv.step (h : t.DeadlineInv) (a : Action S) : (t.step a).DeadlineInv := by
  have hsame {t' : Saver S} (hslot : t'.slot.pending = t.slot.pending)
      (hdeadline : t'.slot.deadline = t.slot.deadline) (hfilled : t'.filledAt = t.filledAt)
      (hdebounce : t'.debounce = t.debounce) : (if t.slot.pending.isNone &&
        t'.slot.pending.isSome then { t' with filledAt := t.now } else t').DeadlineInv := by
    have hquiet : (t.slot.pending.isNone && t'.slot.pending.isSome) = false := by
      rw [hslot]
      cases t.slot.pending <;> rfl
    rw [hquiet, if_neg Bool.false_ne_true]
    intro hsome
    rw [hdeadline, hfilled, hdebounce]
    exact h (hslot ▸ hsome)
  cases a with
  | schedule state =>
    simp only [Saver.step, Saver.act, Saver.schedule]
    split
    next => exact hsame rfl rfl rfl rfl
    next =>
      cases hpending : t.slot.pending with
      | none => exact fun _ => rfl
      | some old => exact fun _ => h (by simp [hpending])
  | flush =>
    simp only [Saver.step, Saver.act, Saver.flush]
    split <;> exact hsame rfl rfl rfl rfl
  | examine =>
    simp only [Saver.step, Saver.act, Saver.examine]
    split
    next =>
      split
      next state hpending =>
        split
        next => simp [DeadlineInv, hpending]
        next => split <;> exact hsame rfl rfl rfl rfl
      next => split <;> exact hsame rfl rfl rfl rfl
    next => exact hsame rfl rfl rfl rfl
  | write =>
    have hwrite : t.write.slot = t.slot ∧ t.write.filledAt = t.filledAt ∧
        t.write.debounce = t.debounce := by
      unfold Saver.write
      split <;> exact ⟨rfl, rfl, rfl⟩
    exact hsame (congrArg SaverSlot.pending hwrite.1) (congrArg SaverSlot.deadline hwrite.1)
      hwrite.2.1 hwrite.2.2
  | acknowledge =>
    have hacknowledge : t.acknowledge.slot.pending = t.slot.pending ∧
        t.acknowledge.slot.deadline = t.slot.deadline ∧ t.acknowledge.filledAt = t.filledAt ∧
        t.acknowledge.debounce = t.debounce := by
      unfold Saver.acknowledge
      split <;> exact ⟨rfl, rfl, rfl, rfl⟩
    obtain ⟨hpending, hdeadline, hfilled, hdebounce⟩ := hacknowledge
    exact hsame hpending hdeadline hfilled hdebounce
  | flushWakes call | tick elapsed | drop => exact hsame rfl rfl rfl rfl

theorem deadlineInv_of_reach (h : machine.Reach Start t) : t.DeadlineInv := by
  refine Machine.Reach.invariant (I := DeadlineInv) ?_
    (fun t a _ hinv _ => DeadlineInv.step hinv a) h
  rintro t ⟨debounce, now, disk, rfl⟩ hsome
  cases hsome

/-- The last write is what is on disk. -/
theorem exists_onDisk (h : t.SaverInv) (hpos : 0 < t.onDisk) :
    ∃ state, (t.onDisk, state) ∈ t.writes ∧ t.disk = some state ∧
      t.schedules[t.onDisk - 1]? = some state := by
  unfold onDisk at hpos ⊢
  cases hwrites : t.writes with
  | nil => simp [hwrites] at hpos
  | cons first rest =>
    have hfirst : first ∈ t.writes := hwrites ▸ List.mem_cons_self
    exact ⟨first.2, List.mem_cons_self, h.disk first (by rw [hwrites]; rfl),
      (h.writes_scheduled first hfirst).2⟩

end SaverLemmas

open SaverLemmas in
/-- In every run, with writes that succeed: a flush that returned left a state on disk
that is at least as recent as those scheduled before it; the generation acknowledged
is not ahead of the disk; states are written in the order in which they were scheduled,
each once; the pending state is the last one, and its deadline was fixed when the slot
was filled; and a worker that ended left the last state on disk. -/
theorem saver_contract {S : Type} {t : Saver S} (h : Saver.machine.Reach Saver.Start t) :
    (∀ f ∈ t.flushes, f.returned = true → 0 < f.target →
      ∃ generation state, f.target ≤ generation ∧ t.schedules[generation - 1]? = some state ∧
        t.disk = some state) ∧
    (0 < t.slot.written → ∃ w ∈ t.writes, t.slot.written ≤ w.1 ∧
      t.schedules[w.1 - 1]? = some w.2) ∧
    (t.writes.Pairwise (fun later earlier => earlier.1 < later.1) ∧
      ∀ w ∈ t.writes, 0 < w.1 ∧ t.schedules[w.1 - 1]? = some w.2) ∧
    (∀ state ∈ t.slot.pending, t.schedules.getLast? = some state) ∧
    (t.slot.pending.isSome = true → t.slot.deadline = t.filledAt + t.debounce) ∧
    (t.worker = .exited → t.schedules ≠ [] → t.disk = t.schedules.getLast?) := by
  have hinv := saverInv_of_reach h
  have hwritten := written_le hinv
  refine ⟨fun f hf hreturned hpos => ?_, fun hpos => ?_, ⟨hinv.increasing, hinv.writes_scheduled⟩,
    hinv.pending_last, deadlineInv_of_reach h, fun hexited hne => ?_⟩
  · have htarget := hinv.flushed f hf hreturned
    obtain ⟨state, -, hdisk, hstate⟩ := exists_onDisk hinv (by omega)
    exact ⟨t.onDisk, state, htarget.trans hwritten, hstate, hdisk⟩
  · obtain ⟨state, hmem, -, hstate⟩ := exists_onDisk hinv (by omega)
    exact ⟨(t.onDisk, state), hmem, hwritten, hstate⟩
  · have hworker := hinv.worker
    unfold Saver.WorkerInv at hworker
    rw [hexited] at hworker
    have htaken := hinv.taken_eq hworker.2
    unfold Saver.taken at htaken
    rw [hexited] at htaken
    have hlast : t.onDisk = t.schedules.length := htaken.trans hinv.scheduled
    obtain ⟨state, -, hdisk, hstate⟩ :=
      exists_onDisk hinv (hlast ▸ List.length_pos_iff.mpr hne)
    rw [hdisk, List.getLast?_eq_getElem?, ← hlast, hstate]

/-- While the first state is written for a flush, a second one is scheduled; the flush
returns, and the saver is dropped. -/
def flushThenDrop : List (Saver.Action Nat) :=
  [.schedule 1, .flush, .examine, .schedule 2, .write, .acknowledge, .flushWakes 0, .drop, .examine,
    .write, .acknowledge, .examine]

/-- The flush is served by the first state, and the drop writes the second. -/
theorem saver_contract_dropped :
    let t := Saver.machine.run (Saver.spawn 500 0 none) flushThenDrop
    (∃ generation state, 1 ≤ generation ∧ t.schedules[generation - 1]? = some state ∧
      t.disk = some state) ∧ t.disk = some 2 := by
  intro t
  have hstart : Saver.machine.Reach Saver.Start (Saver.spawn 500 0 (none : Option Nat)) :=
    .init ⟨500, 0, none, rfl⟩
  have hreturned (f : SaverFlush) (hf : f ∈ [(⟨1, true⟩ : SaverFlush)]) : f.returned = true := by
    rw [List.mem_singleton.mp hf]
  have hrun : Saver.machine.Reach Saver.Start t :=
    hstart.of_trace flushThenDrop ⟨rfl, rfl, trivial, rfl, trivial, trivial, trivial, hreturned,
      trivial, trivial, trivial, trivial, trivial⟩
  obtain ⟨hflush, -, -, -, -, hdrop⟩ := saver_contract hrun
  refine ⟨hflush ⟨1, true⟩ (List.mem_singleton_self _) rfl (by decide), ?_⟩
  exact hdrop rfl (List.cons_ne_nil _ _)

end Mast
