import Mast.Lib.Past

/-!
# The poll schedule of the phone

`poller.ts`: when the phone asks the server again. A poll is begun when the page is
visible, the schedule runs, no rate-limit pause is on and authentication did not fail, and
the next one is armed when the answer is there. Timers fire at any time after they were
armed.

`stop` takes the timer of a pause away but not the pause, so a schedule that is stopped in
a pause and started again waits for nothing (`Stranded`).

Results:
1. `tracks_step`: the flags of the schedule are what its history says.
2. `polls_go_on`: at most one poll, none at a wrong time, and polls go on as long as no
   start finds the schedule stranded.
-/

namespace Mast

/-- The schedule. `timer` and `pauseTimer`: that timer is armed. -/
structure PollSchedule where
  timer : Bool
  /-- Not the place of `timer`: rearming that one would take the end of the pause away. -/
  pauseTimer : Bool
  inFlight : Bool
  /-- `pollNow` came while a poll was in flight. -/
  pollAgain : Bool
  visible : Bool
  running : Bool
  dead : Bool
  paused : Bool
  generation : Nat
deriving DecidableEq, Repr

inductive PollEvent
  | start
  | stop
  | pollNow
  | setVisible (visible : Bool)
  | noteStatus (status : Nat)
  | bumpGeneration
  /-- The poll in flight is answered, or it failed. -/
  | settle
  | timer
  | pauseTimer
deriving DecidableEq, Repr

namespace PollSchedule

def new : PollSchedule := ⟨false, false, false, false, true, false, false, false, 0⟩

def canRun (s : PollSchedule) : Bool := s.running && s.visible && !s.dead && !s.paused

/-- The result is the generation of the poll that is begun. -/
def fire (s : PollSchedule) : PollSchedule × Option Nat :=
  if !s.canRun || s.inFlight then (s, none)
  else ({ s with timer := false, inFlight := true }, some s.generation)

def arm (s : PollSchedule) : PollSchedule := { s with timer := s.canRun }

def start (s : PollSchedule) : PollSchedule × Option Nat :=
  if s.running then (s, none) else { s with running := true }.fire

def stop (s : PollSchedule) : PollSchedule :=
  { s with running := false, timer := false, pauseTimer := false }

def pollNow (s : PollSchedule) : PollSchedule × Option Nat :=
  if !s.canRun then (s, none)
  else if s.inFlight then ({ s with pollAgain := true }, none)
  else s.fire

def setVisible (s : PollSchedule) (visible : Bool) : PollSchedule × Option Nat :=
  if s.visible = visible then (s, none)
  else if visible then { s with visible }.fire
  else ({ s with visible, timer := false }, none)

/-- Only 401 and 429 count. -/
def noteStatus (s : PollSchedule) (status : Nat) : PollSchedule :=
  if status = 401 then { s with dead := true }.stop
  else if status = 429 then { s with paused := true, timer := false, pauseTimer := true }
  else s

def settle (s : PollSchedule) : PollSchedule × Option Nat :=
  if s.pollAgain then { s with inFlight := false, pollAgain := false }.fire
  else ({ s with inFlight := false, pollAgain := false }.arm, none)

def apply (s : PollSchedule) : PollEvent → PollSchedule × Option Nat
  | .start => s.start
  | .stop => (s.stop, none)
  | .pollNow => s.pollNow
  | .setVisible visible => s.setVisible visible
  | .noteStatus status => (s.noteStatus status, none)
  | .bumpGeneration => ({ s with generation := s.generation + 1 }, none)
  | .settle => s.settle
  | .timer => { s with timer := false }.fire
  | .pauseTimer => { s with pauseTimer := false, paused := false }.fire

/-- Paused, and nothing ends the pause. -/
def Stranded (s : PollSchedule) : Prop :=
  s.paused = true ∧ s.pauseTimer = false ∧ s.dead = false

instance decidableStranded (s : PollSchedule) : Decidable s.Stranded :=
  inferInstanceAs (Decidable (_ ∧ _ ∧ _))

end PollSchedule

/-! ## Runs -/

structure PollRun where
  schedule : PollSchedule
  /-- The generations of the polls that are in flight, and of all that were begun. -/
  polls : List Nat
  begun : List Nat
  /-- The events so far, the newest first. -/
  history : List PollEvent
deriving DecidableEq, Repr

namespace PollRun

def new : PollRun := ⟨.new, [], [], []⟩

def step (s : PollRun) (e : PollEvent) : PollRun where
  schedule := (s.schedule.apply e).1
  polls := (s.schedule.apply e).2.toList ++ if e = .settle then s.polls.tail else s.polls
  begun := (s.schedule.apply e).2.toList ++ s.begun
  history := e :: s.history

/-- A poll settles when it is in flight, and a timer fires when it is armed. -/
def admits (s : PollRun) : PollEvent → Prop
  | .settle => s.polls ≠ []
  | .timer => s.schedule.timer = true
  | .pauseTimer => s.schedule.pauseTimer = true
  | .start | .stop | .pollNow | .setVisible _ | .noteStatus _ | .bumpGeneration => True

def machine : Machine PollRun PollEvent where
  step
  admits

/-- Runs in which no start finds the schedule stranded. -/
def careful : Machine PollRun PollEvent where
  step
  admits s e := s.admits e ∧ (e = .start → ¬ s.schedule.Stranded)

end PollRun

/-! ## What a history says -/

namespace PollHistory

/-- The latest call about it was `start`. A 401 stops too. -/
def Started : List PollEvent → Prop :=
  Since (Newest fun e => e ≠ .stop ∧ e ≠ .noteStatus 401) (Newest (· = .start))

def Hidden : List PollEvent → Prop :=
  Since (Newest (· ≠ .setVisible true)) (Newest (· = .setVisible false))

/-- A 429 came, and its pause did not end since. -/
def Pausing : List PollEvent → Prop :=
  Since (Newest (· ≠ .pauseTimer)) (Newest (· = .noteStatus 429))

/-- Authentication failed. -/
def Dead (h : List PollEvent) : Prop := .noteStatus 401 ∈ h

end PollHistory

open PollHistory

/-- The flags of the schedule are what the history says. -/
structure PollTracks (s : PollRun) : Prop where
  running : s.schedule.running = true ↔ Started s.history
  hidden : s.schedule.visible = false ↔ Hidden s.history
  paused : s.schedule.paused = true ↔ Pausing s.history
  dead : s.schedule.dead = true ↔ Dead s.history
  polls : s.polls.length = s.schedule.inFlight.toNat

/-- A schedule that is started, visible and not dead waits for something. -/
def Waits (s : PollRun) : Prop :=
  Started s.history → ¬ Hidden s.history → ¬ Dead s.history →
    s.polls ≠ [] ∨ s.schedule.timer = true ∨ s.schedule.pauseTimer = true

namespace PollerLemmas

open PastLemmas

variable {s : PollSchedule} {e : PollEvent}

/-! ## One event -/

theorem fire_cases (s : PollSchedule) :
    (s.canRun = false ∨ s.inFlight = true) ∧ s.fire = (s, none) ∨
      s.canRun = true ∧ s.inFlight = false ∧
        s.fire = ({ s with timer := false, inFlight := true }, some s.generation) := by
  unfold PollSchedule.fire
  cases s.canRun with
  | false => exact .inl ⟨.inl rfl, rfl⟩
  | true =>
    cases s.inFlight with
    | true => exact .inl ⟨.inr rfl, rfl⟩
    | false => exact .inr ⟨rfl, rfl, rfl⟩

/-- `fire` leaves the gates as they are. -/
theorem fire_gates (s : PollSchedule) :
    s.fire.1.running = s.running ∧ s.fire.1.visible = s.visible ∧ s.fire.1.dead = s.dead ∧
      s.fire.1.paused = s.paused ∧ s.fire.1.pauseTimer = s.pauseTimer := by
  obtain ⟨-, heq⟩ | ⟨-, -, heq⟩ := fire_cases s
  · rw [heq]
    exact ⟨rfl, rfl, rfl, rfl, rfl⟩
  · rw [heq]
    exact ⟨rfl, rfl, rfl, rfl, rfl⟩

/-- What an event does to the gates, before it fires. -/
def gate (s : PollSchedule) : PollEvent → PollSchedule
  | .start => { s with running := true }
  | .stop => s.stop
  | .pollNow => { s with pollAgain := s.pollAgain || (s.canRun && s.inFlight) }
  | .setVisible visible => { s with visible, timer := s.timer && (visible || !s.visible) }
  | .noteStatus status => s.noteStatus status
  | .bumpGeneration => { s with generation := s.generation + 1 }
  | .settle => { s with inFlight := false, pollAgain := false }
  | .timer => { s with timer := false }
  | .pauseTimer => { s with pauseTimer := false, paused := false }

/-- The event does no more than change the gates. -/
structure GateOnly (s : PollSchedule) (e : PollEvent) : Prop where
  eq : s.apply e = (gate s e, none)
  start : e = .start → s.running = true
  visible : e = .setVisible true → s.visible = true
  settle : e ≠ .settle
  timer : e ≠ .timer
  pauseTimer : e ≠ .pauseTimer

/-- An event changes the gates, and then it fires, arms the timer or does neither. -/
theorem apply_cases (s : PollSchedule) (e : PollEvent) :
    s.apply e = (gate s e).fire ∨ s.apply e = ((gate s e).arm, none) ∧ e = .settle ∨
      GateOnly s e := by
  cases e with
  | start =>
    show s.start = _ ∨ _
    unfold PollSchedule.start
    split
    · next hrunning =>
      refine .inr (.inr ⟨?_, fun _ => hrunning, nofun, nofun, nofun, nofun⟩)
      show s.start = _
      rw [PollSchedule.start, if_pos hrunning, gate, ← hrunning]
    · exact .inl rfl
  | pollNow =>
    have hgate : (s.canRun && s.inFlight) = false → gate s .pollNow = s := fun hno => by
      rw [gate, hno, Bool.or_false]
    cases hrun : s.canRun with
    | false =>
      refine .inr (.inr ⟨?_, nofun, nofun, nofun, nofun, nofun⟩)
      rw [hgate (by rw [hrun, Bool.false_and])]
      show s.pollNow = _
      simp [PollSchedule.pollNow, hrun]
    | true =>
      cases hflight : s.inFlight with
      | false =>
        refine .inl ?_
        rw [hgate (by rw [hflight, Bool.and_false])]
        show s.pollNow = _
        simp [PollSchedule.pollNow, hrun, hflight]
      | true =>
        refine .inr (.inr ⟨?_, nofun, nofun, nofun, nofun, nofun⟩)
        show s.pollNow = _
        simp [PollSchedule.pollNow, gate, hrun, hflight]
  | setVisible visible =>
    by_cases hsame : s.visible = visible
    · refine .inr (.inr ⟨?_, nofun, fun heq => ?_, nofun, nofun, nofun⟩)
      · show s.setVisible visible = _
        rw [PollSchedule.setVisible, if_pos hsame, gate, ← hsame, Bool.or_not_self, Bool.and_true]
      · cases heq
        exact hsame
    · cases visible with
      | true =>
        refine .inl ?_
        show s.setVisible true = _
        rw [PollSchedule.setVisible, if_neg hsame, if_pos rfl, gate, Bool.true_or, Bool.and_true]
      | false =>
        refine .inr (.inr ⟨?_, nofun, nofun, nofun, nofun, nofun⟩)
        show s.setVisible false = _
        have hvisible : s.visible = true := eq_true_of_ne_false hsame
        rw [PollSchedule.setVisible, if_neg hsame, if_neg Bool.false_ne_true, gate, hvisible,
          Bool.not_true, Bool.or_self, Bool.and_false]
  | settle =>
    by_cases hagain : s.pollAgain = true
    · exact .inl (if_pos hagain)
    · exact .inr (.inl ⟨if_neg hagain, rfl⟩)
  | timer | pauseTimer => exact .inl rfl
  | stop | noteStatus | bumpGeneration =>
    exact .inr (.inr ⟨rfl, nofun, nofun, nofun, nofun, nofun⟩)

/-- The gates after an event. -/
theorem apply_gates (s : PollSchedule) (e : PollEvent) :
    (s.apply e).1.running = (gate s e).running ∧ (s.apply e).1.visible = (gate s e).visible ∧
      (s.apply e).1.dead = (gate s e).dead ∧ (s.apply e).1.paused = (gate s e).paused ∧
      (s.apply e).1.pauseTimer = (gate s e).pauseTimer := by
  obtain heq | ⟨heq, -⟩ | ⟨heq, -⟩ := apply_cases s e
  · rw [heq]
    exact fire_gates (gate s e)
  · rw [heq]
    exact ⟨rfl, rfl, rfl, rfl, rfl⟩
  · rw [heq]
    exact ⟨rfl, rfl, rfl, rfl, rfl⟩

/-- A poll is begun with all gates open. -/
theorem canRun_of_begins {g : Nat} (h : (s.apply e).2 = some g) : (s.apply e).1.canRun = true := by
  obtain heq | ⟨heq, -⟩ | ⟨heq, -⟩ := apply_cases s e
  · rw [heq] at h ⊢
    obtain ⟨-, hfire⟩ | ⟨hrun, -, hfire⟩ := fire_cases (gate s e)
    · rw [hfire] at h
      cases h
    · rw [hfire]
      exact hrun
  · rw [heq] at h
    cases h
  · rw [heq] at h
    cases h

theorem noteStatus_gates (s : PollSchedule) (status : Nat) :
    (s.noteStatus status).running = (s.running && decide (status ≠ 401)) ∧
      (s.noteStatus status).visible = s.visible ∧
      (s.noteStatus status).dead = (s.dead || decide (status = 401)) ∧
      (s.noteStatus status).paused = (s.paused || decide (status = 429)) ∧
      (s.noteStatus status).inFlight = s.inFlight := by
  unfold PollSchedule.noteStatus
  split
  · next heq => simp [PollSchedule.stop, heq]
  · next hne => split <;> simp_all

theorem gate_running : (gate s e).running = true ↔
    e = .start ∨ (e ≠ .stop ∧ e ≠ .noteStatus 401) ∧ s.running = true := by
  cases e with
  | noteStatus status => simp [gate, noteStatus_gates, and_comm]
  | _ => simp [gate, PollSchedule.stop]

theorem gate_visible : (gate s e).visible = false ↔
    e = .setVisible false ∨ e ≠ .setVisible true ∧ s.visible = false := by
  cases e with
  | noteStatus status => simp [gate, noteStatus_gates]
  | setVisible visible => cases visible <;> simp [gate]
  | _ => simp [gate, PollSchedule.stop]

theorem gate_paused : (gate s e).paused = true ↔
    e = .noteStatus 429 ∨ e ≠ .pauseTimer ∧ s.paused = true := by
  cases e with
  | noteStatus status => simp [gate, noteStatus_gates, or_comm]
  | _ => simp [gate, PollSchedule.stop]

theorem gate_dead : (gate s e).dead = true ↔ e = .noteStatus 401 ∨ s.dead = true := by
  cases e with
  | noteStatus status => simp [gate, noteStatus_gates, or_comm]
  | _ => simp [gate, PollSchedule.stop]

theorem gate_inFlight : (gate s e).inFlight = (s.inFlight && decide (e ≠ .settle)) := by
  cases e with
  | noteStatus status => simp [gate, noteStatus_gates]
  | _ => simp [gate, PollSchedule.stop]

/-! ## Histories -/

theorem started_cons {h : List PollEvent} : Started (e :: h) ↔
    e = .start ∨ (e ≠ .stop ∧ e ≠ .noteStatus 401) ∧ Started h := since_newest_iff

theorem hidden_cons {h : List PollEvent} : PollHistory.Hidden (e :: h) ↔
    e = .setVisible false ∨ e ≠ .setVisible true ∧ PollHistory.Hidden h := since_newest_iff

theorem pausing_cons {h : List PollEvent} : Pausing (e :: h) ↔
    e = .noteStatus 429 ∨ e ≠ .pauseTimer ∧ Pausing h := since_newest_iff

theorem dead_cons {h : List PollEvent} : Dead (e :: h) ↔ e = .noteStatus 401 ∨ Dead h := by
  unfold Dead
  rw [List.mem_cons]
  exact or_congr_left eq_comm

variable {r : PollRun}

theorem tracks_new : PollTracks .new where
  running := iff_of_false Bool.false_ne_true not_since_nil
  hidden := iff_of_false (fun h => nomatch h) not_since_nil
  paused := iff_of_false Bool.false_ne_true not_since_nil
  dead := iff_of_false Bool.false_ne_true (List.not_mem_nil)
  polls := rfl

/-- The polls in flight after an event. -/
theorem polls_step (h : r.polls.length = r.schedule.inFlight.toNat) (ha : r.admits e) :
    (r.step e).polls.length = (r.step e).schedule.inFlight.toNat := by
  have hkept : (if e = .settle then r.polls.tail else r.polls).length =
      (gate r.schedule e).inFlight.toNat := by
    rw [gate_inFlight]
    split
    · next hsettle =>
      subst hsettle
      have hle := Bool.toNat_le r.schedule.inFlight
      rw [List.length_tail, h, decide_eq_false (fun hne => hne rfl), Bool.and_false]
      exact Nat.sub_eq_zero_of_le hle
    · next hne => rw [h, decide_eq_true hne, Bool.and_true]
  show ((r.schedule.apply e).2.toList ++ _).length = _
  rw [List.length_append, hkept]
  show _ = (r.schedule.apply e).1.inFlight.toNat
  obtain heq | ⟨heq, -⟩ | ⟨heq, -⟩ := apply_cases r.schedule e
  · rw [heq]
    obtain ⟨-, hfire⟩ | ⟨-, hidle, hfire⟩ := fire_cases (gate r.schedule e)
    · rw [hfire]
      exact Nat.zero_add _
    · rw [hfire, hidle]
      rfl
  · rw [heq]
    exact Nat.zero_add _
  · rw [heq]
    exact Nat.zero_add _

/-- The flags of the schedule stay what the history says. -/
theorem tracks_step (h : PollTracks r) (ha : r.admits e) : PollTracks (r.step e) := by
  obtain ⟨hrunning, hvisible, hdead, hpaused, -⟩ := apply_gates r.schedule e
  constructor
  · show (r.schedule.apply e).1.running = true ↔ _
    rw [hrunning, gate_running, h.running]
    exact started_cons.symm
  · show (r.schedule.apply e).1.visible = false ↔ _
    rw [hvisible, gate_visible, h.hidden]
    exact hidden_cons.symm
  · show (r.schedule.apply e).1.paused = true ↔ _
    rw [hpaused, gate_paused, h.paused]
    exact pausing_cons.symm
  · show (r.schedule.apply e).1.dead = true ↔ _
    rw [hdead, gate_dead, h.dead]
    exact dead_cons.symm
  · exact polls_step h.polls ha

theorem tracks_of_reach (h : PollRun.machine.Reach (· = .new) r) : PollTracks r := by
  refine h.invariant (I := PollTracks) (fun s hs => ?_) (fun s e _ ht ha => tracks_step ht ha)
  rw [hs]
  exact tracks_new

/-! ## What the schedule waits for -/

/-- Started, visible and not dead, it waits for a poll or a timer. -/
def Awaits (s : PollSchedule) : Prop :=
  s.running = true → s.visible = true → s.dead = false →
    s.inFlight = true ∨ s.timer = true ∨ s.pauseTimer = true

/-- A closed gate of a schedule that is not stranded is a pause that will end. -/
theorem pauseTimer_of_closed (h : s.running = true → ¬ s.Stranded) (hrun : s.canRun = false)
    (hrunning : s.running = true) (hvisible : s.visible = true) (hdead : s.dead = false) :
    s.pauseTimer = true := by
  have hpaused : s.paused = true := by
    rw [PollSchedule.canRun, hrunning, hvisible, hdead] at hrun
    simpa using hrun
  cases htimer : s.pauseTimer with
  | true => rfl
  | false => exact absurd ⟨hpaused, htimer, hdead⟩ (h hrunning)

theorem awaits_fire (h : s.running = true → ¬ s.Stranded) : Awaits s.fire.1 := by
  obtain ⟨hclosed, hfire⟩ | ⟨-, -, hfire⟩ := fire_cases s
  · rw [hfire]
    intro hrunning hvisible hdead
    rcases hclosed with hclosed | hflight
    · exact .inr (.inr (pauseTimer_of_closed h hclosed hrunning hvisible hdead))
    · exact .inl hflight
  · rw [hfire]
    intro _ _ _
    exact .inl rfl

theorem awaits_arm (h : s.running = true → ¬ s.Stranded) : Awaits s.arm := by
  intro hrunning hvisible hdead
  cases hrun : s.canRun with
  | true => exact .inr (.inl hrun)
  | false => exact .inr (.inr (pauseTimer_of_closed h hrun hrunning hvisible hdead))

/-- Only a stop strands a schedule, and only a start makes a stranded one run. -/
theorem gate_not_stranded (h : s.running = true → ¬ s.Stranded)
    (hstart : e = .start → ¬ s.Stranded) : (gate s e).running = true → ¬ (gate s e).Stranded := by
  cases e with
  | start => exact fun _ => hstart rfl
  | stop => exact fun hrunning => absurd hrunning Bool.false_ne_true
  | pauseTimer => exact fun _ hstranded => Bool.false_ne_true hstranded.1
  | noteStatus status =>
    show (s.noteStatus status).running = true → ¬ (s.noteStatus status).Stranded
    unfold PollSchedule.noteStatus
    split
    · exact fun hrunning => absurd hrunning Bool.false_ne_true
    · split
      · exact fun _ hstranded => Bool.false_ne_true hstranded.2.1.symm
      · exact h
  | pollNow | setVisible | bumpGeneration | settle | timer => exact h

/-- An event that only changes the gates takes nothing away that is waited for. -/
theorem awaits_gate (ha : Awaits s) (hgate : GateOnly s e) : Awaits (gate s e) := by
  cases e with
  | start => exact fun _ => ha (hgate.start rfl)
  | stop => exact fun hrunning => absurd hrunning Bool.false_ne_true
  | setVisible visible =>
    cases visible with
    | true =>
      intro hrunning _ hdead
      show _ ∨ (s.timer && (true || !s.visible)) = true ∨ _
      rw [Bool.true_or, Bool.and_true]
      exact ha hrunning (hgate.visible rfl) hdead
    | false => exact fun _ hvisible => absurd hvisible Bool.false_ne_true
  | noteStatus status =>
    show Awaits (s.noteStatus status)
    unfold PollSchedule.noteStatus
    split
    · exact fun hrunning => absurd hrunning Bool.false_ne_true
    · split
      · exact fun _ _ _ => .inr (.inr rfl)
      · exact ha
  | pollNow | bumpGeneration => exact ha
  | settle => exact absurd rfl hgate.settle
  | timer => exact absurd rfl hgate.timer
  | pauseTimer => exact absurd rfl hgate.pauseTimer

/-- A schedule that is not stranded when it starts always waits for something. -/
structure Alive (s : PollSchedule) : Prop where
  awake : s.running = true → ¬ s.Stranded
  awaits : Awaits s

theorem alive_apply (h : Alive s) (hstart : e = .start → ¬ s.Stranded) :
    Alive (s.apply e).1 where
  awake := by
    obtain ⟨hrunning, -, hdead, hpaused, htimer⟩ := apply_gates s e
    unfold PollSchedule.Stranded
    rw [hrunning, hdead, hpaused, htimer]
    exact gate_not_stranded h.awake hstart
  awaits := by
    have hawake := gate_not_stranded h.awake hstart
    obtain heq | ⟨heq, -⟩ | hgate := apply_cases s e
    · rw [heq]
      exact awaits_fire hawake
    · rw [heq]
      exact awaits_arm hawake
    · rw [hgate.eq]
      exact awaits_gate h.awaits hgate

theorem alive_of_reach (h : PollRun.careful.Reach (· = .new) r) : Alive r.schedule := by
  refine h.invariant (I := fun r => Alive r.schedule) (fun s hs => ?_)
    (fun s e _ halive (ha : s.admits e ∧ (e = .start → ¬ s.schedule.Stranded)) =>
      alive_apply halive ha.2)
  rw [hs]
  exact ⟨nofun, nofun⟩

/-- A careful run is a run. -/
theorem reach_of_careful (h : PollRun.careful.Reach (· = .new) r) :
    PollRun.machine.Reach (· = .new) r := by
  induction h with
  | init hs => exact .init hs
  | @step s e _ ha ih =>
    have hadmits : s.admits e ∧ (e = .start → ¬ s.schedule.Stranded) := ha
    exact .step ih hadmits.1

/-- No poll is armed in a pause. -/
theorem unarmed_of_paused (h : PollRun.machine.Reach (· = .new) r) :
    r.schedule.paused = true → r.schedule.timer = false := by
  refine h.invariant (I := fun r => r.schedule.paused = true → r.schedule.timer = false)
    (fun s hs => ?_) (fun s e _ hs _ => ?_)
  · rw [hs]
    exact nofun
  · have hgate : (gate s.schedule e).paused = true → (gate s.schedule e).timer = false := by
      cases e with
      | noteStatus status =>
        show (s.schedule.noteStatus status).paused = true → (s.schedule.noteStatus status).timer = _
        unfold PollSchedule.noteStatus
        split
        · exact fun _ => rfl
        · split
          · exact fun _ => rfl
          · exact hs
      | setVisible visible =>
        intro hpaused
        show (s.schedule.timer && _) = false
        rw [hs hpaused, Bool.false_and]
      | pauseTimer => exact nofun
      | stop | timer => exact fun _ => rfl
      | start | pollNow | bumpGeneration | settle => exact hs
    show (s.schedule.apply e).1.paused = true → (s.schedule.apply e).1.timer = false
    obtain heq | ⟨heq, -⟩ | hgate' := apply_cases s.schedule e
    · rw [heq]
      obtain ⟨-, hfire⟩ | ⟨-, -, hfire⟩ := fire_cases (gate s.schedule e)
      · rw [hfire]
        exact hgate
      · rw [hfire]
        exact fun _ => rfl
    · rw [heq]
      intro hpaused
      show (gate s.schedule e).canRun = false
      rw [PollSchedule.canRun, show (gate s.schedule e).paused = true from hpaused, Bool.not_true,
        Bool.and_false]
    · rw [hgate'.eq]
      exact hgate

/-- A start of a stranded schedule. -/
theorem start_of_stranded (h : s.Stranded) :
    s.apply .start = ({ s with running := true }, none) := by
  have hrun : (gate s .start).canRun = false := by
    rw [PollSchedule.canRun, show (gate s .start).paused = true from h.1, Bool.not_true,
      Bool.and_false]
  obtain heq | ⟨-, heq⟩ | hgate := apply_cases s .start
  · rw [heq, PollSchedule.fire, hrun]
    rfl
  · cases heq
  · exact hgate.eq

/-- `Waits` in terms of the flags. -/
theorem waits_iff (h : PollTracks r) : Waits r ↔ Awaits r.schedule := by
  have hvisible : r.schedule.visible = true ↔ ¬ PollHistory.Hidden r.history := by
    rw [← h.hidden, Bool.not_eq_false]
  have hdead : r.schedule.dead = false ↔ ¬ Dead r.history := by
    rw [← h.dead, Bool.not_eq_true]
  have hflight : r.schedule.inFlight = true ↔ r.polls ≠ [] := by
    rw [← List.length_pos_iff, h.polls]
    cases r.schedule.inFlight with
    | false => decide
    | true => decide
  unfold Waits Awaits
  rw [h.running, hvisible, hdead, hflight]

end PollerLemmas

open PollerLemmas

/-- The polls of the phone. At most one is in flight, and none is begun while the page is
hidden, the schedule is stopped, a pause is on or authentication failed. As long as no
start finds the schedule stranded, it waits for a poll or a timer whenever it is started,
visible and not dead. A start that does find it so leaves it waiting for nothing. -/
theorem polls_go_on {r : PollRun} (h : PollRun.machine.Reach (· = .new) r) :
    r.polls.length ≤ 1 ∧
    (∀ e, r.admits e → r.begun.length < (r.step e).begun.length →
      Started (e :: r.history) ∧ ¬ PollHistory.Hidden (e :: r.history) ∧
        ¬ Pausing (e :: r.history) ∧ ¬ Dead (e :: r.history)) ∧
    (PollRun.careful.Reach (· = .new) r → Waits r) ∧
    (r.schedule.Stranded → ¬ PollHistory.Hidden r.history → r.polls = [] →
      ¬ Waits (r.step .start)) := by
  refine ⟨?_, fun e ha hbegins => ?_, fun h => ?_, fun hstranded hvisible hpolls hwaits => ?_⟩
  · rw [(tracks_of_reach h).polls]
    exact Bool.toNat_le _
  · have ht := tracks_step (tracks_of_reach h) ha
    have hrun : (r.step e).schedule.canRun = true := by
      cases hpoll : (r.schedule.apply e).2 with
      | none =>
        have hsame : (r.step e).begun = r.begun := by
          show Option.toList _ ++ _ = _
          rw [hpoll]
          rfl
        rw [hsame] at hbegins
        exact absurd hbegins (Nat.lt_irrefl _)
      | some g => exact canRun_of_begins hpoll
    simp only [PollSchedule.canRun, Bool.and_eq_true, Bool.not_eq_true'] at hrun
    obtain ⟨⟨⟨hrunning, hvisible⟩, hdead⟩, hpaused⟩ := hrun
    refine ⟨ht.running.mp hrunning, fun hhidden => ?_, fun hpausing => ?_, fun hhalted => ?_⟩
    · exact Bool.false_ne_true ((ht.hidden.mpr hhidden).symm.trans hvisible)
    · exact Bool.false_ne_true (hpaused.symm.trans (ht.paused.mpr hpausing))
    · exact Bool.false_ne_true (hdead.symm.trans (ht.dead.mpr hhalted))
  · exact (waits_iff (tracks_of_reach (reach_of_careful h))).mpr (alive_of_reach h).awaits
  · have hstart := start_of_stranded hstranded
    have hhidden : ¬ PollHistory.Hidden (.start :: r.history) := fun hhidden => by
      obtain heq | ⟨-, hhidden⟩ := hidden_cons.mp hhidden
      · cases heq
      · exact hvisible hhidden
    have hdead : ¬ Dead (.start :: r.history) := fun hdead => by
      obtain heq | hdead := dead_cons.mp hdead
      · cases heq
      · exact Bool.false_ne_true (hstranded.2.2.symm.trans ((tracks_of_reach h).dead.mpr hdead))
    obtain hpoll | htimer | htimer := hwaits (started_cons.mpr (.inl rfl)) hhidden hdead
    · refine hpoll ?_
      show Option.toList (r.schedule.apply .start).2 ++ r.polls = []
      rw [hstart, hpolls]
      rfl
    · have hunarmed := unarmed_of_paused h hstranded.1
      rw [show (r.step .start).schedule = _ from congrArg Prod.fst hstart] at htimer
      exact Bool.false_ne_true (hunarmed.symm.trans htimer)
    · rw [show (r.step .start).schedule = _ from congrArg Prod.fst hstart] at htimer
      exact Bool.false_ne_true (hstranded.2.1.symm.trans htimer)

/-! ## The stop in a pause -/

/-- A 429 pauses the schedule, and it is stopped and started again before the pause ends. -/
def stoppedInPause : List PollEvent := [.start, .noteStatus 429, .settle, .stop, .start]

instance decidablePollAdmits (r : PollRun) (e : PollEvent) :
    Decidable (PollRun.machine.admits r e) :=
  match e with
  | .settle => inferInstanceAs (Decidable (r.polls ≠ []))
  | .timer => inferInstanceAs (Decidable (r.schedule.timer = true))
  | .pauseTimer => inferInstanceAs (Decidable (r.schedule.pauseTimer = true))
  | .start | .stop | .pollNow | .setVisible _ | .noteStatus _ | .bumpGeneration => isTrue trivial

theorem stoppedInPause_reach :
    PollRun.machine.Reach (· = .new) (PollRun.machine.run .new stoppedInPause) := by
  have hinit : PollRun.machine.Reach (· = .new) .new := .init rfl
  exact hinit.of_trace stoppedInPause (by decide)

/-- It is started, visible and not dead, and it waits for nothing. -/
theorem not_polls_go_on : ¬ ∀ r, PollRun.machine.Reach (· = .new) r → Waits r := by
  intro h
  have hwaits := (waits_iff (tracks_of_reach stoppedInPause_reach)).mp (h _ stoppedInPause_reach)
  exact absurd (hwaits (by decide) (by decide) (by decide)) (by decide)

instance decidableCarefulAdmits (r : PollRun) (e : PollEvent) :
    Decidable (PollRun.careful.admits r e) :=
  have := decidablePollAdmits r e
  inferInstanceAs (Decidable (PollRun.machine.admits r e ∧
    (e = .start → ¬ r.schedule.Stranded)))

/-- A stop after the pause does no harm. -/
def stoppedAfterPause : List PollEvent :=
  [.start, .noteStatus 429, .settle, .pauseTimer, .settle, .stop, .start]

/-- Stopped after the pause the schedule goes on when it is started, and stopped in the
pause it does not. -/
theorem polls_go_on_after :
    Waits (PollRun.careful.run .new stoppedAfterPause) ∧
      (PollRun.machine.run .new stoppedAfterPause).polls.length ≤ 1 ∧
      ¬ Waits (PollRun.machine.run .new stoppedInPause) := by
  have hcareful : PollRun.careful.Reach (· = .new) .new := .init rfl
  have hafter := hcareful.of_trace stoppedAfterPause (by decide)
  have hinit : PollRun.machine.Reach (· = .new) .new := .init rfl
  have hstopped := hinit.of_trace (stoppedInPause.take 4) (by decide)
  have hvisible : ¬ PollHistory.Hidden (PollRun.machine.run .new (stoppedInPause.take 4)).history :=
    fun hhidden => absurd ((tracks_of_reach hstopped).hidden.mpr hhidden) (by decide)
  obtain ⟨hone, -, hwaits, -⟩ := polls_go_on (reach_of_careful hafter)
  obtain ⟨-, -, -, hnot⟩ := polls_go_on hstopped
  exact ⟨hwaits hafter, hone, hnot (by decide) hvisible rfl⟩

end Mast
