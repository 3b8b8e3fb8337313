import Mast.Lib.Past
import Mast.Reset

/-!
# What the reset policy fires

A run calls the policy at times that never go back, and keeps what was called and what
fired, the newest call first. What the flags of the policy stand for is said with `Since`
over that history (`Tracks`), and from it follows when each trigger may fire.

Results:
1. `tracks_of_reach`: in every run the flags are what the history says.
2. `firings_safe`: the cooldown, the conditions of the three triggers, and what
   `suppressed` means.
-/

namespace Mast

inductive ResetEvent
  | userInput
  | focus (focused : Bool)
  | visibility (visible : Bool)
  | memSample (bytes : Nat)
  | workspaceSwitch
  | poll
deriving DecidableEq, Repr

def ResetPolicy.apply (p : ResetPolicy) (now : Nat) :
    ResetEvent → ResetPolicy × Option ResetTrigger
  | .userInput => (p.onUserInput now, none)
  | .focus focused => (p.onFocus focused now, none)
  | .visibility visible => (p.onVisibility visible now, none)
  | .memSample bytes => (p.onMemSample bytes now, none)
  | .workspaceSwitch => p.onWorkspaceSwitch now
  | .poll => p.poll now

/-- One call of the policy, and what it fired. -/
structure ResetTurn where
  time : Nat
  event : ResetEvent
  fired : Option ResetTrigger
deriving DecidableEq, Repr

structure ResetRun where
  policy : ResetPolicy
  now : Nat
  /-- The calls so far, the newest first. -/
  history : List ResetTurn
deriving DecidableEq, Repr

namespace ResetRun

def new (cfg : ResetConfig) (now : Nat) (h : cfg.memLimitBytes = none ∨ 0 < cfg.memPollMs) :
    ResetRun :=
  ⟨.new cfg now h, now, []⟩

def step (s : ResetRun) (call : Nat × ResetEvent) : ResetRun :=
  let after := s.policy.apply call.1 call.2
  ⟨after.1, call.1, ⟨call.1, call.2, after.2⟩ :: s.history⟩

/-- The times of the calls never go back. -/
def machine : Machine ResetRun (Nat × ResetEvent) where
  step
  admits s call := s.now ≤ call.1

instance (s : ResetRun) (call : Nat × ResetEvent) : Decidable (machine.admits s call) :=
  inferInstanceAs (Decidable (s.now ≤ call.1))

/-- A policy that was made at a moment. -/
def Start (cfg : ResetConfig) (made : Nat) (s : ResetRun) : Prop :=
  ∃ h, s = new cfg made h

end ResetRun

/-! ## What a history says -/

namespace ResetHistory

/-- The last input, or the moment at which the policy was made. -/
def lastInput (made : Nat) : List ResetTurn → Nat
  | [] => made
  | turn :: h => if turn.event = .userInput then turn.time else lastInput made h

/-- Whether the window has the focus, and whether it is visible. -/
def window : List ResetTurn → Bool × Bool
  | [] => (true, true)
  | turn :: h =>
    match turn.event with
    | .focus focused => (focused, (window h).2)
    | .visibility visible => ((window h).1, visible)
    | _ => window h

def Hidden (h : List ResetTurn) : Prop := (window h).1 = false ∨ (window h).2 = false

def NotInput (turn : ResetTurn) : Prop := turn.event ≠ .userInput

def NotSample (turn : ResetTurn) : Prop := ∀ bytes, turn.event ≠ .memSample bytes

/-- A memory sample over the limit. -/
def Over (limit : Nat) (turn : ResetTurn) : Prop :=
  ∃ bytes, turn.event = .memSample bytes ∧ limit < bytes

def Fired (trigger : ResetTrigger) (turn : ResetTurn) : Prop := turn.fired = some trigger

/-- The window stays hidden, without input. -/
def Quiet (h : List ResetTurn) : Prop := Hidden h ∧ Newest NotInput h

/-- Hidden without input since a call at this time. -/
def QuietSince (time : Nat) : List ResetTurn → Prop :=
  Since Quiet fun h => Hidden h ∧ Newest (fun turn => turn.time = time) h

/-- `Idle` fired, and no input came since. -/
def IdleSpent : List ResetTurn → Prop := Since (Newest NotInput) (Newest (Fired .idle))

/-- `Hidden` fired, and the window was neither shown nor used since. -/
def HiddenSpent : List ResetTurn → Prop := Since Quiet (Newest (Fired .hidden))

/-- The latest memory sample exceeded the limit. -/
def LatestOver (limit : Nat) : List ResetTurn → Prop :=
  Since (Newest NotSample) (Newest (Over limit))

/-- A sample exceeded the limit, and neither a sample nor a watchdog reset came since. -/
def Pending (limit : Nat) : List ResetTurn → Prop :=
  Since (Newest fun turn => NotSample turn ∧ ¬ Fired .memWatchdog turn) (Newest (Over limit))

end ResetHistory

open ResetHistory

/-- `t` is at least `ms` after `s`, where the sum does not saturate. -/
def NotBefore (s ms t : Nat) : Prop := s + ms ≤ u64Max → s + ms ≤ t

/-- What a firing respects, after the history before it. -/
structure SafeFiring (cfg : ResetConfig) (made : Nat) (turn : ResetTurn)
    (earlier : List ResetTurn) : Prop where
  cooldown : ∀ t ∈ earlier, t.fired ≠ none → NotBefore t.time cfg.cooldownMs turn.time
  idle : turn.fired = some .idle →
    (∃ ms, cfg.idleMs = some ms ∧ NotBefore (lastInput made earlier) ms turn.time) ∧
      ¬ IdleSpent earlier
  hidden : turn.fired = some .hidden →
    (∃ ms time, cfg.hiddenMs = some ms ∧ QuietSince time earlier ∧
      NotBefore time ms turn.time) ∧ ¬ HiddenSpent earlier
  memWatchdog : turn.fired = some .memWatchdog →
    (∃ limit, cfg.memLimitBytes = some limit ∧ LatestOver limit earlier) ∧
      (turn.event = .poll → NotBefore (lastInput made earlier) cfg.safeIdleMs turn.time)

/-- The flags of the policy are what the history says. -/
structure Tracks (cfg : ResetConfig) (made : Nat) (s : ResetRun) : Prop where
  cfg_eq : s.policy.cfg = cfg
  times : ∀ t ∈ s.history, t.time ≤ s.now
  lastInput_eq : s.policy.lastInput = lastInput made s.history
  window_eq : (s.policy.focused, s.policy.visible) = window s.history
  idleArmed : s.policy.idleArmed = false ↔ IdleSpent s.history
  hidden : s.policy.hiddenSince = none ↔ ¬ Hidden s.history
  hiddenSince : ∀ time, s.policy.hiddenSince = some time → QuietSince time s.history
  hiddenFired : s.policy.hiddenFired = true ↔ HiddenSpent s.history
  spent_hidden : s.policy.hiddenFired = true → s.policy.hiddenSince ≠ none
  memPending : s.policy.memPending = true ↔
    ∃ limit, cfg.memLimitBytes = some limit ∧ Pending limit s.history
  suppressed : s.policy.suppressed = true → s.policy.memPending = true
  cooldown : ∀ t ∈ s.history, t.fired ≠ none →
    ∃ u, s.policy.cooldownUntil = some u ∧ saturatingAdd t.time cfg.cooldownMs ≤ u

namespace ResetLemmas

open PastLemmas

variable {cfg : ResetConfig} {made : Nat} {s : ResetRun} {turn : ResetTurn} {h : List ResetTurn}

/-! ## Histories after one more call -/

theorem lastInput_cons (hturn : NotInput turn) : lastInput made (turn :: h) = lastInput made h :=
  if_neg hturn

theorem idleSpent_cons : IdleSpent (turn :: h) ↔
    turn.fired = some .idle ∨ NotInput turn ∧ IdleSpent h := since_newest_iff

theorem hiddenSpent_cons : HiddenSpent (turn :: h) ↔
    turn.fired = some .hidden ∨ (Hidden (turn :: h) ∧ NotInput turn) ∧ HiddenSpent h :=
  since_cons_iff

theorem pending_cons {limit : Nat} : Pending limit (turn :: h) ↔
    Over limit turn ∨ (NotSample turn ∧ ¬ Fired .memWatchdog turn) ∧ Pending limit h :=
  since_newest_iff

theorem latestOver_of_pending {limit : Nat} (hp : Pending limit h) : LatestOver limit h := by
  refine hp.mono (fun l hl => ?_) fun l hl => hl
  cases l with
  | nil => exact hl
  | cons t l => exact hl.1

/-- A call that tells of no window, no input and no sample. -/
structure Passive (turn : ResetTurn) : Prop where
  notInput : NotInput turn
  notSample : NotSample turn
  window_cons : ∀ h, window (turn :: h) = window h

theorem passive_poll (time : Nat) (fired : Option ResetTrigger) : Passive ⟨time, .poll, fired⟩ where
  notInput hinput := by cases hinput
  notSample bytes hsample := by cases hsample
  window_cons _ := rfl

theorem passive_workspaceSwitch (time : Nat) (fired : Option ResetTrigger) :
    Passive ⟨time, .workspaceSwitch, fired⟩ where
  notInput hinput := by cases hinput
  notSample bytes hsample := by cases hsample
  window_cons _ := rfl

theorem Passive.hidden_cons (hturn : Passive turn) : Hidden (turn :: h) ↔ Hidden h := by
  unfold Hidden
  rw [hturn.window_cons]

theorem Passive.not_over (hturn : Passive turn) (limit : Nat) : ¬ Over limit turn := by
  rintro ⟨bytes, hsample, -⟩
  exact hturn.notSample bytes hsample

theorem Passive.idleSpent_cons (hturn : Passive turn) :
    IdleSpent (turn :: h) ↔ turn.fired = some .idle ∨ IdleSpent h := by
  rw [ResetLemmas.idleSpent_cons, and_iff_right hturn.notInput]

theorem Passive.hiddenSpent_cons (hturn : Passive turn) (hhidden : HiddenSpent h → Hidden h) :
    HiddenSpent (turn :: h) ↔ turn.fired = some .hidden ∨ HiddenSpent h := by
  rw [ResetLemmas.hiddenSpent_cons, hturn.hidden_cons]
  exact or_congr_right ⟨And.right, fun hspent => ⟨⟨hhidden hspent, hturn.notInput⟩, hspent⟩⟩

theorem Passive.pending_cons (hturn : Passive turn) {limit : Nat} :
    Pending limit (turn :: h) ↔ turn.fired ≠ some .memWatchdog ∧ Pending limit h := by
  rw [ResetLemmas.pending_cons, or_iff_right (hturn.not_over limit)]
  exact and_congr_left fun _ => and_iff_right hturn.notSample

theorem quietSince_here (hhidden : Hidden (turn :: h)) : QuietSince turn.time (turn :: h) :=
  .here ⟨hhidden, rfl⟩

theorem quietSince_later {time : Nat} (hhidden : Hidden (turn :: h)) (hinput : NotInput turn)
    (hs : QuietSince time h) : QuietSince time (turn :: h) := .later ⟨hhidden, hinput⟩ hs

/-! ## One call -/

/-- Cooldowns end later the later they begin. -/
theorem cooldown_fired (ht : Tracks cfg made s) {now : Nat} (hnow : s.now ≤ now)
    (event : ResetEvent) (trigger : ResetTrigger) :
    ∀ t ∈ (⟨now, event, some trigger⟩ : ResetTurn) :: s.history, t.fired ≠ none →
      saturatingAdd t.time cfg.cooldownMs ≤ saturatingAdd now cfg.cooldownMs := by
  intro t hmem hfired
  rcases List.mem_cons.mp hmem with rfl | hmem
  · exact Nat.le_refl _
  · exact saturatingAdd_mono ((ht.times t hmem).trans hnow)

theorem times_cons (ht : Tracks cfg made s) {now : Nat} (hnow : s.now ≤ now)
    (event : ResetEvent) (fired : Option ResetTrigger) :
    ∀ t ∈ (⟨now, event, fired⟩ : ResetTurn) :: s.history, t.time ≤ now := by
  intro t hmem
  rcases List.mem_cons.mp hmem with rfl | hmem
  · exact Nat.le_refl _
  · exact (ht.times t hmem).trans hnow

/-- Without a firing the cooldown is what it was. -/
theorem cooldown_silent (ht : Tracks cfg made s) (now : Nat) (event : ResetEvent) :
    ∀ t ∈ (⟨now, event, none⟩ : ResetTurn) :: s.history, t.fired ≠ none →
      ∃ u, s.policy.cooldownUntil = some u ∧ saturatingAdd t.time cfg.cooldownMs ≤ u := by
  intro t hmem hfired
  rcases List.mem_cons.mp hmem with rfl | hmem
  · exact absurd rfl hfired
  · exact ht.cooldown t hmem hfired

theorem hidden_of_since (ht : Tracks cfg made s) {time : Nat}
    (h : s.policy.hiddenSince = some time) : Hidden s.history := by
  refine not_not.mp fun hn => ?_
  rw [ht.hidden.mpr hn] at h
  cases h

theorem hidden_of_spent (ht : Tracks cfg made s) (h : HiddenSpent s.history) :
    Hidden s.history :=
  not_not.mp fun hn => ht.spent_hidden (ht.hiddenFired.mpr h) (ht.hidden.mpr hn)

/-- A poll or a switch that fires nothing. -/
theorem tracks_silent (ht : Tracks cfg made s) {now : Nat} (hnow : s.now ≤ now)
    {event : ResetEvent} (hturn : Passive ⟨now, event, none⟩) {suppressed : Bool}
    (hs : suppressed = true → s.policy.suppressed = true ∨ s.policy.memPending = true) :
    Tracks cfg made ⟨{ s.policy with suppressed }, now, ⟨now, event, none⟩ :: s.history⟩ where
  cfg_eq := ht.cfg_eq
  times := times_cons ht hnow event none
  lastInput_eq := ht.lastInput_eq.trans (lastInput_cons hturn.notInput).symm
  window_eq := ht.window_eq.trans (hturn.window_cons _).symm
  idleArmed := by
    rw [hturn.idleSpent_cons, or_iff_right (by simp)]
    exact ht.idleArmed
  hidden := by
    rw [hturn.hidden_cons]
    exact ht.hidden
  hiddenSince time htime := quietSince_later (hturn.hidden_cons.mpr (hidden_of_since ht htime))
    hturn.notInput (ht.hiddenSince time htime)
  hiddenFired := by
    rw [hturn.hiddenSpent_cons (hidden_of_spent ht), or_iff_right (by simp)]
    exact ht.hiddenFired
  spent_hidden := ht.spent_hidden
  memPending := by
    simp only [hturn.pending_cons, ne_eq, reduceCtorEq, not_false_eq_true, true_and]
    exact ht.memPending
  suppressed hsup := (hs hsup).elim ht.suppressed id
  cooldown := cooldown_silent ht now event

/-- A poll or a switch that fires. -/
theorem tracks_fired (ht : Tracks cfg made s) {now : Nat} (hnow : s.now ≤ now)
    {event : ResetEvent} {trigger : ResetTrigger} (hturn : Passive ⟨now, event, some trigger⟩)
    (hhidden : trigger = .hidden → s.policy.hiddenSince ≠ none) :
    Tracks cfg made ⟨(s.policy.consume trigger).startCooldown now, now,
      ⟨now, event, some trigger⟩ :: s.history⟩ where
  cfg_eq := by cases trigger <;> exact ht.cfg_eq
  times := times_cons ht hnow event (some trigger)
  lastInput_eq := by
    rw [lastInput_cons hturn.notInput]
    cases trigger <;> exact ht.lastInput_eq
  window_eq := by
    rw [hturn.window_cons]
    cases trigger <;> exact ht.window_eq
  idleArmed := by
    rw [hturn.idleSpent_cons]
    cases trigger with
    | idle => exact iff_of_true rfl (.inl rfl)
    | hidden | memWatchdog => exact ht.idleArmed.trans (or_iff_right (by simp)).symm
  hidden := by
    rw [hturn.hidden_cons]
    cases trigger <;> exact ht.hidden
  hiddenSince time htime := by
    have htime : s.policy.hiddenSince = some time := by cases trigger <;> exact htime
    exact quietSince_later (hturn.hidden_cons.mpr (hidden_of_since ht htime)) hturn.notInput
      (ht.hiddenSince time htime)
  hiddenFired := by
    rw [hturn.hiddenSpent_cons (hidden_of_spent ht)]
    cases trigger with
    -- Firing spends a trigger until the next input.
    | hidden => exact iff_of_true rfl (.inl rfl)
    | idle | memWatchdog => exact ht.hiddenFired.trans (or_iff_right (by simp)).symm
  spent_hidden hspent := by
    cases trigger with
    | hidden => exact hhidden rfl
    | idle | memWatchdog => exact ht.spent_hidden hspent
  memPending := by
    simp only [hturn.pending_cons]
    cases trigger with
    | memWatchdog => exact iff_of_false Bool.false_ne_true (by simp)
    | idle | hidden =>
      show s.policy.memPending = true ↔ _
      simpa using ht.memPending
  suppressed hsup := by
    cases trigger with
    | memWatchdog => cases hsup
    | idle | hidden => exact ht.suppressed hsup
  cooldown t hmem hfired := by
    refine ⟨saturatingAdd now s.policy.cfg.cooldownMs, by cases trigger <;> rfl, ?_⟩
    rw [ht.cfg_eq]
    exact cooldown_fired ht hnow event trigger t hmem hfired

/-- An input arms what can be armed, and a hidden window counts from it. -/
theorem tracks_userInput (ht : Tracks cfg made s) {now : Nat} (hnow : s.now ≤ now) :
    Tracks cfg made ⟨s.policy.onUserInput now, now, ⟨now, .userInput, none⟩ :: s.history⟩ := by
  have hnotInput : ¬ NotInput ⟨now, .userInput, none⟩ := fun h => h rfl
  have hspent : ¬ HiddenSpent (⟨now, .userInput, none⟩ :: s.history) := by
    rw [hiddenSpent_cons]
    rintro (hfired | ⟨⟨-, hinput⟩, -⟩)
    · cases hfired
    · exact hnotInput hinput
  have hidle : ¬ IdleSpent (⟨now, .userInput, none⟩ :: s.history) := by
    rw [idleSpent_cons]
    rintro (hfired | ⟨hinput, -⟩)
    · cases hfired
    · exact hnotInput hinput
  have hpending : ∀ limit, Pending limit (⟨now, .userInput, none⟩ :: s.history) ↔
      Pending limit s.history := by
    intro limit
    rw [pending_cons, or_iff_right (by rintro ⟨bytes, hsample, -⟩; cases hsample)]
    exact and_iff_right ⟨fun bytes hsample => (by cases hsample), by simp [Fired]⟩
  unfold ResetPolicy.onUserInput
  dsimp only
  -- An input counts anew for a hidden window, and only for one.
  split
  next hsome =>
    exact
      { cfg_eq := ht.cfg_eq
        times := times_cons ht hnow _ none
        lastInput_eq := rfl
        window_eq := ht.window_eq
        idleArmed := iff_of_false Bool.false_ne_true.symm hidle
        hidden := iff_of_false (Option.some_ne_none now)
          fun hn => by
            have hnone : s.policy.hiddenSince = none := ht.hidden.mpr hn
            simp [hnone] at hsome
        hiddenSince := fun time htime => by
          obtain ⟨since, hsince⟩ := Option.isSome_iff_exists.mp hsome
          obtain rfl := Option.some_inj.mp htime
          have hhidden : Hidden (⟨now, .userInput, none⟩ :: s.history) :=
            hidden_of_since ht hsince
          exact quietSince_here hhidden
        hiddenFired := iff_of_false Bool.false_ne_true hspent
        spent_hidden := fun _ => Option.some_ne_none now
        memPending := by
          simp only [hpending]
          exact ht.memPending
        suppressed := ht.suppressed
        cooldown := cooldown_silent ht now _ }
  next hnone =>
    have hnone : s.policy.hiddenSince = none := by simpa using hnone
    have hfired : ¬ s.policy.hiddenFired = true := fun hf => ht.spent_hidden hf hnone
    exact
      { cfg_eq := ht.cfg_eq
        times := times_cons ht hnow _ none
        lastInput_eq := rfl
        window_eq := ht.window_eq
        idleArmed := iff_of_false Bool.false_ne_true.symm hidle
        hidden := ht.hidden
        hiddenSince := fun time htime => by
          have htime : s.policy.hiddenSince = some time := htime
          rw [hnone] at htime
          cases htime
        hiddenFired := iff_of_false hfired hspent
        spent_hidden := fun hf => absurd hf hfired
        memPending := by
          simp only [hpending]
          exact ht.memPending
        suppressed := ht.suppressed
        cooldown := cooldown_silent ht now _ }

/-- A call that tells of the window only changes the countdown of the hidden window. -/
theorem tracks_counted (ht : Tracks cfg made s) {now : Nat} (hnow : s.now ≤ now)
    {event : ResetEvent} (hinput : NotInput ⟨now, event, none⟩)
    (hsample : NotSample ⟨now, event, none⟩) {window' : Bool × Bool} {since : Option Nat}
    {fired : Bool} (hwindow : window' = window (⟨now, event, none⟩ :: s.history))
    (hhidden : since = none ↔ ¬ Hidden (⟨now, event, none⟩ :: s.history))
    (hsince : ∀ time, since = some time → QuietSince time (⟨now, event, none⟩ :: s.history))
    (hfired : fired = true ↔ HiddenSpent (⟨now, event, none⟩ :: s.history))
    (hspent : fired = true → since ≠ none) :
    Tracks cfg made ⟨{ s.policy with
      focused := window'.1
      visible := window'.2
      hiddenSince := since
      hiddenFired := fired }, now, ⟨now, event, none⟩ :: s.history⟩ where
  cfg_eq := ht.cfg_eq
  times := times_cons ht hnow event none
  lastInput_eq := ht.lastInput_eq.trans (lastInput_cons hinput).symm
  window_eq := hwindow
  idleArmed := by
    rw [idleSpent_cons, or_iff_right (by simp), and_iff_right hinput]
    exact ht.idleArmed
  hidden := hhidden
  hiddenSince := hsince
  hiddenFired := hfired
  spent_hidden := hspent
  memPending := by
    refine ht.memPending.trans (exists_congr fun limit => and_congr_right fun _ => ?_)
    rw [pending_cons, or_iff_right (by rintro ⟨bytes, hs, -⟩; exact hsample bytes hs)]
    exact (and_iff_right ⟨hsample, by simp [Fired]⟩).symm
  suppressed := ht.suppressed
  cooldown := cooldown_silent ht now event

/-- A report of the window begins a countdown, ends it, or lets it go on. -/
theorem tracks_syncHidden (ht : Tracks cfg made s) {now : Nat} (hnow : s.now ≤ now)
    (event : ResetEvent) (window' : Bool × Bool) (hinput : NotInput ⟨now, event, none⟩)
    (hsample : NotSample ⟨now, event, none⟩)
    (hwindow : window' = window (⟨now, event, none⟩ :: s.history)) :
    Tracks cfg made ⟨{ s.policy with
      focused := window'.1
      visible := window'.2 }.syncHidden now, now, ⟨now, event, none⟩ :: s.history⟩ := by
  have hhidden : (!window'.2 || !window'.1) = true ↔
      Hidden (⟨now, event, none⟩ :: s.history) := by
    unfold Hidden
    rw [← hwindow]
    simp [or_comm]
  have hspent_cons : HiddenSpent (⟨now, event, none⟩ :: s.history) ↔
      Hidden (⟨now, event, none⟩ :: s.history) ∧ HiddenSpent s.history := by
    rw [hiddenSpent_cons, or_iff_right (by simp), and_iff_left hinput]
  unfold ResetPolicy.syncHidden
  dsimp only
  split
  next hnow' hnone =>
    -- The window goes out of sight.
    have hh := hhidden.mp hnow'
    refine tracks_counted ht hnow hinput hsample hwindow
      (iff_of_false (Option.some_ne_none now) (not_not.mpr hh)) (fun time htime => ?_)
      (iff_of_false Bool.false_ne_true fun hspent => ?_) fun hf => nomatch hf
    · obtain rfl := Option.some_inj.mp htime
      exact quietSince_here hh
    · exact ht.spent_hidden (ht.hiddenFired.mpr (hspent_cons.mp hspent).2) hnone
  next hshown _ =>
    -- The window is in sight again.
    have hh : ¬ Hidden (⟨now, event, none⟩ :: s.history) := fun h =>
      Bool.false_ne_true (hshown.symm.trans (hhidden.mpr h))
    exact tracks_counted ht hnow hinput hsample hwindow (iff_of_true rfl hh)
      (fun time htime => nomatch htime)
      (iff_of_false Bool.false_ne_true fun hspent => hh (hspent_cons.mp hspent).1)
      fun hf => nomatch hf
  next hbegin hend =>
    -- The window stays as it was.
    have hsame : Hidden (⟨now, event, none⟩ :: s.history) ↔ s.policy.hiddenSince ≠ none := by
      rw [← hhidden]
      cases hb : (!window'.2 || !window'.1) with
      | true => exact iff_of_true rfl fun hnone => hbegin hb hnone
      | false =>
        refine iff_of_false Bool.false_ne_true fun hsome => ?_
        obtain ⟨since, hsince⟩ := Option.ne_none_iff_exists'.mp hsome
        exact hend since hb hsince
    refine tracks_counted ht hnow hinput hsample hwindow
      (by rw [hsame, not_not]) (fun time htime => ?_) ?_ ht.spent_hidden
    · exact quietSince_later (hsame.mpr (by rw [htime]; exact Option.some_ne_none time)) hinput
        (ht.hiddenSince time htime)
    · rw [hspent_cons, ht.hiddenFired]
      exact ⟨fun hspent => ⟨hsame.mpr (ht.spent_hidden (ht.hiddenFired.mpr hspent)), hspent⟩,
        And.right⟩

/-- A sample changes what the watchdog keeps only. -/
theorem tracks_sampled (ht : Tracks cfg made s) {now : Nat} (hnow : s.now ≤ now) {bytes : Nat}
    {pending suppressed : Bool} {next : Nat}
    (hpending : pending = true ↔ ∃ limit, cfg.memLimitBytes = some limit ∧ limit < bytes)
    (hsuppressed : suppressed = true → pending = true) :
    Tracks cfg made ⟨{ s.policy with
      memPending := pending
      nextMemSampleAt := next
      suppressed }, now, ⟨now, .memSample bytes, none⟩ :: s.history⟩ := by
  have hinput : NotInput ⟨now, .memSample bytes, none⟩ := fun h => nomatch h
  have hover : ∀ limit, Pending limit (⟨now, .memSample bytes, none⟩ :: s.history) ↔
      limit < bytes := by
    intro limit
    rw [pending_cons]
    constructor
    · rintro (⟨b, hb, hlt⟩ | ⟨⟨hsample, -⟩, -⟩)
      · cases hb
        exact hlt
      · exact absurd rfl (hsample bytes)
    · exact fun hlt => .inl ⟨bytes, rfl, hlt⟩
  exact
    { cfg_eq := ht.cfg_eq
      times := times_cons ht hnow _ none
      lastInput_eq := ht.lastInput_eq
      window_eq := ht.window_eq
      idleArmed := by
        rw [idleSpent_cons, or_iff_right (by simp), and_iff_right hinput]
        exact ht.idleArmed
      hidden := ht.hidden
      hiddenSince := fun time htime =>
        quietSince_later (hidden_of_since ht htime) hinput (ht.hiddenSince time htime)
      hiddenFired := by
        rw [hiddenSpent_cons, or_iff_right (by simp)]
        exact ht.hiddenFired.trans
          ⟨fun hspent => ⟨⟨hidden_of_spent ht hspent, hinput⟩, hspent⟩, And.right⟩
      spent_hidden := ht.spent_hidden
      memPending := by
        simp only [hover]
        exact hpending
      suppressed := hsuppressed
      cooldown := cooldown_silent ht now _ }

/-- A sample books the watchdog or cancels it. -/
theorem tracks_memSample (ht : Tracks cfg made s) {now : Nat} (hnow : s.now ≤ now) (bytes : Nat) :
    Tracks cfg made
      ⟨s.policy.onMemSample bytes now, now, ⟨now, .memSample bytes, none⟩ :: s.history⟩ := by
  unfold ResetPolicy.onMemSample
  split
  next hlimit =>
    rw [ht.cfg_eq] at hlimit
    have hidle : ¬ s.policy.memPending = true := fun h => by
      obtain ⟨limit, hl, -⟩ := ht.memPending.mp h
      rw [hlimit] at hl
      cases hl
    refine tracks_sampled ht hnow (iff_of_false hidle ?_) ht.suppressed
    rintro ⟨limit, hl, -⟩
    rw [hlimit] at hl
    cases hl
  next limit hlimit =>
    rw [ht.cfg_eq] at hlimit
    have hover : (∃ limit', cfg.memLimitBytes = some limit' ∧ limit' < bytes) ↔ limit < bytes := by
      simp [hlimit]
    dsimp only
    split
    next hlt => exact tracks_sampled ht hnow (iff_of_true rfl (hover.mpr hlt)) fun _ => rfl
    next hle =>
      exact tracks_sampled ht hnow (iff_of_false Bool.false_ne_true (mt hover.mp hle))
        fun h => nomatch h

/-- The two calls that can fire. -/
theorem tracks_cases (ht : Tracks cfg made s) {now : Nat} (hnow : s.now ≤ now)
    {event : ResetEvent} (hturn : ∀ fired, Passive ⟨now, event, fired⟩)
    (hcases : (∃ trigger, (trigger = .hidden → s.policy.hiddenSince ≠ none) ∧
        s.policy.apply now event =
          ((s.policy.consume trigger).startCooldown now, some trigger)) ∨
      ∃ suppressed : Bool,
        (suppressed = true → s.policy.suppressed = true ∨ s.policy.memPending = true) ∧
        s.policy.apply now event = ({ s.policy with suppressed }, none)) :
    Tracks cfg made (s.step (now, event)) := by
  show Tracks cfg made ⟨(s.policy.apply now event).1, now,
    ⟨now, event, (s.policy.apply now event).2⟩ :: s.history⟩
  obtain ⟨trigger, hhidden, h⟩ | ⟨suppressed, hs, h⟩ := hcases
  · rw [h]
    exact tracks_fired ht hnow (hturn _) hhidden
  · rw [h]
    exact tracks_silent ht hnow (hturn _) hs

theorem tracks_step (ht : Tracks cfg made s) {call : Nat × ResetEvent} (hnow : s.now ≤ call.1) :
    Tracks cfg made (s.step call) := by
  obtain ⟨now, event⟩ := call
  cases event with
  | userInput => exact tracks_userInput ht hnow
  | focus focused =>
    refine tracks_syncHidden ht hnow (.focus focused) (focused, s.policy.visible)
      (fun h => nomatch h) (fun bytes h => nomatch h) ?_
    exact congrArg (fun w => (focused, w.2)) ht.window_eq
  | visibility visible =>
    refine tracks_syncHidden ht hnow (.visibility visible) (s.policy.focused, visible)
      (fun h => nomatch h) (fun bytes h => nomatch h) ?_
    exact congrArg (fun w => (w.1, visible)) ht.window_eq
  | memSample bytes => exact tracks_memSample ht hnow bytes
  | workspaceSwitch =>
    refine tracks_cases ht hnow (passive_workspaceSwitch now) ?_
    obtain ⟨-, -, h⟩ | h := onWorkspaceSwitch_cases s.policy now
    · exact .inl ⟨.memWatchdog, (fun hne => nomatch hne), h⟩
    · exact .inr h
  | poll =>
    refine tracks_cases ht hnow (passive_poll now) ?_
    obtain ⟨trigger, hdue, -, -, h⟩ | ⟨-, h⟩ := poll_cases s.policy now
    · refine .inl ⟨trigger, ?_, h⟩
      rintro rfl
      obtain ⟨ms, since, -, hsince, -⟩ := due_hidden_iff.mp hdue
      rw [hsince]
      exact Option.some_ne_none since
    · exact .inr h

theorem tracks_of_reach (h : ResetRun.machine.Reach (ResetRun.Start cfg made) s) :
    Tracks cfg made s := by
  refine h.invariant (I := Tracks cfg made) (fun s hs => ?_) fun s call _ ht hnow =>
    tracks_step ht hnow
  obtain ⟨hcfg, rfl⟩ := hs
  exact
    { cfg_eq := rfl
      times := fun t ht => nomatch ht
      lastInput_eq := rfl
      window_eq := rfl
      idleArmed := iff_of_false Bool.false_ne_true.symm not_since_nil
      hidden := iff_of_true rfl fun hh => hh.elim Bool.false_ne_true.symm Bool.false_ne_true.symm
      hiddenSince := fun time htime => nomatch htime
      hiddenFired := iff_of_false Bool.false_ne_true not_since_nil
      spent_hidden := fun hf => nomatch hf
      memPending := iff_of_false Bool.false_ne_true fun ⟨limit, _, hp⟩ => not_since_nil hp
      suppressed := fun hs => nomatch hs
      cooldown := fun t ht => nomatch ht }

/-! ## Firings -/

theorem notBefore_of_saturatingAdd {s ms t : Nat} (h : saturatingAdd s ms ≤ t) :
    NotBefore s ms t := saturatingAdd_le h

/-- Outside the cooldown every firing is long enough ago. -/
theorem notBefore_of_free (ht : Tracks cfg made s) {now : Nat}
    (hfree : s.policy.inCooldown now = false) :
    ∀ t ∈ s.history, t.fired ≠ none → NotBefore t.time cfg.cooldownMs now := by
  intro t hmem hfired
  obtain ⟨u, hu, hle⟩ := ht.cooldown t hmem hfired
  have hover : u ≤ now := by
    unfold ResetPolicy.inCooldown at hfree
    rw [hu] at hfree
    exact Nat.not_lt.mp (of_decide_eq_false hfree)
  exact notBefore_of_saturatingAdd (hle.trans hover)

/-- A trigger that is due outside the cooldown is safe to fire. -/
theorem safeFiring_of_due (ht : Tracks cfg made s) {now : Nat} (event : ResetEvent)
    {trigger : ResetTrigger} (hfree : s.policy.inCooldown now = false)
    (hdue : trigger ≠ .memWatchdog → s.policy.Due now trigger)
    (hmem : trigger = .memWatchdog → s.policy.memPending = true)
    (hpoll : event = .poll → s.policy.Due now trigger) :
    SafeFiring cfg made ⟨now, event, some trigger⟩ s.history where
  cooldown := notBefore_of_free ht hfree
  idle hfired := by
    obtain rfl := Option.some_inj.mp hfired
    obtain ⟨ms, hms, harmed, hle⟩ := due_idle_iff.mp (hdue (by simp))
    rw [ht.cfg_eq] at hms
    rw [ht.lastInput_eq] at hle
    refine ⟨⟨ms, hms, notBefore_of_saturatingAdd hle⟩, fun hspent => ?_⟩
    exact Bool.false_ne_true ((ht.idleArmed.mpr hspent).symm.trans harmed)
  hidden hfired := by
    obtain rfl := Option.some_inj.mp hfired
    obtain ⟨ms, since, hms, hsince, hfirst, hle⟩ := due_hidden_iff.mp (hdue (by simp))
    rw [ht.cfg_eq] at hms
    refine ⟨⟨ms, since, hms, ht.hiddenSince since hsince, notBefore_of_saturatingAdd hle⟩,
      fun hspent => ?_⟩
    exact Bool.false_ne_true (hfirst.symm.trans (ht.hiddenFired.mpr hspent))
  memWatchdog hfired := by
    obtain rfl := Option.some_inj.mp hfired
    obtain ⟨limit, hlimit, hp⟩ := ht.memPending.mp (hmem rfl)
    refine ⟨⟨limit, hlimit, latestOver_of_pending hp⟩, fun he => ?_⟩
    obtain ⟨-, hle⟩ := due_memWatchdog_iff.mp (hpoll he)
    rw [ht.cfg_eq, ht.lastInput_eq] at hle
    exact notBefore_of_saturatingAdd hle

theorem safeFiring_step (ht : Tracks cfg made s) (call : Nat × ResetEvent)
    (hfired : (s.policy.apply call.1 call.2).2 ≠ none) :
    SafeFiring cfg made ⟨call.1, call.2, (s.policy.apply call.1 call.2).2⟩ s.history := by
  obtain ⟨now, event⟩ := call
  cases event with
  | userInput | focus | visibility | memSample => exact absurd rfl hfired
  | workspaceSwitch =>
    show SafeFiring cfg made ⟨now, .workspaceSwitch, (s.policy.onWorkspaceSwitch now).2⟩ s.history
    obtain ⟨hmem, hfree, h⟩ | ⟨_, -, h⟩ := onWorkspaceSwitch_cases s.policy now
    · rw [h]
      exact safeFiring_of_due ht _ hfree (fun hne => absurd rfl hne) (fun _ => hmem)
        fun he => nomatch he
    · exact absurd (congrArg Prod.snd h) hfired
  | poll =>
    show SafeFiring cfg made ⟨now, .poll, (s.policy.poll now).2⟩ s.history
    obtain ⟨trigger, hdue, hfree, -, h⟩ | ⟨-, _, -, h⟩ := poll_cases s.policy now
    · rw [h]
      refine safeFiring_of_due ht _ hfree (fun _ => hdue) (fun hmem => ?_) fun _ => hdue
      subst hmem
      exact (due_memWatchdog_iff.mp hdue).1
    · exact absurd (congrArg Prod.snd h) hfired

end ResetLemmas

open ResetLemmas in
/-- Whatever is called, every firing is safe, and `suppressed` means that a watchdog
reset is pending. -/
theorem firings_safe {cfg : ResetConfig} {made : Nat} {s : ResetRun}
    (h : ResetRun.machine.Reach (ResetRun.Start cfg made) s) :
    (∀ turn earlier, turn :: earlier <:+ s.history → turn.fired ≠ none →
      SafeFiring cfg made turn earlier) ∧
    (s.policy.suppressed = true → s.policy.memPending = true ∧
      ∃ limit, cfg.memLimitBytes = some limit ∧ Pending limit s.history) := by
  refine ⟨fun turn earlier hturn hfired => ?_, fun hs => ?_⟩
  · have hinit : ∀ s, ResetRun.Start cfg made s → s.history = [] := by
      rintro s ⟨hcfg, rfl⟩
      rfl
    obtain ⟨s₀, call, hr, -, rfl, hlog⟩ := h.logged ResetRun.history hinit
      (fun s call => ⟨_, rfl⟩) hturn
    obtain rfl : ⟨call.1, call.2, (s₀.policy.apply call.1 call.2).2⟩ = turn :=
      (List.cons.inj hlog).1
    exact safeFiring_step (tracks_of_reach hr) call hfired
  · have hpending := (tracks_of_reach h).suppressed hs
    exact ⟨hpending, (tracks_of_reach h).memPending.mp hpending⟩

def watchfulConfig : ResetConfig := ⟨some 1000, some 500, some 100, 100, 200, 300⟩

/-- The window loses the focus, and a sample over the limit comes in the cooldown. -/
def threeFirings : List (Nat × ResetEvent) :=
  [(0, .focus false), (500, .poll), (600, .memSample 200), (700, .poll), (800, .poll),
    (1100, .poll)]

theorem firings_safe_three :
    ((ResetRun.machine.run (.new watchfulConfig 0 (.inr (by decide))) threeFirings).history.map
      ResetTurn.fired) = [some .idle, some .memWatchdog, none, none, some .hidden, none] ∧
    ∀ turn earlier,
      turn :: earlier <:+
        (ResetRun.machine.run (.new watchfulConfig 0 (.inr (by decide))) threeFirings).history →
      turn.fired ≠ none → SafeFiring watchfulConfig 0 turn earlier := by
  have hreach : ResetRun.machine.Reach (ResetRun.Start watchfulConfig 0)
      (ResetRun.machine.run (.new watchfulConfig 0 (.inr (by decide))) threeFirings) :=
    .of_trace (.init ⟨.inr (by decide), rfl⟩) threeFirings (by decide)
  exact ⟨by decide, (firings_safe hreach).1⟩

end Mast
