import Mathlib.Algebra.Group.Nat.Defs
import Mathlib.Order.Nat

/-!
# The reset policy

`reset.rs`: when the UI may be reloaded. Three triggers share one cooldown: no input
for long enough (`Idle`), a window that is hidden for long enough (`Hidden`), and a
memory sample over the limit, which waits for a safe moment (`MemWatchdog`). Time comes
from the callers as milliseconds, and the sums of the source saturate.

`deadline` is the moment from which a trigger may fire, the cooldown apart.

Results:
1. `poll_cases`: a poll fires the first trigger that is due, or none.
2. `onWorkspaceSwitch_cases`: a workspace switch fires the watchdog only.
-/

namespace Mast

/-- The largest `u64`. -/
def u64Max : Nat := 2 ^ 64 - 1

def saturatingAdd (a b : Nat) : Nat := min (a + b) u64Max

/-- The settings. A trigger without its setting is off. -/
structure ResetConfig where
  idleMs : Option Nat
  hiddenMs : Option Nat
  memLimitBytes : Option Nat
  memPollMs : Nat
  safeIdleMs : Nat
  cooldownMs : Nat
deriving DecidableEq, Repr

inductive ResetTrigger
  | idle
  | hidden
  | memWatchdog
deriving DecidableEq, Repr

structure ResetPolicy where
  cfg : ResetConfig
  lastInput : Nat
  idleArmed : Bool
  focused : Bool
  visible : Bool
  hiddenSince : Option Nat
  hiddenFired : Bool
  memPending : Bool
  nextMemSampleAt : Nat
  suppressed : Bool
  cooldownUntil : Option Nat
deriving DecidableEq, Repr

namespace ResetPolicy

/-- A watchdog that samples without a pause is refused at construction. -/
def new (cfg : ResetConfig) (now : Nat) (_ : cfg.memLimitBytes = none ∨ 0 < cfg.memPollMs) :
    ResetPolicy where
  cfg
  lastInput := now
  idleArmed := true
  focused := true
  visible := true
  hiddenSince := none
  hiddenFired := false
  memPending := false
  nextMemSampleAt := saturatingAdd now cfg.memPollMs
  suppressed := false
  cooldownUntil := none

def inCooldown (p : ResetPolicy) (now : Nat) : Bool := p.cooldownUntil.any fun u => now < u

def startCooldown (p : ResetPolicy) (now : Nat) : ResetPolicy :=
  { p with cooldownUntil := some (saturatingAdd now p.cfg.cooldownMs) }

/-! ## Events -/

def onUserInput (p : ResetPolicy) (now : Nat) : ResetPolicy :=
  let p := { p with lastInput := now, idleArmed := true }
  if p.hiddenSince.isSome then { p with hiddenSince := some now, hiddenFired := false } else p

def syncHidden (p : ResetPolicy) (now : Nat) : ResetPolicy :=
  match !p.visible || !p.focused, p.hiddenSince with
  | true, none => { p with hiddenSince := some now, hiddenFired := false }
  | false, some _ => { p with hiddenSince := none, hiddenFired := false }
  | _, _ => p

def onFocus (p : ResetPolicy) (focused : Bool) (now : Nat) : ResetPolicy :=
  { p with focused }.syncHidden now

def onVisibility (p : ResetPolicy) (visible : Bool) (now : Nat) : ResetPolicy :=
  { p with visible }.syncHidden now

def onMemSample (p : ResetPolicy) (bytes now : Nat) : ResetPolicy :=
  match p.cfg.memLimitBytes with
  | none => p
  | some limit =>
    let p := { p with nextMemSampleAt := saturatingAdd now p.cfg.memPollMs }
    if limit < bytes then { p with memPending := true }
    else { p with memPending := false, suppressed := false }

def fireMem (p : ResetPolicy) (now : Nat) : ResetPolicy × Option ResetTrigger :=
  ({ p with memPending := false, suppressed := false }.startCooldown now, some .memWatchdog)

def onWorkspaceSwitch (p : ResetPolicy) (now : Nat) : ResetPolicy × Option ResetTrigger :=
  if !p.memPending then (p, none)
  else if p.inCooldown now then ({ p with suppressed := true }, none)
  else p.fireMem now

/-! ## Polls -/

/-- The third part of `poll`. -/
def pollHidden (p : ResetPolicy) (now : Nat) : ResetPolicy × Option ResetTrigger :=
  match p.cfg.hiddenMs, p.hiddenSince with
  | some hiddenMs, some since =>
    if !p.hiddenFired && decide (saturatingAdd since hiddenMs ≤ now) && !p.inCooldown now then
      ({ p with hiddenFired := true }.startCooldown now, some .hidden)
    else (p, none)
  | _, _ => (p, none)

/-- The second part of `poll`. -/
def pollIdle (p : ResetPolicy) (now : Nat) : ResetPolicy × Option ResetTrigger :=
  match p.cfg.idleMs with
  | some idleMs =>
    if p.idleArmed && decide (saturatingAdd p.lastInput idleMs ≤ now) && !p.inCooldown now then
      ({ p with idleArmed := false }.startCooldown now, some .idle)
    else p.pollHidden now
  | none => p.pollHidden now

def poll (p : ResetPolicy) (now : Nat) : ResetPolicy × Option ResetTrigger :=
  if p.memPending && decide (saturatingAdd p.lastInput p.cfg.safeIdleMs ≤ now) then
    if p.inCooldown now then { p with suppressed := true }.pollIdle now
    else p.fireMem now
  else p.pollIdle now

/-! ## The next deadline -/

/-- A moment in the cooldown is moved to its end. -/
def clamp (p : ResetPolicy) (now t : Nat) : Nat :=
  match p.cooldownUntil with
  | some u => if now < u then max t u else t
  | none => t

def idleDeadlines (p : ResetPolicy) (now : Nat) : List Nat :=
  match p.cfg.idleMs with
  | some idleMs => if p.idleArmed then [p.clamp now (saturatingAdd p.lastInput idleMs)] else []
  | none => []

def hiddenDeadlines (p : ResetPolicy) (now : Nat) : List Nat :=
  match p.cfg.hiddenMs, p.hiddenSince with
  | some hiddenMs, some since =>
    if !p.hiddenFired then [p.clamp now (saturatingAdd since hiddenMs)] else []
  | _, _ => []

def watchdogDeadlines (p : ResetPolicy) (now : Nat) : List Nat :=
  if p.cfg.memLimitBytes.isSome && p.memPending then
    [p.clamp now (saturatingAdd p.lastInput p.cfg.safeIdleMs)]
  else []

/-- What `next_deadline` considers to fire, in its order. -/
def firingDeadlines (p : ResetPolicy) (now : Nat) : List Nat :=
  p.idleDeadlines now ++ p.hiddenDeadlines now ++ p.watchdogDeadlines now

/-- When the next memory sample is to be taken. -/
def sampleDeadlines (p : ResetPolicy) : List Nat :=
  if p.cfg.memLimitBytes.isSome then [p.nextMemSampleAt] else []

def consider (best : Option Nat) (t : Nat) : Option Nat :=
  some (match best with
    | none => t
    | some b => min b t)

def earliest (deadlines : List Nat) : Option Nat := deadlines.foldl consider none

def nextDeadline (p : ResetPolicy) (now : Nat) : Option Nat :=
  earliest (p.firingDeadlines now ++ p.sampleDeadlines)

/-! ## Deadlines of the triggers -/

/-- The moment from which a trigger may fire, the cooldown apart. -/
def deadline (p : ResetPolicy) : ResetTrigger → Option Nat
  | .idle => if p.idleArmed then p.cfg.idleMs.map (saturatingAdd p.lastInput) else none
  | .hidden =>
    if p.hiddenFired then none
    else p.cfg.hiddenMs.bind fun hiddenMs => p.hiddenSince.map fun s => saturatingAdd s hiddenMs
  | .memWatchdog =>
    if p.memPending then some (saturatingAdd p.lastInput p.cfg.safeIdleMs) else none

/-- A trigger whose deadline has come. -/
def Due (p : ResetPolicy) (now : Nat) (trigger : ResetTrigger) : Prop :=
  ∃ d, p.deadline trigger = some d ∧ d ≤ now

/-- What a trigger uses up when it fires. -/
def consume (p : ResetPolicy) : ResetTrigger → ResetPolicy
  | .idle => { p with idleArmed := false }
  | .hidden => { p with hiddenFired := true }
  | .memWatchdog => { p with memPending := false, suppressed := false }

end ResetPolicy

/-- The triggers in the order in which a poll asks for them. -/
def ResetTrigger.rank : ResetTrigger → Nat
  | .memWatchdog => 0
  | .idle => 1
  | .hidden => 2

namespace ResetLemmas

open ResetPolicy

variable {p : ResetPolicy} {now : Nat} {t : ResetTrigger}

/-! ## What is due -/

theorem saturatingAdd_le {a b t : Nat} (h : saturatingAdd a b ≤ t) (hmax : a + b ≤ u64Max) :
    a + b ≤ t := by
  rw [saturatingAdd, Nat.min_eq_left hmax] at h
  exact h

theorem saturatingAdd_mono {a a' b : Nat} (h : a ≤ a') :
    saturatingAdd a b ≤ saturatingAdd a' b := by
  show min (a + b) u64Max ≤ min (a' + b) u64Max
  exact Nat.le_min.mpr ⟨Nat.le_trans (Nat.min_le_left _ _) (Nat.add_le_add_right h b),
    Nat.min_le_right _ _⟩

theorem due_memWatchdog_iff : p.Due now .memWatchdog ↔
    p.memPending = true ∧ saturatingAdd p.lastInput p.cfg.safeIdleMs ≤ now := by
  unfold Due deadline
  cases p.memPending <;> simp

theorem due_idle_iff : p.Due now .idle ↔ ∃ ms, p.cfg.idleMs = some ms ∧ p.idleArmed = true ∧
    saturatingAdd p.lastInput ms ≤ now := by
  unfold Due deadline
  cases p.idleArmed <;> cases p.cfg.idleMs <;> simp

theorem due_hidden_iff : p.Due now .hidden ↔ ∃ ms since, p.cfg.hiddenMs = some ms ∧
    p.hiddenSince = some since ∧ p.hiddenFired = false ∧ saturatingAdd since ms ≤ now := by
  unfold Due deadline
  cases p.hiddenFired <;> cases p.cfg.hiddenMs <;> cases p.hiddenSince <;> simp

/-! ## What a poll does -/

theorem pollHidden_cases (p : ResetPolicy) (now : Nat) :
    (p.Due now .hidden ∧ p.inCooldown now = false ∧
      p.pollHidden now = ((p.consume .hidden).startCooldown now, some .hidden)) ∨
    ((p.inCooldown now = true ∨ ¬ p.Due now .hidden) ∧ p.pollHidden now = (p, none)) := by
  rw [due_hidden_iff]
  unfold pollHidden
  split
  next ms since hms hsince =>
    split
    next h =>
      simp only [Bool.and_eq_true, Bool.not_eq_true', decide_eq_true_eq] at h
      exact .inl ⟨⟨ms, since, hms, hsince, h.1.1, h.1.2⟩, h.2, rfl⟩
    next h =>
      refine .inr ⟨?_, rfl⟩
      cases hcool : p.inCooldown now with
      | true => exact .inl rfl
      | false =>
        refine .inr ?_
        rintro ⟨ms', since', hms', hsince', hfired, hdue⟩
        obtain rfl := Option.some_inj.mp (hms.symm.trans hms')
        obtain rfl := Option.some_inj.mp (hsince.symm.trans hsince')
        exact h (by simp [hfired, hdue, hcool])
  next hnone =>
    refine .inr ⟨.inr ?_, rfl⟩
    rintro ⟨ms, since, hms, hsince, -⟩
    exact hnone ms since hms hsince

theorem pollIdle_cases (p : ResetPolicy) (now : Nat) :
    (p.Due now .idle ∧ p.inCooldown now = false ∧
      p.pollIdle now = ((p.consume .idle).startCooldown now, some .idle)) ∨
    ((p.inCooldown now = true ∨ ¬ p.Due now .idle) ∧ p.pollIdle now = p.pollHidden now) := by
  rw [due_idle_iff]
  unfold pollIdle
  split
  next ms hms =>
    split
    next h =>
      simp only [Bool.and_eq_true, Bool.not_eq_true', decide_eq_true_eq] at h
      exact .inl ⟨⟨ms, hms, h.1.1, h.1.2⟩, h.2, rfl⟩
    next h =>
      refine .inr ⟨?_, rfl⟩
      cases hcool : p.inCooldown now with
      | true => exact .inl rfl
      | false =>
        refine .inr ?_
        rintro ⟨ms', hms', harmed, hdue⟩
        obtain rfl := Option.some_inj.mp (hms.symm.trans hms')
        exact h (by simp [harmed, hdue, hcool])
  next hnone =>
    refine .inr ⟨.inr ?_, rfl⟩
    rintro ⟨ms, hms, -⟩
    rw [hnone] at hms
    cases hms

/-- A poll in the cooldown notes a watchdog that it holds back. -/
theorem poll_cooldown (h : p.inCooldown now = true) : ∃ s : Bool,
    (s = true → p.suppressed = true ∨ p.memPending = true) ∧
      p.poll now = ({ p with suppressed := s }, none) := by
  have hidle : ∀ q : ResetPolicy, q.inCooldown now = true → q.pollIdle now = (q, none) := by
    intro q hq
    obtain ⟨-, hfree, -⟩ | ⟨-, hpoll⟩ := pollIdle_cases q now
    · exact absurd (hfree.symm.trans hq) Bool.false_ne_true
    obtain ⟨-, hfree, -⟩ | ⟨-, hnone⟩ := pollHidden_cases q now
    · exact absurd (hfree.symm.trans hq) Bool.false_ne_true
    exact hpoll.trans hnone
  unfold poll
  split
  next hdue =>
    exact ⟨true, fun _ => .inr (Bool.and_eq_true_iff.mp hdue).1, hidle _ h⟩
  next => exact ⟨p.suppressed, .inl, hidle p h⟩

/-- A poll outside the cooldown fires the first trigger that is due. -/
theorem poll_free (h : p.inCooldown now = false) :
    (∃ t, p.Due now t ∧ (∀ t' : ResetTrigger, t'.rank < t.rank → ¬ p.Due now t') ∧
      p.poll now = ((p.consume t).startCooldown now, some t)) ∨
    ((∀ t, ¬ p.Due now t) ∧ p.poll now = (p, none)) := by
  have hbusy : ¬ p.inCooldown now = true := by rw [h]; exact Bool.false_ne_true
  unfold poll
  split
  next hdue =>
    refine .inl ⟨.memWatchdog, ?_, fun t' ht' => absurd ht' (Nat.not_lt_zero _), rfl⟩
    rw [due_memWatchdog_iff]
    simpa using hdue
  next hmem =>
    have hmem : ¬ p.Due now .memWatchdog := by
      rw [due_memWatchdog_iff]
      simpa using hmem
    obtain ⟨hdue, -, hpoll⟩ | ⟨hidle, hpoll⟩ := pollIdle_cases p now
    · refine .inl ⟨.idle, hdue, fun t' ht' => ?_, hpoll⟩
      cases t' with
      | memWatchdog => exact hmem
      | idle | hidden => exact absurd ht' (by decide)
    have hidle := hidle.resolve_left hbusy
    rw [hpoll]
    obtain ⟨hdue, -, hpoll⟩ | ⟨hhidden, hpoll⟩ := pollHidden_cases p now
    · refine .inl ⟨.hidden, hdue, fun t' ht' => ?_, hpoll⟩
      cases t' with
      | memWatchdog => exact hmem
      | idle => exact hidle
      | hidden => exact absurd ht' (by decide)
    · refine .inr ⟨fun t => ?_, hpoll⟩
      cases t with
      | memWatchdog => exact hmem
      | idle => exact hidle
      | hidden => exact hhidden.resolve_left hbusy

/-- What a poll can do: fire one trigger that is due, or none, and note at most a
watchdog that the cooldown holds back. -/
theorem poll_cases (p : ResetPolicy) (now : Nat) :
    (∃ t, p.Due now t ∧ p.inCooldown now = false ∧
      (∀ t' : ResetTrigger, t'.rank < t.rank → ¬ p.Due now t') ∧
      p.poll now = ((p.consume t).startCooldown now, some t)) ∨
    ((p.inCooldown now = true ∨ ∀ t, ¬ p.Due now t) ∧ ∃ s : Bool,
      (s = true → p.suppressed = true ∨ p.memPending = true) ∧
        p.poll now = ({ p with suppressed := s }, none)) := by
  cases hcool : p.inCooldown now with
  | true => exact .inr ⟨.inl rfl, poll_cooldown hcool⟩
  | false =>
    obtain ⟨t, hdue, hfirst, hpoll⟩ | ⟨hnone, hpoll⟩ := poll_free hcool
    · exact .inl ⟨t, hdue, rfl, hfirst, hpoll⟩
    · exact .inr ⟨.inr hnone, p.suppressed, .inl, hpoll⟩

theorem poll_fires_iff : (p.poll now).2 ≠ none ↔
    (∃ t, p.Due now t) ∧ p.inCooldown now = false := by
  obtain ⟨t, hdue, hfree, -, h⟩ | ⟨hnone, _, -, h⟩ := poll_cases p now
  · rw [h]
    exact iff_of_true (Option.some_ne_none t) ⟨⟨t, hdue⟩, hfree⟩
  · rw [h]
    refine iff_of_false (fun hne => hne rfl) ?_
    rintro ⟨⟨t, hdue⟩, hfree⟩
    rcases hnone with hbusy | hnone
    · exact Bool.false_ne_true (hfree.symm.trans hbusy)
    · exact hnone t hdue

/-- A poll fires the trigger of the lowest rank among those that are due. -/
theorem poll_eq_some (h : (p.poll now).2 = some t) : p.Due now t ∧
    (∀ t' : ResetTrigger, p.Due now t' → t.rank ≤ t'.rank) ∧
      (p.poll now).1 = (p.consume t).startCooldown now := by
  obtain ⟨t', hdue, -, hfirst, hpoll⟩ | ⟨-, _, -, hpoll⟩ := poll_cases p now
  · rw [hpoll] at h ⊢
    obtain rfl := Option.some_inj.mp h
    exact ⟨hdue, fun t hd => Nat.le_of_not_lt fun hlt => hfirst t hlt hd, rfl⟩
  · rw [hpoll] at h
    cases h

/-- A poll that fires nothing changes at most `suppressed`. -/
theorem poll_eq_none (h : (p.poll now).2 = none) :
    ∃ s : Bool, (p.poll now).1 = { p with suppressed := s } := by
  obtain ⟨t, -, -, -, hpoll⟩ | ⟨-, s, -, hpoll⟩ := poll_cases p now
  · rw [hpoll] at h
    cases h
  · exact ⟨s, congrArg Prod.fst hpoll⟩

theorem rank_injective {t t' : ResetTrigger} (h : t.rank = t'.rank) : t = t' := by
  cases t <;> cases t' <;> first | rfl | cases h

/-- What a poll fires does not depend on `suppressed`. -/
theorem poll_suppressed (p : ResetPolicy) (s : Bool) (now : Nat) :
    ({ p with suppressed := s }.poll now).2 = (p.poll now).2 := by
  have hdue : ∀ t, ({ p with suppressed := s } : ResetPolicy).Due now t ↔ p.Due now t := by
    intro t
    cases t <;> exact Iff.rfl
  cases h : (p.poll now).2 with
  | none =>
    have hnone : ¬ (p.poll now).2 ≠ none := not_not.mpr h
    rw [poll_fires_iff] at hnone
    refine not_not.mp fun hne => hnone ?_
    obtain ⟨⟨t, ht⟩, hfree⟩ := poll_fires_iff.mp hne
    exact ⟨⟨t, (hdue t).mp ht⟩, hfree⟩
  | some t =>
    obtain ⟨hd, hfirst, -⟩ := poll_eq_some h
    have hfree : p.inCooldown now = false :=
      (poll_fires_iff.mp (by rw [h]; exact Option.some_ne_none t)).2
    have hfires : ({ p with suppressed := s }.poll now).2 ≠ none :=
      poll_fires_iff.mpr ⟨⟨t, (hdue t).mpr hd⟩, hfree⟩
    obtain ⟨t', ht'⟩ := Option.ne_none_iff_exists'.mp hfires
    obtain ⟨hd', hfirst', -⟩ := poll_eq_some ht'
    rw [ht', rank_injective (Nat.le_antisymm (hfirst' t ((hdue t).mpr hd))
      (hfirst t' ((hdue t').mp hd')))]

theorem onWorkspaceSwitch_cases (p : ResetPolicy) (now : Nat) :
    (p.memPending = true ∧ p.inCooldown now = false ∧
      p.onWorkspaceSwitch now =
        ((p.consume .memWatchdog).startCooldown now, some .memWatchdog)) ∨
    ∃ s : Bool, (s = true → p.suppressed = true ∨ p.memPending = true) ∧
      p.onWorkspaceSwitch now = ({ p with suppressed := s }, none) := by
  unfold onWorkspaceSwitch
  split
  next => exact .inr ⟨p.suppressed, .inl, rfl⟩
  next hmem =>
    have hmem : p.memPending = true := by simpa using hmem
    split
    next => exact .inr ⟨true, fun _ => .inr hmem, rfl⟩
    next hcool => exact .inl ⟨hmem, by simpa using hcool, rfl⟩

end ResetLemmas

end Mast
