import Mathlib.Order.Bounds.Defs
import Mast.Reset.History

/-!
# When the reset policy is to be polled

The supervisor sleeps until `nextDeadline` and polls then. The two functions test the
same conditions in different ways: a poll refuses to fire in the cooldown, and
`nextDeadline` moves what falls into the cooldown to its end.

Results:
1. `fires_iff_deadline`: from now on a poll fires if and only if a firing deadline has come.
2. `wakes_in_time`: the supervisor neither oversleeps a firing nor polls for a deadline
   that is refused. A poll consumes the deadline of the trigger that it fires, which is
   the first one due by rank.
3. `not_consumes_returned`: the deadline that was returned can be another one.
-/

namespace Mast

namespace ResetLemmas

open ResetPolicy ResetHistory

variable {p : ResetPolicy} {now : Nat} {cfg : ResetConfig} {made : Nat} {s : ResetRun}

/-! ## The earliest of some deadlines -/

theorem earliest_eq_min? (l : List Nat) : earliest l = l.min? := by
  have hfold : ∀ (l : List Nat) (b : Nat), l.foldl consider (some b) = some (l.foldl min b) := by
    intro l
    induction l with
    | nil => exact fun b => rfl
    | cons t l ih => exact fun b => ih (min b t)
  cases l with
  | nil => rfl
  | cons t l => exact hfold l t

theorem earliest_eq_none {l : List Nat} : earliest l = none ↔ l = [] := by
  rw [earliest_eq_min?, List.min?_eq_none_iff]

theorem earliest_eq_some {l : List Nat} {d : Nat} :
    earliest l = some d ↔ d ∈ l ∧ ∀ t ∈ l, d ≤ t := by
  rw [earliest_eq_min?, List.min?_eq_some_iff]

/-! ## Firing deadlines -/

theorem clamp_le_iff {t d : Nat} (h : now ≤ t) :
    p.clamp now d ≤ t ↔ d ≤ t ∧ p.inCooldown t = false := by
  unfold clamp inCooldown
  cases p.cooldownUntil with
  | none => exact (and_iff_left rfl).symm
  | some u =>
    show (if now < u then max d u else d) ≤ t ↔ d ≤ t ∧ decide (t < u) = false
    rw [decide_eq_false_iff_not, Nat.not_lt]
    split
    next => exact Nat.max_le
    next hend => exact (and_iff_left ((Nat.not_lt.mp hend).trans h)).symm

/-- `next_deadline` considers the deadlines of the triggers, moved out of the cooldown.
It asks for the memory limit once more than a poll does. -/
theorem mem_firingDeadlines (hmem : p.memPending = true → p.cfg.memLimitBytes.isSome = true)
    {t : Nat} : t ∈ p.firingDeadlines now ↔
      ∃ trigger d, p.deadline trigger = some d ∧ p.clamp now d = t := by
  have hidle : t ∈ p.idleDeadlines now ↔ ∃ d, p.deadline .idle = some d ∧ p.clamp now d = t := by
    unfold deadline idleDeadlines
    cases p.cfg.idleMs <;> cases p.idleArmed <;> simp [eq_comm]
  have hhidden : t ∈ p.hiddenDeadlines now ↔
      ∃ d, p.deadline .hidden = some d ∧ p.clamp now d = t := by
    unfold deadline hiddenDeadlines
    cases p.cfg.hiddenMs <;> cases p.hiddenSince <;> cases p.hiddenFired <;> simp [eq_comm]
  have hwatchdog : t ∈ p.watchdogDeadlines now ↔
      ∃ d, p.deadline .memWatchdog = some d ∧ p.clamp now d = t := by
    unfold deadline watchdogDeadlines
    cases hpending : p.memPending with
    | false => simp
    | true => simp [hmem hpending, eq_comm]
  unfold firingDeadlines
  rw [List.mem_append, List.mem_append, hidle, hhidden, hwatchdog]
  constructor
  · rintro ((⟨d, h⟩ | ⟨d, h⟩) | ⟨d, h⟩)
    · exact ⟨.idle, d, h⟩
    · exact ⟨.hidden, d, h⟩
    · exact ⟨.memWatchdog, d, h⟩
  · rintro ⟨trigger, d, h⟩
    cases trigger with
    | idle => exact .inl (.inl ⟨d, h⟩)
    | hidden => exact .inl (.inr ⟨d, h⟩)
    | memWatchdog => exact .inr ⟨d, h⟩

/-- From now on, a poll fires if and only if a deadline has come that
`next_deadline` considers now. -/
theorem fires_iff_deadline (hmem : p.memPending = true → p.cfg.memLimitBytes.isSome = true)
    {t : Nat} (h : now ≤ t) :
    (p.poll t).2 ≠ none ↔ ∃ d ∈ p.firingDeadlines now, d ≤ t := by
  rw [poll_fires_iff]
  constructor
  · rintro ⟨⟨trigger, d, hd, hle⟩, hfree⟩
    exact ⟨p.clamp now d, (mem_firingDeadlines hmem).mpr ⟨trigger, d, hd, rfl⟩,
      (clamp_le_iff h).mpr ⟨hle, hfree⟩⟩
  · rintro ⟨_, hmemd, hle⟩
    obtain ⟨trigger, d, hd, rfl⟩ := (mem_firingDeadlines hmem).mp hmemd
    obtain ⟨hle, hfree⟩ := (clamp_le_iff h).mp hle
    exact ⟨⟨trigger, d, hd, hle⟩, hfree⟩

theorem limit_of_pending (ht : Tracks cfg made s) (h : s.policy.memPending = true) :
    s.policy.cfg.memLimitBytes.isSome = true := by
  obtain ⟨limit, hlimit, -⟩ := ht.memPending.mp h
  rw [ht.cfg_eq, hlimit]
  rfl

theorem deadline_consume_self (p : ResetPolicy) (trigger : ResetTrigger) (now : Nat) :
    ((p.consume trigger).startCooldown now).deadline trigger = none := by
  cases trigger <;> rfl

theorem deadline_consume_ne {trigger t : ResetTrigger} (h : t ≠ trigger) (p : ResetPolicy)
    (now : Nat) : ((p.consume trigger).startCooldown now).deadline t = p.deadline t := by
  cases trigger <;> cases t <;> first | rfl | exact absurd rfl h

end ResetLemmas

open ResetLemmas in
/-- The first poll from now on that fires is at the earliest firing deadline, or now if
that has passed, also after polls that fire nothing. To sleep until `nextDeadline` misses
no firing. And when the deadline that is returned is a firing one that has come, a poll
fires the first trigger that is due and consumes its deadline, which had come, and no
other one. -/
theorem wakes_in_time {cfg : ResetConfig} {made : Nat} {s : ResetRun}
    (h : ResetRun.machine.Reach (ResetRun.Start cfg made) s) (now : Nat) :
    (ResetPolicy.earliest (s.policy.firingDeadlines now) = none →
      ∀ t, now ≤ t → (s.policy.poll t).2 = none) ∧
    (∀ d, ResetPolicy.earliest (s.policy.firingDeadlines now) = some d →
      IsLeast {t | now ≤ t ∧ (s.policy.poll t).2 ≠ none} (max now d)) ∧
    (∀ t u, (s.policy.poll t).2 = none →
      ((s.policy.poll t).1.poll u).2 = (s.policy.poll u).2) ∧
    (∀ t, now ≤ t → (s.policy.poll t).2 ≠ none →
      ∃ d, s.policy.nextDeadline now = some d ∧ d ≤ t) ∧
    ∀ d, s.policy.nextDeadline now = some d → d ∈ s.policy.firingDeadlines now → d ≤ now →
      ∃ trigger, (s.policy.poll now).2 = some trigger ∧ s.policy.Due now trigger ∧
        (∀ t, s.policy.Due now t → trigger.rank ≤ t.rank) ∧
        (s.policy.poll now).1.deadline trigger = none ∧
        ∀ t, t ≠ trigger → (s.policy.poll now).1.deadline t = s.policy.deadline t := by
  have hmem := limit_of_pending (tracks_of_reach h)
  refine ⟨fun hnone t ht => ?_, fun d hd => ?_, fun t u hsilent => ?_, fun t ht hfires => ?_,
    fun d hd hfiring hle => ?_⟩
  · refine not_not.mp fun hfires => ?_
    obtain ⟨d, hd, -⟩ := (fires_iff_deadline hmem ht).mp hfires
    rw [earliest_eq_none.mp hnone] at hd
    cases hd
  · obtain ⟨hd, hleast⟩ := earliest_eq_some.mp hd
    refine ⟨⟨Nat.le_max_left now d, ?_⟩, fun t ht => ?_⟩
    · exact (fires_iff_deadline hmem (Nat.le_max_left now d)).mpr ⟨d, hd, Nat.le_max_right now d⟩
    · obtain ⟨d', hd', hle⟩ := (fires_iff_deadline hmem ht.1).mp ht.2
      exact Nat.max_le.mpr ⟨ht.1, (hleast d' hd').trans hle⟩
  · obtain ⟨suppressed, hpoll⟩ := poll_eq_none hsilent
    rw [hpoll]
    exact poll_suppressed s.policy suppressed u
  · obtain ⟨d, hd, hle⟩ := (fires_iff_deadline hmem ht).mp hfires
    unfold ResetPolicy.nextDeadline
    cases hnext : ResetPolicy.earliest (s.policy.firingDeadlines now ++
        s.policy.sampleDeadlines) with
    | none =>
      rw [earliest_eq_none, List.append_eq_nil_iff] at hnext
      rw [hnext.1] at hd
      cases hd
    | some e =>
      exact ⟨e, rfl, ((earliest_eq_some.mp hnext).2 d (List.mem_append_left _ hd)).trans hle⟩
  · have hfires := (fires_iff_deadline hmem (Nat.le_refl now)).mpr ⟨d, hfiring, hle⟩
    obtain ⟨trigger, htrigger⟩ := Option.ne_none_iff_exists'.mp hfires
    obtain ⟨hdue, hfirst, hafter⟩ := poll_eq_some htrigger
    rw [hafter]
    exact ⟨trigger, htrigger, hdue, hfirst, deadline_consume_self _ _ _,
      fun t ht => deadline_consume_ne ht _ _⟩

def twoTriggersConfig : ResetConfig := ⟨some 600, some 500, none, 0, 0, 0⟩

/-- A window without the focus, with `Hidden` due at 500 and `Idle` at 600. -/
def twoTriggers : ResetRun := (ResetRun.new twoTriggersConfig 0 (.inl rfl)).step (0, .focus false)

theorem reach_twoTriggers :
    ResetRun.machine.Reach (ResetRun.Start twoTriggersConfig 0) twoTriggers :=
  .step (.init ⟨.inl rfl, rfl⟩) (Nat.le_refl 0)

theorem wakes_in_time_hidden :
    ResetRun.machine.Reach (ResetRun.Start twoTriggersConfig 0) twoTriggers ∧
    IsLeast {t | 100 ≤ t ∧ (twoTriggers.policy.poll t).2 ≠ none} 500 :=
  ⟨reach_twoTriggers, (wakes_in_time reach_twoTriggers 100).2.1 500 (by decide)⟩

/-- With both triggers due, a poll fires `Idle`, and the deadline that was returned, of
`Hidden`, stays. -/
theorem not_consumes_returned : ¬ ∀ (cfg : ResetConfig) (made : Nat) (s : ResetRun) (now : Nat),
    ResetRun.machine.Reach (ResetRun.Start cfg made) s → s.now ≤ now →
    ∀ d, s.policy.nextDeadline now = some d → d ∈ s.policy.firingDeadlines now → d ≤ now →
      (s.policy.poll now).2 ≠ none ∧ d ∉ (s.policy.poll now).1.firingDeadlines now := by
  intro h
  have hconsumed := h _ 0 twoTriggers 700 reach_twoTriggers (by decide) 500 (by decide)
    (by decide) (by decide)
  exact hconsumed.2 (by decide)

end Mast
