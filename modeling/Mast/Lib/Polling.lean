import Mathlib.Algebra.Order.Floor.Div

/-!
# Loops that poll until a deadline

A loop looks at the clock once a turn, and sleeps for a period, or up to its deadline, when a turn
brought nothing. `periodsLeft` bounds the turns that bring nothing.

Results:
1. `periodsLeft_anti`: time makes it no larger.
2. `periodsLeft_sleep`: a sleep makes it smaller.
-/

namespace Polling

variable {period deadline checked now : Nat}

/-- The periods that have begun and are not over. -/
def periodsLeft (period deadline now : Nat) : Nat := (deadline - now) ⌈/⌉ period

theorem periodsLeft_le_iff (hperiod : 0 < period) {n : Nat} :
    periodsLeft period deadline now ≤ n ↔ deadline - now ≤ period * n := by
  rw [periodsLeft, ceilDiv_le_iff_le_smul hperiod, smul_eq_mul]

theorem periodsLeft_anti (hperiod : 0 < period) (h : checked ≤ now) :
    periodsLeft period deadline now ≤ periodsLeft period deadline checked := by
  rw [periodsLeft_le_iff hperiod]
  exact (Nat.sub_le_sub_left h deadline).trans ((periodsLeft_le_iff hperiod).mp (Nat.le_refl _))

/-- Before the deadline a period is left. -/
theorem periodsLeft_pos (hperiod : 0 < period) (h : checked < deadline) :
    0 < periodsLeft period deadline checked := by
  refine Nat.pos_of_ne_zero fun hzero => ?_
  have hle := (periodsLeft_le_iff hperiod).mp (Nat.le_of_eq hzero)
  rw [Nat.mul_zero] at hle
  exact absurd (Nat.le_of_sub_eq_zero (Nat.le_zero.mp hle)) (Nat.not_le_of_lt h)

/-- The clock was looked at before the deadline, and the loop sleeps afterwards. -/
theorem periodsLeft_sleep (hperiod : 0 < period) (hdeadline : checked < deadline)
    (h : checked ≤ now) : periodsLeft period deadline (now + min (deadline - now) period) + 1 ≤
      periodsLeft period deadline checked := by
  obtain ⟨n, hn⟩ := Nat.exists_eq_add_of_lt (periodsLeft_pos hperiod hdeadline)
  rw [Nat.zero_add] at hn
  rw [hn, Nat.add_le_add_iff_right, periodsLeft_le_iff hperiod]
  have hle := (periodsLeft_le_iff hperiod).mp (Nat.le_of_eq hn)
  rw [Nat.mul_succ] at hle
  rcases Nat.le_total (deadline - now) period with hnear | hfar
  · rw [Nat.min_eq_left hnear]
    omega
  · rw [Nat.min_eq_right hfar]
    omega

end Polling
