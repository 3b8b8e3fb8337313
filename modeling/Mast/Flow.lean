import Mathlib.Algebra.Group.Nat.Defs
import Mathlib.Data.Nat.Init
import Mathlib.Order.Basic

/-!
# Flow control

`flow.rs`: how many bytes were sent to the frontend and not yet acknowledged, and
whether the reader is to pause. The account only decides; the reader of the
session obeys.
-/

namespace Mast

/-- The largest value of the width of `usize`. -/
def usizeMax : Nat := 2 ^ 64 - 1

inductive FlowAction
  | none
  | pause
  | resume
deriving DecidableEq, Repr

/-- The account. A low mark above the high one is refused at construction. -/
structure FlowControl where
  highWater : Nat
  lowWater : Nat
  pending : Nat
  paused : Bool
  low_le_high : lowWater ≤ highWater
deriving DecidableEq

namespace FlowControl

def new (highWater lowWater : Nat) (h : lowWater ≤ highWater) : FlowControl :=
  ⟨highWater, lowWater, 0, false, h⟩

/-- Bytes were sent. The pending count saturates. -/
def onSent (f : FlowControl) (n : Nat) : FlowControl × FlowAction :=
  let pending := min (f.pending + n) usizeMax
  if !f.paused && decide (f.highWater ≤ pending) then ({ f with pending, paused := true }, .pause)
  else ({ f with pending }, .none)

/-- Bytes were consumed, or were not delivered after all. -/
def onAcked (f : FlowControl) (n : Nat) : FlowControl × FlowAction :=
  let pending := f.pending - n
  if f.paused && decide (pending ≤ f.lowWater) then ({ f with pending, paused := false }, .resume)
  else ({ f with pending }, .none)

/-- The account starts over. -/
def reset (f : FlowControl) : FlowControl := { f with pending := 0, paused := false }

end FlowControl

namespace FlowLemmas

open FlowControl

variable {f : FlowControl}

/-! ## What each operation can do -/

theorem onSent_cases (f : FlowControl) (n : Nat) :
    (f.paused = false ∧ f.highWater ≤ min (f.pending + n) usizeMax ∧
      f.onSent n = ({ f with pending := min (f.pending + n) usizeMax, paused := true }, .pause)) ∨
    ((f.paused = false → min (f.pending + n) usizeMax < f.highWater) ∧
      f.onSent n = ({ f with pending := min (f.pending + n) usizeMax }, .none)) := by
  unfold onSent
  dsimp only
  split
  next h =>
    obtain ⟨hpaused, hfull⟩ := Bool.and_eq_true_iff.mp h
    exact .inl ⟨by simpa using hpaused, of_decide_eq_true hfull, rfl⟩
  next h =>
    refine .inr ⟨fun hpaused => Nat.lt_of_not_le fun hfull => h ?_, rfl⟩
    rw [hpaused, decide_eq_true hfull]
    rfl

theorem onAcked_cases (f : FlowControl) (n : Nat) :
    (f.paused = true ∧ f.pending - n ≤ f.lowWater ∧
      f.onAcked n = ({ f with pending := f.pending - n, paused := false }, .resume)) ∨
    ((f.paused = true → f.lowWater < f.pending - n) ∧
      f.onAcked n = ({ f with pending := f.pending - n }, .none)) := by
  unfold onAcked
  dsimp only
  split
  next h =>
    obtain ⟨hpaused, hlow⟩ := Bool.and_eq_true_iff.mp h
    exact .inl ⟨hpaused, of_decide_eq_true hlow, rfl⟩
  next h =>
    refine .inr ⟨fun hpaused => ?_, rfl⟩
    rw [hpaused, Bool.true_and, decide_eq_true_eq] at h
    exact Nat.lt_of_not_le h

@[simp] theorem pending_onSent (f : FlowControl) (n : Nat) :
    (f.onSent n).1.pending = min (f.pending + n) usizeMax := by
  obtain ⟨-, -, h⟩ | ⟨-, h⟩ := onSent_cases f n <;> rw [h]

@[simp] theorem pending_onAcked (f : FlowControl) (n : Nat) :
    (f.onAcked n).1.pending = f.pending - n := by
  obtain ⟨-, -, h⟩ | ⟨-, h⟩ := onAcked_cases f n <;> rw [h]

@[simp] theorem lowWater_onAcked (f : FlowControl) (n : Nat) :
    (f.onAcked n).1.lowWater = f.lowWater := by
  obtain ⟨-, -, h⟩ | ⟨-, h⟩ := onAcked_cases f n <;> rw [h]

end FlowLemmas

end Mast
