import Mathlib.Data.List.Basic
import Mathlib.Data.Nat.Basic
import Mathlib.Order.Basic

/-!
# Occurrences in a range

Where an element occurs in a list, from one index on and before another.

Results:
1. `FirstIn.eq`, `LastIn.eq`: there is at most one first and one last occurrence.
2. `noneIn_slice`, `FirstIn.of_slice`, `LastIn.of_slice`: the occurrences in a slice are those in
   the list.
-/

universe u

namespace Occurrence

variable {α : Type u} {x : α} {l : List α} {start stop r len q : Nat}

/-- No occurrence. -/
def NoneIn (x : α) (l : List α) (start stop : Nat) : Prop :=
  ∀ i, start ≤ i → i < stop → l[i]? ≠ some x

structure FirstIn (x : α) (l : List α) (start stop q : Nat) : Prop where
  ge : start ≤ q
  lt : q < stop
  found : l[q]? = some x
  none : NoneIn x l start q

structure LastIn (x : α) (l : List α) (start stop q : Nat) : Prop where
  ge : start ≤ q
  lt : q < stop
  found : l[q]? = some x
  none : NoneIn x l (q + 1) stop

theorem noneIn_of_le (h : stop ≤ start) : NoneIn x l start stop := fun i hstart hstop => by omega

theorem NoneIn.mono (h : NoneIn x l start stop) {start' stop' : Nat} (hstart : start ≤ start')
    (hstop : stop' ≤ stop) : NoneIn x l start' stop' :=
  fun i hi hi' => h i (hstart.trans hi) (hi'.trans_le hstop)

theorem NoneIn.cons (h : NoneIn x l (start + 1) stop) (hne : l[start]? ≠ some x) :
    NoneIn x l start stop := by
  intro i hstart hstop
  rcases Nat.eq_or_lt_of_le hstart with rfl | hlt
  · exact hne
  · exact h i hlt hstop

theorem not_noneIn_of_firstIn (h : FirstIn x l start stop q) : ¬ NoneIn x l start stop :=
  fun hnone => hnone q h.ge h.lt h.found

theorem not_noneIn_of_lastIn (h : LastIn x l start stop q) : ¬ NoneIn x l start stop :=
  fun hnone => hnone q h.ge h.lt h.found

theorem FirstIn.eq {q' : Nat} (h : FirstIn x l start stop q) (h' : FirstIn x l start stop q') :
    q = q' := by
  rcases Nat.lt_trichotomy q q' with hlt | heq | hgt
  · exact absurd h.found (h'.none q h.ge hlt)
  · exact heq
  · exact absurd h'.found (h.none q' h'.ge hgt)

theorem LastIn.eq {q' : Nat} (h : LastIn x l start stop q) (h' : LastIn x l start stop q') :
    q = q' := by
  rcases Nat.lt_trichotomy q q' with hlt | heq | hgt
  · exact absurd h'.found (h.none q' hlt h'.lt)
  · exact heq
  · exact absurd h.found (h'.none q hgt h.lt)

theorem FirstIn.mono (h : FirstIn x l start stop q) {stop' : Nat} (hstop : stop ≤ stop') :
    FirstIn x l start stop' q :=
  ⟨h.ge, h.lt.trans_le hstop, h.found, h.none⟩

/-- Up to an occurrence, there is a first one. -/
theorem exists_firstIn (hstart : start ≤ q) (hfound : l[q]? = some x) :
    ∃ q', FirstIn x l start (q + 1) q' := by
  induction q using Nat.strong_induction_on with
  | _ q ih =>
    by_cases hnone : NoneIn x l start q
    · exact ⟨q, hstart, Nat.lt_succ_self q, hfound, hnone⟩
    · obtain ⟨i, hi, hlt, hat⟩ : ∃ i, start ≤ i ∧ i < q ∧ l[i]? = some x := by
        simpa [NoneIn] using hnone
      obtain ⟨q', hq'⟩ := ih i hlt hi hat
      exact ⟨q', hq'.mono (Nat.succ_le_succ hlt.le)⟩

/-! ## Slices -/

theorem getElem?_slice {i : Nat} (h : i < len) : ((l.drop r).take len)[i]? = l[r + i]? := by
  rw [List.getElem?_take_of_lt h, List.getElem?_drop]

theorem noneIn_slice (hstop : stop ≤ len) :
    NoneIn x ((l.drop r).take len) start stop ↔ NoneIn x l (r + start) (r + stop) := by
  constructor
  · intro h i hi hi'
    have hat := h (i - r) (by omega) (by omega)
    rwa [getElem?_slice (by omega), Nat.add_sub_cancel' (by omega)] at hat
  · intro h i hi hi'
    rw [getElem?_slice (hi'.trans_le hstop)]
    exact h (r + i) (by omega) (by omega)

theorem FirstIn.of_slice (hstop : stop ≤ len) (h : FirstIn x ((l.drop r).take len) start stop q) :
    FirstIn x l (r + start) (r + stop) (r + q) where
  ge := Nat.add_le_add_left h.ge r
  lt := Nat.add_lt_add_left h.lt r
  found := getElem?_slice (h.lt.trans_le hstop) ▸ h.found
  none := (noneIn_slice (h.lt.le.trans hstop)).mp h.none

theorem LastIn.of_slice (hstop : stop ≤ len) (h : LastIn x ((l.drop r).take len) start stop q) :
    LastIn x l (r + start) (r + stop) (r + q) where
  ge := Nat.add_le_add_left h.ge r
  lt := Nat.add_lt_add_left h.lt r
  found := getElem?_slice (h.lt.trans_le hstop) ▸ h.found
  none := (noneIn_slice hstop).mp h.none

end Occurrence
