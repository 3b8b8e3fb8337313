import Mathlib.Data.List.Induction

/-!
# Decimal text

Digits that need not be the shortest text of their number: zeros may stand before it.

Results:
1. `digits_eq`: digits are zeros and the text of their number.
2. `zeros_unique`: these zeros and this number are determined by the digits.
-/

namespace Decimal

variable {cs : List Char} {c : Char} {n m j k : Nat}

/-- The text of a number with zeros before it. -/
def padded (zeros n : Nat) : List Char := List.replicate zeros '0' ++ Nat.toDigits 10 n

theorem digitChar_of_isDigit (h : c.isDigit) : Nat.digitChar (c.toNat - '0'.toNat) = c := by
  obtain ⟨hlo, hhi⟩ := Char.isDigit_iff_toNat.mp h
  have hlo' : 48 ≤ c.toNat := hlo
  have hhi' : c.toNat ≤ 57 := hhi
  have hzero : '0'.toNat = 48 := rfl
  apply Char.toNat_inj.mp
  rw [hzero, Nat.toNat_digitChar_of_lt_ten (by omega)]
  omega

theorem isDigit_of_mem_padded (h : c ∈ padded k n) : c.isDigit := by
  rcases List.mem_append.mp h with h | h
  · rw [(List.mem_replicate.mp h).2]
    rfl
  · exact Nat.isDigit_of_mem_toDigits (by decide) (by decide) h

theorem padded_ne_nil : padded k n ≠ [] := by
  intro h
  exact Nat.toDigits_ne_nil (List.append_eq_nil_iff.mp h).2

theorem ofDigitChars_padded : Nat.ofDigitChars 10 (padded k n) 0 = n := by
  rw [padded, Nat.ofDigitChars_append, Nat.ofDigitChars_replicate_zero, Nat.mul_zero,
    Nat.ofDigitChars_ten_toDigits]

/-- One more digit behind a padded number. -/
theorem padded_append (h : c.isDigit) : ∃ j, padded k n ++ [c] =
    padded j (10 * n + (c.toNat - '0'.toNat)) := by
  have hlt : c.toNat - '0'.toNat < 10 := by
    have hhi : c.toNat ≤ 57 := (Char.isDigit_iff_toNat.mp h).2
    have hzero : '0'.toNat = 48 := rfl
    omega
  have htext : Nat.toDigits 10 (c.toNat - '0'.toNat) = [c] := by
    rw [Nat.toDigits_of_lt_base hlt, digitChar_of_isDigit h]
  rcases Nat.eq_zero_or_pos n with rfl | hpos
  · -- a zero becomes one more zero before the digit
    refine ⟨k + 1, ?_⟩
    rw [padded, padded, Nat.toDigits_zero, Nat.mul_zero, Nat.zero_add, htext,
      List.replicate_succ']
  · refine ⟨k, ?_⟩
    rw [padded, padded, ← Nat.toDigits_append_toDigits (by decide) hpos hlt, htext,
      List.append_assoc]

/-- Digits are zeros and the text of their number. -/
theorem digits_eq (hne : cs ≠ []) (h : ∀ c ∈ cs, c.isDigit) :
    ∃ k, cs = padded k (Nat.ofDigitChars 10 cs 0) := by
  induction cs using List.reverseRecOn with
  | nil => exact absurd rfl hne
  | append_singleton cs c ih =>
    have hdigit : c.isDigit := h c (by simp)
    have hvalue : Nat.ofDigitChars 10 (cs ++ [c]) 0 =
        10 * Nat.ofDigitChars 10 cs 0 + (c.toNat - '0'.toNat) := by
      rw [Nat.ofDigitChars_append, Nat.ofDigitChars_cons, Nat.ofDigitChars_nil]
    rw [hvalue]
    rcases eq_or_ne cs [] with rfl | hcs
    · refine ⟨0, ?_⟩
      have hlt : c.toNat - '0'.toNat < 10 := by
        have hhi : c.toNat ≤ 57 := (Char.isDigit_iff_toNat.mp hdigit).2
        have hzero : '0'.toNat = 48 := rfl
        omega
      rw [Nat.ofDigitChars_nil, padded, Nat.mul_zero, Nat.zero_add, Nat.toDigits_of_lt_base hlt,
        digitChar_of_isDigit hdigit]
      rfl
    · obtain ⟨k, hk⟩ := ih hcs fun c hc => h c (List.mem_append_left _ hc)
      obtain ⟨j, hj⟩ := padded_append (k := k) (n := Nat.ofDigitChars 10 cs 0) hdigit
      refine ⟨j, ?_⟩
      rw [← hj, ← hk]

/-- The zeros and the number are determined by the digits. -/
theorem zeros_unique (h : padded j n = padded k m) : j = k ∧ n = m := by
  have hvalue : n = m := by
    have := congrArg (Nat.ofDigitChars 10 · 0) h
    simpa only [ofDigitChars_padded] using this
  subst hvalue
  refine ⟨?_, rfl⟩
  have hlen := congrArg List.length h
  simp only [padded, List.length_append, List.length_replicate] at hlen
  omega

end Decimal
