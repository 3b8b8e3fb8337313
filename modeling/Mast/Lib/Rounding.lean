import Mast.Lib.Binary64

/-!
# The order of converted integers

Converting a natural number to binary64 rounds it. Rounding keeps the order, and up to
`2 ^ 53` it keeps distinct numbers distinct.

Results:
1. `F64.lt_of_ofNat_lt`: a converted number that compares smaller was smaller.
2. `F64.bits_ofNat_strict`: up to `2 ^ 53` distinct numbers stay distinct.
-/

namespace F64

/-- The fraction of a converted number with its leading one, rounded to 53 bits. -/
def significand (n : Nat) : Nat :=
  let e := n.log2
  if e ≤ 52 then n * 2 ^ (52 - e)
  else
    let q := n / 2 ^ (e - 52)
    let r := n % 2 ^ (e - 52)
    if 2 ^ (e - 52) < 2 * r ∨ (2 * r = 2 ^ (e - 52) ∧ q % 2 = 1) then q + 1 else q

theorem ofNat_eq {n : Nat} (h : n ≠ 0) :
    ofNat n = ⟨UInt64.ofNat ((n.log2 + 1022) * 2 ^ 52 + significand n)⟩ := by
  rw [ofNat, if_neg h]
  rfl

/-- Rounding to a multiple of `u`, a tie to the even multiple, keeps the order. -/
theorem round_mono {m n u : Nat} (h : m ≤ n) :
    (if u < 2 * (m % u) ∨ (2 * (m % u) = u ∧ m / u % 2 = 1) then m / u + 1 else m / u) ≤
      if u < 2 * (n % u) ∨ (2 * (n % u) = u ∧ n / u % 2 = 1) then n / u + 1 else n / u := by
  have hdiv : m / u ≤ n / u := Nat.div_le_div_right h
  rcases hdiv.lt_or_eq with hlt | heq
  · split <;> split <;> omega
  · have hm := Nat.div_add_mod m u
    have hn := Nat.div_add_mod n u
    rw [heq] at hm ⊢
    have hmod : m % u ≤ n % u := by omega
    split <;> split <;> omega

theorem significand_mono {m n : Nat} (h : m ≤ n) (hlog : m.log2 = n.log2) :
    significand m ≤ significand n := by
  unfold significand
  rw [hlog]
  dsimp only
  split
  · exact Nat.mul_le_mul_right _ h
  · exact round_mono h

theorem significand_bounds {n : Nat} (h : n ≠ 0) :
    2 ^ 52 ≤ significand n ∧ significand n ≤ 2 ^ 53 := by
  have hlow : 2 ^ n.log2 ≤ n := Nat.log2_self_le h
  have hhigh : n < 2 ^ (n.log2 + 1) := Nat.lt_log2_self
  unfold significand
  dsimp only
  split
  next hle =>
    constructor
    · calc 2 ^ 52 = 2 ^ n.log2 * 2 ^ (52 - n.log2) := by rw [← pow_add]; congr 1; omega
        _ ≤ n * 2 ^ (52 - n.log2) := Nat.mul_le_mul_right _ hlow
    · calc n * 2 ^ (52 - n.log2) ≤ 2 ^ (n.log2 + 1) * 2 ^ (52 - n.log2) :=
            Nat.mul_le_mul_right _ hhigh.le
        _ = 2 ^ 53 := by rw [← pow_add]; congr 1; omega
  next hgt =>
    have hq : n / 2 ^ (n.log2 - 52) < 2 ^ 53 := by
      rw [Nat.div_lt_iff_lt_mul (by positivity), ← pow_add]
      exact hhigh.trans_le (Nat.pow_le_pow_right (by decide) (by omega))
    have hq' : 2 ^ 52 ≤ n / 2 ^ (n.log2 - 52) := by
      rw [Nat.le_div_iff_mul_le (by positivity), ← pow_add]
      exact le_trans (Nat.pow_le_pow_right (by decide) (by omega)) hlow
    split <;> omega

theorem toNat_bits_ofNat {n : Nat} (h : n ≠ 0) (hlt : n < 2 ^ 64) :
    (ofNat n).bits.toNat = (n.log2 + 1022) * 2 ^ 52 + significand n := by
  have hlog : n.log2 < 64 := (Nat.log2_lt h).mpr hlt
  have hsig := (significand_bounds h).2
  rw [ofNat_eq h, UInt64.toNat_ofNat']
  exact Nat.mod_eq_of_lt (by omega)

theorem log2_mono {m n : Nat} (hm : m ≠ 0) (h : m ≤ n) : m.log2 ≤ n.log2 :=
  (Nat.le_log2 (by omega)).mpr ((Nat.log2_self_le hm).trans h)

/-- The nearest number to a larger natural number is not smaller. -/
theorem bits_ofNat_mono {m n : Nat} (h : m ≤ n) (hn : n < 2 ^ 64) :
    (ofNat m).bits.toNat ≤ (ofNat n).bits.toNat := by
  rcases Nat.eq_zero_or_pos m with rfl | hm
  · exact Nat.zero_le _
  · have hm' : m ≠ 0 := by omega
    have hn' : n ≠ 0 := by omega
    rw [toNat_bits_ofNat hm' (by omega), toNat_bits_ofNat hn' hn]
    have hmb := significand_bounds hm'
    have hnb := significand_bounds hn'
    rcases (log2_mono hm' h).lt_or_eq with hlt | heq
    · omega
    · have hsig := significand_mono h heq
      omega

theorem ofNat_lt_exact {n : Nat} (h : n ≠ 0) (hn : n < 2 ^ 53) :
    significand n = n * 2 ^ (52 - n.log2) ∧ significand n < 2 ^ 53 := by
  have hlog : n.log2 ≤ 52 := by
    have := (Nat.log2_lt h).mpr hn
    omega
  have hhigh : n < 2 ^ (n.log2 + 1) := Nat.lt_log2_self
  have heq : significand n = n * 2 ^ (52 - n.log2) := if_pos hlog
  refine ⟨heq, heq ▸ ?_⟩
  calc n * 2 ^ (52 - n.log2) < 2 ^ (n.log2 + 1) * 2 ^ (52 - n.log2) :=
        Nat.mul_lt_mul_of_pos_right hhigh (by positivity)
    _ = 2 ^ 53 := by rw [← pow_add]; congr 1; omega

/-- Natural numbers up to `2 ^ 53` stay distinct. -/
theorem bits_ofNat_strict {m n : Nat} (h : m < n) (hn : n ≤ 2 ^ 53) :
    (ofNat m).bits.toNat < (ofNat n).bits.toNat := by
  have hn' : n ≠ 0 := by omega
  rw [toNat_bits_ofNat hn' (by omega)]
  have hnb := significand_bounds hn'
  rcases Nat.eq_zero_or_pos m with rfl | hm
  · have h0 : (ofNat 0).bits.toNat = 0 := rfl
    omega
  · have hm' : m ≠ 0 := by omega
    rw [toNat_bits_ofNat hm' (by omega)]
    obtain ⟨hexact, hlt⟩ := ofNat_lt_exact hm' (by omega)
    rcases (log2_mono hm' h.le).lt_or_eq with hlog | hlog
    · omega
    · have hn53 : n < 2 ^ 53 := by
        by_contra hge
        have hlog53 : n = 2 ^ 53 := by omega
        have := (Nat.log2_lt hm').mpr (show m < 2 ^ 53 by omega)
        rw [hlog53, Nat.log2_two_pow] at hlog
        omega
      have hexact' := (ofNat_lt_exact hn' hn53).1
      have hsig : significand m < significand n := by
        rw [hexact, hexact', hlog]
        exact Nat.mul_lt_mul_of_pos_right h (by positivity)
      omega

theorem place_ofNat {n : Nat} (h : n < 2 ^ 64) : (ofNat n).place = (ofNat n).bits.toNat := by
  have hbits := bits_ofNat_lt h
  have hneg : (ofNat n).isNegative = false := decide_eq_false (by omega)
  rw [place, hneg, magnitude, Nat.mod_eq_of_lt (by omega)]
  rfl

theorem lt_ofNat_iff {m n : Nat} (hm : m < 2 ^ 64) (hn : n < 2 ^ 64) :
    (ofNat m).lt (ofNat n) = true ↔ (ofNat m).bits.toNat < (ofNat n).bits.toNat := by
  have hnan : ∀ k, k < 2 ^ 64 → (ofNat k).isNaN = false := fun k hk =>
    isNaN_of_isFinite (isFinite_ofNat hk)
  simp [lt, hnan m hm, hnan n hn, place_ofNat hm, place_ofNat hn]

/-- A number that compares smaller came from a smaller natural number. -/
theorem lt_of_ofNat_lt {m n : Nat} (hm : m < 2 ^ 64) (hn : n < 2 ^ 64)
    (h : (ofNat m).lt (ofNat n) = true) : m < n := by
  rw [lt_ofNat_iff hm hn] at h
  by_contra hge
  exact absurd (bits_ofNat_mono (Nat.le_of_not_lt hge) hm) (by omega)

end F64
