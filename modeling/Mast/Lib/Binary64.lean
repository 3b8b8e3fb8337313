import Mathlib.Algebra.Order.Field.Basic
import Mathlib.Algebra.Order.Ring.Rat
import Mathlib.Tactic.Positivity
import Mathlib.Tactic.Ring

/-!
# The binary64 format

An `F64` is its 64 bits. Comparison is the integer comparison of the sign and
magnitude fields, the way the format is laid out to allow; `lt_iff` says that on
finite numbers it is the order of the rational values.
-/

/-- A binary64 number, as its bits. -/
structure F64 where
  bits : UInt64
deriving DecidableEq, Repr

namespace F64

/-- The sign bit. -/
def isNegative (x : F64) : Bool := decide (2 ^ 63 ≤ x.bits.toNat)

/-- The exponent and fraction fields, read as one number. -/
def magnitude (x : F64) : Nat := x.bits.toNat % 2 ^ 63

/-- Neither an infinity nor a NaN: the exponent field is not all ones. -/
def isFinite (x : F64) : Bool := decide (x.magnitude / 2 ^ 52 < 2047)

/-- A NaN: the exponent field is all ones and the fraction is not zero. -/
def isNaN (x : F64) : Bool := decide (2047 * 2 ^ 52 < x.magnitude)

/-- The number's place in the order of the format; both zeros have place 0. -/
def place (x : F64) : Int := if x.isNegative then -(x.magnitude : Int) else x.magnitude

/-- `<` of the format: false when either side is a NaN. -/
def lt (x y : F64) : Bool := !x.isNaN && !y.isNaN && decide (x.place < y.place)

/-- `<=` of the format: false when either side is a NaN. -/
def le (x y : F64) : Bool := !x.isNaN && !y.isNaN && decide (x.place ≤ y.place)

/-- `0.0` -/
def zero : F64 := ⟨0⟩

/-- `0.5` -/
def half : F64 := ⟨0x3FE0000000000000⟩

/-- `1.0` -/
def one : F64 := ⟨0x3FF0000000000000⟩

/-! ## Integers -/

/-- The number nearest to a natural number below `2 ^ 64`; a tie goes to the even
fraction. A carry out of the fraction raises the exponent. -/
def ofNat (n : Nat) : F64 :=
  if n = 0 then zero
  else
    let e := n.log2
    let significand :=
      if e ≤ 52 then n * 2 ^ (52 - e)
      else
        let q := n / 2 ^ (e - 52)
        let r := n % 2 ^ (e - 52)
        if 2 ^ (e - 52) < 2 * r ∨ (2 * r = 2 ^ (e - 52) ∧ q % 2 = 1) then q + 1 else q
    ⟨UInt64.ofNat ((e + 1022) * 2 ^ 52 + significand)⟩

/-- The number nearest to an integer. -/
def ofInt (n : Int) : F64 :=
  if n < 0 then ⟨UInt64.ofNat (2 ^ 63 + (ofNat n.natAbs).bits.toNat)⟩ else ofNat n.natAbs

/-- The bits of a converted natural number are those of a finite positive number. -/
theorem bits_ofNat_lt {n : Nat} (h : n < 2 ^ 64) : (ofNat n).bits.toNat < 2047 * 2 ^ 52 := by
  unfold ofNat
  split
  · decide
  next hne =>
    have he : n.log2 < 64 := (Nat.log2_lt hne).mpr h
    have hn : n < 2 ^ (n.log2 + 1) := Nat.lt_log2_self
    have hsignificand : (if n.log2 ≤ 52 then n * 2 ^ (52 - n.log2)
        else if 2 ^ (n.log2 - 52) < 2 * (n % 2 ^ (n.log2 - 52)) ∨
            (2 * (n % 2 ^ (n.log2 - 52)) = 2 ^ (n.log2 - 52) ∧ n / 2 ^ (n.log2 - 52) % 2 = 1) then
          n / 2 ^ (n.log2 - 52) + 1
        else n / 2 ^ (n.log2 - 52)) ≤ 2 ^ 53 := by
      split
      next hle =>
        calc n * 2 ^ (52 - n.log2) ≤ 2 ^ (n.log2 + 1) * 2 ^ (52 - n.log2) :=
              Nat.mul_le_mul_right _ hn.le
          _ = 2 ^ 53 := by rw [← pow_add]; congr 1; omega
      next hgt =>
        have hq : n / 2 ^ (n.log2 - 52) < 2 ^ 53 := by
          rw [Nat.div_lt_iff_lt_mul (by positivity), ← pow_add]
          exact hn.trans_le (Nat.pow_le_pow_right (by decide) (by omega))
        split <;> omega
    dsimp only
    rw [UInt64.toNat_ofNat']
    refine (Nat.mod_le _ _).trans_lt ?_
    omega

theorem isFinite_of_lt {x : F64} (h : x.magnitude < 2047 * 2 ^ 52) : x.isFinite = true :=
  decide_eq_true ((Nat.div_lt_iff_lt_mul (by decide)).mpr h)

theorem isFinite_ofNat {n : Nat} (h : n < 2 ^ 64) : (ofNat n).isFinite = true := by
  have hbits := bits_ofNat_lt h
  refine isFinite_of_lt ?_
  rw [magnitude, Nat.mod_eq_of_lt (hbits.trans (by decide))]
  exact hbits

theorem isFinite_ofInt {n : Int} (h : n.natAbs < 2 ^ 64) : (ofInt n).isFinite = true := by
  unfold ofInt
  split
  next =>
    have hbits := bits_ofNat_lt h
    refine isFinite_of_lt ?_
    rw [magnitude, UInt64.toNat_ofNat']
    omega
  next => exact isFinite_ofNat h

/-! ## Rational values -/

/-- The value of a magnitude, in units of the least positive number. -/
def units (m : Nat) : Nat :=
  if m < 2 ^ 52 then m else (2 ^ 52 + m % 2 ^ 52) * 2 ^ (m / 2 ^ 52 - 1)

/-- The rational value of a finite number. -/
def value (x : F64) : ℚ :=
  (if x.isNegative then -(units x.magnitude : ℚ) else units x.magnitude) / 2 ^ 1074

theorem units_lt_units {m n : Nat} (h : m < n) : units m < units n := by
  unfold units
  split
  · next hm =>
    split
    · exact h
    · next hn =>
      have hone : 1 ≤ 2 ^ (n / 2 ^ 52 - 1) := Nat.one_le_two_pow
      calc m < 2 ^ 52 := hm
        _ ≤ (2 ^ 52 + n % 2 ^ 52) * 1 := by omega
        _ ≤ _ := Nat.mul_le_mul_left _ hone
  · next hm =>
    have hn : ¬ n < 2 ^ 52 := by omega
    rw [if_neg hn]
    have hdm := Nat.div_add_mod m (2 ^ 52)
    have hdn := Nat.div_add_mod n (2 ^ 52)
    have hfm : m % 2 ^ 52 < 2 ^ 52 := Nat.mod_lt _ (by norm_num)
    have hfn : n % 2 ^ 52 < 2 ^ 52 := Nat.mod_lt _ (by norm_num)
    have hexp : m / 2 ^ 52 ≤ n / 2 ^ 52 := Nat.div_le_div_right h.le
    rcases hexp.eq_or_lt with heq | hlt
    · -- one binade: the fractions decide
      rw [heq] at hdm ⊢
      exact Nat.mul_lt_mul_of_pos_right (by omega) (by positivity)
    · -- a larger exponent: already the least number of that binade is larger
      have hm1 : 1 ≤ m / 2 ^ 52 := (Nat.one_le_div_iff (by norm_num)).mpr (by omega)
      have hpow : 2 ^ (m / 2 ^ 52 - 1) * 2 ≤ 2 ^ (n / 2 ^ 52 - 1) := by
        rw [← pow_succ]
        exact Nat.pow_le_pow_right (by norm_num) (by omega)
      calc (2 ^ 52 + m % 2 ^ 52) * 2 ^ (m / 2 ^ 52 - 1)
          < (2 ^ 52 * 2) * 2 ^ (m / 2 ^ 52 - 1) :=
            Nat.mul_lt_mul_of_pos_right (by omega) (by positivity)
        _ = 2 ^ 52 * (2 ^ (m / 2 ^ 52 - 1) * 2) := by ring
        _ ≤ (2 ^ 52 + n % 2 ^ 52) * 2 ^ (n / 2 ^ 52 - 1) :=
            Nat.mul_le_mul (by omega) hpow

theorem units_lt_units_iff {m n : Nat} : units m < units n ↔ m < n := by
  refine ⟨fun h => ?_, units_lt_units⟩
  by_contra hle
  rcases (Nat.le_of_not_lt hle).eq_or_lt with heq | hlt
  · exact absurd h (heq ▸ lt_irrefl _)
  · exact absurd h (units_lt_units hlt).not_gt

theorem units_zero : units 0 = 0 := by norm_num [units]

theorem units_pos_iff {m : Nat} : 0 < units m ↔ 0 < m := by
  have h := units_lt_units_iff (m := 0) (n := m)
  rwa [units_zero] at h

/-- On numbers, the order of the format is the order of the rational values. -/
theorem value_lt_iff {x y : F64} : x.value < y.value ↔ x.place < y.place := by
  unfold value place
  rw [div_lt_div_iff_of_pos_right (by positivity)]
  have hx : (0 : ℚ) ≤ units x.magnitude := by positivity
  have hy : (0 : ℚ) ≤ units y.magnitude := by positivity
  have hx0 := units_pos_iff (m := x.magnitude)
  have hy0 := units_pos_iff (m := y.magnitude)
  have hxy := units_lt_units_iff (m := x.magnitude) (n := y.magnitude)
  have hyx := units_lt_units_iff (m := y.magnitude) (n := x.magnitude)
  split <;> split
  · rw [neg_lt_neg_iff, neg_lt_neg_iff, Nat.cast_lt, Nat.cast_lt]
    exact hyx
  · have hcast : -(units x.magnitude : ℚ) < units y.magnitude ↔
        -(units x.magnitude : ℤ) < units y.magnitude := by norm_cast
    rw [hcast]
    omega
  · have hcast : (units x.magnitude : ℚ) < -(units y.magnitude : ℚ) ↔
        (units x.magnitude : ℤ) < -(units y.magnitude : ℤ) := by norm_cast
    rw [hcast]
    omega
  · rw [Nat.cast_lt, Nat.cast_lt]
    exact hxy

theorem isNaN_of_isFinite {x : F64} (h : x.isFinite = true) : x.isNaN = false := by
  simp only [isFinite, isNaN, decide_eq_true_eq, decide_eq_false_iff_not] at h ⊢
  omega

/-- `<` on finite numbers compares their values. -/
theorem lt_iff {x y : F64} (hx : x.isFinite = true) (hy : y.isFinite = true) :
    x.lt y = true ↔ x.value < y.value := by
  simp [lt, isNaN_of_isFinite hx, isNaN_of_isFinite hy, value_lt_iff]

/-- `<=` is the negation of `<` the other way round, on finite numbers. -/
theorem le_eq_not_lt {x y : F64} (hx : x.isFinite = true) (hy : y.isFinite = true) :
    x.le y = !y.lt x := by
  simp only [le, lt, isNaN_of_isFinite hx, isNaN_of_isFinite hy, Bool.not_false, Bool.true_and]
  by_cases h : x.place ≤ y.place <;> simp [h, not_le.mp]

theorem value_zero : zero.value = 0 := by
  have h : zero.magnitude = 0 := by decide
  simp [value, h, units_zero]

theorem value_one : one.value = 1 := by
  have hm : one.magnitude = 1023 * 2 ^ 52 := by decide
  have hs : one.isNegative = false := by decide
  have hu : units (1023 * 2 ^ 52) = 2 ^ 1074 := by
    rw [units, if_neg (by omega), Nat.mul_mod_left, Nat.mul_div_cancel _ (by omega),
      Nat.add_zero, ← pow_add]
  have hpow : (2 : ℚ) ^ 1074 ≠ 0 := pow_ne_zero _ two_ne_zero
  rw [value, hm, hs, hu, if_neg Bool.false_ne_true, Nat.cast_pow, Nat.cast_ofNat]
  exact div_self hpow

end F64
