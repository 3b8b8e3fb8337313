import Mathlib.Data.Nat.Digits.Defs

/-!
# Numbers as bytes

A number in a fixed count of bytes, the lowest one first.

Results:
1. `decode_encode`: the bytes give back a number that fits.
-/

namespace LittleEndian

/-- The lowest `k` bytes of a number. -/
def encode (k n : Nat) : List UInt8 := (List.range k).map fun i => UInt8.ofNat (n / 256 ^ i)

def decode (bytes : List UInt8) : Nat := Nat.ofDigits 256 (bytes.map UInt8.toNat)

variable {k n m : Nat}

@[simp] theorem length_encode (k n : Nat) : (encode k n).length = k := by
  rw [encode, List.length_map, List.length_range]

theorem encode_succ (k n : Nat) : encode (k + 1) n = encode k n ++ [UInt8.ofNat (n / 256 ^ k)] := by
  rw [encode, List.range_succ, List.map_append]
  rfl

theorem decode_concat (bytes : List UInt8) (b : UInt8) :
    decode (bytes ++ [b]) = decode bytes + 256 ^ bytes.length * b.toNat := by
  rw [decode, List.map_append, Nat.ofDigits_append, List.length_map, List.map_singleton,
    Nat.ofDigits_singleton, decode]

theorem decode_encode_mod (k n : Nat) : decode (encode k n) = n % 256 ^ k := by
  induction k with
  | zero =>
    rw [pow_zero, Nat.mod_one]
    rfl
  | succ k ih =>
    have hbyte : (UInt8.ofNat (n / 256 ^ k)).toNat = n / 256 ^ k % 256 := UInt8.toNat_ofNat'
    rw [encode_succ, decode_concat, ih, length_encode, hbyte, pow_succ, Nat.mod_mul]

/-- The bytes give back a number that fits. -/
theorem decode_encode (h : n < 256 ^ k) : decode (encode k n) = n := by
  rw [decode_encode_mod, Nat.mod_eq_of_lt h]

end LittleEndian
