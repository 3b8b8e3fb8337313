/-!
# Lossy UTF-8 decoding

Decoding of arbitrary bytes in which every maximal ill-formed piece becomes one
replacement character. The decoder reads one byte at a time: a byte that cannot
continue the sequence under way ends it with a replacement character and is
read again as a first byte.

Results:
1. `fromUtf8Lossy_bytes`: decoding gives back every string.
2. `encodeChar_ascii`, `high_of_encodeChar`: ASCII characters are one byte each, and
   the bytes of the others are not ASCII.
-/

namespace Utf8

/-- A multi-byte sequence under way: how many bytes follow the next one, the
range the next one must lie in, and the bits so far. -/
structure Pending where
  remaining : Nat
  lo : UInt8
  hi : UInt8
  bits : Nat
deriving DecidableEq, Repr

/-- `U+FFFD` -/
def replacement : Char := Char.ofNat 0xFFFD

/-- Read a first byte: the characters it completes, and the sequence it opens. -/
def first (b : UInt8) : List Char × Option Pending :=
  if b < 0x80 then ([Char.ofNat b.toNat], none)
  else if b < 0xC2 then ([replacement], none)
  else if b < 0xE0 then ([], some ⟨0, 0x80, 0xBF, b.toNat - 0xC0⟩)
  else if b = 0xE0 then ([], some ⟨1, 0xA0, 0xBF, 0⟩)
  else if b = 0xED then ([], some ⟨1, 0x80, 0x9F, 0xD⟩)
  else if b < 0xF0 then ([], some ⟨1, 0x80, 0xBF, b.toNat - 0xE0⟩)
  else if b = 0xF0 then ([], some ⟨2, 0x90, 0xBF, 0⟩)
  else if b < 0xF4 then ([], some ⟨2, 0x80, 0xBF, b.toNat - 0xF0⟩)
  else if b = 0xF4 then ([], some ⟨2, 0x80, 0x8F, 4⟩)
  else ([replacement], none)

/-- Read one byte. -/
def read (p : Option Pending) (b : UInt8) : List Char × Option Pending :=
  match p with
  | none => first b
  | some p =>
    if p.lo ≤ b ∧ b ≤ p.hi then
      let bits := p.bits * 64 + (b.toNat - 0x80)
      match p.remaining with
      | 0 => ([Char.ofNat bits], none)
      | k + 1 => ([], some ⟨k, 0x80, 0xBF, bits⟩)
    else
      let (cs, next) := first b
      (replacement :: cs, next)

/-- Decode the rest of the bytes; a sequence left open is ill-formed. -/
def decodeFrom (p : Option Pending) : List UInt8 → List Char
  | [] => match p with
    | none => []
    | some _ => [replacement]
  | b :: rest => (read p b).1 ++ decodeFrom (read p b).2 rest

/-- Decode bytes, replacing every ill-formed piece. -/
def fromUtf8Lossy (bytes : List UInt8) : String := String.ofList (decodeFrom none bytes)

/-- The UTF-8 bytes of a string. -/
def bytes (s : String) : List UInt8 := s.toList.flatMap String.utf8EncodeChar

/-! ## Reading what was encoded -/

theorem toNat_ofNat {n : Nat} (h : n < 256) : (UInt8.ofNat n).toNat = n := by
  rw [UInt8.toNat_ofNat']
  exact Nat.mod_eq_of_lt h

theorem le_ofNat_iff {n m : Nat} (hn : n < 256) (hm : m < 256) :
    UInt8.ofNat n ≤ UInt8.ofNat m ↔ n ≤ m := by
  rw [UInt8.le_iff_toNat_le, toNat_ofNat hn, toNat_ofNat hm]

theorem ofNat_inj {n m : Nat} (hn : n < 256) (hm : m < 256) :
    UInt8.ofNat n = UInt8.ofNat m ↔ n = m := by
  rw [← UInt8.toNat_inj, toNat_ofNat hn, toNat_ofNat hm]

/-- A continuation byte within the range that is due. -/
theorem read_tail {k lo hi bits t : Nat} (hlo : lo ≤ 0x80 + t) (hhi : 0x80 + t ≤ hi)
    (hrange : hi < 256) : read (some ⟨k, UInt8.ofNat lo, UInt8.ofNat hi, bits⟩)
      (UInt8.ofNat (t + 0x80)) = match k with
      | 0 => ([Char.ofNat (bits * 64 + t)], none)
      | k + 1 => ([], some ⟨k, 0x80, 0xBF, bits * 64 + t⟩) := by
  have hfits : t + 0x80 < 256 := by omega
  have hin : UInt8.ofNat lo ≤ UInt8.ofNat (t + 0x80) ∧
      UInt8.ofNat (t + 0x80) ≤ UInt8.ofNat hi := by
    rw [le_ofNat_iff (by omega) hfits, le_ofNat_iff hfits hrange]
    omega
  have hbits : (UInt8.ofNat (t + 0x80)).toNat - 0x80 = t := by
    rw [toNat_ofNat hfits]
    omega
  simp only [read, hin, and_self, if_true, hbits]

/-- A first byte, by its number. -/
theorem first_ofNat {n : Nat} (h : n < 256) : first (UInt8.ofNat n) =
    if n < 0x80 then ([Char.ofNat n], none)
    else if n < 0xC2 then ([replacement], none)
    else if n < 0xE0 then ([], some ⟨0, 0x80, 0xBF, n - 0xC0⟩)
    else if n = 0xE0 then ([], some ⟨1, 0xA0, 0xBF, 0⟩)
    else if n = 0xED then ([], some ⟨1, 0x80, 0x9F, 0xD⟩)
    else if n < 0xF0 then ([], some ⟨1, 0x80, 0xBF, n - 0xE0⟩)
    else if n = 0xF0 then ([], some ⟨2, 0x90, 0xBF, 0⟩)
    else if n < 0xF4 then ([], some ⟨2, 0x80, 0xBF, n - 0xF0⟩)
    else if n = 0xF4 then ([], some ⟨2, 0x80, 0x8F, 4⟩)
    else ([replacement], none) := by
  unfold first
  simp only [UInt8.lt_iff_toNat_lt, ← UInt8.toNat_inj, toNat_ofNat h, UInt8.reduceToNat]

theorem decodeFrom_first {n : Nat} {p : Pending} (h : first (UInt8.ofNat n) = ([], some p))
    (rest : List UInt8) : decodeFrom none (UInt8.ofNat n :: rest) = decodeFrom (some p) rest := by
  rw [decodeFrom, read, h]
  rfl

/-- The last byte of a sequence completes its character. -/
theorem decodeFrom_last {lo hi bits t : Nat} (hlo : lo ≤ 0x80 + t) (hhi : 0x80 + t ≤ hi)
    (hrange : hi < 256) (rest : List UInt8) :
    decodeFrom (some ⟨0, UInt8.ofNat lo, UInt8.ofNat hi, bits⟩) (UInt8.ofNat (t + 0x80) :: rest) =
      Char.ofNat (bits * 64 + t) :: decodeFrom none rest := by
  rw [decodeFrom, read_tail hlo hhi hrange]
  rfl

/-- A continuation byte that is not the last one adds its bits. -/
theorem decodeFrom_tail {k lo hi bits t : Nat} (hlo : lo ≤ 0x80 + t) (hhi : 0x80 + t ≤ hi)
    (hrange : hi < 256) (rest : List UInt8) :
    decodeFrom (some ⟨k + 1, UInt8.ofNat lo, UInt8.ofNat hi, bits⟩)
        (UInt8.ofNat (t + 0x80) :: rest) =
      decodeFrom (some ⟨k, UInt8.ofNat 0x80, UInt8.ofNat 0xBF, bits * 64 + t⟩) rest := by
  rw [decodeFrom, read_tail hlo hhi hrange]
  rfl

section encodeChar

variable {v : Nat}

/-- The first byte of a sequence of two. -/
theorem first_two (h : 0x7F < v) (h' : v ≤ 0x7FF) : first (UInt8.ofNat (v / 64 % 0x20 + 0xC0)) =
    ([], some ⟨0, UInt8.ofNat 0x80, UInt8.ofNat 0xBF, v / 64⟩) := by
  rw [first_ofNat (by omega), if_neg (by omega), if_neg (by omega), if_pos (by omega)]
  have hbits : v / 64 % 0x20 + 0xC0 - 0xC0 = v / 64 := by omega
  rw [hbits]
  rfl

/-- The first byte of a sequence of three leaves a range for the second one. -/
theorem first_three (h : 0x7FF < v) (h' : v ≤ 0xFFFF) (hvalid : v < 0xD800 ∨ 0xDFFF < v) :
    ∃ lo hi, lo ≤ 0x80 + v / 64 % 0x40 ∧ 0x80 + v / 64 % 0x40 ≤ hi ∧ hi < 256 ∧
      first (UInt8.ofNat (v / 4096 % 0x10 + 0xE0)) =
        ([], some ⟨1, UInt8.ofNat lo, UInt8.ofNat hi, v / 4096⟩) := by
  have hfits : v / 4096 % 0x10 + 0xE0 < 256 := by omega
  rw [first_ofNat hfits, if_neg (by omega), if_neg (by omega), if_neg (by omega)]
  by_cases hzero : v / 4096 = 0
  · refine ⟨0xA0, 0xBF, by omega, by omega, by omega, ?_⟩
    rw [if_pos (by omega), hzero]
    rfl
  · rw [if_neg (by omega)]
    by_cases hsurrogate : v / 4096 = 0xD
    · refine ⟨0x80, 0x9F, by omega, by omega, by omega, ?_⟩
      rw [if_pos (by omega), hsurrogate]
      rfl
    · refine ⟨0x80, 0xBF, by omega, by omega, by omega, ?_⟩
      have hbits : v / 4096 % 0x10 + 0xE0 - 0xE0 = v / 4096 := by omega
      rw [if_neg (by omega), if_pos (by omega), hbits]
      rfl

/-- The first byte of a sequence of four leaves a range for the second one. -/
theorem first_four (h : 0xFFFF < v) (h' : v < 0x110000) :
    ∃ lo hi, lo ≤ 0x80 + v / 4096 % 0x40 ∧ 0x80 + v / 4096 % 0x40 ≤ hi ∧ hi < 256 ∧
      first (UInt8.ofNat (v / 262144 % 0x08 + 0xF0)) =
        ([], some ⟨2, UInt8.ofNat lo, UInt8.ofNat hi, v / 262144⟩) := by
  have hfits : v / 262144 % 0x08 + 0xF0 < 256 := by omega
  rw [first_ofNat hfits, if_neg (by omega), if_neg (by omega), if_neg (by omega),
    if_neg (by omega), if_neg (by omega), if_neg (by omega)]
  by_cases hzero : v / 262144 = 0
  · refine ⟨0x90, 0xBF, by omega, by omega, by omega, ?_⟩
    rw [if_pos (by omega), hzero]
    rfl
  · rw [if_neg (by omega)]
    by_cases hlast : v / 262144 = 4
    · refine ⟨0x80, 0x8F, by omega, by omega, by omega, ?_⟩
      rw [if_neg (by omega), if_pos (by omega), hlast]
      rfl
    · refine ⟨0x80, 0xBF, by omega, by omega, by omega, ?_⟩
      have hbits : v / 262144 % 0x08 + 0xF0 - 0xF0 = v / 262144 := by omega
      rw [if_pos (by omega), hbits]
      rfl

end encodeChar

/-- Decoding an encoded character gives it back. -/
theorem decodeFrom_encodeChar (c : Char) (rest : List UInt8) :
    decodeFrom none (String.utf8EncodeChar c ++ rest) = c :: decodeFrom none rest := by
  have hvalid : c.toNat < 0xD800 ∨ 0xDFFF < c.toNat ∧ c.toNat < 0x110000 := c.valid
  have hchar : ∀ n, n = c.toNat → Char.ofNat n = c := fun n hn => hn ▸ Char.ofNat_toNat c
  have hval : c.val.toNat = c.toNat := rfl
  generalize c.toNat = v at hvalid hchar hval
  simp only [String.utf8EncodeChar, hval]
  split
  next hone =>
    rw [List.singleton_append, decodeFrom, read, first_ofNat (by omega), if_pos (by omega),
      hchar v rfl]
    rfl
  next hone =>
    split
    next htwo =>
      rw [List.cons_append, List.cons_append, List.nil_append,
        decodeFrom_first (first_two (by omega) htwo),
        decodeFrom_last (by omega) (by omega) (by omega), hchar _ (by omega)]
    next htwo =>
      split
      next hthree =>
        obtain ⟨lo, hi, hlo, hhi, hrange, hfirst⟩ := first_three (by omega) hthree (by omega)
        rw [List.cons_append, List.cons_append, List.cons_append, List.nil_append,
          decodeFrom_first hfirst, decodeFrom_tail hlo hhi hrange,
          decodeFrom_last (by omega) (by omega) (by omega), hchar _ (by omega)]
      next hthree =>
        obtain ⟨lo, hi, hlo, hhi, hrange, hfirst⟩ := first_four (v := v) (by omega) (by omega)
        rw [List.cons_append, List.cons_append, List.cons_append, List.cons_append,
          List.nil_append, decodeFrom_first hfirst, decodeFrom_tail hlo hhi hrange,
          decodeFrom_tail (by omega) (by omega) (by omega),
          decodeFrom_last (by omega) (by omega) (by omega), hchar _ (by omega)]

/-- Decoding gives back every string. -/
theorem fromUtf8Lossy_bytes (s : String) : fromUtf8Lossy (bytes s) = s := by
  have hdecode : ∀ l : List Char, decodeFrom none (l.flatMap String.utf8EncodeChar) = l := by
    intro l
    induction l with
    | nil => rfl
    | cons c l ih => rw [List.flatMap_cons, decodeFrom_encodeChar, ih]
  rw [fromUtf8Lossy, bytes, hdecode, String.ofList_toList]

theorem bytes_inj {s t : String} (h : bytes s = bytes t) : s = t := by
  rw [← fromUtf8Lossy_bytes s, h, fromUtf8Lossy_bytes]

theorem bytes_append (s t : String) : bytes (s ++ t) = bytes s ++ bytes t := by
  simp [bytes]

/-! ## ASCII -/

theorem encodeChar_ascii {c : Char} (h : c.toNat < 0x80) :
    String.utf8EncodeChar c = [UInt8.ofNat c.toNat] := by
  have hval : c.val.toNat ≤ 0x7F := Nat.le_of_lt_succ h
  simp only [String.utf8EncodeChar, hval, if_true]
  rfl

/-- The bytes of a character outside ASCII are not ASCII. -/
theorem high_of_encodeChar {c : Char} (h : 0x80 ≤ c.toNat) :
    ∀ b ∈ String.utf8EncodeChar c, 0x80 ≤ b.toNat := by
  have hval : ¬ c.val.toNat ≤ 0x7F := Nat.not_le.mpr h
  simp only [String.utf8EncodeChar, hval, if_false]
  repeat' split
  all_goals
    simp only [List.forall_mem_cons, List.not_mem_nil, false_implies, implies_true, and_true]
    repeat' apply And.intro
  all_goals
    rw [toNat_ofNat (by omega)]
    omega

/-- The characters that Unicode calls white space. -/
def isWhiteSpace (c : Char) : Bool :=
  let n := c.toNat
  (9 ≤ n && n ≤ 13) || (0x2000 ≤ n && n ≤ 0x200A) ||
    n ∈ [0x20, 0x85, 0xA0, 0x1680, 0x2028, 0x2029, 0x202F, 0x205F, 0x3000]

end Utf8
