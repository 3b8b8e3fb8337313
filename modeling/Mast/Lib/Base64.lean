/-!
# The base64 encoding

The standard alphabet with padding: three bytes are four digits of six bits
each, a rest of one or two bytes is two or three digits, and padding makes the
length a multiple of four.

Results:
1. `mem_digits`: every digit of an encoding is the digit of a six-bit value.
2. `length_digits`: how many digits an encoding has.
-/

namespace Base64

/-- The digit of a six-bit value. -/
def digit (v : Nat) : Char :=
  if v < 26 then Char.ofNat (v + 65)
  else if v < 52 then Char.ofNat (v - 26 + 97)
  else if v < 62 then Char.ofNat (v - 52 + 48)
  else if v = 62 then '+' else '/'

/-- A character of the alphabet. -/
def isDigit (c : Char) : Bool :=
  decide ('A'.toNat ≤ c.toNat ∧ c.toNat ≤ 'Z'.toNat) ||
    decide ('a'.toNat ≤ c.toNat ∧ c.toNat ≤ 'z'.toNat) ||
    decide ('0'.toNat ≤ c.toNat ∧ c.toNat ≤ '9'.toNat) || c = '+' || c = '/'

/-- The digits of three bytes. -/
def group (a b c : Nat) : List Char :=
  [digit (a / 4), digit (a % 4 * 16 + b / 16), digit (b % 16 * 4 + c / 64), digit (c % 64)]

/-- The digits of an encoding, without the padding. -/
def digits : List UInt8 → List Char
  | a :: b :: c :: rest => group a.toNat b.toNat c.toNat ++ digits rest
  | [a, b] => (group a.toNat b.toNat 0).take 3
  | [a] => (group a.toNat 0 0).take 2
  | [] => []

/-- How many padding characters an encoding of so many bytes ends in. -/
def padding (length : Nat) : Nat := (3 - length % 3) % 3

def encode (data : List UInt8) : List Char :=
  digits data ++ List.replicate (padding data.length) '='

theorem digit_ascii : ∀ v < 64, (digit v).toNat < 0x80 := by decide

theorem isDigit_ascii {c : Char} (h : isDigit c = true) : c.toNat < 0x80 := by
  simp only [isDigit, Bool.or_eq_true, decide_eq_true_eq] at h
  rcases h with (((h | h) | h) | rfl) | rfl
  · exact Nat.lt_of_le_of_lt h.2 (by decide)
  · exact Nat.lt_of_le_of_lt h.2 (by decide)
  · exact Nat.lt_of_le_of_lt h.2 (by decide)
  · decide
  · decide

theorem mem_group {a b c : UInt8} {x : Char} (h : x ∈ group a.toNat b.toNat c.toNat) :
    ∃ v < 64, x = digit v := by
  have ha := a.toNat_lt
  have hb := b.toNat_lt
  have hc := c.toNat_lt
  simp only [group, List.mem_cons, List.not_mem_nil, or_false] at h
  rcases h with rfl | rfl | rfl | rfl
  all_goals exact ⟨_, by omega, rfl⟩

/-- Every digit of an encoding is the digit of a six-bit value. -/
theorem mem_digits {data : List UInt8} {x : Char} (h : x ∈ digits data) :
    ∃ v < 64, x = digit v := by
  induction data using digits.induct with
  | case1 a b c rest ih =>
    rcases List.mem_append.mp h with h | h
    · exact mem_group h
    · exact ih h
  | case2 a b => exact mem_group (c := 0) (List.mem_of_mem_take h)
  | case3 a => exact mem_group (b := 0) (c := 0) (List.mem_of_mem_take h)
  | case4 => exact absurd h List.not_mem_nil

theorem length_digits (data : List UInt8) : (digits data).length = (data.length * 4 + 2) / 3 := by
  induction data using digits.induct with
  | case1 a b c rest ih =>
    rw [digits, List.length_append, ih]
    simp only [group, List.length_cons, List.length_nil]
    omega
  | case2 a b => simp [digits, group]
  | case3 a => simp [digits, group]
  | case4 => simp [digits]

theorem padding_le (length : Nat) : padding length ≤ 2 := by
  unfold padding
  omega

end Base64
