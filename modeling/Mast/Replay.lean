import Mathlib.Data.List.Basic

/-!
# Replay buffer

`replay.rs`: the last output of a session, in whole chunks and within a bound on
their bytes. Chunks are evicted from the front, so the retained bytes are the end
of the stream (`ReplayLemmas.isSuffix_push`), and what a fresh terminal is given
starts at a line where that is possible.
-/

namespace Mast

/-- How far a line end is looked for at the front of an evicted buffer. -/
def trimScanBytes : Nat := 4096

/-- The byte `\n`. -/
def newline : UInt8 := 0x0A

/-- The retained chunks. The count of their bytes is carried along. -/
structure ReplayBuffer where
  chunks : List (List UInt8)
  total : Nat
  cap : Nat
  evicted : Bool
  total_eq : total = chunks.flatten.length

namespace ReplayBuffer

def new (cap : Nat) : ReplayBuffer := ⟨[], 0, cap, false, rfl⟩

/-- The retained bytes. -/
def bytes (r : ReplayBuffer) : List UInt8 := r.chunks.flatten

/-- Drop whole chunks from the front until the rest is within the bound: the loop
of `push`. -/
def evict (cap : Nat) : (chunks : List (List UInt8)) → (total : Nat) → Bool →
    total = chunks.flatten.length → ReplayBuffer
  | [], total, evicted, h => ⟨[], total, cap, evicted, h⟩
  | dropped :: rest, total, evicted, h =>
    if cap < total then
      evict cap rest (total - dropped.length) true (by
        rw [h, List.flatten_cons, List.length_append, Nat.add_sub_cancel_left])
    else ⟨dropped :: rest, total, cap, evicted, h⟩

def push (r : ReplayBuffer) (chunk : List UInt8) : ReplayBuffer :=
  if chunk.isEmpty then r
  else
    evict r.cap (r.chunks ++ [chunk]) (r.total + chunk.length) r.evicted (by
      rw [r.total_eq, List.flatten_append, List.length_append, List.flatten_singleton])

/-- The retained bytes as they are replayed to a fresh terminal: once chunks were
evicted, from behind the first line end near the front, unless nothing is left
there. -/
def snapshot (r : ReplayBuffer) : List UInt8 :=
  let out := r.bytes
  if r.evicted then
    match (out.take trimScanBytes).findIdx? fun b => b == newline with
    | some pos => if pos + 1 < out.length then out.drop (pos + 1) else out
    | none => out
  else out

/-- The retained bytes from a position on: the loop of `bytes_from`, where `seen`
bytes were passed. -/
def collectFrom (pos : Nat) : (seen : Nat) → List (List UInt8) → List UInt8
  | _, [] => []
  | seen, chunk :: rest =>
    if seen + chunk.length ≤ pos then collectFrom pos (seen + chunk.length) rest
    else chunk.drop (pos - seen) ++ collectFrom pos (seen + chunk.length) rest

def bytesFrom (r : ReplayBuffer) (pos : Nat) : List UInt8 :=
  if r.total ≤ pos then [] else collectFrom pos 0 r.chunks

/-- Give the memory back. Whether chunks were evicted stays known. -/
def clear (r : ReplayBuffer) : ReplayBuffer := ⟨[], 0, r.cap, r.evicted, rfl⟩

def len (r : ReplayBuffer) : Nat := r.total

end ReplayBuffer

namespace ReplayLemmas

open ReplayBuffer

variable {r : ReplayBuffer}

theorem len_eq (r : ReplayBuffer) : r.len = r.bytes.length := r.total_eq

/-- Eviction keeps the end of the chunks. -/
theorem isSuffix_evict (cap : Nat) (chunks : List (List UInt8)) (total : Nat) (evicted : Bool)
    (h : total = chunks.flatten.length) :
    (evict cap chunks total evicted h).bytes <:+ chunks.flatten := by
  induction chunks generalizing total evicted with
  | nil => exact List.suffix_rfl
  | cons dropped rest ih =>
    rw [evict]
    split
    · exact (ih ..).trans (List.suffix_append dropped rest.flatten)
    · exact List.suffix_rfl

/-- What is retained after a push ends what was retained, followed by the chunk. -/
theorem isSuffix_push (r : ReplayBuffer) (chunk : List UInt8) :
    (r.push chunk).bytes <:+ r.bytes ++ chunk := by
  unfold push
  split
  next h =>
    have hempty : chunk = [] := List.isEmpty_iff.mp h
    simp [hempty]
  next =>
    have hbytes : (r.chunks ++ [chunk]).flatten = r.bytes ++ chunk := by
      rw [List.flatten_append, List.flatten_singleton, bytes]
    exact hbytes ▸ isSuffix_evict r.cap _ _ _ _

/-- A snapshot ends the retained bytes. -/
theorem isSuffix_snapshot (r : ReplayBuffer) : r.snapshot <:+ r.bytes := by
  unfold snapshot
  dsimp only
  split
  · split
    · split
      · exact List.drop_suffix _ _
      · exact List.suffix_rfl
    · exact List.suffix_rfl
  · exact List.suffix_rfl

theorem collectFrom_of_le {pos seen : Nat} (h : pos ≤ seen) (chunks : List (List UInt8)) :
    collectFrom pos seen chunks = chunks.flatten := by
  induction chunks generalizing seen with
  | nil => rfl
  | cons chunk rest ih =>
    have hrest : collectFrom pos (seen + chunk.length) rest = rest.flatten := ih (by omega)
    rw [collectFrom, hrest]
    split
    next hle =>
      obtain rfl : chunk = [] := List.eq_nil_of_length_eq_zero (by omega)
      rfl
    next => rw [Nat.sub_eq_zero_of_le h, List.drop_zero, List.flatten_cons]

theorem collectFrom_eq {pos seen : Nat} (h : seen ≤ pos) (chunks : List (List UInt8)) :
    collectFrom pos seen chunks = chunks.flatten.drop (pos - seen) := by
  induction chunks generalizing seen with
  | nil => simp [collectFrom]
  | cons chunk rest ih =>
    rw [collectFrom, List.flatten_cons, List.drop_append]
    split
    next hle =>
      have hpast : chunk.drop (pos - seen) = [] := List.drop_eq_nil_of_le (by omega)
      rw [ih hle, hpast, List.nil_append, Nat.sub_sub]
    next hlt =>
      have hpast : pos - seen - chunk.length = 0 := by omega
      rw [collectFrom_of_le (by omega), hpast, List.drop_zero]

/-- The positions count the retained bytes. -/
theorem bytesFrom_eq (r : ReplayBuffer) (pos : Nat) : r.bytesFrom pos = r.bytes.drop pos := by
  unfold bytesFrom
  split
  next h => rw [List.drop_eq_nil_of_le (r.total_eq ▸ h)]
  next => rw [collectFrom_eq (Nat.zero_le pos), Nat.sub_zero, bytes]

end ReplayLemmas

end Mast
