import Mathlib.Data.List.Basic

/-!
# Positions in a stream of pieces

A stream arrives in pieces. `offsetAt` is where a piece begins in the stream; with
pieces that are not empty, later pieces have larger offsets, so an offset tells the
pieces before it from those behind it.

Results:
1. `offsetAt_lt`: offsets grow.
2. `offsetAt_append`: later pieces do not move earlier ones.
3. `flatten_split`: the stream around a run of pieces.
-/

universe u

namespace Pieces

variable {α : Type u} {pieces : List (List α)} {i j : Nat}

/-- Where the piece of an index begins in the stream. -/
def offsetAt (pieces : List (List α)) (i : Nat) : Nat := (pieces.take i).flatten.length

theorem offsetAt_length (pieces : List (List α)) :
    offsetAt pieces pieces.length = pieces.flatten.length := by
  rw [offsetAt, List.take_length]

theorem offsetAt_append (h : i ≤ pieces.length) (rest : List (List α)) :
    offsetAt (pieces ++ rest) i = offsetAt pieces i := by
  rw [offsetAt, List.take_append_of_le_length h, offsetAt]

/-- The pieces between two indices. -/
theorem offsetAt_add (h : i ≤ j) :
    offsetAt pieces j = offsetAt pieces i + ((pieces.drop i).take (j - i)).flatten.length := by
  have hsplit : pieces.take j = pieces.take i ++ (pieces.drop i).take (j - i) := by
    rw [← List.take_add, Nat.add_sub_cancel' h]
  rw [offsetAt, hsplit, List.flatten_append, List.length_append, offsetAt]

theorem offsetAt_mono (h : i ≤ j) : offsetAt pieces i ≤ offsetAt pieces j := by
  rw [offsetAt_add h]
  exact Nat.le_add_right _ _

theorem offsetAt_le (pieces : List (List α)) (i : Nat) :
    offsetAt pieces i ≤ pieces.flatten.length := by
  rcases Nat.le_total i pieces.length with h | h
  · rw [← offsetAt_length]
    exact offsetAt_mono h
  · exact Nat.le_of_eq (by rw [offsetAt, List.take_of_length_le h])

theorem offsetAt_lt (hne : ∀ piece ∈ pieces, piece ≠ []) (hij : i < j) (hj : j ≤ pieces.length) :
    offsetAt pieces i < offsetAt pieces j := by
  have hi : i < pieces.length := Nat.lt_of_lt_of_le hij hj
  refine Nat.lt_of_lt_of_le ?_ (offsetAt_mono hij)
  have hpos : 0 < pieces[i].length := List.length_pos_iff.mpr (hne _ (List.getElem_mem hi))
  have hone : i.succ - i = 1 := by omega
  rw [offsetAt_add (Nat.le_succ i), hone, List.drop_eq_getElem_cons hi, List.take_succ_cons,
    List.take_zero, List.flatten_singleton]
  omega

/-- The stream around a run of pieces. -/
theorem flatten_split (pieces : List (List α)) (i n : Nat) :
    pieces.flatten = (pieces.take i).flatten ++ ((pieces.drop i).take n).flatten ++
      ((pieces.drop i).drop n).flatten := by
  rw [List.append_assoc, ← List.flatten_append, List.take_append_drop, ← List.flatten_append,
    List.take_append_drop]

/-- A run of pieces as a part of the stream. -/
theorem flatten_run (pieces : List (List α)) (i n : Nat) : ((pieces.drop i).take n).flatten =
    (pieces.flatten.drop (offsetAt pieces i)).take
      (offsetAt pieces (i + n) - offsetAt pieces i) := by
  have hlength : offsetAt pieces (i + n) - offsetAt pieces i =
      ((pieces.drop i).take n).flatten.length := by
    rw [offsetAt_add (Nat.le_add_right i n), Nat.add_sub_cancel_left, Nat.add_sub_cancel_left]
  rw [hlength, flatten_split pieces i n, List.append_assoc, offsetAt, List.drop_left,
    List.take_left]

/-- A run of pieces by their indices. -/
theorem map_range' {i n : Nat} (h : i + n ≤ pieces.length) :
    (List.range' i n).map (fun j => pieces.getD j []) = (pieces.drop i).take n := by
  induction n generalizing i with
  | zero => rfl
  | succ n ih =>
    have hi : i < pieces.length := by omega
    have hhead : pieces.getD i [] = pieces[i] := by simp [hi]
    rw [List.range'_succ, List.map_cons, ih (by omega), List.drop_eq_getElem_cons hi,
      List.take_succ_cons, hhead]

end Pieces
