import Mathlib.Data.List.Chain
import Mathlib.Data.Nat.Basic

/-!
# Chains of ranges

Ranges that follow one another, each of which starts no later than the one before it stops, leave
nothing out.

Results:
1. `exists_prefix`: the first ranges of a chain show what comes before an offset.
2. `exists_infix`: some ranges in a row show what lies between two offsets.
-/

universe u

namespace Cover

variable {α : Type u} {start stop : α → Nat} {w : α} {rest : List α} {b c : Nat}

/-- The ranges from the first one to one that shows the last offset before `c`. -/
theorem exists_prefix (hchain : (w :: rest).IsChain fun a b => start b ≤ stop a)
    (hw : start w < c) (hlast : ∀ last, (w :: rest).getLast? = some last → c ≤ stop last) :
    ∃ more last, more <+: rest ∧ (w :: more).getLast? = some last ∧ start last < c ∧
      c ≤ stop last := by
  induction rest generalizing w with
  | nil => exact ⟨[], w, List.prefix_rfl, rfl, hw, hlast w rfl⟩
  | cons w' rest ih =>
    by_cases hc : c ≤ stop w
    · exact ⟨[], w, List.nil_prefix, rfl, hw, hc⟩
    · obtain ⟨hstart, hrest⟩ := List.isChain_cons_cons.mp hchain
      obtain ⟨more, last, hmore, hget, hlt, hle⟩ :=
        ih hrest (hstart.trans_lt (Nat.lt_of_not_le hc)) fun last h => hlast last (by
          rwa [List.getLast?_cons_cons])
      exact ⟨w' :: more, last, List.cons_prefix_cons.mpr ⟨rfl, hmore⟩, by
        rwa [List.getLast?_cons_cons], hlt, hle⟩

/-- The ranges from one that shows `b` to one that shows the last offset before `c`. -/
theorem exists_infix (hchain : (w :: rest).IsChain fun a b => start b ≤ stop a)
    (hw : start w ≤ b) (hbc : b < c)
    (hlast : ∀ last, (w :: rest).getLast? = some last → c ≤ stop last) :
    ∃ first more last, first :: more <:+: w :: rest ∧ start first ≤ b ∧ b < stop first ∧
      (first :: more).getLast? = some last ∧ start last < c ∧ c ≤ stop last := by
  induction rest generalizing w with
  | nil =>
    have hle := hlast w rfl
    exact ⟨w, [], w, List.infix_rfl, hw, hbc.trans_le hle, rfl, hw.trans_lt hbc, hle⟩
  | cons w' rest ih =>
    by_cases hb : b < stop w
    · obtain ⟨more, last, hmore, hget, hlt, hle⟩ :=
        exists_prefix hchain (hw.trans_lt hbc) hlast
      have hinfix : w :: more <:+: w :: w' :: rest :=
        (List.cons_prefix_cons.mpr ⟨rfl, hmore⟩).isInfix
      exact ⟨w, more, last, hinfix, hw, hb, hget, hlt, hle⟩
    · obtain ⟨hstart, hrest⟩ := List.isChain_cons_cons.mp hchain
      obtain ⟨first, more, last, hinfix, h⟩ :=
        ih hrest (hstart.trans (Nat.le_of_not_lt hb)) fun last h => hlast last (by
          rwa [List.getLast?_cons_cons])
      exact ⟨first, more, last, List.infix_cons hinfix, h⟩

end Cover
