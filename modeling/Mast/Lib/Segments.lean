import Mathlib.Data.List.Basic
import Mathlib.Data.List.DropRight

/-!
# Lists that are cut at a separator

The segments of a list are its parts between separators, without the empty ones; `lead`
writes segments one after another with a separator before each, and `trail` with a separator
after each.

Results:
1. `segments_append`: the segments on both sides of a separator.
2. `segments_lead`, `segments_trail`: what was written is read back.
3. `rdropWhile_prefix`: a prefix of segments that is cut at its last separator has some of the
   segments whole and nothing else.
-/

universe u

namespace Segments

variable {α : Type u} [DecidableEq α] {sep : α} {l l' seg : List α} {segs : List (List α)}

def segments (sep : α) (l : List α) : List (List α) := (l.splitOn sep).filter (· ≠ [])

/-- Every segment with a separator before it. -/
def lead (sep : α) (segs : List (List α)) : List α := segs.flatMap (sep :: ·)

/-- Every segment with a separator after it. -/
def trail (sep : α) (segs : List (List α)) : List α := segs.flatMap (· ++ [sep])

/-- What can be a segment. -/
def IsSegment (sep : α) (seg : List α) : Prop := seg ≠ [] ∧ sep ∉ seg

theorem not_mem_of_mem_splitOn (h : seg ∈ l.splitOn sep) : sep ∉ seg := by
  induction l generalizing seg with
  | nil =>
    rw [List.splitOn_nil, List.mem_singleton] at h
    rw [h]
    exact List.not_mem_nil
  | cons x l ih =>
    rw [List.splitOn_cons_eq_if_modifyHead] at h
    split at h
    · rcases List.mem_cons.mp h with rfl | h
      · exact List.not_mem_nil
      · exact ih h
    · next hx =>
      have hne : sep ≠ x := fun heq => hx (by rw [heq, beq_self_eq_true])
      cases hsplit : l.splitOn sep with
      | nil => exact absurd hsplit (List.splitOn_ne_nil sep l)
      | cons first rest =>
        rw [hsplit] at h ih
        rcases List.mem_cons.mp h with rfl | h
        · rw [List.mem_cons, not_or]
          exact ⟨hne, ih List.mem_cons_self⟩
        · exact ih (List.mem_cons_of_mem _ h)

theorem mem_of_mem_splitOn {x : α} (h : seg ∈ l.splitOn sep) (hx : x ∈ seg) : x ∈ l := by
  induction l generalizing seg with
  | nil =>
    rw [List.splitOn_nil, List.mem_singleton] at h
    exact absurd hx (h ▸ List.not_mem_nil)
  | cons y l ih =>
    rw [List.splitOn_cons_eq_if_modifyHead] at h
    split at h
    · rcases List.mem_cons.mp h with rfl | h
      · cases hx
      · exact List.mem_cons_of_mem _ (ih h hx)
    · cases hsplit : l.splitOn sep with
      | nil => exact absurd hsplit (List.splitOn_ne_nil sep l)
      | cons first rest =>
        rw [hsplit] at h ih
        rcases List.mem_cons.mp h with rfl | h
        · rcases List.mem_cons.mp hx with rfl | hx
          · exact List.mem_cons_self
          · exact List.mem_cons_of_mem _ (ih List.mem_cons_self hx)
        · exact List.mem_cons_of_mem _ (ih (List.mem_cons_of_mem _ h) hx)

theorem mem_of_mem_segments {x : α} (h : seg ∈ segments sep l) (hx : x ∈ seg) : x ∈ l :=
  mem_of_mem_splitOn (List.mem_filter.mp h).1 hx

theorem isSegment_of_mem (h : seg ∈ segments sep l) : IsSegment sep seg := by
  obtain ⟨hmem, hne⟩ := List.mem_filter.mp h
  exact ⟨of_decide_eq_true hne, not_mem_of_mem_splitOn hmem⟩

theorem segments_nil : segments sep ([] : List α) = [] := rfl

/-- The segments on both sides of a separator. -/
theorem segments_append : segments sep (l ++ sep :: l') = segments sep l ++ segments sep l' := by
  unfold segments
  rw [List.splitOn_append_cons_self, List.filter_append]

theorem segments_of_segment (h : IsSegment sep seg) : segments sep seg = [seg] := by
  unfold segments
  rw [List.splitOn_eq_singleton h.2]
  refine List.filter_eq_self.mpr fun s hs => decide_eq_true ?_
  rw [List.mem_singleton.mp hs]
  exact h.1

/-- What was written is read back. -/
theorem segments_lead (h : ∀ seg ∈ segs, IsSegment sep seg) :
    segments sep (lead sep segs) = segs := by
  suffices hafter : ∀ l, segments sep (l ++ lead sep segs) = segments sep l ++ segs from
    hafter []
  intro l
  induction segs generalizing l with
  | nil => rw [lead, List.flatMap_nil, List.append_nil, List.append_nil]
  | cons seg segs ih =>
    have hseg := h seg List.mem_cons_self
    have hrest := ih (fun s hs => h s (List.mem_cons_of_mem _ hs)) (l ++ sep :: seg)
    have hlead : l ++ lead sep (seg :: segs) = l ++ sep :: seg ++ lead sep segs := by
      unfold lead
      rw [List.flatMap_cons, List.append_assoc]
    rw [hlead, hrest, segments_append, segments_of_segment hseg, List.append_assoc]
    rfl

theorem segments_trail (h : ∀ seg ∈ segs, IsSegment sep seg) :
    segments sep (trail sep segs) = segs := by
  induction segs with
  | nil => rfl
  | cons seg segs ih =>
    obtain ⟨hseg, hrest⟩ := List.forall_mem_cons.mp h
    have htrail : trail sep (seg :: segs) = seg ++ sep :: trail sep segs := by
      simp [trail]
    rw [htrail, segments_append, segments_of_segment hseg, ih hrest]
    rfl

omit [DecidableEq α] in
theorem trail_append (segs segs' : List (List α)) :
    trail sep (segs ++ segs') = trail sep segs ++ trail sep segs' := List.flatMap_append

/-- The separator ends what is dropped from the end. -/
theorem rdropWhile_append_sep (l l' : List α) :
    (l ++ sep :: l').rdropWhile (· ≠ sep) = l ++ sep :: l'.rdropWhile (· ≠ sep) := by
  induction l' using List.reverseRecOn with
  | nil =>
    rw [List.rdropWhile_concat, List.rdropWhile_nil, if_neg (by simp)]
  | append_singleton l' x ih =>
    have hassoc : l ++ sep :: (l' ++ [x]) = l ++ sep :: l' ++ [x] := by simp
    rw [hassoc, List.rdropWhile_concat, List.rdropWhile_concat, ih]
    split
    · rfl
    · exact hassoc.symm

theorem rdropWhile_trail (segs : List (List α)) (l : List α) :
    (trail sep segs ++ l).rdropWhile (· ≠ sep) = trail sep segs ++ l.rdropWhile (· ≠ sep) := by
  induction segs with
  | nil => rfl
  | cons seg segs ih =>
    have htrail : trail sep (seg :: segs) = seg ++ sep :: trail sep segs := by
      simp [trail]
    rw [htrail, List.append_assoc, List.cons_append, rdropWhile_append_sep, ih, List.append_assoc,
      List.cons_append]

theorem rdropWhile_no_sep (h : sep ∉ l) : l.rdropWhile (· ≠ sep) = [] :=
  List.rdropWhile_eq_nil_iff.mpr fun x hx => decide_eq_true fun heq : x = sep => h (heq ▸ hx)

/-- A prefix of segments that is cut at its last separator has some of the segments whole
and nothing else. -/
theorem rdropWhile_prefix (hsegs : ∀ seg ∈ segs, sep ∉ seg) (h : l <+: trail sep segs) :
    ∃ n, l.rdropWhile (· ≠ sep) = trail sep (segs.take n) := by
  induction segs generalizing l with
  | nil =>
    rw [List.prefix_nil.mp h]
    exact ⟨0, rfl⟩
  | cons seg segs ih =>
    obtain ⟨hseg, hrest⟩ := List.forall_mem_cons.mp hsegs
    have htrail : trail sep (seg :: segs) = seg ++ sep :: trail sep segs := by
      simp [trail]
    rw [htrail] at h
    rcases List.prefix_or_prefix_of_prefix h (List.prefix_append seg _) with hpart | ⟨l', rfl⟩
    · refine ⟨0, ?_⟩
      rw [rdropWhile_no_sep fun hmem => hseg (hpart.subset hmem)]
      rfl
    · have hl' := (List.prefix_append_right_inj seg).mp h
      cases l' with
      | nil =>
        refine ⟨0, ?_⟩
        rw [List.append_nil, rdropWhile_no_sep hseg]
        rfl
      | cons x l' =>
        obtain ⟨rfl, hl'⟩ := List.cons_prefix_cons.mp hl'
        obtain ⟨n, hn⟩ := ih hrest hl'
        refine ⟨n + 1, ?_⟩
        rw [rdropWhile_append_sep, hn, List.take_succ_cons]
        simp [trail]

omit [DecidableEq α] in
theorem mem_lead {x : α} : x ∈ lead sep segs ↔ ∃ seg ∈ segs, x = sep ∨ x ∈ seg := by
  unfold lead
  rw [List.mem_flatMap]
  simp only [List.mem_cons]

omit [DecidableEq α] in
theorem lead_eq_nil (h : lead sep segs = []) : segs = [] := by
  cases segs with
  | nil => rfl
  | cons seg segs => cases h

end Segments
