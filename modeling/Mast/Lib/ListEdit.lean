import Mathlib.Data.Multiset.AddSub

/-!
# Lists edited at one place

A list is changed at one index: the element is replaced, or taken out, or a new
one is put in. What the other elements are does not depend on which of these
happens (`exists_rest`).
-/

universe u v

namespace ListEdit

variable {α : Type u} {β : Type v} {l : List α} {i : Nat} {a : α}

/-- The elements other than the one at an index, whatever happens to that one. -/
theorem exists_rest (h : l[i]? = some a) :
    ∃ rest : Multiset α, (l : Multiset α) = a ::ₘ rest ∧ (l.eraseIdx i : Multiset α) = rest ∧
      ∀ f, (l.modify i f : Multiset α) = f a ::ₘ rest := by
  induction l generalizing i with
  | nil => simp at h
  | cons b l ih =>
    cases i with
    | zero =>
      obtain rfl : b = a := by simpa using h
      exact ⟨l, rfl, rfl, fun f => rfl⟩
    | succ i =>
      obtain ⟨rest, hl, herase, hmodify⟩ := ih (by simpa using h)
      refine ⟨b ::ₘ rest, ?_, ?_, fun f => ?_⟩
      · rw [← Multiset.cons_coe, hl, Multiset.cons_swap]
      · rw [List.eraseIdx_cons_succ, ← Multiset.cons_coe, herase]
      · rw [List.modify_succ_cons, ← Multiset.cons_coe, hmodify, Multiset.cons_swap]

theorem insertIdx_coe (h : i ≤ l.length) (a : α) :
    (l.insertIdx i a : Multiset α) = a ::ₘ (l : Multiset α) := by
  rw [Multiset.cons_coe, Multiset.coe_eq_coe]
  exact List.perm_insertIdx a l h

/-- An edit that `g` does not see. -/
theorem map_modify (f : α → α) (g : α → β) (h : ∀ a, l[i]? = some a → g (f a) = g a) :
    (l.modify i f).map g = l.map g := by
  induction l generalizing i with
  | nil => simp
  | cons b l ih =>
    cases i with
    | zero => simpa using h b rfl
    | succ i => simpa using ih fun a ha => h a (by simpa using ha)

theorem mem_modify {f : α → α} {b : α} (h : b ∈ l.modify i f) :
    b ∈ l ∨ ∃ a, l[i]? = some a ∧ b = f a := by
  induction l generalizing i with
  | nil => simp at h
  | cons c l ih =>
    cases i with
    | zero =>
      rcases List.mem_cons.mp h with rfl | hb
      · exact .inr ⟨c, rfl, rfl⟩
      · exact .inl (List.mem_cons_of_mem _ hb)
    | succ i =>
      rcases List.mem_cons.mp h with rfl | hb
      · exact .inl List.mem_cons_self
      · rcases ih hb with hb | ⟨a, ha, rfl⟩
        · exact .inl (List.mem_cons_of_mem _ hb)
        · exact .inr ⟨a, by simpa using ha, rfl⟩

/-- In a list without repetitions that is collected from parts, an element comes
from one part only. -/
theorem index_unique {f : α → List β} {j : Nat} {b : α} {x : β} (h : (l.flatMap f).Nodup)
    (ha : l[i]? = some a) (hb : l[j]? = some b) (hxa : x ∈ f a) (hxb : x ∈ f b) : i = j := by
  have hpair := List.pairwise_iff_getElem.mp (List.nodup_flatMap.mp h).2
  obtain ⟨hi, rfl⟩ := List.getElem?_eq_some_iff.mp ha
  obtain ⟨hj, rfl⟩ := List.getElem?_eq_some_iff.mp hb
  rcases Nat.lt_trichotomy i j with hlt | heq | hlt
  · exact absurd hxb (List.disjoint_left.mp (hpair i j hi hj hlt) hxa)
  · exact heq
  · exact absurd hxa (List.disjoint_left.mp (hpair j i hj hi hlt) hxb)

/-- An element that is kept only once comes from one place. -/
theorem filterMap_unique {f : α → Option β} {b : α} {x : β} (h : (l.filterMap f).Nodup)
    (ha : a ∈ l) (hb : b ∈ l) (hfa : f a = some x) (hfb : f b = some x) : a = b := by
  induction l with
  | nil => simp at ha
  | cons c l ih =>
    -- a second place of the value would repeat it
    have hnot : ∀ d, f d = some x → f c = some x → d ∈ l → False := by
      intro d hfd hfc hd
      rw [List.filterMap_cons_some hfc, List.nodup_cons] at h
      exact h.1 (List.mem_filterMap.mpr ⟨d, hd, hfd⟩)
    have htail : (l.filterMap f).Nodup := h.sublist ((List.sublist_cons_self c l).filterMap f)
    rcases List.mem_cons.mp ha with rfl | ha' <;> rcases List.mem_cons.mp hb with rfl | hb'
    · rfl
    · exact (hnot b hfb hfa hb').elim
    · exact (hnot a hfa hfb ha').elim
    · exact ih htail ha' hb'

/-- A search that says where it found something does not see an element that it
neither finds nor found at that place. -/
theorem findSome?_set {γ : Type v} {f : α × Nat → Option γ} (index : γ → Nat) {k : Nat} {a' : α}
    (hindex : ∀ a n c, f (a, n) = some c → index c = n) (hnew : f (a', i + k) = none)
    (hold : ∀ c ∈ (l.zipIdx k).findSome? f, index c ≠ i + k) :
    ((l.set i a').zipIdx k).findSome? f = (l.zipIdx k).findSome? f := by
  induction l generalizing i k with
  | nil => rfl
  | cons b l ih =>
    rw [List.zipIdx_cons, List.findSome?_cons] at hold ⊢
    cases i with
    | zero =>
      rw [Nat.zero_add] at hnew hold
      rw [List.set_cons_zero, List.zipIdx_cons, List.findSome?_cons, hnew]
      cases hb : f (b, k) with
      | none => rfl
      | some c =>
        rw [hb] at hold
        exact absurd (hindex b k c hb) (hold c rfl)
    | succ i =>
      rw [List.set_cons_succ, List.zipIdx_cons, List.findSome?_cons]
      cases hb : f (b, k) with
      | some c => rfl
      | none =>
        rw [hb] at hold
        rw [Nat.succ_add_eq_add_succ] at hnew hold
        exact ih hnew hold

end ListEdit
