import Mathlib.Algebra.Group.Nat.Defs
import Mathlib.Data.List.Count

/-!
# Sliding windows

Moments are natural numbers, and a history lists them newest first. A brake with a window
of length `w` holds for one such length after every moment at which more than `limit`
moments lie in the window that ends there (`BlockedAt`). A program that implements it
keeps the moments `within` the window of the newest one, and the end of its last block.

Results:
1. `within_within`: moments that left the window of an earlier moment stay outside.
2. `blockedAt_cons_iff`: what a new moment adds to a block.
3. `blockedAt_of_crowd`: more than `limit` moments close together are a block.
-/

namespace SlidingWindow

/-- The moments in the window that ends at `now`. -/
def within (w now : Nat) (moments : List Nat) : List Nat :=
  moments.filter fun a => now < a + w

/-- Some moment of the history, at most one window ago, was one too many in its window. -/
def BlockedAt (w limit : Nat) (history : List Nat) (t : Nat) : Prop :=
  ∃ f older, f :: older <:+ history ∧ t < f + w ∧ limit < (within w f (f :: older)).length

variable {w limit t now f : Nat} {history : List Nat}

/-! ## Windows -/

theorem within_within (h : f ≤ now) : within w now (within w f history) = within w now history := by
  unfold within
  rw [List.filter_filter]
  refine List.filter_congr fun a _ => ?_
  have : now < a + w → f < a + w := fun hnow => Nat.lt_of_le_of_lt h hnow
  simpa using this

theorem within_cons_self (hw : 0 < w) :
    within w now (now :: history) = now :: within w now history := by
  unfold within
  rw [List.filter_cons_of_pos]
  exact decide_eq_true (Nat.lt_add_of_pos_right hw)

/-! ## Blocks -/

theorem not_blockedAt_nil : ¬ BlockedAt w limit [] t := by
  rintro ⟨f, older, hsuffix, -, -⟩
  exact List.cons_ne_nil f older (List.suffix_nil.mp hsuffix)

theorem blockedAt_cons_iff : BlockedAt w limit (f :: history) t ↔
    (t < f + w ∧ limit < (within w f (f :: history)).length) ∨ BlockedAt w limit history t := by
  constructor
  · rintro ⟨f', older, hsuffix, ht, hcount⟩
    rcases List.suffix_cons_iff.mp hsuffix with heq | hsuffix
    · obtain ⟨rfl, rfl⟩ := List.cons.inj heq
      exact .inl ⟨ht, hcount⟩
    · exact .inr ⟨f', older, hsuffix, ht, hcount⟩
  · rintro (⟨ht, hcount⟩ | ⟨f', older, hsuffix, ht, hcount⟩)
    · exact ⟨f, history, List.suffix_rfl, ht, hcount⟩
    · exact ⟨f', older, hsuffix.trans (List.suffix_cons f history), ht, hcount⟩

/-- No block outlasts the one that the newest moment begins. -/
theorem BlockedAt.lt (hnewest : ∀ a ∈ history, a ≤ now) (h : BlockedAt w limit history t) :
    t < now + w := by
  obtain ⟨f, older, hsuffix, ht, -⟩ := h
  have : f ≤ now := hnewest f (hsuffix.subset List.mem_cons_self)
  omega

/-! ## Crowds -/

/-- The newest moment with a property, and every other one behind it. -/
theorem exists_newest {p : Nat → Bool} (h : 0 < history.countP p) :
    ∃ f older, f :: older <:+ history ∧ p f = true ∧
      (f :: older).countP p = history.countP p := by
  induction history with
  | nil => cases h
  | cons a rest ih =>
    by_cases hp : p a = true
    · exact ⟨a, rest, List.suffix_rfl, hp, rfl⟩
    · rw [List.countP_cons_of_neg hp] at h ⊢
      obtain ⟨f, older, hsuffix, hf, hcount⟩ := ih h
      exact ⟨f, older, hsuffix.trans (List.suffix_cons a rest), hf, hcount⟩

/-- More than `limit` moments, less than a window apart and less than a window ago. -/
theorem blockedAt_of_crowd {p : Nat → Bool} (hclose : ∀ a b, p a = true → p b = true → a < b + w)
    (ht : ∀ a, p a = true → t < a + w) (hcount : limit < history.countP p) :
    BlockedAt w limit history t := by
  obtain ⟨f, older, hsuffix, hf, heq⟩ := exists_newest (Nat.zero_lt_of_lt hcount)
  refine ⟨f, older, hsuffix, ht f hf, ?_⟩
  rw [within, ← List.countP_eq_length_filter]
  refine Nat.lt_of_lt_of_le (heq ▸ hcount) (List.countP_mono_left fun a _ ha => ?_)
  exact decide_eq_true (hclose f a hf ha)

end SlidingWindow
