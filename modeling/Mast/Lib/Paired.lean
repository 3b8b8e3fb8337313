import Mathlib.Algebra.BigOperators.Group.List.Basic
import Mathlib.Algebra.Ring.Nat
import Mathlib.Data.List.Forall2

/-!
# Lists that are kept in step

Two lists hold what belongs together at the same places, and are edited at the same place. What
relates their elements place by place relates their sums.

Results:
1. `modify`: an edit of both lists at one place.
2. `sum_add_le`: what an element of one list has left over its partner, its list has left over
   the other one.
-/

universe u v

namespace Paired

variable {α : Type u} {β : Type v} {R : α → β → Prop} {l : List α} {l' : List β} {i : Nat}
  {a : α} {b : β}

theorem get (h : List.Forall₂ R l l') (ha : l[i]? = some a) (hb : l'[i]? = some b) : R a b := by
  induction h generalizing i with
  | nil => cases ha
  | cons hab _ ih =>
    cases i with
    | zero =>
      obtain rfl := Option.some_inj.mp ha
      obtain rfl := Option.some_inj.mp hb
      exact hab
    | succ i => exact ih ha hb

/-- The partner of an element. -/
theorem partner (h : List.Forall₂ R l l') (ha : l[i]? = some a) : ∃ b, l'[i]? = some b ∧ R a b := by
  obtain ⟨hlt, -⟩ := List.getElem?_eq_some_iff.mp ha
  have hb : l'[i]? = some (l'.get ⟨i, h.length_eq ▸ hlt⟩) := List.getElem?_eq_getElem _
  exact ⟨_, hb, get h ha hb⟩

theorem modify {f : α → α} {g : β → β} (h : List.Forall₂ R l l')
    (hfg : ∀ a b, l[i]? = some a → l'[i]? = some b → R a b → R (f a) (g b)) :
    List.Forall₂ R (l.modify i f) (l'.modify i g) := by
  induction h generalizing i with
  | nil => simp
  | cons hab hrest ih =>
    cases i with
    | zero => exact .cons (hfg _ _ rfl rfl hab) hrest
    | succ i => exact .cons hab (ih fun a b ha hb => hfg a b ha hb)

theorem sum_le {f : α → Nat} {g : β → Nat} (h : List.Forall₂ R l l')
    (hle : ∀ a b, R a b → g b ≤ f a) : (l'.map g).sum ≤ (l.map f).sum := by
  induction h with
  | nil => exact Nat.le_refl _
  | cons hab _ ih =>
    simp only [List.map_cons, List.sum_cons]
    exact Nat.add_le_add (hle _ _ hab) ih

theorem sum_add_le {f : α → Nat} {g : β → Nat} {n : Nat} (h : List.Forall₂ R l l')
    (hle : ∀ a b, R a b → g b ≤ f a) (ha : l[i]? = some a) (hb : l'[i]? = some b)
    (hn : g b + n ≤ f a) : (l'.map g).sum + n ≤ (l.map f).sum := by
  induction h generalizing i with
  | nil => cases ha
  | cons hab hrest ih =>
    simp only [List.map_cons, List.sum_cons]
    cases i with
    | zero =>
      obtain rfl := Option.some_inj.mp ha
      obtain rfl := Option.some_inj.mp hb
      have := sum_le hrest hle
      omega
    | succ i =>
      have := ih ha hb
      have := hle _ _ hab
      omega

/-- The sum after an edit at one place. -/
theorem sum_modify {f : α → α} {g : α → Nat} {n : Nat} (ha : l[i]? = some a)
    (hn : g (f a) = g a + n) : ((l.modify i f).map g).sum = (l.map g).sum + n := by
  induction l generalizing i with
  | nil => cases ha
  | cons b l ih =>
    cases i with
    | zero =>
      obtain rfl := Option.some_inj.mp ha
      simp only [List.modify_zero_cons, List.map_cons, List.sum_cons]
      omega
    | succ i =>
      have := ih ha
      simp only [List.modify_succ_cons, List.map_cons, List.sum_cons]
      omega

end Paired
