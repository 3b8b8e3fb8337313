import Mathlib.Data.List.Basic

/-!
# Requests of which the last one counts

A caller numbers its requests and uses the answer to the last one only. Answers come in any order.
A request can be given up, without a new one.

Results:
1. `Requests.Numbered`: the calls that are under way are told apart by their numbers.
2. `outcome_issue`, `outcome_take`, `outcome_late`: what is known of the last request.
3. `idle_cancel`, `current_issue`, `current_late`: what is waited for.
-/

universe u v

/-- `last` is the number of the last request, or of the last one given up. -/
structure Requests (ρ : Type u) where
  last : Nat
  calls : List (Nat × ρ)

namespace Requests

variable {ρ : Type u} {α : Type v} {s : Requests ρ} {r r' : ρ} {k n : Nat} {answer : Nat → α}

def none : Requests ρ := ⟨0, []⟩

def issue (s : Requests ρ) (r : ρ) : Requests ρ := ⟨s.last + 1, s.calls ++ [(s.last + 1, r)]⟩

def cancel (s : Requests ρ) : Requests ρ := { s with last := s.last + 1 }

/-- A call is answered. -/
def take (s : Requests ρ) (k : Nat) : Requests ρ := { s with calls := s.calls.eraseIdx k }

/-- The request whose answer is waited for. -/
def Current (s : Requests ρ) (r : ρ) : Prop := (s.last, r) ∈ s.calls

def Waiting (s : Requests ρ) : Prop := ∃ call ∈ s.calls, call.1 = s.last

instance : Decidable s.Waiting := inferInstanceAs (Decidable (∃ call ∈ s.calls, call.1 = s.last))

/-- The answer to the last request, if it has come. -/
def outcome (s : Requests ρ) (answer : Nat → α) : Option α :=
  if s.Waiting then .none else some (answer s.last)

/-- The numbers of the calls ascend up to the last one. -/
structure Numbered (s : Requests ρ) : Prop where
  ascending : s.calls.Pairwise fun a b => a.1 < b.1
  le_last : ∀ call ∈ s.calls, call.1 ≤ s.last

theorem waiting_iff : s.Waiting ↔ ∃ r, s.Current r := by
  refine ⟨?_, fun ⟨_, hmem⟩ => ⟨_, hmem, rfl⟩⟩
  rintro ⟨⟨n, r⟩, hmem, hlast⟩
  obtain rfl : n = s.last := hlast
  exact ⟨r, hmem⟩

/-! ### Numbers -/

theorem numbered_none : (none : Requests ρ).Numbered := ⟨.nil, nofun⟩

theorem Numbered.issue (h : s.Numbered) (r : ρ) : (s.issue r).Numbered := by
  refine ⟨List.pairwise_append.mpr ⟨h.ascending, List.pairwise_singleton _ _, ?_⟩, ?_⟩
  · intro call hcall new hnew
    rw [List.mem_singleton.mp hnew]
    exact Nat.lt_succ_of_le (h.le_last call hcall)
  · intro call hcall
    rcases List.mem_append.mp hcall with hold | hnew
    · exact Nat.le_succ_of_le (h.le_last call hold)
    · rw [List.mem_singleton.mp hnew]
      exact Nat.le_refl _

theorem Numbered.cancel (h : s.Numbered) : s.cancel.Numbered :=
  ⟨h.ascending, fun call hcall => Nat.le_succ_of_le (h.le_last call hcall)⟩

theorem Numbered.take (h : s.Numbered) (k : Nat) : (s.take k).Numbered :=
  ⟨h.ascending.sublist (List.eraseIdx_sublist _ _),
    fun call hcall => h.le_last call (List.mem_of_mem_eraseIdx hcall)⟩

/-! ### What is waited for -/

/-- The last request is waited for, and no other. -/
theorem current_issue (h : s.Numbered) : (s.issue r).Current r' ↔ r' = r := by
  unfold Current issue
  rw [List.mem_append, List.mem_singleton, Prod.mk.injEq]
  refine ⟨fun hmem => hmem.elim (fun hold => ?_) And.right, fun heq => .inr ⟨rfl, heq⟩⟩
  exact absurd (h.le_last _ hold) (Nat.not_succ_le_self _)

theorem idle_cancel (h : s.Numbered) : ¬ s.cancel.Waiting := fun ⟨_, hmem, hlast⟩ =>
  Nat.not_succ_le_self _ (hlast ▸ h.le_last _ hmem)

/-- An answer to another request changes nothing. -/
theorem current_late (hk : s.calls[k]? = some (n, r)) (hn : n ≠ s.last) :
    (s.take k).Current r' ↔ s.Current r' := by
  unfold Current take
  refine ⟨List.mem_of_mem_eraseIdx, fun hmem => List.mem_eraseIdx_iff_getElem?.mpr ?_⟩
  obtain ⟨i, hi⟩ := List.mem_iff_getElem?.mp hmem
  refine ⟨i, fun heq => hn ?_, hi⟩
  rw [heq, hk] at hi
  exact (Prod.mk.inj (Option.some_inj.mp hi)).1

theorem waiting_late (hk : s.calls[k]? = some (n, r)) (hn : n ≠ s.last) :
    (s.take k).Waiting ↔ s.Waiting := by
  rw [waiting_iff, waiting_iff]
  exact exists_congr fun r' => current_late hk hn

/-- The answer that is waited for comes once. -/
theorem idle_take (h : s.Numbered) (hk : s.calls[k]? = some (s.last, r)) :
    ¬ (s.take k).Waiting := by
  rintro ⟨call, hmem, hlast⟩
  obtain ⟨i, hne, hi⟩ := List.mem_eraseIdx_iff_getElem?.mp hmem
  obtain ⟨hklt, hkeq⟩ := List.getElem?_eq_some_iff.mp hk
  obtain ⟨hilt, hieq⟩ := List.getElem?_eq_some_iff.mp hi
  have hascending := List.pairwise_iff_getElem.mp h.ascending
  rcases Nat.lt_or_gt_of_ne hne with hlt | hgt
  · have hless := hascending i k hilt hklt hlt
    rw [hieq, hkeq] at hless
    exact Nat.ne_of_lt hless hlast
  · have hless := hascending k i hklt hilt hgt
    rw [hieq, hkeq] at hless
    exact Nat.ne_of_gt hless hlast

/-! ### Outcomes -/

theorem outcome_issue : (s.issue r).outcome answer = .none :=
  if_pos ⟨_, List.mem_append_right _ (List.mem_singleton_self _), rfl⟩

theorem outcome_waiting (hk : s.calls[k]? = some (s.last, r)) : s.outcome answer = .none :=
  if_pos ⟨_, List.mem_of_getElem? hk, rfl⟩

theorem outcome_late (hk : s.calls[k]? = some (n, r)) (hn : n ≠ s.last) :
    (s.take k).outcome answer = s.outcome answer := if_congr (waiting_late hk hn) rfl rfl

theorem outcome_take (h : s.Numbered) (hk : s.calls[k]? = some (s.last, r)) :
    (s.take k).outcome answer = some (answer s.last) := if_neg (idle_take h hk)

end Requests
