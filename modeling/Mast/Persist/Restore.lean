import Mast.Persist.Load
import Mast.Structure.Reachable

/-!
# What a restore does

Results:
1. `sanitize_of_lt`, `sanitize_of_le`, `sanitize_of_full`: the next id of a restored state.
2. `restore_ok_iff`: a restore succeeds on a valid state, and removes and sanitises.
-/

namespace Mast

/-- The state without what belonged to the last process. -/
def AppState.sanitized (s : AppState) : AppState :=
  { s with workspaces := s.workspaces.map Workspace.sanitize }

/-- The greatest id that is in use or reserved. -/
def AppState.maxId (s : AppState) (reserved : Option UInt64) : UInt64 :=
  max (maxUsedId s) (reserved.getD 0)

namespace RestoreLemmas

open ReachableLemmas LegalLemmas

variable {s s' : AppState} {reserved : Option UInt64} {repairs : List Repair}

theorem ids_sanitized (s : AppState) : s.sanitized.ids = s.ids := by
  refine ids_of_shapes (s := s) ?_
  rw [AppState.sanitized, List.map_map]
  exact List.map_congr_left fun ws _ => shape_sanitize ws

theorem maxId_sanitized (s : AppState) (reserved : Option UInt64) :
    max (maxUsedId s.sanitized) (reserved.getD 0) = s.maxId reserved := by
  rw [maxUsedId, ids_sanitized]
  rfl

theorem sanitize_of_lt (h : s.maxId reserved < s.nextId) :
    sanitize s reserved = .ok (s.sanitized, []) := by
  rw [← maxId_sanitized] at h
  exact if_neg (not_le.mpr h)

theorem sanitize_of_le (h : s.nextId ≤ s.maxId reserved) {nextId : UInt64}
    (hnext : checkedAdd (s.maxId reserved) 1 = some nextId) :
    sanitize s reserved =
      .ok ({ s.sanitized with nextId }, [.nextId s.nextId (s.maxId reserved) nextId]) := by
  rw [← maxId_sanitized] at h hnext ⊢
  refine (if_pos h).trans ?_
  rw [show checkedAdd (max (maxUsedId { s with workspaces := s.workspaces.map Workspace.sanitize })
    (reserved.getD 0)) 1 = some nextId from hnext]
  rfl

theorem sanitize_of_full (h : s.nextId ≤ s.maxId reserved)
    (hfull : checkedAdd (s.maxId reserved) 1 = none) :
    sanitize s reserved = .error (.noNextId (s.maxId reserved)) := by
  rw [← maxId_sanitized] at h hfull ⊢
  refine (if_pos h).trans ?_
  rw [show checkedAdd (max (maxUsedId { s with workspaces := s.workspaces.map Workspace.sanitize })
    (reserved.getD 0)) 1 = none from hfull]
  rfl

/-- A sanitised state has its workspaces sanitised, and a next id above every id that is
in use or reserved. -/
theorem sanitize_ok_spec (h : sanitize s reserved = .ok (s', repairs)) :
    s' = { s.sanitized with nextId := s'.nextId } ∧ s.maxId reserved < s'.nextId := by
  rcases lt_or_ge (s.maxId reserved) s.nextId with hlt | hle
  · rw [sanitize_of_lt hlt] at h
    obtain ⟨rfl, -⟩ := Prod.mk.inj (Except.ok.inj h)
    exact ⟨rfl, hlt⟩
  · cases hnext : checkedAdd (s.maxId reserved) 1 with
    | none =>
      rw [sanitize_of_full hle hnext] at h
      cases h
    | some nextId =>
      rw [sanitize_of_le hle hnext] at h
      obtain ⟨rfl, -⟩ := Prod.mk.inj (Except.ok.inj h)
      refine ⟨rfl, ?_⟩
      rw [UInt64.lt_iff_toNat_lt, checkedAdd_eq_some.mp hnext]
      exact Nat.lt_succ_self _

theorem restore_ok_iff {persisted : AppState} {removed : List RemovedUnknownTab} :
    restore persisted removed = .ok (s, repairs) ↔
      validateApp persisted = .ok () ∧
      validateApp (removeUnknownTabs persisted removed) = .ok () ∧
      ∃ sanitized, sanitize (removeUnknownTabs persisted removed)
        (removed.map RemovedUnknownTab.id).max? = .ok (s, sanitized) ∧
          repairs = removed.map .removedTab ++ sanitized := by
  unfold restore
  cases hfirst : validateApp persisted with
  | error e => simp [Except.mapError, bind, Except.bind]
  | ok u =>
    cases hsecond : validateApp (removeUnknownTabs persisted removed) with
    | error e => simp [hsecond, Except.mapError, bind, Except.bind]
    | ok u =>
      cases hsanitize : sanitize (removeUnknownTabs persisted removed)
          (removed.map RemovedUnknownTab.id).max? with
      | error e => simp [hsecond, hsanitize, Except.mapError, bind, Except.bind]
      | ok result =>
        obtain ⟨s', sanitized⟩ := result
        simp [hsecond, hsanitize, Except.mapError, bind, Except.bind, pure, Except.pure, eq_comm]

end RestoreLemmas

end Mast
