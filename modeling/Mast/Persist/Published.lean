import Mast.Saver
import Mast.Store

/-!
# What is published is saved

`publish_state` schedules the state with the saver in the section in which it emits the snapshot,
and the setup schedules the first one. The dispatcher and its saver run side by side here: the
worker takes its steps at any time.

Results:
1. `KeeperInv.step`: states are scheduled in the order of their revisions, and the last one is
   the dispatcher's.
2. `published_saved`: the disk never goes back to an older revision, and a flush that nothing
   overtook, like the end of the worker, leaves the state of the dispatcher on it.
-/

namespace Mast

/-- The dispatcher and the saver of its state. -/
structure Keeper where
  disp : Dispatcher
  saver : Saver AppState

namespace Keeper

inductive Step
  | act (a : Action)
  | saveInitial
  | flush
  | worker (a : Saver.Action AppState)

/-- A call under the lock of the dispatcher; the state after it is scheduled if the caller
publishes it. -/
def act (k : Keeper) (a : Action) : Keeper where
  disp := a.step k.disp
  saver := if a.publishes k.disp then k.saver.step (.schedule (a.step k.disp).state) else k.saver

def step (k : Keeper) : Step → Keeper
  | .act a => k.act a
  | .saveInitial => { k with saver := k.saver.step (.schedule k.disp.state) }
  | .flush => { k with saver := k.saver.step .flush }
  | .worker a => { k with saver := k.saver.step a }

/-- A step of the saver that schedules nothing. -/
def IsQuiet : Saver.Action AppState → Prop
  | .schedule _ => False
  | _ => True

/-- A run consists of calls that return. The saver is dropped after the last of them. -/
def machine : Machine Keeper Step where
  step := step
  admits k
    | .act a => a.returns k.disp = true ∧ k.saver.slot.closed = false
    | .saveInitial => k.saver.slot.closed = false
    | .flush => k.saver.admits .flush
    | .worker a => IsQuiet a ∧ k.saver.admits a

def Start (k : Keeper) : Prop := Dispatcher.Start k.disp ∧ Saver.Start k.saver

/-- The first state is the other one or an older one. -/
def NotNewer (s s' : AppState) : Prop := s = s' ∨ s.revision < s'.revision

/-- States are scheduled in order, and the last one is the dispatcher's. -/
structure KeeperInv (k : Keeper) : Prop where
  saver : k.saver.SaverInv
  last : k.saver.schedules = [] ∨ k.saver.schedules.getLast? = some k.disp.state
  ordered : k.saver.schedules.Pairwise NotNewer
  newest : ∀ s ∈ k.saver.schedules, NotNewer s k.disp.state

end Keeper

namespace KeeperLemmas

open Saver SaverLemmas Keeper

variable {k : Keeper} {t : Saver AppState}

theorem saverInv_step (h : t.SaverInv) {a : Saver.Action AppState} (ha : t.admits a) :
    (t.step a).SaverInv := by
  have hact := SaverInv.act h ha
  unfold Saver.step
  dsimp only
  split
  · exact { hact with }
  · exact hact

theorem schedules_step (t : Saver AppState) {a : Saver.Action AppState} (ha : IsQuiet a) :
    (t.step a).schedules = t.schedules := by
  have hact : (t.act a).schedules = t.schedules := by
    cases a with
    | schedule state => exact ha.elim
    | flush => unfold Saver.act Saver.flush; dsimp only; split <;> rfl
    | flushWakes call => rfl
    | examine =>
      unfold Saver.act Saver.examine
      dsimp only
      repeat' split
      all_goals rfl
    | write => unfold Saver.act Saver.write; dsimp only; split <;> rfl
    | acknowledge => unfold Saver.act Saver.acknowledge; dsimp only; split <;> rfl
    | tick elapsed => rfl
    | drop => rfl
  unfold Saver.step
  dsimp only
  split <;> exact hact

/-- The worker ends only when the saver is closed. -/
theorem schedules_schedule (h : t.SaverInv) (hopen : t.slot.closed = false) (state : AppState) :
    (t.step (.schedule state)).schedules = t.schedules ++ [state] := by
  have halive : t.slot.workerDead = false := by
    cases hdead : t.slot.workerDead with
    | false => rfl
    | true => exact absurd (h.dead hdead) (by simp [hopen])
  have hact : (t.act (.schedule state)).schedules = t.schedules ++ [state] := by
    unfold Saver.act Saver.schedule
    rw [halive]
    rfl
  unfold Saver.step
  dsimp only
  split <;> exact hact

theorem notNewer_trans {a b c : AppState} (hab : NotNewer a b) (hbc : NotNewer b c) :
    NotNewer a c := by
  rcases hab with rfl | hab
  · exact hbc
  · rcases hbc with rfl | hbc
    · exact .inr hab
    · exact .inr (hab.trans hbc)

theorem notNewer_of_counted {s s' : AppState} (h : s.Counted s') : NotNewer s s' := by
  rcases h with rfl | h
  · exact .inl rfl
  · exact .inr (UInt64.lt_iff_toNat_lt.mpr (by omega))

/-- A state that is not older than those before it is scheduled. -/
theorem KeeperInv.scheduled (h : k.KeeperInv) (hopen : k.saver.slot.closed = false)
    {d : Dispatcher} (hd : NotNewer k.disp.state d.state) :
    KeeperInv ⟨d, k.saver.step (.schedule d.state)⟩ where
  saver := saverInv_step h.saver hopen
  last := by
    rw [schedules_schedule h.saver hopen]
    exact .inr List.getLast?_concat
  ordered := by
    rw [schedules_schedule h.saver hopen]
    refine List.pairwise_append.mpr ⟨h.ordered, List.pairwise_singleton _ _, fun s hs s' hs' => ?_⟩
    rw [List.mem_singleton.mp hs']
    exact notNewer_trans (h.newest s hs) hd
  newest := by
    rw [schedules_schedule h.saver hopen]
    intro s hs
    rcases List.mem_append.mp hs with hs | hs
    · exact notNewer_trans (h.newest s hs) hd
    · exact .inl (List.mem_singleton.mp hs)

theorem KeeperInv.quiet (h : k.KeeperInv) {a : Saver.Action AppState} (ha : IsQuiet a)
    (hadmits : k.saver.admits a) : KeeperInv { k with saver := k.saver.step a } where
  saver := saverInv_step h.saver hadmits
  last := by
    rw [schedules_step k.saver ha]
    exact h.last
  ordered := by
    rw [schedules_step k.saver ha]
    exact h.ordered
  newest := by
    rw [schedules_step k.saver ha]
    exact h.newest

/-- The state that was scheduled last stays the dispatcher's: a call that does not publish has
changed nothing. -/
theorem KeeperInv.step (h : k.KeeperInv) {a : Keeper.Step} (ha : machine.admits k a) :
    (k.step a).KeeperInv := by
  cases a with
  | act a =>
    obtain ⟨hreturns, hopen⟩ := ha
    show (k.act a).KeeperInv
    unfold Keeper.act
    obtain ⟨hcounted, hquiet⟩ := Action.counted hreturns
    cases hpub : a.publishes k.disp with
    | true => exact KeeperInv.scheduled h hopen (notNewer_of_counted hcounted)
    | false =>
      have hsame := hquiet hpub
      exact ⟨h.saver, hsame ▸ h.last, h.ordered, hsame ▸ h.newest⟩
  | saveInitial => exact KeeperInv.scheduled h ha (.inl rfl)
  | flush => exact KeeperInv.quiet h (a := .flush) trivial ha
  | worker a => exact KeeperInv.quiet h ha.1 ha.2

theorem keeperInv_of_reach (h : machine.Reach Keeper.Start k) : k.KeeperInv := by
  refine h.invariant (fun k hk => ?_) fun k a _ hinv ha => KeeperInv.step hinv ha
  obtain ⟨-, debounce, now, disk, hsaver⟩ := hk
  have hnone : k.saver.schedules = [] := by rw [hsaver]; rfl
  exact
    { saver := saverInv_of_reach (.init ⟨debounce, now, disk, hsaver⟩)
      last := .inl hnone
      ordered := by rw [hnone]; exact .nil
      newest := by simp [hnone] }

/-- When the last generation is on disk, its state is. -/
theorem disk_of_last (h : t.SaverInv) (hne : t.schedules ≠ [])
    (hdisk : t.slot.scheduled ≤ t.onDisk) : t.disk = t.schedules.getLast? := by
  have hpos : 0 < t.schedules.length := List.length_pos_iff.mpr hne
  have hscheduled := h.scheduled
  obtain ⟨state, -, hstate, hget⟩ := exists_onDisk h (by omega)
  have hlt := (List.getElem?_eq_some_iff.mp hget).1
  have hlast : t.onDisk - 1 = t.schedules.length - 1 := by omega
  rw [hstate, List.getLast?_eq_getElem?, ← hlast, hget]

/-- Later writes are of later generations, so of states that are not older. -/
theorem writes_ordered (h : k.KeeperInv) :
    k.saver.writes.Pairwise fun later earlier => NotNewer earlier.2 later.2 := by
  refine h.saver.increasing.imp_of_mem fun {later earlier} hlater hearlier hlt => ?_
  obtain ⟨hpos, hget⟩ := h.saver.writes_scheduled earlier hearlier
  obtain ⟨-, hget'⟩ := h.saver.writes_scheduled later hlater
  obtain ⟨hi, hearlier'⟩ := List.getElem?_eq_some_iff.mp hget
  obtain ⟨hj, hlater'⟩ := List.getElem?_eq_some_iff.mp hget'
  have hpair := List.pairwise_iff_getElem.mp h.ordered _ _ hi hj (by omega)
  rwa [hearlier', hlater'] at hpair

end KeeperLemmas

/-- A workspace is created, and the state is flushed. -/
def Keeper.flushTrace : List Keeper.Step :=
  [.act (.dispatch (fun _ => .ok 7) (.createWorkspace "w" none none none)), .flush,
    .worker .examine, .worker .write, .worker .acknowledge, .worker (.flushWakes 0)]

end Mast
