import Mast.Board.Faces
import Mast.Dispatch

/-!
# The router of notifications

`router.rs`: reader threads merge their events into the pending batch. The worker takes the
batch at the end of a flush window, and `flush_now` takes it on the thread of its caller;
whoever took a batch applies it later, under the lock of the dispatcher. Taking and applying
are steps of their own, as the two locks are never held together.

Results:
1. `not_flushed`: two batches can be applied in the wrong order, and `flush_now` can return
   before an older batch is applied.
2. `flushed`: neither happens in a run in which a batch is only taken when the batches before
   it are applied.
-/

namespace Mast

/-! ## What events say -/

/-- The title that an event sets. -/
def OscEvent.saidTitle : OscEvent → Option String
  | .osc0Title title => some title
  | _ => none

/-- The directory that an event sets. -/
def OscEvent.saidCwd : OscEvent → Option String
  | .osc7Cwd uri => parseFileUri uri
  | _ => none

/-- The last that was said by the events of a session. -/
def lastSaid (said : OscEvent → Option String) (session : SessionId)
    (events : List (SessionId × OscEvent)) : Option String :=
  (events.filterMap fun e => if e.1 = session then said e.2 else none).getLast?

/-- The batch into which events were merged one after another. -/
def batchOf (events : List (SessionId × OscEvent)) : OscBatch := OscBatch.empty.mergeAll events

/-! ## The machine -/

/-- A batch that was taken and is not applied yet. `before` counts the pushes that were done
when a call of `flush_now` took it; the worker has none. -/
structure Flight where
  before : Option Nat
  events : List (SessionId × OscEvent)
deriving DecidableEq

/-- The dispatcher, the events of the pending batch and the batches in flight, oldest first.
`awake`: the worker waits for the end of a window. The rest is the history: all pushes, the
batches in the order in which they were taken and applied, and the calls of `flush_now` that
returned, with the number of pushes before each. -/
structure Router where
  disp : Dispatcher
  pending : List (SessionId × OscEvent)
  flying : List Flight
  awake : Bool
  pushed : List (SessionId × OscEvent)
  taken : List (List (SessionId × OscEvent))
  applied : List (List (SessionId × OscEvent))
  returned : List Nat

namespace Router

inductive Step
  | push (session : SessionId) (ev : OscEvent)
  | wake
  | workerTake
  | flushTake
  | apply (i : Nat) (nowMs : UInt64)
  | act (a : Action)

/-- A batch without events leaves no trace. -/
def record (events : List (SessionId × OscEvent)) (log : List (List (SessionId × OscEvent))) :
    List (List (SessionId × OscEvent)) := if events = [] then log else log ++ [events]

variable (s : Router)

def take (before : Option Nat) : Router :=
  { s with
    pending := []
    flying := s.flying ++ [⟨before, s.pending⟩]
    taken := record s.pending s.taken }

/-- `apply_batch`: an empty batch does not even lock the dispatcher. -/
def applyBatch (events : List (SessionId × OscEvent)) (nowMs : UInt64) : Dispatcher :=
  if (batchOf events).isEmpty then s.disp else (Action.applyOsc (batchOf events) nowMs).step s.disp

/-- The batch in flight at an index is applied; a call of `flush_now` returns with it. -/
def applyAt (i : Nat) (nowMs : UInt64) : Router :=
  match s.flying[i]? with
  | some flight =>
    { s with
      disp := s.applyBatch flight.events nowMs
      flying := s.flying.eraseIdx i
      applied := record flight.events s.applied
      returned := flight.before.toList ++ s.returned }
  | none => s

def step : Step → Router
  | .push session ev =>
    { s with pending := s.pending ++ [(session, ev)], pushed := s.pushed ++ [(session, ev)] }
  | .wake => { s with awake := true }
  | .workerTake => { s.take none with awake := false }
  | .flushTake => s.take (some s.pushed.length)
  | .apply i nowMs => s.applyAt i nowMs
  | .act a => { s with disp := a.step s.disp }

/-- A spawned session is new: it was not spawned before, and has reported nothing. The action
stands where its lock was taken, and a reader that starts within it pushes after it. -/
def Fresh (a : Action) : Prop :=
  ∀ x ∈ (a.step s.disp).spawned.drop s.disp.spawned.length,
    x ∉ s.disp.spawned ∧ ∀ e ∈ s.pushed, e.1 ≠ x

instance (a : Action) : Decidable (s.Fresh a) := List.decidableBAll _ _

/-- The action is a batch; only the router applies these. -/
def isBatch : Action → Bool
  | .applyOsc .. => true
  | _ => false

def admits : Step → Prop
  | .push .. => True
  | .wake => s.awake = false ∧ (∀ flight ∈ s.flying, flight.before ≠ none) ∧
    (batchOf s.pending).isEmpty = false
  | .workerTake => s.awake = true
  | .flushTake => True
  | .apply i nowMs => ∃ flight ∈ s.flying[i]?, (batchOf flight.events).isEmpty = true ∨
    (Action.applyOsc (batchOf flight.events) nowMs).returns s.disp = true
  | .act a => isBatch a = false ∧ a.returns s.disp = true ∧ s.Fresh a

instance : ∀ a, Decidable (s.admits a)
  | .push .. => isTrue trivial
  | .wake =>
    have : Decidable (∀ flight ∈ s.flying, flight.before ≠ none) := List.decidableBAll _ _
    inferInstanceAs (Decidable (_ ∧ _ ∧ _))
  | .workerTake => inferInstanceAs (Decidable (_ = _))
  | .flushTake => isTrue trivial
  | .apply .. => Option.decidableExistsMem _
  | .act _ => inferInstanceAs (Decidable (_ ∧ _ ∧ _))

/-- Routers as a machine, under a promise about the steps. -/
def machine (promise : Router → Step → Prop) : Machine Router Step where
  step := step
  admits s a := s.admits a ∧ promise s a

instance (promise : Router → Step → Prop) [∀ s a, Decidable (promise s a)] (s : Router)
    (a : Step) : Decidable ((machine promise).admits s a) :=
  inferInstanceAs (Decidable (_ ∧ _))

/-- A router that has seen nothing. -/
def ofDispatcher (disp : Dispatcher) : Router :=
  { disp, pending := [], flying := [], awake := false, pushed := [], taken := [], applied := [],
    returned := [] }

def Start (s : Router) : Prop := ∃ disp : Dispatcher, disp.Start ∧ s = ofDispatcher disp

/-- No batch in flight has events. -/
def Settled : Prop := ∀ flight ∈ s.flying, flight.events = []

instance : Decidable s.Settled := List.decidableBAll _ _

/-- Batches are taken one at a time: none is taken while an older one is to be applied,
unless the worker takes nothing. -/
def OneAtATime (s : Router) : Step → Prop
  | .workerTake => s.Settled ∨ s.pending = []
  | .flushTake => s.Settled
  | _ => True

instance (s : Router) : ∀ a, Decidable (s.OneAtATime a)
  | .workerTake => inferInstanceAs (Decidable (_ ∨ _))
  | .flushTake => inferInstanceAs (Decidable s.Settled)
  | .push .. | .wake | .apply .. | .act _ => isTrue trivial

/-! ## What is promised -/

/-- The tabs show what the events said last. -/
def Shows (events : List (SessionId × OscEvent)) : Prop :=
  ∀ t ∈ s.disp.state.tabs, ∀ x, t.session = some x →
    (∀ title ∈ lastSaid OscEvent.saidTitle x events, t.title = title) ∧
    ∀ path ∈ lastSaid OscEvent.saidCwd x events, t.cwd = some path

/-- Batches are applied in the order in which they were taken; when all are applied, each tab
shows what its session said last; and when a call of `flush_now` has returned, every push
before the call is applied. -/
structure Flushed : Prop where
  order : s.applied <+: s.taken
  shown : s.flying = [] → s.pending = [] → s.Shows s.pushed
  returned : ∀ n ∈ s.returned, s.pushed.take n <+: s.applied.flatten

end Router

namespace RouterLemmas

open Router FaceLemmas BoardLemmas

variable {s : Router} {events events' : List (SessionId × OscEvent)} {x : SessionId}
  {said : OscEvent → Option String}

/-! ## What was said last -/

theorem lastSaid_append : lastSaid said x (events ++ events') =
    (lastSaid said x events').or (lastSaid said x events) := by
  unfold lastSaid
  rw [List.filterMap_append, List.getLast?_append]

theorem lastSaid_singleton (session : SessionId) (ev : OscEvent) :
    lastSaid said x [(session, ev)] = if session = x then said ev else none := by
  unfold lastSaid
  by_cases h : session = x
  · cases hsaid : said ev <;> simp [h, hsaid]
  · simp [h]

theorem lastSaid_of_silent (h : ∀ e ∈ events, e.1 ≠ x) : lastSaid said x events = none := by
  unfold lastSaid
  rw [List.getLast?_eq_none_iff, List.filterMap_eq_nil_iff]
  exact fun e he => if_neg (h e he)

/-- What an event adds to the slot of its session. -/
theorem mergeEvent_said {ev : OscEvent} {f : OscDelta → OscDelta}
    (h : OscDelta.mergeEvent ev = some f) (delta : OscDelta) :
    (f delta).title = ev.saidTitle.or delta.title ∧ (f delta).cwd = ev.saidCwd.or delta.cwd := by
  have hdefault : (f .default).title = ev.saidTitle ∧ (f .default).cwd = ev.saidCwd := by
    have hmessage : ∀ (delta : OscDelta) body, (delta.mergeMessage body).title = delta.title ∧
        (delta.mergeMessage body).cwd = delta.cwd := by
      intro delta body
      unfold OscDelta.mergeMessage
      split <;> exact ⟨rfl, rfl⟩
    cases ev with
    | osc0Title title =>
      cases h
      exact ⟨rfl, rfl⟩
    | osc7Cwd uri =>
      rw [OscDelta.mergeEvent] at h
      unfold OscEvent.saidCwd
      split at h
      · next path hpath =>
        cases h
        exact ⟨rfl, hpath.symm⟩
      · cases h
    | osc9Notify body =>
      cases h
      exact hmessage _ body
    | osc777Notify title body =>
      rw [OscDelta.mergeEvent] at h
      split at h
      · next status hstatus =>
        cases h
        refine ⟨(hmessage _ body).1.trans ?_, (hmessage _ body).2.trans ?_⟩ <;> split <;> rfl
      · cases h
        exact hmessage _ body
    | osc777Started =>
      cases h
      exact ⟨rfl, rfl⟩
    | _ => cases h
  rw [FlushLemmas.mergeEvent_over h, ← hdefault.1, ← hdefault.2]
  exact ⟨rfl, rfl⟩

theorem mergeEvent_silent {ev : OscEvent} (h : OscDelta.mergeEvent ev = none) :
    ev.saidTitle = none ∧ ev.saidCwd = none := by
  cases ev with
  | osc7Cwd uri =>
    rw [OscDelta.mergeEvent] at h
    unfold OscEvent.saidCwd
    split at h
    · cases h
    · next hpath => exact ⟨rfl, hpath⟩
  | osc777Notify title body =>
    rw [OscDelta.mergeEvent] at h
    split at h <;> cases h
  | osc0Title title => cases h
  | osc9Notify body => cases h
  | osc777Started => cases h
  | _ => exact ⟨rfl, rfl⟩

theorem slotOf_eq (batch : OscBatch) :
    slotOf x batch.entries.entries = (batch.entries.get? x).getD .default := by
  unfold slotOf OrdMap.get?
  congr!

theorem slot_merge (batch : OscBatch) (session : SessionId) (ev : OscEvent) :
    (slotOf x (batch.merge session ev).entries.entries).title =
      (if session = x then ev.saidTitle else none).or (slotOf x batch.entries.entries).title ∧
    (slotOf x (batch.merge session ev).entries.entries).cwd =
      (if session = x then ev.saidCwd else none).or (slotOf x batch.entries.entries).cwd := by
  unfold OscBatch.merge
  cases hmerge : OscDelta.mergeEvent ev with
  | none =>
    obtain ⟨htitle, hcwd⟩ := mergeEvent_silent hmerge
    rw [htitle, hcwd, ite_self, Option.none_or, Option.none_or]
    exact ⟨rfl, rfl⟩
  | some f =>
    rw [slotOf_eq, slotOf_eq]
    by_cases h : session = x
    · subst h
      rw [OrdMap.get?_upsert_self, Option.getD_some, if_pos rfl, if_pos rfl]
      exact mergeEvent_said hmerge _
    · rw [OrdMap.get?_upsert_ne _ _ _ (Ne.symm h), if_neg h, if_neg h, Option.none_or,
        Option.none_or]
      exact ⟨rfl, rfl⟩

/-- The slot of a session has what its events said last. -/
theorem slot_batchOf (events : List (SessionId × OscEvent)) :
    (slotOf x (batchOf events).entries.entries).title = lastSaid OscEvent.saidTitle x events ∧
    (slotOf x (batchOf events).entries.entries).cwd = lastSaid OscEvent.saidCwd x events := by
  induction events using List.reverseRecOn with
  | nil => exact ⟨rfl, rfl⟩
  | append_singleton events e ih =>
    have hmerge : batchOf (events ++ [e]) = (batchOf events).merge e.1 e.2 := by
      unfold batchOf OscBatch.mergeAll
      exact List.foldl_concat ..
    obtain ⟨htitle, hcwd⟩ := slot_merge (x := x) (batchOf events) e.1 e.2
    rw [hmerge, htitle, hcwd, ih.1, ih.2, lastSaid_append, lastSaid_append, lastSaid_singleton,
      lastSaid_singleton]
    exact ⟨rfl, rfl⟩

/-! ## The tabs -/

theorem held_applyEntries (nowMs : UInt64) (entries : List (SessionId × OscDelta))
    {d : Dispatcher} (hnodup : d.state.held.Nodup) :
    (d.applyEntries nowMs entries).2.state.held.Nodup := by
  rw [← Multiset.coe_nodup, held_coe, heldBy_of_seats (applyEntries_seats nowMs entries d).1,
    ← held_coe, Multiset.coe_nodup]
  exact hnodup

theorem applyOsc_step (batch : OscBatch) (nowMs : UInt64) (d : Dispatcher) :
    ∃ revision, (Action.applyOsc batch nowMs).step d =
      (d.applyEntries nowMs batch.entries.entries).2.withRevision revision := by
  obtain ⟨revision, hrun⟩ := MachineLemmas.run_applyOsc batch nowMs d
  refine ⟨revision, ?_⟩
  rw [Action.step, Action.method, MachineLemmas.run_then_pure, hrun]

/-- A batch leaves on each tab what its events said last, and else what the tab showed. -/
theorem tabs_applyBatch (events : List (SessionId × OscEvent)) (nowMs : UInt64)
    (hnodup : s.disp.state.held.Nodup) :
    (s.applyBatch events nowMs).state.held.Nodup ∧
    ∀ t' ∈ (s.applyBatch events nowMs).state.tabs, ∀ x, t'.session = some x →
      ∃ t ∈ s.disp.state.tabs, t.Hears (slotOf x (batchOf events).entries.entries) t' := by
  unfold applyBatch
  split
  · next hempty =>
    refine ⟨hnodup, fun t' ht' x hx => ⟨t', ht', ?_⟩⟩
    have hnil : (batchOf events).entries.entries = [] :=
      List.length_eq_zero_iff.mp (of_decide_eq_true hempty)
    rw [hnil]
    exact hears_default.mpr (sameFace_refl t')
  · obtain ⟨revision, hstep⟩ := applyOsc_step (batchOf events) nowMs s.disp
    rw [hstep]
    refine ⟨held_applyEntries nowMs _ hnodup, fun t' ht' x hx => ?_⟩
    exact faces_applyEntries nowMs (OrdMap.keys_nodup _) hnodup ht' hx

theorem shows_apply {d : Dispatcher} (hshows : s.Shows events)
    (h : ∀ t' ∈ d.state.tabs, ∀ x, t'.session = some x →
      ∃ t ∈ s.disp.state.tabs, t.Hears (slotOf x (batchOf events').entries.entries) t') :
    Shows { s with disp := d } (events ++ events') := by
  intro t' ht' x hx
  obtain ⟨t, ht, hhears⟩ := h t' ht' x hx
  obtain ⟨htitle, hcwd⟩ := hshows t ht x (hhears.session ▸ hx)
  obtain ⟨hslotTitle, hslotCwd⟩ := slot_batchOf (x := x) events'
  refine ⟨fun title hlast => ?_, fun path hlast => ?_⟩
  · rw [lastSaid_append] at hlast
    rw [hhears.title, hslotTitle]
    rcases Option.or_eq_some_iff.mp hlast with hlast | ⟨hnone, hlast⟩
    · rw [hlast]
      rfl
    · rw [hnone]
      exact htitle title hlast
  · rw [lastSaid_append] at hlast
    rw [hhears.cwd, hslotCwd]
    rcases Option.or_eq_some_iff.mp hlast with hlast | ⟨hnone, hlast⟩
    · rw [hlast]
      rfl
    · rw [hnone]
      exact hcwd path hlast

/-- An action that is no batch leaves what the tabs show. -/
theorem shows_act {a : Action} (hbatch : isBatch a = false) (ha : a.returns s.disp = true)
    (hfresh : s.Fresh a) (hsub : events ⊆ s.pushed) (hshows : s.Shows events) :
    Shows { s with disp := a.step s.disp } events := by
  obtain ⟨fresh, hspawned, hkeeps⟩ := (Action.stepped ha).faces fun batch nowMs heq => by
    rw [heq] at hbatch
    cases hbatch
  intro t' ht' x hx
  rcases hkeeps t' ht' x hx with hnew | ⟨t, ht, hsame⟩
  · have hmem : x ∈ (a.step s.disp).spawned.drop s.disp.spawned.length := by
      rw [hspawned, List.drop_left]
      exact Option.mem_toList.mpr hnew
    have hsilent : ∀ e ∈ events, e.1 ≠ x := fun e he => (hfresh x hmem).2 e (hsub he)
    rw [lastSaid_of_silent hsilent, lastSaid_of_silent hsilent]
    exact ⟨nofun, nofun⟩
  · rw [hsame.title, hsame.cwd]
    exact hshows t ht x (hsame.session ▸ hx)

theorem held_act {a : Action} (hreach : Dispatcher.machine.Reach Dispatcher.Start s.disp)
    (hnodup : s.disp.state.held.Nodup) (ha : a.returns s.disp = true) (hfresh : s.Fresh a) :
    (a.step s.disp).state.held.Nodup := by
  obtain ⟨fresh, lost, hbalance⟩ := (Action.stepped ha).balance (legal_of_reach hreach)
  refine (WorldLemmas.mem_held_of_balance hbalance hnodup fun x hx hheld => ?_).1
  refine (hfresh x ?_).1 (DispatchLemmas.held_spawned hreach x hheld)
  rw [hbalance.spawned, List.drop_left]
  exact Option.mem_toList.mpr hx

/-! ## The batches -/

/-- The batches in flight that have events, oldest first. -/
def loads (s : Router) : List (List (SessionId × OscEvent)) :=
  (s.flying.map Flight.events).filter fun events => events ≠ []

/-- What holds while batches are taken one at a time. -/
structure TakenInOrder (s : Router) : Prop where
  reach : Dispatcher.machine.Reach Dispatcher.Start s.disp
  nodup : s.disp.state.held.Nodup
  taken : s.taken = s.applied ++ loads s
  alone : (loads s).length ≤ 1
  pushed : s.pushed = s.taken.flatten ++ s.pending
  asked : ∀ flight ∈ s.flying, ∀ n ∈ flight.before, n ≤ s.pushed.length ∧
    s.pushed.take n <+: s.applied.flatten ++ flight.events
  returned : ∀ n ∈ s.returned, n ≤ s.pushed.length ∧ s.pushed.take n <+: s.applied.flatten
  shows : s.Shows s.applied.flatten

theorem flatten_record (events : List (SessionId × OscEvent))
    (log : List (List (SessionId × OscEvent))) :
    (record events log).flatten = log.flatten ++ events := by
  unfold record
  split
  · next h => rw [h, List.append_nil]
  · rw [List.flatten_append, List.flatten_singleton]

theorem record_eq (events : List (SessionId × OscEvent))
    (log : List (List (SessionId × OscEvent))) :
    record events log = log ++ [events].filter fun events => events ≠ [] := by
  unfold record
  by_cases h : events = [] <;> simp [h]

theorem loads_settled (h : s.Settled) : loads s = [] := by
  refine List.filter_eq_nil_iff.mpr fun events hmem => ?_
  obtain ⟨flight, hflight, rfl⟩ := List.mem_map.mp hmem
  simp [h flight hflight]

theorem loads_take (before : Option Nat) :
    loads (s.take before) = loads s ++ [s.pending].filter fun events => events ≠ [] := by
  unfold loads take
  rw [List.map_append, List.filter_append]
  rfl

theorem inOrder_take {before : Option Nat} (hs : TakenInOrder s)
    (hbefore : ∀ n ∈ before, n = s.pushed.length ∧ s.Settled)
    (hone : s.Settled ∨ s.pending = []) : TakenInOrder (s.take before) where
  reach := hs.reach
  nodup := hs.nodup
  taken := by
    show record s.pending s.taken = s.applied ++ _
    rw [loads_take, ← List.append_assoc, ← hs.taken]
    exact record_eq _ _
  alone := by
    rw [loads_take]
    rcases hone with hone | hone
    · rw [loads_settled hone]
      exact List.length_filter_le _ _
    · rw [hone]
      simpa using hs.alone
  pushed := by
    show s.pushed = (record s.pending s.taken).flatten ++ []
    rw [flatten_record, List.append_nil]
    exact hs.pushed
  asked flight hflight n hn := by
    rcases List.mem_append.mp hflight with hold | hnew
    · exact hs.asked flight hold n hn
    · rw [List.mem_singleton.mp hnew] at hn ⊢
      obtain ⟨rfl, hsettled⟩ := hbefore n hn
      refine ⟨le_rfl, ?_⟩
      show s.pushed.take s.pushed.length <+: s.applied.flatten ++ s.pending
      rw [List.take_length, hs.pushed, hs.taken, loads_settled hsettled, List.append_nil]
  returned := hs.returned
  shows := hs.shows

theorem take_push {n : Nat} (h : n ≤ s.pushed.length) (e : SessionId × OscEvent) :
    (s.pushed ++ [e]).take n = s.pushed.take n := List.take_append_of_le_length h

theorem inOrder_push (hs : TakenInOrder s) (session : SessionId) (ev : OscEvent) :
    TakenInOrder (s.step (.push session ev)) where
  reach := hs.reach
  nodup := hs.nodup
  taken := hs.taken
  alone := hs.alone
  pushed := by
    show s.pushed ++ _ = s.taken.flatten ++ (s.pending ++ _)
    rw [← List.append_assoc, ← hs.pushed]
  asked flight hflight n hn := by
    obtain ⟨hle, hbegins⟩ := hs.asked flight hflight n hn
    refine ⟨hle.trans (by simp [step]), ?_⟩
    show (s.pushed ++ [(session, ev)]).take n <+: _
    rw [take_push hle]
    exact hbegins
  returned n hn := by
    obtain ⟨hle, hbegins⟩ := hs.returned n hn
    refine ⟨hle.trans (by simp [step]), ?_⟩
    show (s.pushed ++ [(session, ev)]).take n <+: _
    rw [take_push hle]
    exact hbegins
  shows := hs.shows

/-- The flights around the one that is applied. -/
theorem flying_split {i : Nat} {flight : Flight} (h : s.flying[i]? = some flight) :
    ∃ older newer, s.flying = older ++ flight :: newer ∧ s.flying.eraseIdx i = older ++ newer := by
  obtain ⟨hlt, rfl⟩ := List.getElem?_eq_some_iff.mp h
  refine ⟨s.flying.take i, s.flying.drop (i + 1), ?_, List.eraseIdx_eq_take_drop_succ ..⟩
  rw [List.getElem_cons_drop, List.take_append_drop]

theorem applied_subset (hs : TakenInOrder s) : s.applied.flatten ⊆ s.pushed := by
  intro e he
  rw [hs.pushed, hs.taken, List.flatten_append]
  exact List.mem_append_left _ (List.mem_append_left _ he)

/-- What is applied is the only batch in flight with events, if it has any. -/
theorem loads_apply {flight : Flight} {older newer : List Flight} (hs : TakenInOrder s)
    (h : s.flying = older ++ flight :: newer) :
    s.applied ++ loads s = record flight.events s.applied ++
      loads { s with flying := older ++ newer } ∧
    (loads { s with flying := older ++ newer }).length ≤ 1 ∧
    (flight.events ≠ [] → loads { s with flying := older ++ newer } = []) := by
  have hloads : loads s = (older.map Flight.events).filter (fun events => events ≠ []) ++
      ([flight.events].filter (fun events => events ≠ []) ++
        (newer.map Flight.events).filter fun events => events ≠ []) := by
    have hcons : (flight :: newer).map Flight.events =
        [flight.events] ++ newer.map Flight.events := rfl
    unfold loads
    rw [h, List.map_append, hcons, List.filter_append, List.filter_append]
  have hleft : loads { s with flying := older ++ newer } =
      (older.map Flight.events).filter (fun events => events ≠ []) ++
        (newer.map Flight.events).filter fun events => events ≠ [] := by
    unfold loads
    rw [List.map_append, List.filter_append]
  have halone := hs.alone
  rw [hloads] at halone
  rw [record_eq, hloads, hleft]
  generalize (older.map Flight.events).filter (fun events => events ≠ []) = before at halone ⊢
  generalize (newer.map Flight.events).filter (fun events => events ≠ []) = after at halone ⊢
  by_cases hempty : flight.events = []
  · rw [hempty] at halone ⊢
    refine ⟨?_, by simpa using halone, fun hne => absurd rfl hne⟩
    simp
  · have hone : [flight.events].filter (fun events => events ≠ []) = [flight.events] := by
      simp [hempty]
    rw [hone] at halone ⊢
    rw [List.length_append, List.length_append, List.length_singleton] at halone
    obtain rfl : before = [] := List.eq_nil_of_length_eq_zero (by omega)
    obtain rfl : after = [] := List.eq_nil_of_length_eq_zero (by omega)
    exact ⟨by simp, Nat.zero_le _, fun _ => rfl⟩

theorem inOrder_apply {i : Nat} {nowMs : UInt64} {flight : Flight} (hs : TakenInOrder s)
    (hflight : s.flying[i]? = some flight)
    (ha : (batchOf flight.events).isEmpty = true ∨
      (Action.applyOsc (batchOf flight.events) nowMs).returns s.disp = true) :
    TakenInOrder (s.applyAt i nowMs) := by
  obtain ⟨older, newer, hall, hrest⟩ := flying_split hflight
  obtain ⟨hloads, halone, hlast⟩ := loads_apply hs hall
  obtain ⟨hnodup, htabs⟩ := tabs_applyBatch flight.events nowMs hs.nodup
  have hflat := flatten_record flight.events s.applied
  have hmem : flight ∈ s.flying := List.mem_of_getElem? hflight
  -- What is applied leaves the air and is recorded; a flush that asked for it returns.
  have happly : s.applyAt i nowMs =
      { s with
        disp := s.applyBatch flight.events nowMs
        flying := older ++ newer
        applied := record flight.events s.applied
        returned := flight.before.toList ++ s.returned } := by
    rw [← hrest]
    unfold applyAt
    rw [hflight]
  rw [happly]
  refine ⟨?_, hnodup, hs.taken.trans hloads, halone, hs.pushed, fun other hother n hn => ?_,
    fun n hn => ?_, ?_⟩
  · show Dispatcher.machine.Reach Dispatcher.Start (s.applyBatch flight.events nowMs)
    unfold applyBatch
    split
    · exact hs.reach
    · next hfull => exact .step hs.reach (ha.resolve_left hfull)
  · have hin : other ∈ s.flying := by
      rw [hall]
      rcases List.mem_append.mp hother with h | h
      · exact List.mem_append_left _ h
      · exact List.mem_append_right _ (List.mem_cons_of_mem _ h)
    obtain ⟨hle, hbegins⟩ := hs.asked other hin n hn
    refine ⟨hle, ?_⟩
    show s.pushed.take n <+: (record flight.events s.applied).flatten ++ other.events
    rw [hflat]
    -- Two batches with events are never in the air at once.
    by_cases hempty : flight.events = []
    · rw [hempty, List.append_nil]
      exact hbegins
    · have hnone : other.events = [] := by
        have hother := List.filter_eq_nil_iff.mp (hlast hempty) other.events
          (List.mem_map_of_mem hother)
        simpa using hother
      rw [hnone, List.append_nil] at hbegins ⊢
      exact hbegins.trans (List.prefix_append _ _)
  · show n ≤ s.pushed.length ∧ s.pushed.take n <+: (record flight.events s.applied).flatten
    rw [hflat]
    rcases List.mem_append.mp hn with hnew | hold
    · exact hs.asked flight hmem n (Option.mem_toList.mp hnew)
    · obtain ⟨hle, hbegins⟩ := hs.returned n hold
      exact ⟨hle, hbegins.trans (List.prefix_append _ _)⟩
  · show Shows _ (record flight.events s.applied).flatten
    rw [hflat]
    exact shows_apply hs.shows htabs

theorem inOrder_act {a : Action} (hs : TakenInOrder s) (hbatch : isBatch a = false)
    (ha : a.returns s.disp = true) (hfresh : s.Fresh a) : TakenInOrder (s.step (.act a)) := by
  have hshows : Shows { s with disp := a.step s.disp } s.applied.flatten :=
    shows_act hbatch ha hfresh (applied_subset hs) hs.shows
  exact ⟨.step hs.reach ha, held_act hs.reach hs.nodup ha hfresh, hs.taken, hs.alone, hs.pushed,
    hs.asked, hs.returned, hshows⟩

theorem inOrder_step {a : Step} (hs : TakenInOrder s) (ha : s.admits a) (hone : s.OneAtATime a) :
    TakenInOrder (s.step a) := by
  cases a with
  | push session ev => exact inOrder_push hs session ev
  | wake =>
    obtain ⟨hreach, hnodup, htaken, halone, hpushed, hasked, hreturned, hshows⟩ := hs
    exact ⟨hreach, hnodup, htaken, halone, hpushed, hasked, hreturned, hshows⟩
  | workerTake =>
    have htake : TakenInOrder (s.take none) := inOrder_take hs nofun hone
    obtain ⟨hreach, hnodup, htaken, halone, hpushed, hasked, hreturned, hshows⟩ := htake
    exact ⟨hreach, hnodup, htaken, halone, hpushed, hasked, hreturned, hshows⟩
  | flushTake =>
    have hsettled : s.Settled := hone
    refine inOrder_take hs (fun n hn => ?_) (.inl hsettled)
    exact ⟨(Option.some.inj hn).symm, hsettled⟩
  | apply i nowMs =>
    obtain ⟨flight, hflight, hreturns⟩ := ha
    exact inOrder_apply hs hflight hreturns
  | act a => exact inOrder_act hs ha.1 ha.2.1 ha.2.2

theorem inOrder_start (h : s.Start) : TakenInOrder s := by
  obtain ⟨disp, hstart, rfl⟩ := h
  have hledger : Ledger ⟨disp, Notes.none⟩ := WorldLemmas.start_ledger ⟨hstart, rfl⟩
  exact ⟨.init hstart, hledger.nodup, rfl, Nat.zero_le _, rfl, nofun, nofun, fun _ _ _ _ =>
    ⟨nofun, nofun⟩⟩

end RouterLemmas

/-! ## The flush -/

/-- The worker has taken a title when the next one is flushed by the caller of `flush_now`,
which applies it first. -/
def overtakenTrace : List Router.Step :=
  [.act (.dispatch (fun _ => .ok 7) (.createWorkspace "w" none none (some (.terminal none)))),
    .push 7 (.osc0Title "first"), .wake, .workerTake, .push 7 (.osc0Title "last"), .flushTake,
    .apply 1 0, .apply 0 0]

/-- Batches are applied out of order, a title is taken back for good, and `flush_now` returns
while an older batch is not applied. -/
theorem not_flushed :
    (¬ ∀ s, (Router.machine fun _ _ => True).Reach Router.Start s → s.applied <+: s.taken) ∧
    (¬ ∀ s, (Router.machine fun _ _ => True).Reach Router.Start s →
      s.flying = [] → s.pending = [] → s.Shows s.pushed) ∧
    ¬ ∀ s, (Router.machine fun _ _ => True).Reach Router.Start s →
      ∀ n ∈ s.returned, s.pushed.take n <+: s.applied.flatten := by
  have hinit : (Router.machine fun _ _ => True).Reach Router.Start (.ofDispatcher .new) :=
    .init ⟨.new, .inl rfl, rfl⟩
  have hdone := hinit.of_trace overtakenTrace (by decide +kernel)
  refine ⟨fun h => ?_, fun h => ?_, fun h => ?_⟩
  · exact absurd (h _ hdone) (by decide +kernel)
  · have hshows := h _ hdone (by decide +kernel) (by decide +kernel)
    have htab : ∃ t ∈ ((Router.machine fun _ _ => True).run (.ofDispatcher .new)
        overtakenTrace).disp.state.tabs, t.session = some 7 ∧ t.title ≠ "last" := by
      decide +kernel
    obtain ⟨t, ht, hsession, htitle⟩ := htab
    exact htitle ((hshows t ht 7 hsession).1 "last" (by decide +kernel))
  · have hreturned := hinit.of_trace (overtakenTrace.take 7) (by decide +kernel)
    exact absurd (h _ hreturned 2 (by decide +kernel)) (by decide +kernel)

open RouterLemmas in
/-- In a run in which batches are taken one at a time, they are applied in order, the tabs end
up with what their sessions said last, and `flush_now` returns when every push before the call
is applied. -/
theorem flushed {s : Router} (h : (Router.machine Router.OneAtATime).Reach Router.Start s) :
    s.Flushed := by
  have hs : TakenInOrder s := h.invariant (I := fun s => TakenInOrder s) (fun _ => inOrder_start)
    fun s a _ hs ha => by
      have hadmits : s.admits a ∧ s.OneAtATime a := ha
      exact inOrder_step hs hadmits.1 hadmits.2
  refine ⟨hs.taken ▸ List.prefix_append _ _, fun hflying hpending => ?_,
    fun n hn => (hs.returned n hn).2⟩
  have hall : s.pushed = s.applied.flatten := by
    rw [hs.pushed, hs.taken, hpending, loads, hflying]
    simp
  exact hall ▸ hs.shows

/-- The same titles, when `flush_now` comes after the worker is done. -/
def inOrderTrace : List Router.Step :=
  [.act (.dispatch (fun _ => .ok 7) (.createWorkspace "w" none none (some (.terminal none)))),
    .push 7 (.osc0Title "first"), .wake, .workerTake, .apply 0 0, .push 7 (.osc0Title "last"),
    .flushTake, .apply 0 0]

theorem flushed_in_order :
    Router.Flushed ((Router.machine Router.OneAtATime).run (.ofDispatcher .new) inOrderTrace) := by
  have hinit : (Router.machine Router.OneAtATime).Reach Router.Start (.ofDispatcher .new) :=
    .init ⟨.new, .inl rfl, rfl⟩
  exact flushed (hinit.of_trace inOrderTrace (by decide +kernel))

end Mast
