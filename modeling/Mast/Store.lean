import Mast.Dispatch
import Mast.Lib.Latest
import Mast.Lib.Rounding

/-!
# Snapshots and the store

`publish_state` emits a snapshot after the methods that may have changed the state, under the
lock of the dispatcher, and `get_state` answers with one. `app/store.ts` keeps the snapshot with
the highest revision and passes it on to its listeners. Events and answers come in any order, an
event can be lost, and the page can be loaded again at any time.

A revision is a 64-bit counter; the page reads it as a binary64 number.

Results:
1. `Action.counted`: an action that changes the state counts the revision, and publishes.
2. `store_faithful`: the listeners are told a part of the dispatcher's history in its order, and
   a store that has heard everything shows the state of the dispatcher.
-/

namespace Mast

/-! ## Snapshots -/

structure StateSnapshot where
  revision : UInt64
  state : AppState
deriving DecidableEq

def AppState.snapshot (s : AppState) : StateSnapshot := ⟨s.revision, s⟩

def Dispatcher.snapshot (d : Dispatcher) : StateSnapshot := d.state.snapshot

/-- `JSON.parse` reads a revision as the nearest number. -/
def StateSnapshot.number (s : StateSnapshot) : F64 := F64.ofNat s.revision.toNat

/-- The caller of the method publishes the state: a command that succeeded, a respawn and a
session event in any case, a batch that changed something. -/
def Action.publishes (d : Dispatcher) : Action → Bool
  | .dispatch spawner cmd =>
    match (Exec.run (Dispatcher.dispatch spawner cmd) d).1 with
    | .ok _ => true
    | .error _ => false
  | .respawnTab _ _ => true
  | .applyEvent _ => true
  | .applyOsc batch nowMs =>
    match (Exec.run (Dispatcher.applyOsc batch nowMs) d).1 with
    | .ok changed => changed
    | .error _ => false

/-! ## The store -/

/-- `shouldAdopt`: a snapshot of the same revision is dropped as well. -/
def shouldAdopt (current : Option F64) (incoming : F64) : Bool :=
  match current with
  | none => true
  | some current => current.lt incoming

/-- The current snapshot, and what each listener was told. -/
structure Store where
  current : Option StateSnapshot
  listeners : List (List StateSnapshot)

namespace Store

def new : Store := ⟨none, []⟩

/-- A listener that comes late is told the current snapshot. -/
def subscribe (s : Store) : Store := { s with listeners := s.listeners ++ [s.current.toList] }

def unsubscribe (s : Store) (i : Nat) : Store := { s with listeners := s.listeners.eraseIdx i }

def offer (s : Store) (snapshot : StateSnapshot) : Store :=
  if shouldAdopt (s.current.map StateSnapshot.number) snapshot.number then
    ⟨some snapshot, s.listeners.map (· ++ [snapshot])⟩
  else s

end Store

/-! ## The dispatcher and the page -/

/-- The dispatcher, the page, and what is under way between them. `listening`: `init` has
registered the event handler; `asked`: the state was read for its `get_state`. Of the history,
`past` has the states of the dispatcher and `lost` the events that did not arrive on this page. -/
structure Feed where
  disp : Dispatcher
  store : Store
  listening : Bool
  asked : Bool
  events : List StateSnapshot
  answers : List StateSnapshot
  lost : List StateSnapshot
  past : List AppState

namespace Feed

inductive Step
  | act (a : Action)
  | listen
  | getState
  | deliver (i : Nat)
  | lose (i : Nat)
  | answer (i : Nat)
  | subscribe
  | unsubscribe (i : Nat)
  | reload

def boot (d : Dispatcher) : Feed := ⟨d, .new, false, false, [], [], [], [d.state]⟩

/-- A call under the lock of the dispatcher, with the publication that follows it. -/
def act (w : Feed) (a : Action) : Feed :=
  let d := a.step w.disp
  { w with
    disp := d
    events := if a.publishes w.disp && w.listening then w.events ++ [d.snapshot] else w.events
    past := if d.state = w.disp.state then w.past else w.past ++ [d.state] }

def deliver (w : Feed) (i : Nat) : Feed :=
  match w.events[i]? with
  | some snapshot =>
    { w with store := w.store.offer snapshot, events := w.events.eraseIdx i }
  | none => w

def lose (w : Feed) (i : Nat) : Feed :=
  match w.events[i]? with
  | some snapshot => { w with lost := w.lost ++ [snapshot], events := w.events.eraseIdx i }
  | none => w

def answer (w : Feed) (i : Nat) : Feed :=
  match w.answers[i]? with
  | some snapshot =>
    { w with store := w.store.offer snapshot, answers := w.answers.eraseIdx i }
  | none => w

def step (w : Feed) : Step → Feed
  | .act a => w.act a
  | .listen => { w with listening := true }
  | .getState => { w with asked := true, answers := w.answers ++ [w.disp.snapshot] }
  | .deliver i => w.deliver i
  | .lose i => w.lose i
  | .answer i => w.answer i
  | .subscribe => { w with store := w.store.subscribe }
  | .unsubscribe i => { w with store := w.store.unsubscribe i }
  | .reload =>
    { w with
      store := .new
      listening := false
      asked := false
      events := []
      answers := []
      lost := [] }

/-- A run consists of calls that return. `init` asks for the state after it has subscribed. -/
def machine : Machine Feed Step where
  step := step
  admits w
    | .act a => a.returns w.disp = true
    | .getState => w.listening = true
    | _ => True

instance (w : Feed) (a : Step) : Decidable (machine.admits w a) := by
  cases a <;> unfold machine <;> infer_instance

def Start (w : Feed) : Prop := ∃ d, Dispatcher.Start d ∧ w = boot d

end Feed

/-! ## Counting revisions -/

/-- The state is the same, or its revision is the next one. -/
def AppState.Counted (s s' : AppState) : Prop :=
  s' = s ∨ s'.revision.toNat = s.revision.toNat + 1

namespace StoreLemmas

open Exec Method

variable {d : Dispatcher}

/-! ### Nothing changed -/

theorem exitSession_of_not_held {session : SessionId} {code : Option UInt32} {endedAtMs : UInt64}
    {t : Tab} (h : t.session ≠ some session) : t.exitSession session code endedAtMs = t := by
  unfold Tab.exitSession
  split
  next s status cwd hkind =>
    have hs : s ≠ session := fun hs => h (by simp [Tab.session, hkind, hs])
    rw [if_neg hs]
  · rfl

theorem mapTabs_of_same {f : Tab → Tab} {ws : Workspace} (h : ∀ t ∈ ws.tabs, f t = t) :
    ws.mapTabs f = ws := by
  have hpanes : (ws.panes.mapValues fun p => { p with tabs := p.tabs.map f }) = ws.panes := by
    refine OrdMap.ext ((List.map_congr_left fun e he => ?_).trans (List.map_id _))
    have htabs : e.2.tabs.map f = e.2.tabs := (List.map_congr_left fun t ht =>
      h t (List.mem_flatMap.mpr ⟨e.2, List.mem_map_of_mem he, ht⟩)).trans (List.map_id _)
    dsimp only
    rw [htabs]
    rfl
  rw [Workspace.mapTabs, hpanes]

theorem mapWorkspaces_of_same {f : Workspace → Workspace}
    (h : ∀ ws ∈ d.state.workspaces, f ws = ws) : d.mapWorkspaces f = d := by
  have hlist : d.state.workspaces.map f = d.state.workspaces :=
    (List.map_congr_left h).trans (List.map_id _)
  rw [Dispatcher.mapWorkspaces, hlist]

theorem mem_tabs_of_workspace {s : AppState} {ws : Workspace} {t : Tab}
    (hws : ws ∈ s.workspaces) (ht : t ∈ ws.tabs) : t ∈ s.tabs :=
  List.mem_flatMap.mpr ⟨ws, hws, ht⟩

/-- An event that reports no change has made none. -/
theorem receive_unchanged {ev : SessionEvent} (h : (d.receive ev).1 = false) :
    (d.receive ev).2.state = d.state := by
  cases ev with
  | sessionExited session code endedAtMs =>
    have hheld : ∀ t ∈ d.state.tabs, t.session ≠ some session := by
      simpa [Dispatcher.receive] using h
    have hsame : ∀ ws ∈ d.state.workspaces, ws.exitSession session code endedAtMs = ws := by
      intro ws hws
      have htabs : ∀ t ∈ ws.tabs, t.session ≠ some session := fun t ht =>
        hheld t (mem_tabs_of_workspace hws ht)
      have hholders : ws.holders session = [] := by
        simpa [Workspace.holders, List.filter_eq_nil_iff] using htabs
      rw [Workspace.exitSession, hholders,
        mapTabs_of_same fun t ht => exitSession_of_not_held (htabs t ht)]
      rfl
    have hmap := mapWorkspaces_of_same
      (d := { d with startedSessions := d.startedSessions.erase session }) hsame
    exact (congrArg Dispatcher.state hmap :)
  | sessionStartupTimeout session =>
    by_cases hstarted : session ∈ d.startedSessions
    · simp [Dispatcher.receive, hstarted]
    · have hsame : ∀ t ∈ d.state.tabs, t.startupTimeout session = t := by
        simpa [Dispatcher.receive, hstarted] using h
      have hmap := mapWorkspaces_of_same (d := d) fun ws hws =>
        mapTabs_of_same fun t ht => hsame t (mem_tabs_of_workspace hws ht)
      simpa [Dispatcher.receive, hstarted] using congrArg Dispatcher.state hmap

theorem applyDelta_unchanged {s : AppState} {pos : TabPos} {delta : OscDelta} {nowMs : UInt64}
    (h : (s.applyDelta pos delta nowMs).1 = false) : (s.applyDelta pos delta nowMs).2 = s := by
  unfold AppState.applyDelta at h ⊢
  split
  · rfl
  next ws pane tab hlookup =>
    obtain ⟨hws, _⟩ := EffectLemmas.lookup_eq_some.mp hlookup
    simp only [hlookup, decide_eq_false_iff_not, not_not] at h
    dsimp only
    rw [h]
    have hlist : (s.workspaces.modify pos.ws fun _ => ws) = s.workspaces :=
      (EffectLemmas.modify_const (f := id) hws).symm.trans (by simp)
    rw [hlist]

theorem applyEntry_unchanged {nowMs : UInt64} {entry : SessionId × OscDelta}
    (h : (d.applyEntry nowMs entry).1 = false) : (d.applyEntry nowMs entry).2.state = d.state := by
  have hstate : (if entry.2.started then
      { d with startedSessions := insert entry.1 d.startedSessions } else d).state = d.state := by
    split <;> rfl
  unfold Dispatcher.applyEntry at h ⊢
  dsimp only at h ⊢
  rw [hstate] at h ⊢
  split
  · exact hstate
  next pos hpos =>
    simp only [hpos] at h
    exact applyDelta_unchanged h

/-- A batch that reports no change has made none. -/
theorem applyEntries_unchanged {nowMs : UInt64} {entries : List (SessionId × OscDelta)}
    (h : (d.applyEntries nowMs entries).1 = false) :
    (d.applyEntries nowMs entries).2.state = d.state := by
  induction entries generalizing d with
  | nil => rfl
  | cons entry entries ih =>
    obtain ⟨hentry, hlater⟩ := Bool.or_eq_false_iff.mp h
    exact (ih hlater).trans (applyEntry_unchanged hentry)

/-! ### Every change is counted -/

theorem revision_receive (ev : SessionEvent) (d : Dispatcher) :
    (d.receive ev).2.state.revision = d.state.revision := by
  cases ev with
  | sessionExited session code endedAtMs => rfl
  | sessionStartupTimeout session =>
    unfold Dispatcher.receive
    dsimp only
    split <;> rfl

theorem revision_applyDelta (s : AppState) (pos : TabPos) (delta : OscDelta) (nowMs : UInt64) :
    (s.applyDelta pos delta nowMs).2.revision = s.revision := by
  unfold AppState.applyDelta
  split <;> rfl

theorem revision_applyEntry (nowMs : UInt64) (entry : SessionId × OscDelta) (d : Dispatcher) :
    (d.applyEntry nowMs entry).2.state.revision = d.state.revision := by
  have hstate : (if entry.2.started then
      { d with startedSessions := insert entry.1 d.startedSessions } else d).state = d.state := by
    split <;> rfl
  unfold Dispatcher.applyEntry
  dsimp only
  rw [hstate]
  split
  · exact congrArg AppState.revision hstate
  · exact revision_applyDelta _ _ _ _

theorem revision_applyEntries (nowMs : UInt64) (entries : List (SessionId × OscDelta))
    (d : Dispatcher) : (d.applyEntries nowMs entries).2.state.revision = d.state.revision := by
  induction entries generalizing d with
  | nil => rfl
  | cons entry entries ih => exact (ih _).trans (revision_applyEntry nowMs entry d)

/-- What `bump_revision` and a step before it that reports its changes do together. -/
theorem counted_bumpIf {d₁ : Dispatcher} {changed : Bool}
    (hrevision : d₁.state.revision = d.state.revision)
    (hsame : changed = false → d₁.state = d.state)
    (hreturns : (run (bumpIf changed) d₁).1 ≠ .error .panic) :
    AppState.Counted d.state (run (bumpIf changed) d₁).2.state := by
  cases changed with
  | false => exact .inl (hsame rfl)
  | true =>
    rw [bumpIf, if_pos rfl, MachineLemmas.run_bumpRevision] at hreturns ⊢
    cases hadd : checkedAdd d₁.state.revision 1 with
    | none => simp [hadd] at hreturns
    | some revision =>
      refine .inr (Eq.trans ?_ (congrArg (fun r => UInt64.toNat r + 1) hrevision))
      exact checkedAdd_eq_some.mp hadd

theorem counted_applyEvent {ev : SessionEvent}
    (h : (run (Dispatcher.applyEvent ev) d).1 ≠ .error .panic) :
    AppState.Counted d.state (run (Dispatcher.applyEvent ev) d).2.state := by
  rw [Dispatcher.applyEvent, run_bind, run_act] at h ⊢
  exact counted_bumpIf (revision_receive ev d) receive_unchanged h

theorem counted_applyOsc {batch : OscBatch} {nowMs : UInt64}
    (h : (run (Dispatcher.applyOsc batch nowMs) d).1 ≠ .error .panic) :
    AppState.Counted d.state (run (Dispatcher.applyOsc batch nowMs) d).2.state := by
  rw [Dispatcher.applyOsc, run_bind, run_act] at h ⊢
  dsimp only at h ⊢
  rw [MachineLemmas.run_then_pure] at h ⊢
  refine counted_bumpIf (revision_applyEntries _ _ d) applyEntries_unchanged fun hpanic => h ?_
  rw [hpanic]
  rfl

/-- `apply_osc` that returns reports whether it changed anything. -/
theorem run_applyOsc_result {batch : OscBatch} {nowMs : UInt64}
    (h : (run (Dispatcher.applyOsc batch nowMs) d).1 ≠ .error .panic) :
    (run (Dispatcher.applyOsc batch nowMs) d).1 =
      .ok (d.applyEntries nowMs batch.entries.entries).1 := by
  rw [Dispatcher.applyOsc, run_bind, run_act] at h ⊢
  dsimp only at h ⊢
  rw [MachineLemmas.run_then_pure] at h ⊢
  cases hchanged : (d.applyEntries nowMs batch.entries.entries).1 with
  | false => rfl
  | true =>
    rw [hchanged, bumpIf, if_pos rfl, MachineLemmas.run_bumpRevision] at h
    rw [bumpIf, if_pos rfl, MachineLemmas.run_bumpRevision]
    split
    · rfl
    next hadd => simp [hadd, Except.map] at h

theorem counted_finishRespawn {pos : TabPos} {priorExit : Option (Option UInt32 × Option UInt64)}
    {answer : Except String SessionId} {d₁ : Dispatcher} (hstate : d₁.state = d.state)
    (h : (run (finishRespawn pos priorExit answer) d₁).1 ≠ .error .panic) :
    AppState.Counted d.state (run (finishRespawn pos priorExit answer) d₁).2.state := by
  cases hadd : checkedAdd d.state.revision 1 with
  | none =>
    refine absurd ?_ h
    cases answer <;>
      simp only [finishRespawn, run_bind, modifyWorkspace, mutate, run_act,
        MachineLemmas.run_bumpRevision, hstate, hadd]
  | some revision =>
    refine .inr (Eq.trans ?_ (checkedAdd_eq_some.mp hadd))
    cases answer <;>
      simp only [finishRespawn, run_bind, modifyWorkspace, mutate, run_act,
        MachineLemmas.run_bumpRevision, hstate, hadd, run_pure, fail, run_throw,
        Dispatcher.withRevision]

theorem counted_respawnTab {spawner : Spawner} {tab : TabId}
    (h : (run (respawnTab spawner tab) d).1 ≠ .error .panic) :
    AppState.Counted d.state (run (respawnTab spawner tab) d).2.state := by
  generalize hrun : run (respawnTab spawner tab) d = result at h ⊢
  simp only [respawnTab, run_bind, find, expect, check, Method.tell, spawnShell, run_reads, run_act]
    at hrun
  cases hpos : d.state.locateTab tab with
  | error e =>
    simp only [hpos, Except.mapError] at hrun
    exact hrun ▸ .inl rfl
  | ok pos =>
    obtain ⟨ws, p, t, hlookup, _⟩ := EffectLemmas.locateTab_ok hpos
    simp only [hpos, hlookup, Except.mapError] at hrun
    cases heligible : t.kind.respawnable with
    | none =>
      simp only [heligible] at hrun
      exact hrun ▸ .inl rfl
    | some eligible =>
      simp only [heligible] at hrun
      subst hrun
      exact counted_finishRespawn rfl h

end StoreLemmas

open StoreLemmas in
/-- An action that returns keeps the state, or counts one revision and publishes. -/
theorem Action.counted {d : Dispatcher} {a : Action} (h : a.returns d = true) :
    d.state.Counted (a.step d).state ∧
      (a.publishes d = false → (a.step d).state = d.state) := by
  rw [MachineLemmas.returns_iff] at h
  cases a with
  | dispatch spawner cmd =>
    rw [Action.step, Action.method, MachineLemmas.run_then_pure] at *
    cases hrun : Exec.run (Dispatcher.dispatch spawner cmd) d with
    | mk result d' =>
      cases result with
      | ok out =>
        obtain ⟨gone, d₁, revision, hperformed, hrevision, rfl⟩ := dispatch_ok hrun
        refine ⟨.inr ?_, by simp [Action.publishes, hrun]⟩
        rw [← DispatchLemmas.effect_revision hperformed.effect]
        exact hrevision
      | error e =>
        have hframe := dispatch_atomic spawner cmd d e (by rw [hrun]) fun hpanic => h (by
          rw [hrun, hpanic]
          rfl)
        rw [hrun] at hframe
        have hstate : d'.state = d.state := congrArg Prod.fst hframe
        exact ⟨.inl hstate, fun _ => hstate⟩
  | respawnTab spawner tab =>
    rw [Action.step, Action.method, MachineLemmas.run_then_pure] at *
    refine ⟨counted_respawnTab fun hpanic => h (by rw [hpanic]; rfl), fun hpub => ?_⟩
    cases hpub
  | applyEvent ev =>
    refine ⟨counted_applyEvent h, fun hpub => ?_⟩
    cases hpub
  | applyOsc batch nowMs =>
    rw [Action.step, Action.method, MachineLemmas.run_then_pure] at *
    have hreturns : (Exec.run (Dispatcher.applyOsc batch nowMs) d).1 ≠ .error .panic :=
      fun hpanic => h (by rw [hpanic]; rfl)
    refine ⟨counted_applyOsc hreturns, fun hpub => ?_⟩
    have hchanged : (d.applyEntries nowMs batch.entries.entries).1 = false := by
      simpa [Action.publishes, run_applyOsc_result hreturns] using hpub
    refine Eq.trans ?_ (applyEntries_unchanged hchanged)
    rw [Dispatcher.applyOsc, Exec.run_bind, Exec.run_act]
    dsimp only
    rw [MachineLemmas.run_then_pure, hchanged]
    rfl

/-! ## Runs of the feed -/

namespace Feed

/-- What the dispatcher has been, as snapshots. -/
def history (w : Feed) : List StateSnapshot := w.past.map AppState.snapshot

/-- The listeners are told a part of the history in its order, each up to the current snapshot. A
store whose page has asked, and for which nothing is under way, shows the state of the dispatcher,
unless the event of just this state was lost. -/
structure Faithful (w : Feed) : Prop where
  history : w.past.Pairwise fun a b => a.revision < b.revision
  now : w.past.getLast? = some w.disp.state
  told : ∀ log ∈ w.store.listeners, log.Sublist w.history ∧ log.getLast? = w.store.current
  shown : ∀ snapshot ∈ w.store.current, snapshot ∈ w.history
  settled : w.asked = true → w.events = [] → w.answers = [] → w.disp.snapshot ∉ w.lost →
    w.disp.state.revision.toNat ≤ 2 ^ 53 → w.store.current = some w.disp.snapshot

/-- A snapshot is under way to the page. -/
def underWay (w : Feed) : List StateSnapshot := w.events ++ w.answers

/-- The page has something at least as new as the snapshot. -/
def Heard (w : Feed) (snapshot : StateSnapshot) : Prop :=
  ∃ c, w.store.current = some c ∧ snapshot.number.bits.toNat ≤ c.number.bits.toNat

/-- The invariant of the feed. -/
structure Inv (w : Feed) : Prop where
  history : w.past.Pairwise fun a b => a.revision < b.revision
  now : w.past.getLast? = some w.disp.state
  logs : ∀ log ∈ w.store.listeners,
    Latest.Log (fun s : StateSnapshot => s.number.bits.toNat) w.store.current log
  told : ∀ log ∈ w.store.listeners, ∀ snapshot ∈ log, snapshot ∈ w.history
  shown : ∀ snapshot ∈ w.store.current, snapshot ∈ w.history
  sent : ∀ snapshot ∈ w.underWay, snapshot ∈ w.history
  asked : w.asked = true → w.listening = true
  heard : w.asked = true →
    w.disp.snapshot ∈ w.underWay ∨ w.disp.snapshot ∈ w.lost ∨ w.Heard w.disp.snapshot

end Feed

namespace StoreLemmas

variable {w : Feed} {s : Store} {x y : StateSnapshot}

theorem revision_lt (x : StateSnapshot) : x.revision.toNat < 2 ^ 64 := x.revision.toNat_lt

theorem lt_number_iff :
    x.number.lt y.number = true ↔ x.number.bits.toNat < y.number.bits.toNat :=
  F64.lt_ofNat_iff (revision_lt x) (revision_lt y)

/-- A number that compares smaller belongs to an older revision. -/
theorem revision_lt_of_number (h : x.number.bits.toNat < y.number.bits.toNat) :
    x.revision < y.revision :=
  UInt64.lt_iff_toNat_lt.mpr
    (F64.lt_of_ofNat_lt (revision_lt x) (revision_lt y) (lt_number_iff.mpr h))

theorem shouldAdopt_eq (current : Option StateSnapshot) (x : StateSnapshot) :
    shouldAdopt (current.map StateSnapshot.number) x.number =
      Latest.adopts (fun s : StateSnapshot => s.number.bits.toNat) current x := by
  cases current with
  | none => rfl
  | some c => exact Bool.eq_iff_iff.mpr (lt_number_iff.trans decide_eq_true_iff.symm)

/-- `offer` is the offer of the library, and each listener keeps the log of it. -/
theorem offer_eq (s : Store) (x : StateSnapshot) :
    s.offer x = ⟨Latest.offer (fun s : StateSnapshot => s.number.bits.toNat) s.current x,
      s.listeners.map fun log =>
        if Latest.adopts (fun s : StateSnapshot => s.number.bits.toNat) s.current x then log ++ [x]
        else log⟩ := by
  rw [Store.offer, shouldAdopt_eq, Latest.offer]
  split
  · rfl
  · rw [List.map_id']

/-- What the store and its listeners have after an offer. -/
theorem offer_known {P : StateSnapshot → Prop} (hx : P x) (hshown : ∀ y ∈ s.current, P y)
    (htold : ∀ log ∈ s.listeners, ∀ y ∈ log, P y) :
    (∀ y ∈ (s.offer x).current, P y) ∧ ∀ log ∈ (s.offer x).listeners, ∀ y ∈ log, P y := by
  unfold Store.offer
  split
  · refine ⟨fun y hy => Option.some_inj.mp hy ▸ hx, fun log hlog y hy => ?_⟩
    obtain ⟨old, hold, rfl⟩ := List.mem_map.mp hlog
    rcases List.mem_append.mp hy with hy | hy
    · exact htold old hold y hy
    · exact List.mem_singleton.mp hy ▸ hx
  · exact ⟨hshown, htold⟩

/-- An offered snapshot is heard, and what was heard stays heard. -/
theorem heard_offer (w : Feed) (x : StateSnapshot) {w' : Feed}
    (hstore : w'.store = w.store.offer x) : w'.Heard x ∧ ∀ y, w.Heard y → w'.Heard y := by
  obtain ⟨c, hc, hx, hold, _⟩ :=
    Latest.offer_spec (fun s : StateSnapshot => s.number.bits.toNat) w.store.current x
  have hcurrent : w'.store.current = some c := by rw [hstore, offer_eq]; exact hc
  refine ⟨⟨c, hcurrent, hx⟩, fun y ⟨b, hb, hy⟩ => ⟨c, hcurrent, hy.trans (hold b hb)⟩⟩

theorem logs_offer (h : ∀ log ∈ s.listeners,
    Latest.Log (fun s : StateSnapshot => s.number.bits.toNat) s.current log) (x : StateSnapshot) :
    ∀ log ∈ (s.offer x).listeners,
      Latest.Log (fun s : StateSnapshot => s.number.bits.toNat) (s.offer x).current log := by
  rw [offer_eq]
  intro log hlog
  obtain ⟨old, hold, rfl⟩ := List.mem_map.mp hlog
  exact (h old hold).offer x

/-! ### One step -/

theorem mem_history_of_past {w' : Feed} (hpast : ∀ s ∈ w.past, s ∈ w'.past) {x : StateSnapshot}
    (h : x ∈ w.history) : x ∈ w'.history := by
  obtain ⟨s, hs, rfl⟩ := List.mem_map.mp h
  exact List.mem_map_of_mem (hpast s hs)

theorem snapshot_mem_history (h : w.past.getLast? = some w.disp.state) :
    w.disp.snapshot ∈ w.history :=
  List.mem_map_of_mem (List.mem_of_getLast? h)

/-- What a call sends is the state after it. -/
theorem underWay_act {a : Action} : ∀ x ∈ (w.act a).underWay,
    x ∈ w.underWay ∨ x = (w.act a).disp.snapshot := by
  intro x hx
  unfold Feed.underWay Feed.act at hx
  dsimp only at hx
  rcases List.mem_append.mp hx with hx | hx
  · split at hx
    · rcases List.mem_append.mp hx with hx | hx
      · exact .inl (List.mem_append_left _ hx)
      · exact .inr (List.mem_singleton.mp hx)
    · exact .inl (List.mem_append_left _ hx)
  · exact .inl (List.mem_append_right _ hx)

theorem underWay_subset_act {a : Action} : ∀ x ∈ w.underWay, x ∈ (w.act a).underWay := by
  intro x hx
  unfold Feed.underWay Feed.act
  dsimp only
  rcases List.mem_append.mp hx with hx | hx
  · refine List.mem_append_left _ ?_
    split
    · exact List.mem_append_left _ hx
    · exact hx
  · exact List.mem_append_right _ hx

/-- The current state is the newest. -/
theorem le_revision_now (h : w.Inv) {s : AppState} (hs : s ∈ w.past) :
    s = w.disp.state ∨ s.revision < w.disp.state.revision := by
  obtain ⟨front, hfront⟩ := List.getLast?_eq_some_iff.mp h.now
  have hsorted := h.history
  rw [hfront] at hsorted hs
  rcases List.mem_append.mp hs with hs | hs
  · exact .inr ((List.pairwise_append.mp hsorted).2.2 s hs _ (List.mem_singleton_self _))
  · exact .inl (List.mem_singleton.mp hs)

theorem inv_act_same {a : Action} (h : w.Inv) (hsame : (a.step w.disp).state = w.disp.state) :
    (w.act a).Inv := by
  have hpast : (w.act a).past = w.past := if_pos hsame
  have hhistory : (w.act a).history = w.history := congrArg (List.map _) hpast
  have hsnapshot : (w.act a).disp.snapshot = w.disp.snapshot := congrArg AppState.snapshot hsame
  exact
    { history := hpast ▸ h.history
      now := by rw [hpast, h.now]; exact congrArg some hsame.symm
      logs := h.logs
      told := hhistory ▸ h.told
      shown := hhistory ▸ h.shown
      sent := fun x hx => by
        rw [hhistory]
        rcases underWay_act x hx with hx | rfl
        · exact h.sent x hx
        · exact hsnapshot ▸ snapshot_mem_history h.now
      asked := h.asked
      heard := fun hasked => by
        rw [hsnapshot]
        exact (h.heard hasked).imp_left (underWay_subset_act _) }

theorem inv_act_counted {a : Action} (h : w.Inv) (hpublishes : a.publishes w.disp = true)
    (hne : (a.step w.disp).state ≠ w.disp.state)
    (hrevision : (a.step w.disp).state.revision.toNat = w.disp.state.revision.toNat + 1) :
    (w.act a).Inv := by
  have hpast : (w.act a).past = w.past ++ [(a.step w.disp).state] := if_neg hne
  have hold : ∀ x, x ∈ w.history → x ∈ (w.act a).history := fun x =>
    mem_history_of_past fun s hs => hpast ▸ List.mem_append_left _ hs
  have hnow : (w.act a).past.getLast? = some (w.act a).disp.state := by
    rw [hpast]
    exact List.getLast?_concat
  have hnext : w.disp.state.revision < (a.step w.disp).state.revision :=
    UInt64.lt_iff_toNat_lt.mpr (by omega)
  exact
    { history := by
        rw [hpast]
        refine List.pairwise_append.mpr ⟨h.history, List.pairwise_singleton _ _, ?_⟩
        intro s hs s' hs'
        rw [List.mem_singleton.mp hs']
        rcases le_revision_now h hs with rfl | hlt
        · exact hnext
        · exact hlt.trans hnext
      now := hnow
      logs := h.logs
      told := fun log hlog x hx => hold x (h.told log hlog x hx)
      shown := fun x hx => hold x (h.shown x hx)
      sent := fun x hx => by
        rcases underWay_act x hx with hx | rfl
        · exact hold x (h.sent x hx)
        · exact snapshot_mem_history hnow
      asked := h.asked
      heard := fun hasked => by
        refine .inl (List.mem_append_left _ ?_)
        have hlistening : w.listening = true := h.asked hasked
        simp only [Feed.act, hpublishes, hlistening, Bool.and_self, if_true]
        exact List.mem_append_right _ (List.mem_singleton_self _) }

theorem inv_act {a : Action} (h : w.Inv) (ha : a.returns w.disp = true) : (w.act a).Inv := by
  obtain ⟨hcounted, hquiet⟩ := Action.counted ha
  by_cases hsame : (a.step w.disp).state = w.disp.state
  · exact inv_act_same h hsame
  · refine inv_act_counted h ?_ hsame (hcounted.resolve_left hsame)
    by_contra hpub
    exact hsame (hquiet (Bool.eq_false_iff.mpr hpub))

/-- A snapshot arrives: it leaves what is under way. -/
theorem inv_offer {w' : Feed} (h : w.Inv) (hx : x ∈ w.underWay)
    (hstore : w'.store = w.store.offer x) (hdisp : w'.disp = w.disp) (hpast : w'.past = w.past)
    (hlost : w'.lost = w.lost) (hlistening : w'.listening = w.listening)
    (hasked : w'.asked = w.asked) (hrest : ∀ y ∈ w'.underWay, y ∈ w.underWay)
    (hleft : ∀ y ∈ w.underWay, y = x ∨ y ∈ w'.underWay) : w'.Inv := by
  have hhistory : w'.history = w.history := congrArg (List.map _) hpast
  obtain ⟨hshown, htold⟩ := offer_known (h.sent x hx) h.shown h.told
  obtain ⟨hheard, hkept⟩ := heard_offer w x hstore
  exact
    { history := hpast ▸ h.history
      now := by rw [hpast, hdisp]; exact h.now
      logs := by rw [hstore]; exact logs_offer h.logs x
      told := by rw [hstore, hhistory]; exact htold
      shown := by rw [hstore, hhistory]; exact hshown
      sent := fun y hy => hhistory ▸ h.sent y (hrest y hy)
      asked := by rw [hasked, hlistening]; exact h.asked
      heard := fun ha => by
        rw [hdisp, hlost]
        rcases h.heard (hasked ▸ ha) with hway | hl | hh
        · rcases hleft _ hway with heq | hway
          · exact .inr (.inr (heq ▸ hheard))
          · exact .inl hway
        · exact .inr (.inl hl)
        · exact .inr (.inr (hkept _ hh)) }

theorem eq_or_mem_eraseIdx {α : Type} {l : List α} {i : Nat} {x y : α} (hi : l[i]? = some x)
    (hy : y ∈ l) : y = x ∨ y ∈ l.eraseIdx i := by
  obtain ⟨j, hj⟩ := List.mem_iff_getElem?.mp hy
  by_cases hij : j = i
  · exact .inl (Option.some_inj.mp ((hij ▸ hj).symm.trans hi))
  · exact .inr (List.mem_eraseIdx_iff_getElem?.mpr ⟨j, hij, hj⟩)

theorem inv_deliver (h : w.Inv) (i : Nat) : (w.deliver i).Inv := by
  unfold Feed.deliver
  split
  next x hi =>
    refine inv_offer h (List.mem_append_left _ (List.mem_of_getElem? hi)) rfl rfl rfl rfl rfl rfl
      (fun y hy => ?_) fun y hy => ?_
    · rcases List.mem_append.mp hy with hy | hy
      · exact List.mem_append_left _ (List.mem_of_mem_eraseIdx hy)
      · exact List.mem_append_right _ hy
    · rcases List.mem_append.mp hy with hy | hy
      · exact (eq_or_mem_eraseIdx hi hy).imp_right (List.mem_append_left _)
      · exact .inr (List.mem_append_right _ hy)
  · exact h

theorem inv_answer (h : w.Inv) (i : Nat) : (w.answer i).Inv := by
  unfold Feed.answer
  split
  next x hi =>
    refine inv_offer h (List.mem_append_right _ (List.mem_of_getElem? hi)) rfl rfl rfl rfl rfl rfl
      (fun y hy => ?_) fun y hy => ?_
    · rcases List.mem_append.mp hy with hy | hy
      · exact List.mem_append_left _ hy
      · exact List.mem_append_right _ (List.mem_of_mem_eraseIdx hy)
    · rcases List.mem_append.mp hy with hy | hy
      · exact .inr (List.mem_append_left _ hy)
      · exact (eq_or_mem_eraseIdx hi hy).imp_right (List.mem_append_right _)
  · exact h

theorem inv_lose (h : w.Inv) (i : Nat) : (w.lose i).Inv := by
  unfold Feed.lose
  split
  next x hi =>
    refine { h with
      sent := fun y hy => ?_
      heard := fun hasked => ?_ }
    · rcases List.mem_append.mp hy with hy | hy
      · exact h.sent y (List.mem_append_left _ (List.mem_of_mem_eraseIdx hy))
      · exact h.sent y (List.mem_append_right _ hy)
    · rcases h.heard hasked with hway | hlost | hheard
      · rcases List.mem_append.mp hway with hy | hy
        · rcases eq_or_mem_eraseIdx hi hy with heq | hy
          · exact .inr (.inl (List.mem_append_right _ (List.mem_singleton.mpr heq)))
          · exact .inl (List.mem_append_left _ hy)
        · exact .inl (List.mem_append_right _ hy)
      · exact .inr (.inl (List.mem_append_left _ hlost))
      · exact .inr (.inr hheard)
  · exact h

theorem inv_getState (h : w.Inv) (hlistening : w.listening = true) : (w.step .getState).Inv :=
  { h with
    sent := fun y hy => by
      rcases List.mem_append.mp hy with hy | hy
      · exact h.sent y (List.mem_append_left _ hy)
      · rcases List.mem_append.mp hy with hy | hy
        · exact h.sent y (List.mem_append_right _ hy)
        · exact List.mem_singleton.mp hy ▸ snapshot_mem_history h.now
    asked := fun _ => hlistening
    heard := fun _ => .inl (List.mem_append_right _ (List.mem_append_right _
      (List.mem_singleton_self _))) }

theorem inv_subscribe (h : w.Inv) : (w.step .subscribe).Inv :=
  { h with
    logs := fun log hlog => by
      rcases List.mem_append.mp hlog with hlog | hlog
      · exact h.logs log hlog
      · exact List.mem_singleton.mp hlog ▸ Latest.log_start _
    told := fun log hlog x hx => by
      rcases List.mem_append.mp hlog with hlog | hlog
      · exact h.told log hlog x hx
      · rw [List.mem_singleton.mp hlog] at hx
        exact h.shown x (Option.mem_toList.mp hx) }

theorem inv_unsubscribe (h : w.Inv) (i : Nat) : (w.step (.unsubscribe i)).Inv :=
  { h with
    logs := fun log hlog => h.logs log (List.mem_of_mem_eraseIdx hlog)
    told := fun log hlog => h.told log (List.mem_of_mem_eraseIdx hlog) }

theorem inv_reload (h : w.Inv) : (w.step .reload).Inv where
  history := h.history
  now := h.now
  logs := fun _ hlog => absurd hlog List.not_mem_nil
  told := fun _ hlog => absurd hlog List.not_mem_nil
  shown := fun _ hx => by simp [Feed.step, Store.new] at hx
  sent := fun _ hx => absurd hx List.not_mem_nil
  asked := fun hasked => by simp [Feed.step] at hasked
  heard := fun hasked => by simp [Feed.step] at hasked

theorem inv_boot (d : Dispatcher) : (Feed.boot d).Inv where
  history := List.pairwise_singleton _ _
  now := rfl
  logs := fun _ hlog => absurd hlog List.not_mem_nil
  told := fun _ hlog => absurd hlog List.not_mem_nil
  shown := fun _ hx => by simp [Feed.boot, Store.new] at hx
  sent := fun _ hx => absurd hx List.not_mem_nil
  asked := fun hasked => by simp [Feed.boot] at hasked
  heard := fun hasked => by simp [Feed.boot] at hasked

theorem inv_of_reach (h : Feed.machine.Reach Feed.Start w) : w.Inv := by
  refine h.invariant (fun w hw => ?_) fun w a _ hinv ha => ?_
  · obtain ⟨d, _, rfl⟩ := hw
    exact inv_boot d
  · cases a with
    | act a => exact inv_act hinv ha
    | listen => exact { hinv with asked := fun _ => rfl }
    | getState => exact inv_getState hinv ha
    | deliver i => exact inv_deliver hinv i
    | lose i => exact inv_lose hinv i
    | answer i => exact inv_answer hinv i
    | subscribe => exact inv_subscribe hinv
    | unsubscribe i => exact inv_unsubscribe hinv i
    | reload => exact inv_reload hinv

theorem sorted_history (h : w.Inv) : w.history.Pairwise fun a b => a.revision < b.revision :=
  List.pairwise_map.mpr h.history

/-- Up to `2 ^ 53`, a store that has heard the newest snapshot shows it. -/
theorem current_of_heard (h : w.Inv) (hheard : w.Heard w.disp.snapshot)
    (hexact : w.disp.state.revision.toNat ≤ 2 ^ 53) :
    w.store.current = some w.disp.snapshot := by
  obtain ⟨c, hc, hle⟩ := hheard
  obtain ⟨s, hs, rfl⟩ := List.mem_map.mp (h.shown c hc)
  rcases le_revision_now h hs with rfl | hlt
  · exact hc
  · have hstrict := F64.bits_ofNat_strict (UInt64.lt_iff_toNat_lt.mp hlt) hexact
    exact absurd hle (Nat.not_le.mpr hstrict)

end StoreLemmas

open StoreLemmas in
/-- In every run of the dispatcher and a page, with any order of delivery, lost events and page
loads, each listener is told a part of the dispatcher's history in its order, and a store that
has heard everything shows the state of the dispatcher. -/
theorem store_faithful {w : Feed} (h : Feed.machine.Reach Feed.Start w) : w.Faithful := by
  have hinv := inv_of_reach h
  refine ⟨hinv.history, hinv.now, fun log hlog => ⟨?_, (hinv.logs log hlog).last⟩, hinv.shown, ?_⟩
  · exact Latest.sublist_of_sorted StateSnapshot.revision
      ((hinv.logs log hlog).sorted.imp revision_lt_of_number) (sorted_history hinv)
      (hinv.told log hlog)
  · intro hasked hevents hanswers hlost hexact
    rcases hinv.heard hasked with hway | hmem | hheard
    · simp [Feed.underWay, hevents, hanswers] at hway
    · exact absurd hmem hlost
    · exact current_of_heard hinv hheard hexact

/-- The page asks while a workspace is created, and the answer comes before the event. -/
def Feed.racedTrace : List Feed.Step :=
  [.listen, .subscribe, .act (.dispatch (fun _ => .ok 7) (.createWorkspace "w" none none none)),
    .getState, .answer 0, .deliver 0]

theorem store_faithful_raced :
    (Feed.machine.run (Feed.boot .new) Feed.racedTrace).store.current =
      some (Feed.machine.run (Feed.boot .new) Feed.racedTrace).disp.snapshot := by
  have hreach : Feed.machine.Reach Feed.Start
      (Feed.machine.run (Feed.boot .new) Feed.racedTrace) :=
    .of_trace (.init ⟨.new, .inl rfl, rfl⟩) Feed.racedTrace (by decide)
  exact (store_faithful hreach).settled (by rfl) (by rfl) (by rfl) (by decide) (by decide)

end Mast
