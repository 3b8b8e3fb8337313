import Mast.Board.Steps

/-!
# The dispatcher and its sessions

A world is a dispatcher together with what its sessions have reported so far:
which of them ended, which of them started, the last agent status of each, and
whose report set the status that a workspace shows. The notes are a record for
the statements about runs; no step of the dispatcher reads them.

Results:
1. `Ledger`, `ledger_of_reach`: in every run with fresh sessions, tabs hold exactly
   the sessions that live.
2. `held_sessions_live`: the same, from the promises that a host makes.
-/

namespace Mast

/-- What the sessions have reported. -/
structure Notes where
  /-- the sessions whose end was reported -/
  exited : Finset SessionId
  /-- the sessions that delivered a start marker -/
  marked : Finset SessionId
  /-- the last agent status of a session that was applied to its tab -/
  reported : SessionId → Option AgentStatus
  /-- the session whose report set the status of a workspace last -/
  setter : WorkspaceId → Option SessionId

namespace Notes

def none : Notes := ⟨∅, ∅, fun _ => .none, fun _ => .none⟩

/-- The status of an entry, noted when its session is located in a tab. -/
def noteStatus (d : Dispatcher) (session : SessionId) (status : AgentStatus) (notes : Notes) :
    Notes :=
  match (d.state.locateSession session).bind d.state.lookup with
  | some (ws, _, t) =>
    { notes with
      reported := Function.update notes.reported session (some status)
      setter := if ws.allowsStatus t.id status then
        Function.update notes.setter ws.id (some session) else notes.setter }
  | .none => notes

/-- One entry of a batch. -/
def hear (d : Dispatcher) (entry : SessionId × OscDelta) (notes : Notes) : Notes :=
  let notes := if entry.2.started then { notes with marked := insert entry.1 notes.marked }
    else notes
  match entry.2.status with
  | some status => notes.noteStatus d entry.1 status
  | .none => notes

/-- The entries of a batch, each in the state that it finds. -/
def hearAll (nowMs : UInt64) : List (SessionId × OscDelta) → Dispatcher → Notes → Notes
  | [], _, notes => notes
  | entry :: rest, d, notes => hearAll nowMs rest (d.applyEntry nowMs entry).2 (notes.hear d entry)

/-- The notes after an action. -/
def after (d : Dispatcher) (notes : Notes) : Action → Notes
  | .applyEvent (.sessionExited session _ _) =>
    { notes with exited := insert session notes.exited }
  | .applyOsc batch nowMs => hearAll nowMs batch.entries.entries d notes
  | _ => notes

end Notes

structure World where
  disp : Dispatcher
  seen : Notes

namespace World

def step (w : World) (a : Action) : World := ⟨a.step w.disp, w.seen.after w.disp a⟩

/-- The sessions that an action spawns. -/
def newly (w : World) (a : Action) : List SessionId :=
  (a.step w.disp).spawned.drop w.disp.spawned.length

/-- A spawned session is new: it was not spawned before, and no end of it was
reported. -/
def Fresh (w : World) (a : Action) : Prop :=
  ∀ s ∈ w.newly a, s ∉ w.disp.spawned ∧ s ∉ w.seen.exited

/-- The promises of a host: it never returns a session it returned before, and it
reports only the end of sessions it spawned. -/
def Honest (w : World) (a : Action) : Prop :=
  (∀ s ∈ w.newly a, s ∉ w.disp.spawned) ∧ ∀ s ∈ a.ended, s ∈ w.disp.spawned

instance (w : World) (a : Action) : Decidable (w.Fresh a) :=
  List.decidableBAll _ _

instance (w : World) (a : Action) : Decidable (w.Honest a) :=
  have : Decidable (∀ s ∈ w.newly a, s ∉ w.disp.spawned) := List.decidableBAll _ _
  have : Decidable (∀ s ∈ a.ended, s ∈ w.disp.spawned) := Option.decidableForallMem _
  inferInstanceAs (Decidable (_ ∧ _))

/-- Worlds as a machine, under a promise about the actions. -/
def machine (promise : World → Action → Prop) : Machine World Action where
  step := step
  admits w a := a.returns w.disp = true ∧ promise w a

instance (promise : World → Action → Prop) [∀ w a, Decidable (promise w a)] (w : World)
    (a : Action) : Decidable ((machine promise).admits w a) :=
  inferInstanceAs (Decidable (_ ∧ _))

/-- A new or restored dispatcher, of which nothing was reported. -/
def Start (w : World) : Prop := w.disp.Start ∧ w.seen = Notes.none

end World

namespace WorldLemmas

open BoardLemmas

variable {w : World} {a : Action} {promise : World → Action → Prop}

/-- A run of a world is a run of its dispatcher. -/
theorem reach_disp (h : (World.machine promise).Reach World.Start w) :
    Dispatcher.machine.Reach Dispatcher.Start w.disp := by
  refine h.map World.disp (fun _ hs => hs.1) (fun _ _ => rfl) ?_
  exact fun _ _ ha => ha.1

theorem legal_of_world (h : (World.machine promise).Reach World.Start w) :
    w.disp.state.Legal := legal_of_reach (reach_disp h)

/-! ## Notes -/

theorem exited_noteStatus (d : Dispatcher) (session : SessionId) (status : AgentStatus)
    (notes : Notes) : (notes.noteStatus d session status).exited = notes.exited := by
  unfold Notes.noteStatus
  split <;> rfl

theorem exited_hear (d : Dispatcher) (entry : SessionId × OscDelta) (notes : Notes) :
    (notes.hear d entry).exited = notes.exited := by
  unfold Notes.hear
  cases entry.2.status with
  | none =>
    dsimp only
    split <;> rfl
  | some status =>
    refine (exited_noteStatus _ _ _ _).trans ?_
    split <;> rfl

theorem exited_hearAll (nowMs : UInt64) (entries : List (SessionId × OscDelta)) (d : Dispatcher)
    (notes : Notes) : (Notes.hearAll nowMs entries d notes).exited = notes.exited := by
  induction entries generalizing d notes with
  | nil => rfl
  | cons entry entries ih => exact (ih _ _).trans (exited_hear d entry notes)

theorem mem_exited_after (d : Dispatcher) (notes : Notes) (a : Action) (s : SessionId) :
    s ∈ (notes.after d a).exited ↔ s ∈ notes.exited ∨ a.ended = some s := by
  cases a with
  | applyEvent ev =>
    cases ev with
    | sessionExited session code endedAtMs =>
      simp [Notes.after, Action.ended, or_comm, eq_comm]
    | sessionStartupTimeout session => simp [Notes.after, Action.ended]
  | applyOsc batch nowMs => simp [Notes.after, Action.ended, exited_hearAll]
  | _ => simp [Notes.after, Action.ended]

end WorldLemmas

/-! ## The ledger -/

/-- Tabs hold exactly the sessions that live, each of them once. -/
structure Ledger (w : World) : Prop where
  nodup : w.disp.state.held.Nodup
  live : ∀ s, s ∈ w.disp.state.held ↔
    s ∈ w.disp.spawned ∧ s ∉ w.disp.killed ∧ s ∉ w.seen.exited
  killed : ∀ s ∈ w.disp.killed, s ∈ w.disp.spawned

namespace WorldLemmas

open BoardLemmas

variable {w : World} {a : Action} {promise : World → Action → Prop}

theorem newly_eq {fresh : Option SessionId}
    (h : (a.step w.disp).spawned = w.disp.spawned ++ fresh.toList) : w.newly a = fresh.toList := by
  rw [World.newly, h, List.drop_left]

/-- The sessions after an action: those held before or spawned now, without those
that ended or were killed. -/
theorem mem_held_of_balance {d d' : Dispatcher} {fresh : Option SessionId} {lost : List SessionId}
    (h : Balance d a fresh lost d') (hnodup : d.state.held.Nodup)
    (hfresh : ∀ s ∈ fresh, s ∉ d.state.held) :
    d'.state.held.Nodup ∧ ∀ s, s ∈ d'.state.held ↔
      ((s ∈ d.state.held ∧ a.ended ≠ some s) ∨ s ∈ fresh) ∧ s ∉ lost := by
  have hsum : ((d'.state.held : Multiset SessionId) + lost).Nodup := by
    rw [h.held, Multiset.nodup_add]
    refine ⟨(Multiset.coe_nodup.mpr hnodup).filter _, ?_, ?_⟩
    · cases fresh <;> simp
    · refine Multiset.disjoint_left.mpr fun {s} hs hin => ?_
      exact hfresh s (Option.mem_toList.mp (Multiset.mem_coe.mp hin))
        (Multiset.mem_coe.mp (Multiset.mem_filter.mp hs).1)
  obtain ⟨hheld, _, hdisjoint⟩ := Multiset.nodup_add.mp hsum
  refine ⟨Multiset.coe_nodup.mp hheld, fun s => ?_⟩
  have hmem : s ∈ d'.state.held ∨ s ∈ lost ↔ (s ∈ d.state.held ∧ a.ended ≠ some s) ∨ s ∈ fresh := by
    have heq := congrArg (s ∈ ·) h.held
    simpa using heq
  rw [← hmem]
  constructor
  · intro hs
    exact ⟨.inl hs, fun hlost => Multiset.disjoint_left.mp hdisjoint
      (Multiset.mem_coe.mpr hs) (Multiset.mem_coe.mpr hlost)⟩
  · rintro ⟨hs | hs, hlost⟩
    · exact hs
    · exact absurd hs hlost

theorem ledger_step (hl : w.disp.state.Legal) (hledger : Ledger w) (ha : a.returns w.disp = true)
    (hfresh : w.Fresh a) : Ledger (w.step a) := by
  obtain ⟨fresh, lost, h⟩ := (Action.stepped ha).balance hl
  have hnew : ∀ s ∈ fresh, s ∉ w.disp.spawned ∧ s ∉ w.seen.exited := fun s hs =>
    hfresh s (newly_eq h.spawned ▸ Option.mem_toList.mpr hs)
  obtain ⟨hnodup, hmem⟩ := mem_held_of_balance h hledger.nodup fun s hs hin =>
    (hnew s hs).1 ((hledger.live s).mp hin).1
  have hspawned : ∀ s, s ∈ (w.step a).disp.spawned ↔ s ∈ w.disp.spawned ∨ s ∈ fresh := fun s => by
    rw [World.step, h.spawned, List.mem_append, Option.mem_toList, Option.mem_def]
  have hkilled : ∀ s, s ∈ (w.step a).disp.killed ↔ s ∈ w.disp.killed ∨ s ∈ lost := fun s => by
    rw [World.step, h.killed, List.mem_append]
  refine ⟨hnodup, fun s => ?_, fun s hs => ?_⟩
  · rw [hspawned, hkilled, World.step, mem_exited_after, hmem, hledger.live]
    constructor
    · rintro ⟨⟨⟨hs, hk, he⟩, hend⟩ | hs, hlost⟩
      · exact ⟨.inl hs, not_or.mpr ⟨hk, hlost⟩, not_or.mpr ⟨he, hend⟩⟩
      · refine ⟨.inr hs, not_or.mpr ⟨fun hk => (hnew s hs).1 (hledger.killed s hk), hlost⟩,
          not_or.mpr ⟨(hnew s hs).2, fun hend => ?_⟩⟩
        rw [h.ended (by simp [hend])] at hs
        simp at hs
    · rintro ⟨hs | hs, hk, he⟩
      · rw [not_or] at hk he
        exact ⟨.inl ⟨⟨hs, hk.1, he.1⟩, he.2⟩, hk.2⟩
      · exact ⟨.inr hs, (not_or.mp hk).2⟩
  · rw [hspawned]
    rcases (hkilled s).mp hs with hk | hlost
    · exact .inl (hledger.killed s hk)
    · -- a killed session was held before the action, or spawned by it
      have hin := congrArg (s ∈ ·) h.held
      simp only [Multiset.mem_add, Multiset.mem_coe, Multiset.mem_filter, eq_iff_iff] at hin
      rcases hin.mp (.inr hlost) with ⟨hheld, _⟩ | hfresh
      · exact .inl ((hledger.live s).mp hheld).1
      · exact .inr (Option.mem_toList.mp hfresh)

/-! ## The start -/

/-- At the start nothing was spawned, and what was restored was sanitised. -/
theorem start_sanitized {d : Dispatcher} (h : d.Start) : d.host = [] ∧ d.startedSessions = ∅ ∧
    ∀ ws ∈ d.state.workspaces, ∃ ws₀ : Workspace, ws = ws₀.sanitize := by
  rcases h with rfl | ⟨persisted, removed, s, repairs, hrestore, rfl⟩
  · exact ⟨rfl, rfl, fun ws hws => absurd hws (List.not_mem_nil)⟩
  · exact ⟨rfl, rfl, (ReachableLemmas.restore_ok hrestore).sanitized⟩

theorem cell_sanitize (t : Tab) :
    t.sanitize.cell.session = none ∧ t.sanitize.cell.status ≠ some .notStarted := by
  unfold Tab.sanitize TabKind.sanitize Tab.cell Tab.session Tab.terminalStatus
  cases hk : t.kind with
  | terminal session status cwd => cases status <;> simp
  | _ => simp

theorem cells_sanitize {ws : Workspace} {c : Cell} (hc : c ∈ ws.sanitize.cells) :
    c.session = none ∧ c.status ≠ some .notStarted := by
  have hcells : ws.sanitize.cells = (ws.mapTabs Tab.sanitize).cells := rfl
  rw [hcells, mem_cells] at hc
  obtain ⟨t, ht, rfl⟩ := hc
  obtain ⟨p, hp, ht⟩ := List.mem_flatMap.mp ht
  obtain ⟨pane, hp⟩ := OrdMap.mem_values.mp hp
  obtain ⟨⟨_, q⟩, _, heq⟩ := List.mem_map.mp hp
  obtain ⟨rfl, rfl⟩ := Prod.mk.inj heq
  obtain ⟨t₀, _, rfl⟩ := List.mem_map.mp ht
  exact cell_sanitize t₀

theorem start_cells {d : Dispatcher} (h : d.Start) {ws : Workspace}
    (hws : ws ∈ d.state.workspaces) {c : Cell} (hc : c ∈ ws.cells) :
    c.session = none ∧ c.status ≠ some .notStarted := by
  obtain ⟨ws₀, rfl⟩ := (start_sanitized h).2.2 ws hws
  exact cells_sanitize hc

theorem start_idle {d : Dispatcher} (h : d.Start) {ws : Workspace}
    (hws : ws ∈ d.state.workspaces) : ws.slot.status = .idle := by
  obtain ⟨ws₀, rfl⟩ := (start_sanitized h).2.2 ws hws
  rfl

theorem start_ledger (h : w.Start) : Ledger w := by
  obtain ⟨hstart, hseen⟩ := h
  obtain ⟨hhost, _⟩ := start_sanitized hstart
  have hheld : w.disp.state.held = [] := by
    refine List.eq_nil_iff_forall_not_mem.mpr fun s hs => ?_
    obtain ⟨ws, hws, c, hc, hsession⟩ := mem_held.mp hs
    rw [(start_cells hstart hws hc).1] at hsession
    simp at hsession
  refine ⟨?_, fun s => ?_, fun s hs => ?_⟩
  · rw [hheld]
    exact List.nodup_nil
  · simp [hheld, Dispatcher.spawned, hhost]
  · simp [Dispatcher.killed, hhost] at hs

theorem ledger_of_reach (hfresh : ∀ w a, promise w a → w.Fresh a)
    (h : (World.machine promise).Reach World.Start w) : Ledger w := by
  refine h.invariant (fun w hw => start_ledger hw) fun w a hr hledger ha => ?_
  exact ledger_step (legal_of_world hr) hledger ha.1 (hfresh w a ha.2)

/-- Under an honest host, an ended session is one that was spawned. -/
theorem ledger_of_honest (h : (World.machine World.Honest).Reach World.Start w) :
    Ledger w ∧ ∀ s ∈ w.seen.exited, s ∈ w.disp.spawned := by
  refine h.invariant (I := fun w => Ledger w ∧ ∀ s ∈ w.seen.exited, s ∈ w.disp.spawned)
    (fun w hw => ?_) fun w a hr hI ha => ?_
  · refine ⟨start_ledger hw, fun s hs => ?_⟩
    rw [hw.2] at hs
    simp [Notes.none] at hs
  · obtain ⟨hreturns, hnew, hended⟩ := ha
    refine ⟨ledger_step (legal_of_world hr) hI.1 hreturns fun s hs => ?_, fun s hs => ?_⟩
    · exact ⟨hnew s hs, fun hex => hnew s hs (hI.2 s hex)⟩
    · obtain ⟨fresh, lost, h⟩ := (Action.stepped hreturns).balance (legal_of_world hr)
      have hspawned : (World.step w a).disp.spawned = w.disp.spawned ++ fresh.toList := h.spawned
      change s ∈ (World.step w a).disp.spawned
      rw [hspawned]
      refine List.mem_append_left _ ?_
      rcases (mem_exited_after w.disp w.seen a s).mp hs with hex | hend
      · exact hI.2 s hex
      · exact hended s hend

/-! ## Invariants of worlds -/

/-- One entry of a batch, with its notes. -/
def hear (nowMs : UInt64) (w : World) (entry : SessionId × OscDelta) : World :=
  ⟨(w.disp.applyEntry nowMs entry).2, w.seen.hear w.disp entry⟩

theorem held_of_seats {s s' : AppState}
    (h : s'.cells.map Cell.seat = s.cells.map Cell.seat) :
    (s'.held : Multiset SessionId) = s.held := by
  rw [held_coe, held_coe, heldBy_of_seats h]

/-- The rule for batches: what every entry keeps, the batch keeps. -/
theorem hearAll_rule {I : World → Prop} {nowMs : UInt64}
    (hentry : ∀ w entry, w.disp.state.held.Nodup → I w → I (hear nowMs w entry))
    (entries : List (SessionId × OscDelta)) (hheld : w.disp.state.held.Nodup) (hI : I w) :
    I ⟨(w.disp.applyEntries nowMs entries).2, Notes.hearAll nowMs entries w.disp w.seen⟩ := by
  induction entries generalizing w with
  | nil => exact hI
  | cons entry entries ih =>
    refine ih (w := hear nowMs w entry) ?_ (hentry w entry hheld hI)
    have hsame := held_of_seats (heard_seats (applyEntry_heard nowMs entry w.disp))
    rw [← Multiset.coe_nodup] at hheld ⊢
    rw [hear, hsame]
    exact hheld

/-- The rule for actions: a batch entry by entry, the others as one step. -/
theorem step_rule {I : World → Prop} (hledger : Ledger w) (ha : a.returns w.disp = true) (hI : I w)
    (hrevision : ∀ w revision, I w → I ⟨w.disp.withRevision revision, w.seen⟩)
    (hentry : ∀ nowMs w entry, w.disp.state.held.Nodup → I w → I (hear nowMs w entry))
    (hother : ∀ d', Stepped w.disp a d' → (∀ batch nowMs, a ≠ .applyOsc batch nowMs) →
      I ⟨d', w.seen.after w.disp a⟩) : I (w.step a) := by
  have hstepped := Action.stepped ha
  unfold World.step
  generalize a.step w.disp = d' at hstepped
  cases hstepped with
  | osc batch nowMs revision =>
    exact hrevision _ revision (hearAll_rule (hentry nowMs) _ hledger.nodup hI)
  | performed revision h => exact hother _ (.performed revision h) (by simp)
  | failed h => exact hother _ (.failed h) (by simp)
  | refused spawner tab => exact hother _ (.refused spawner tab) (by simp)
  | respawned h => exact hother _ (.respawned h) (by simp)
  | event ev revision => exact hother _ (.event ev revision) (by simp)

end WorldLemmas

open WorldLemmas in
/-- Tabs hold exactly the sessions that the host spawned and that were neither
killed nor reported as ended, each of them in one tab; and a command that fails
has spawned nothing. -/
theorem held_sessions_live {w : World}
    (h : (World.machine World.Honest).Reach World.Start w) :
    (∀ s, s ∈ w.disp.state.held ↔
      s ∈ w.disp.spawned ∧ s ∉ w.disp.killed ∧ s ∉ w.seen.exited) ∧
    (∀ s ∈ w.disp.state.held,
      (w.disp.state.tabs.filter fun t => t.session = some s).length = 1) ∧
    ∀ spawner cmd e d', Exec.run (Dispatcher.dispatch spawner cmd) w.disp =
      (.error (.command e), d') → d'.spawned = w.disp.spawned := by
  have hledger := (ledger_of_honest h).1
  refine ⟨hledger.live, fun s hs => ?_, fun spawner cmd e d' hrun => ?_⟩
  · have hcount : w.disp.state.held.count s = 1 := List.count_eq_one_of_mem hledger.nodup hs
    have hholders : ∀ tabs : List Tab, (tabs.filter fun t => t.session = some s).length =
        (tabs.filterMap Tab.session).count s := by
      intro tabs
      induction tabs with
      | nil => rfl
      | cons t tabs ih =>
        cases ht : t.session with
        | none => simp [ht, ih]
        | some u => by_cases hu : u = s <;> simp [ht, ih, hu]
    rw [hholders]
    exact hcount
  · have hframe := dispatch_atomic spawner cmd w.disp (.command e) (by rw [hrun])
      (by simp [Fault.IsCommand])
    rw [hrun] at hframe
    exact BoardLemmas.spawned_of_frame hframe

/-- A terminal is opened, its shell ends, and the tab is respawned. -/
def respawnTrace : List Action :=
  [.dispatch (fun _ => .ok 7) (.createWorkspace "w" none none (some (.terminal none))),
    .applyEvent (.sessionExited 7 (some 0) 5), .respawnTab (fun _ => .ok 8) ⟨3⟩]

def newWorld : World := ⟨Dispatcher.new, Notes.none⟩

theorem newWorld_start : newWorld.Start := ⟨.inl rfl, rfl⟩

theorem held_sessions_live_respawn : 8 ∈ ((World.machine World.Honest).run newWorld
    respawnTrace).disp.state.held := by
  have hreach : (World.machine World.Honest).Reach World.Start
      ((World.machine World.Honest).run newWorld respawnTrace) :=
    .of_trace (.init newWorld_start) respawnTrace (by decide)
  exact ((held_sessions_live hreach).1 8).mpr (by decide)

end Mast
