import Mast.Board.Batch
import Mast.World

/-!
# Workspaces in which someone waits

A workspace should show `NeedsInput` as long as one of its sessions waits for
input. It remembers one source only, so when the source takes its wait back (it
reports something else, is closed, or exits), the waits of the other tabs are
forgotten.

Results:
1. `not_waits_shown`: with two waits, the end of the later one hides the other.
2. `waits_shown`: in a run in which a source takes its wait back only when nobody
   else waits, every wait is shown.
-/

namespace Mast

/-- The report of the tab ends with the action: the tab is closed, its session
exits, or the session reports something else than a wait. -/
def Action.Releases (ws : Workspace) (t : Tab) : Action → Prop
  | .dispatch _ cmd => cmd.Closes ws t
  | .applyEvent ev => ∃ s ∈ (Action.applyEvent ev).ended, t.session = some s
  | .applyOsc batch _ => ∃ entry ∈ batch.entries.entries, t.session = some entry.1 ∧
      ∃ status ∈ entry.2.status, status ≠ .needsInput
  | .respawnTab _ _ => False

/-- A wait of the tab is in the batch. -/
def Action.Asks (t : Tab) : Action → Prop
  | .applyOsc batch _ => ∃ entry ∈ batch.entries.entries, t.session = some entry.1 ∧
      entry.2.status = some .needsInput
  | _ => False

namespace World

/-- The session that the tab holds waits for input. -/
def Waits (w : World) (t : Tab) : Prop :=
  ∃ s ∈ t.session, w.seen.reported s = some .needsInput

/-- A workspace in which a tab waits shows it. -/
def WaitsShown (w : World) : Prop :=
  ∀ ws ∈ w.disp.state.workspaces, (∃ t ∈ ws.tabs, w.Waits t) → ws.agentStatus = .needsInput

/-- When the source of a wait takes it back, another tab asks in the same batch, or
no other tab waits. -/
def LastWaiter (w : World) (a : Action) : Prop :=
  ∀ ws ∈ w.disp.state.workspaces, ws.agentStatus = .needsInput →
    ∀ source ∈ ws.tabs, ws.agentStatusSource = some source.id → a.Releases ws source →
      (∃ t ∈ ws.tabs, a.Asks t) ∨ ∀ t ∈ ws.tabs, w.Waits t → a.Releases ws t

instance (t : Tab) (a : Action) : Decidable (a.Asks t) :=
  match a with
  | .applyOsc batch _ => List.decidableBEx _ batch.entries.entries
  | .dispatch _ _ | .applyEvent _ | .respawnTab _ _ => inferInstanceAs (Decidable False)

instance (ws : Workspace) (t : Tab) (a : Action) : Decidable (a.Releases ws t) :=
  match a with
  | .dispatch _ cmd => inferInstanceAs (Decidable (cmd.Closes ws t))
  | .applyEvent ev =>
    have h : Decidable (∃ s ∈ (Action.applyEvent ev).ended, t.session = some s) :=
      Option.decidableExistsMem _
    h
  | .applyOsc batch _ => inferInstanceAs (Decidable (∃ entry ∈ batch.entries.entries, _))
  | .respawnTab _ _ => inferInstanceAs (Decidable False)

instance (w : World) (t : Tab) : Decidable (w.Waits t) :=
  Option.decidableExistsMem t.session

instance (w : World) (a : Action) : Decidable (w.LastWaiter a) := by
  unfold LastWaiter
  infer_instance

end World

namespace WaitingLemmas

open WorldLemmas BoardLemmas BatchLemmas LegalLemmas

variable {w : World} {a : Action}

/-! ## What was reported -/

theorem reported_after (d : Dispatcher) (notes : Notes)
    (hosc : ∀ batch nowMs, a ≠ .applyOsc batch nowMs) :
    (notes.after d a).reported = notes.reported := by
  cases a with
  | applyOsc batch nowMs => exact absurd rfl (hosc batch nowMs)
  | applyEvent ev => cases ev <;> rfl
  | _ => rfl

/-- An entry changes the report of its session only, and only if a tab holds it. -/
theorem reported_hear {d : Dispatcher} {entry : SessionId × OscDelta} {notes : Notes}
    {s : SessionId} {status : AgentStatus} (h : (notes.hear d entry).reported s = some status) :
    (entry.1 = s ∧ entry.2.status = some status ∧ s ∈ d.state.held) ∨
      (notes.reported s = some status ∧
        (entry.1 = s → s ∈ d.state.held → entry.2.status = none)) := by
  unfold Notes.hear at h
  cases hstatus : entry.2.status with
  | none =>
    rw [hstatus] at h
    refine .inr ⟨?_, fun _ _ => rfl⟩
    dsimp only at h
    split at h <;> exact h
  | some new =>
    rw [hstatus] at h
    dsimp only at h
    unfold Notes.noteStatus at h
    cases hpos : d.state.locateSession entry.1 with
    | none =>
      rw [hpos] at h
      refine .inr ⟨?_, fun heq hheld => absurd (heq ▸ hheld) (not_held_of_locate hpos)⟩
      dsimp only [Option.bind_none] at h
      split at h <;> exact h
    | some pos =>
      obtain ⟨ws, p, t, hlookup, hsession⟩ := EffectLemmas.findTab_eq_some hpos
      have hheld : entry.1 ∈ d.state.held := by
        obtain ⟨hws, hp, ht⟩ := EffectLemmas.lookup_eq_some.mp hlookup
        refine List.mem_filterMap.mpr ⟨t, ?_, by simpa using hsession⟩
        exact mem_state_tabs hws (EffectLemmas.mem_tabs hp (List.mem_of_getElem? ht))
      rw [hpos, Option.bind_some, hlookup] at h
      dsimp only at h
      have hreported : ∀ notes : Notes, Function.update notes.reported entry.1 (some new) s =
          some status → notes.reported = (if entry.2.started then
            { notes with marked := insert entry.1 notes.marked } else notes).reported →
          (entry.1 = s ∧ some new = some status ∧ s ∈ d.state.held) ∨
            (notes.reported s = some status ∧
              (entry.1 = s → s ∈ d.state.held → some new = none)) := by
        intro notes h _
        by_cases hs : s = entry.1
        · subst hs
          rw [Function.update_self] at h
          exact .inl ⟨rfl, h, hheld⟩
        · rw [Function.update_of_ne hs] at h
          exact .inr ⟨h, fun heq => absurd heq.symm hs⟩
      refine hreported notes ?_ (by split <;> rfl)
      split at h <;> exact h

/-- After a batch the last report of a session is the one in the batch, or the old
one if the batch has none. -/
theorem reported_hearAll {nowMs : UInt64} {entries : List (SessionId × OscDelta)} {d : Dispatcher}
    {notes : Notes} {s : SessionId} {status : AgentStatus}
    (hkeys : (entries.map Prod.fst).Nodup)
    (h : (Notes.hearAll nowMs entries d notes).reported s = some status) :
    (∃ entry ∈ entries, entry.1 = s ∧ entry.2.status = some status ∧ s ∈ d.state.held) ∨
      (notes.reported s = some status ∧
        ∀ entry ∈ entries, entry.1 = s → s ∈ d.state.held → entry.2.status = none) := by
  induction entries generalizing d notes with
  | nil => exact .inr ⟨h, fun _ hmem => absurd hmem List.not_mem_nil⟩
  | cons entry entries ih =>
    rw [List.map_cons, List.nodup_cons] at hkeys
    have hheld : s ∈ (d.applyEntry nowMs entry).2.state.held ↔ s ∈ d.state.held := by
      have hsame := held_of_seats (heard_seats (applyEntry_heard nowMs entry d))
      rw [← Multiset.mem_coe, hsame, Multiset.mem_coe]
    rcases ih hkeys.2 h with ⟨e, he, hs, hstatus, hin⟩ | ⟨hold, hlater⟩
    · exact .inl ⟨e, List.mem_cons_of_mem _ he, hs, hstatus, hheld.mp hin⟩
    · rcases reported_hear hold with ⟨hs, hstatus, hin⟩ | ⟨holder, hnow⟩
      · exact .inl ⟨entry, List.mem_cons_self, hs, hstatus, hin⟩
      · refine .inr ⟨holder, fun e he hs hin => ?_⟩
        rcases List.mem_cons.mp he with rfl | he
        · exact hnow hs hin
        · exact hlater e he hs (hheld.mpr hin)

/-! ## One board -/

/-- A cell whose session waits. -/
def CellWaits (w : World) (c : Cell) : Prop :=
  ∃ s, c.session = some s ∧ w.seen.reported s = some .needsInput

/-- Only sessions that were spawned have reported. -/
def ReportsKnown (w : World) : Prop :=
  ∀ s status, w.seen.reported s = some status → s ∈ w.disp.spawned

/-- A tab that was just opened does not wait. -/
theorem not_waits_opened {fresh session : Option SessionId} {c : Cell} (hknown : ReportsKnown w)
    (hfresh : ∀ s ∈ fresh, s ∉ w.disp.spawned) (hsession : ∀ s ∈ session, s ∈ fresh)
    (h : c.Opened session) : ¬ CellWaits w c := by
  rintro ⟨s, hs, hreported⟩
  exact hfresh s (hsession s (h.holds.symm.trans hs)) (hknown s _ hreported)

/-- The cells of one workspace have different tabs. -/
theorem cells_tabs_nodup {s : AppState} (hl : s.Legal) {ws : Workspace} (hws : ws ∈ s.workspaces) :
    (ws.cells.map Cell.tab).Nodup := by
  have hnodup := tabIds_nodup hl
  have htabs : ws.cells.map Cell.tab = (ws.tabs.map Tab.id : List TabId) := by
    rw [cells_eq, Multiset.map_coe, List.map_map]
    rfl
  rw [htabs, Multiset.coe_nodup]
  rw [AppState.tabs, List.map_flatMap] at hnodup
  exact (List.nodup_flatMap.mp hnodup).1 ws hws

/-- What an action other than a batch does to a board in which someone waits. -/
theorem shown_deed {ws : Workspace} {fresh : Option SessionId} {deed : Deed} {b' : Board}
    (hl : w.disp.state.Legal) (hknown : ReportsKnown w)
    (hfresh : ∀ s ∈ fresh, s ∉ w.disp.spawned) (hlast : w.LastWaiter a)
    (hws : ws ∈ w.disp.state.workspaces) (hcause : a.Causes w.disp ws fresh deed)
    (h : BoardStep ws.board deed b')
    (hshown : (∃ c ∈ ws.cells, CellWaits w c) → ws.agentStatus = .needsInput)
    (hwaits : ∃ c ∈ b'.cells, CellWaits w c) : b'.slot.status = .needsInput := by
  obtain ⟨c', hc', hwait⟩ := hwaits
  cases h with
  | @edited session gone come kept hcells hopened _ =>
    have hcells : ws.cells = (gone : Multiset Cell) + kept := hcells
    have hsession : ∀ s ∈ session, s ∈ fresh := by
      cases hcause with
      | edited hsession _ => exact hsession
      | spared spawner tab => simp
      | late hstarted => simp
    have hkept : c' ∈ kept := (Multiset.mem_add.mp hc').resolve_left fun hcome =>
      not_waits_opened hknown hfresh hsession (hopened c' hcome) hwait
    have hold : c' ∈ ws.cells := hcells ▸ Multiset.mem_add.mpr (.inr hkept)
    have hneeds := hshown ⟨c', hold, hwait⟩
    unfold PrioritySlot.withdraw
    split
    next hgone =>
      -- the source went: then every tab that waits went with it
      exfalso
      obtain ⟨tab, htab, hsource⟩ := hgone
      cases hcause with
      | spared spawner tab' => simp at htab
      | late hstarted => simp at htab
      | @edited spawner cmd _ gone _ htakes =>
        rw [List.map_map] at htab
        rcases htakes with rfl | htakes
        · simp at htab
        · obtain ⟨source, hmem, rfl, hcloses⟩ := (htakes tab).mp htab
          obtain ⟨t, ht, rfl⟩ := mem_cells.mp hold
          rcases hlast ws hws hneeds source hmem hsource hcloses with ⟨_, _, hasks⟩ | hall
          · exact hasks
          · have hin : t.id ∈ gone.map Tab.id := (htakes t.id).mpr ⟨t, ht, rfl, hall t ht hwait⟩
            have hnodup := cells_tabs_nodup hl hws
            rw [hcells, Multiset.map_add, Multiset.nodup_add] at hnodup
            refine Multiset.disjoint_left.mp hnodup.2.2 ?_
              (Multiset.mem_map_of_mem Cell.tab hkept)
            rw [Multiset.map_coe, List.map_map]
            exact Multiset.mem_coe.mpr hin
    · exact hneeds
  | @respawned c₀ kept session status hcells houtcome =>
    have hcells : ws.cells = c₀ ::ₘ kept := hcells
    rcases Multiset.mem_cons.mp hc' with rfl | hkept
    · -- the new session has not reported yet
      exfalso
      obtain ⟨s, hs, hreported⟩ := hwait
      cases hcause with
      | respawned spawner ht hid heligible => exact hfresh s hs (hknown s _ hreported)
    · exact hshown ⟨c', hcells ▸ Multiset.mem_cons_of_mem hkept, hwait⟩
  | @exited session code endedAtMs holders hholders =>
    obtain ⟨c, hc, rfl⟩ := Multiset.mem_map.mp hc'
    have hother : c.session ≠ some session := by
      intro hs
      obtain ⟨s, hs', _⟩ := hwait
      rw [exit_session, if_pos hs] at hs'
      simp at hs'
    have hkeep : c.exit session (.exited code endedAtMs) = c := if_neg hother
    rw [hkeep] at hwait
    have hneeds := hshown ⟨c, hc, hwait⟩
    dsimp only
    unfold PrioritySlot.withdraw
    split
    next hgone =>
      exfalso
      obtain ⟨tab, htab, hsource⟩ := hgone
      obtain ⟨c₁, hc₁, hs₁, rfl⟩ := (hholders tab).mp htab
      obtain ⟨source, hmem, rfl⟩ := mem_cells.mp hc₁
      obtain ⟨t, ht, rfl⟩ := mem_cells.mp hc
      cases hcause with
      | exited _ code' endedAtMs' =>
        rcases hlast ws hws hneeds source hmem hsource ⟨session, rfl, hs₁⟩ with
          ⟨_, _, hasks⟩ | hall
        · exact hasks
        · obtain ⟨s, hended, hs⟩ := hall t ht hwait
          obtain rfl : session = s := Option.some_inj.mp hended
          exact hother hs
    · exact hneeds
  | @timedOut session =>
    obtain ⟨c, hc, rfl⟩ := Multiset.mem_map.mp hc'
    refine hshown ⟨c, hc, ?_⟩
    obtain ⟨s, hs, hreported⟩ := hwait
    have hseat := congrArg Prod.snd (timeout_seat session c)
    exact ⟨s, hseat.symm.trans hs, hreported⟩
  | reported _ _ => cases hcause
  | missed _ => cases hcause

/-! ## Batches -/

/-- A wait that is there after a batch is shown: it was asked for in the batch, or
it was shown before and the source did not take it back. -/
theorem shown_batch {batch : OscBatch} {nowMs : UInt64} (hl : w.disp.state.Legal)
    (hledger : Ledger w)
    (hlast : w.LastWaiter (.applyOsc batch nowMs)) (hshown : w.WaitsShown) :
    World.WaitsShown ⟨(w.disp.applyEntries nowMs batch.entries.entries).2,
      Notes.hearAll nowMs batch.entries.entries w.disp w.seen⟩ := by
  rintro ws' hws' ⟨t', ht', s, hs', hreported⟩
  obtain ⟨wi, hwi⟩ := List.mem_iff_getElem?.mp hws'
  have hseating := seating_applyEntries nowMs batch.entries.entries w.disp
  obtain ⟨ws, hws, hsame⟩ := workspace_of_seating hseating hwi
  obtain ⟨t, ht, hseat⟩ := tab_of_seating hsame ht'
  obtain ⟨hid, hsession⟩ := Prod.mk.inj hseat
  have hs : t.session = some s := hsession.trans hs'
  have hslot := slots_applyEntries nowMs batch.entries.entries w.disp wi
  rw [hwi, hws, Option.map_some, Option.map_some, Option.some_inj] at hslot
  have hnodup := reportsAt_nodup hl wi batch.entries.keys_nodup
  have hgoal : ws'.slot.status = .needsInput := by
    rw [hslot, PrioritySlot.reportAll_eq_top_iff hnodup]
    -- a tab that asks in the batch is heard
    have hasks : (∃ u ∈ ws.tabs, (Action.applyOsc batch nowMs).Asks u) →
        ∃ r ∈ w.disp.state.reportsAt wi batch.entries.entries, r.2 = .needsInput := by
      rintro ⟨u, hu, entry, hentry, hsu, hstatus⟩
      exact ⟨(u.id, .needsInput), mem_reportsAt.mpr ⟨entry, hentry,
        seatAt_of_held hledger.nodup hws hu hsu, hstatus⟩, rfl⟩
    rcases reported_hearAll batch.entries.keys_nodup hreported with
      ⟨entry, hentry, rfl, hstatus, _⟩ | ⟨hold, hnone⟩
    · exact .inl (hasks ⟨t, ht, entry, hentry, hs, hstatus⟩)
    · have hneeds := hshown ws (List.mem_of_getElem? hws) ⟨t, ht, s, hs, hold⟩
      by_cases hex : ∃ r ∈ w.disp.state.reportsAt wi batch.entries.entries, r.2 = .needsInput
      · exact .inl hex
      · refine .inr ⟨hneeds, fun r hr hsource => hex ?_⟩
        -- the source reports something else: then every wait ends in this batch
        obtain ⟨tab, status⟩ := r
        obtain ⟨entry, hentry, hplace, hstatus⟩ := mem_reportsAt.mp hr
        obtain ⟨ws₁, hws₁, source, hsource', rfl, hsession⟩ := seatAt_eq_some hplace
        obtain rfl : ws = ws₁ := Option.some_inj.mp (hws.symm.trans hws₁)
        have hother : status ≠ .needsInput := fun heq => hex ⟨_, hr, heq⟩
        rcases hlast ws (List.mem_of_getElem? hws) hneeds source hsource' hsource
          ⟨entry, hentry, hsession, status, hstatus, hother⟩ with hask | hall
        · exact hasks hask
        · obtain ⟨e, he, hse, st, hst, _⟩ := hall t ht ⟨s, hs, hold⟩
          obtain rfl : s = e.1 := Option.some_inj.mp (hs.symm.trans hse)
          have hheld : e.1 ∈ w.disp.state.held :=
            List.mem_filterMap.mpr ⟨t, mem_state_tabs hws ht, hs⟩
          rw [hnone e he rfl hheld] at hst
          simp at hst
  exact hgoal

/-! ## Runs -/

theorem known_step (hl : w.disp.state.Legal) (hledger : Ledger w) (ha : a.returns w.disp = true)
    (hknown : ReportsKnown w) : ReportsKnown (w.step a) := by
  obtain ⟨fresh, _, hbalance⟩ := (Action.stepped ha).balance hl
  intro s status h
  have hspawned : (w.step a).disp.spawned = w.disp.spawned ++ fresh.toList := hbalance.spawned
  rw [hspawned]
  refine List.mem_append_left _ ?_
  by_cases hosc : ∃ batch nowMs, a = .applyOsc batch nowMs
  · obtain ⟨batch, nowMs, rfl⟩ := hosc
    rcases reported_hearAll batch.entries.keys_nodup h with ⟨_, _, _, _, hheld⟩ | ⟨hold, _⟩
    · exact ((hledger.live s).mp hheld).1
    · exact hknown s status hold
  · have hsame := reported_after w.disp w.seen fun batch nowMs heq => hosc ⟨batch, nowMs, heq⟩
    exact hknown s status ((congrFun hsame s).symm.trans h)

theorem shown_step (hl : w.disp.state.Legal) (hledger : Ledger w) (ha : a.returns w.disp = true)
    (hfresh : w.Fresh a) (hlast : w.LastWaiter a) (hknown : ReportsKnown w)
    (hshown : w.WaitsShown) : (w.step a).WaitsShown := by
  have hstepped := Action.stepped ha
  by_cases hosc : ∃ batch nowMs, a = .applyOsc batch nowMs
  · obtain ⟨batch, nowMs, rfl⟩ := hosc
    unfold World.step
    generalize (Action.applyOsc batch nowMs).step w.disp = d' at hstepped
    cases hstepped with
    | osc _ _ revision => exact shown_batch hl hledger hlast hshown
  · have hosc : ∀ batch nowMs, a ≠ .applyOsc batch nowMs := fun batch nowMs heq =>
      hosc ⟨batch, nowMs, heq⟩
    obtain ⟨fresh, hspawned, hboards⟩ := hstepped.boards hl hosc
    have hnew : ∀ s ∈ fresh, s ∉ w.disp.spawned := fun s hs =>
      (hfresh s (newly_eq hspawned ▸ Option.mem_toList.mpr hs)).1
    rintro ws' hws' ⟨t', ht', s, hs, hreported⟩
    have hreported : w.seen.reported s = some .needsInput :=
      (congrFun (reported_after w.disp w.seen hosc) s).symm.trans hreported
    have hcell : t'.cell ∈ ws'.cells := mem_cells.mpr ⟨t', ht', rfl⟩
    have hwait : CellWaits w t'.cell := ⟨s, hs, hreported⟩
    rcases hboards ws' hws' with ⟨ws, hws, deed, hcause, hstep⟩ | hopened
    · refine shown_deed hl hknown hnew hlast hws hcause hstep ?_ ⟨t'.cell, hcell, hwait⟩
      rintro ⟨c, hc, hwait⟩
      obtain ⟨t, ht, rfl⟩ := mem_cells.mp hc
      exact hshown ws hws ⟨t, ht, hwait⟩
    · exact absurd hwait (not_waits_opened hknown hnew (fun _ h => h)
        (hopened.cells _ hcell))

end WaitingLemmas

/-- Two terminals wait; then the one that asked last goes on. -/
def secondWaiterTrace : List Action :=
  twoTerminalsTrace ++
    [.applyOsc (OscBatch.empty.mergeAll [(7, .osc777Notify "mast:needsInput" "approve?")]) 10,
      .applyOsc (OscBatch.empty.mergeAll [(8, .osc777Notify "mast:needsInput" "approve?")]) 11,
      .applyOsc (OscBatch.empty.mergeAll [(8, .osc777Notify "mast:running" "")]) 12]

/-- The first terminal still waits, but its workspace is shown as running. -/
theorem not_waits_shown :
    ¬ ∀ w, (World.machine World.Fresh).Reach World.Start w → w.WaitsShown := by
  intro h
  have hreach : (World.machine World.Fresh).Reach World.Start
      ((World.machine World.Fresh).run newWorld secondWaiterTrace) :=
    .of_trace (.init newWorld_start) secondWaiterTrace (by decide)
  have hwaits : ∃ ws ∈ ((World.machine World.Fresh).run newWorld
      secondWaiterTrace).disp.state.workspaces, ws.agentStatus = .running ∧
        ∃ t ∈ ws.tabs, t.session = some 7 := by
    decide
  obtain ⟨ws, hws, hstatus, t, ht, hsession⟩ := hwaits
  have hneeds := h _ hreach ws hws ⟨t, ht, 7, hsession, by decide⟩
  rw [hstatus] at hneeds
  cases hneeds

open WaitingLemmas WorldLemmas in
/-- In a run in which the source of a wait takes it back only when another tab asks
at once, or nobody else waits, a workspace in which somebody waits shows it. -/
theorem waits_shown {w : World}
    (h : (World.machine fun w a => w.Fresh a ∧ w.LastWaiter a).Reach World.Start w) :
    w.WaitsShown := by
  have hledger : ∀ {w}, (World.machine fun w a => w.Fresh a ∧ w.LastWaiter a).Reach World.Start w →
      Ledger w := ledger_of_reach fun _ _ hp => hp.1
  refine (h.invariant (I := fun w => ReportsKnown w ∧ w.WaitsShown) (fun w hw => ?_)
    fun w a hr hI ha => ?_).2
  · have hnone : ∀ s, w.seen.reported s = none := fun s => by
      rw [hw.2]
      rfl
    refine ⟨fun s status hs => ?_, ?_⟩
    · simp [hnone] at hs
    · rintro ws _ ⟨t, _, s, _, hs⟩
      simp [hnone] at hs
  · obtain ⟨hreturns, hfresh, hlast⟩ := ha
    have hl := legal_of_world hr
    exact ⟨known_step hl (hledger hr) hreturns hI.1,
      shown_step hl (hledger hr) hreturns hfresh hlast hI.1 hI.2⟩

/-- A terminal waits while the other one of its workspace runs, and is closed. -/
def firstWaiterTrace : List Action :=
  twoTerminalsTrace ++
    [.applyOsc (OscBatch.empty.mergeAll [(7, .osc777Notify "mast:needsInput" "approve?")]) 10,
      .applyOsc (OscBatch.empty.mergeAll [(8, .osc777Notify "mast:running" "")]) 11,
      .dispatch (fun _ => .ok 9) (.closeTab ⟨4⟩)]

theorem waits_shown_first : ((World.machine fun w a => w.Fresh a ∧ w.LastWaiter a).run newWorld
    firstWaiterTrace).WaitsShown :=
  waits_shown (.of_trace (.init newWorld_start) firstWaiterTrace (by decide))

end Mast
