import Mast.Board.Batch
import Mast.World

/-!
# The contract of `dispatch`

A command either fails and leaves everything alone, or succeeds, counts one
revision, and reports ids that were not in use before.

Results:
1. `held_spawned`: tabs hold only sessions that the host spawned.
2. `effect_present`, `effect_fresh`: what a command reports is in the state after
   it, and its ids were not in the state before.
3. `dispatch_contract`: both outcomes of a command.
-/

namespace Mast

/-- A pane with the tab of an output, which holds the session of that output. An
output without a tab has no session. -/
def Pane.HasOpened (tab : Option TabId) (session : Option SessionId) (p : Pane) : Prop :=
  match tab with
  | some id => ∃ t ∈ p.tabs, t.id = id ∧ t.session = session
  | none => session = none

/-- Everything that an output reports is in the state, each id as what it names. -/
def CommandOutput.Present (s : AppState) : CommandOutput → Prop
  | workspaceCreated workspace pane tab session => ∃ ws ∈ s.workspaces, ws.id = workspace ∧
      ∃ p, ws.panes.get? pane = some p ∧ p.HasOpened tab session
  | paneCreated pane split tab session => ∃ ws ∈ s.workspaces, split ∈ ws.layout.splitIds ∧
      ∃ p, ws.panes.get? pane = some p ∧ p.HasOpened tab session
  | tabCreated tab session => ∃ ws ∈ s.workspaces, ∃ t ∈ ws.tabs, t.id = tab ∧ t.session = session
  | done => True

namespace DispatchLemmas

open BoardLemmas LegalLemmas

variable {d d' : Dispatcher} {s s' : AppState} {ws ws' : Workspace} {out : CommandOutput}
  {gone : List Tab} {cmd : Command} {shown : Bool}

theorem session_opened {t : Tab} {session : Option SessionId} (h : t.Opened session) :
    t.session = session := (opened_cell h).holds

theorem hasOpened_initialPane {tab : Option Tab} {session : Option SessionId} (id : PaneId)
    (hopened : ∀ t ∈ tab, t.Opened session) (hnone : tab = none → session = none) :
    (initialPane id tab).HasOpened (tab.map Tab.id) session := by
  cases tab with
  | none => exact hnone rfl
  | some t =>
    refine ⟨t, ?_, rfl, session_opened (hopened t rfl)⟩
    rw [PaneLemmas.tabs_initialPane]
    exact List.mem_singleton_self t

/-- What an edit reports is in the workspace after it. -/
theorem edit_present (hv : ws.Valid) (h : Edit shown ws out gone ws') (hws' : ws' ∈ s'.workspaces) :
    out.Present s' := by
  cases h with
  | @splitPane pane newPane direction splitId tab session hpane hopened hnone =>
    have hsplit := SplitTree.splitLeaf_splitIds newPane direction splitId
      ((hv.leaves_keys pane).mpr hpane)
    exact ⟨_, hws', hsplit.mem_iff.mpr List.mem_cons_self, _, OrdMap.get?_insert_self _ _ _,
      hasOpened_initialPane newPane hopened hnone⟩
  | @addTab pane t session hpane hopened =>
    have hcell : t.cell ∈ (ws.addTab pane t).cells := by
      rw [cells_addTab hpane]
      exact Multiset.mem_cons_self _ _
    obtain ⟨u, hu, heq⟩ := mem_cells.mp hcell
    obtain ⟨hid, hsession, _⟩ := Cell.mk.inj heq
    exact ⟨_, hws', u, hu, hid, hsession.trans (session_opened hopened)⟩
  | _ => trivial

/-- What a command reports is in the state after it. -/
theorem effect_present (hs : s.Legal) (h : Effect cmd s out gone s') : out.Present s' := by
  cases h with
  | @edit wi ws ws' out gone n hws hids hedit htakes =>
    refine edit_present (hs.valid ws (mem_of_getElem hws)) hedit (List.mem_of_getElem? (i := wi) ?_)
    simp [hws]
  | @create workspace pane name rootPath distro tab session n hopened hnone hids =>
    refine ⟨_, List.mem_append_right _ (List.mem_singleton_self _), rfl, initialPane pane tab, ?_,
      hasOpened_initialPane pane hopened hnone⟩
    exact OrdMap.get?_eq_some_iff.mpr (List.mem_singleton_self _)
  | _ => trivial

theorem present_revision {revision : UInt64} (h : out.Present s) :
    out.Present { s with revision } := by
  cases out <;> exact h

theorem hasOpened_tab {pane : PaneId} {p : Pane} {tab : Option TabId} {session : Option SessionId}
    (hp : ws.panes.get? pane = some p) (h : p.HasOpened tab session) :
    (∀ id ∈ tab, id.val ∈ ws.ids) ∧ ∀ x ∈ session, ∃ t ∈ ws.tabs, t.session = some x := by
  cases tab with
  | none =>
    obtain rfl : session = none := h
    simp
  | some id =>
    obtain ⟨t, ht, rfl, rfl⟩ := h
    refine ⟨fun id hid => ?_, fun x hx => ⟨t, EffectLemmas.mem_tabs hp ht, hx⟩⟩
    obtain rfl := Option.some_inj.mp hid
    exact mem_ids_of_tab hp ht

/-- What is present is in use. -/
theorem present_ids (h : out.Present s) : ∀ id ∈ out.ids, id ∈ s.ids := by
  cases out with
  | workspaceCreated workspace pane tab session =>
    obtain ⟨ws, hws, rfl, p, hp, hopened⟩ := h
    have hpane := mem_ids_of_pane (OrdMap.mem_keys.mpr ⟨p, OrdMap.get?_eq_some_iff.mp hp⟩)
    intro id hid
    simp only [CommandOutput.ids, List.mem_cons, Option.mem_toList, Option.map_eq_some_iff] at hid
    rcases hid with rfl | rfl | ⟨tab, rfl, rfl⟩
    · exact mem_ids_of_mem hws List.mem_cons_self
    · exact mem_ids_of_mem hws hpane
    · exact mem_ids_of_mem hws ((hasOpened_tab hp hopened).1 tab rfl)
  | paneCreated pane split tab session =>
    obtain ⟨ws, hws, hsplit, p, hp, hopened⟩ := h
    have hpane := mem_ids_of_pane (OrdMap.mem_keys.mpr ⟨p, OrdMap.get?_eq_some_iff.mp hp⟩)
    intro id hid
    simp only [CommandOutput.ids, List.mem_cons, Option.mem_toList, Option.map_eq_some_iff] at hid
    rcases hid with rfl | rfl | ⟨tab, rfl, rfl⟩
    · exact mem_ids_of_mem hws hpane
    · exact mem_ids_of_mem hws (mem_ids_of_split hsplit)
    · exact mem_ids_of_mem hws ((hasOpened_tab hp hopened).1 tab rfl)
  | tabCreated tab session =>
    obtain ⟨ws, hws, t, ht, rfl, _⟩ := h
    obtain ⟨p, hp, ht⟩ := List.mem_flatMap.mp ht
    obtain ⟨pane, hp⟩ := OrdMap.mem_values.mp hp
    intro id hid
    obtain rfl := List.mem_singleton.mp hid
    exact mem_ids_of_mem hws (mem_ids_of_tab (OrdMap.get?_eq_some_iff.mpr hp) ht)
  | done => exact fun id hid => absurd hid List.not_mem_nil

theorem present_held (h : out.Present s) : ∀ x ∈ out.session, x ∈ s.held := by
  have hheld : ∀ {ws}, ws ∈ s.workspaces → ∀ {t}, t ∈ ws.tabs → ∀ {x}, t.session = some x →
      x ∈ s.held := fun hws _ ht _ hx =>
    List.mem_filterMap.mpr ⟨_, List.mem_flatMap.mpr ⟨_, hws, ht⟩, hx⟩
  intro x hx
  cases out with
  | workspaceCreated workspace pane tab session =>
    obtain ⟨ws, hws, _, p, hp, hopened⟩ := h
    obtain ⟨t, ht, hsession⟩ := (hasOpened_tab hp hopened).2 x hx
    exact hheld hws ht hsession
  | paneCreated pane split tab session =>
    obtain ⟨ws, hws, _, p, hp, hopened⟩ := h
    obtain ⟨t, ht, hsession⟩ := (hasOpened_tab hp hopened).2 x hx
    exact hheld hws ht hsession
  | tabCreated tab session =>
    obtain ⟨ws, hws, t, ht, _, hsession⟩ := h
    exact hheld hws ht (hsession.trans hx)
  | done => simp [CommandOutput.session] at hx

/-- The ids that a command reports were not in use. -/
theorem effect_fresh (hs : s.Legal) (h : Effect cmd s out gone s') :
    ∀ id ∈ out.ids, id ∉ s.ids := by
  cases h with
  | edit _ hids _ _ => exact fun id hid => allocated_fresh hs hids hid
  | create _ _ _ _ _ hids => exact fun id hid => allocated_fresh hs hids hid
  | _ => exact fun id hid => absurd hid List.not_mem_nil

theorem effect_revision (h : Effect cmd s out gone s') : s'.revision = s.revision := by
  cases h with
  | close hws =>
    unfold AppState.fallBack
    split <;> rfl
  | _ => rfl

/-- Tabs hold only sessions that the host spawned. -/
theorem held_spawned (h : Dispatcher.machine.Reach Dispatcher.Start d) :
    ∀ s ∈ d.state.held, s ∈ d.spawned := by
  refine h.invariant (I := fun d => ∀ s ∈ d.state.held, s ∈ d.spawned) (fun d hd s hs => ?_)
    fun d a hr hI ha s hs => ?_
  · obtain ⟨ws, hws, c, hc, hsession⟩ := mem_held.mp hs
    rw [(WorldLemmas.start_cells hd hws hc).1] at hsession
    simp at hsession
  · obtain ⟨fresh, lost, hbalance⟩ := (Action.stepped ha).balance (legal_of_reach hr)
    have hmem : s ∈ (d.state.held : Multiset SessionId).filter (fun s => a.ended ≠ some s) +
        (fresh.toList : Multiset SessionId) := by
      rw [← hbalance.held]
      exact Multiset.mem_add.mpr (.inl (Multiset.mem_coe.mpr hs))
    have hspawned : (Dispatcher.machine.step d a).spawned = d.spawned ++ fresh.toList :=
      hbalance.spawned
    rw [hspawned, List.mem_append]
    rcases Multiset.mem_add.mp hmem with hold | hnew
    · exact .inl (hI s (Multiset.mem_coe.mp (Multiset.mem_filter.mp hold).1))
    · exact .inr (Multiset.mem_coe.mp hnew)

end DispatchLemmas

open DispatchLemmas in
/-- A command that fails leaves the state as it was and asks the host for nothing
but a spawn that failed. One that succeeds counts one revision, and reports what
is in the new state under ids that the old one did not have; so does its session,
if the host did not return it before. -/
theorem dispatch_contract {d : Dispatcher} (h : Dispatcher.machine.Reach Dispatcher.Start d)
    (spawner : Spawner) (cmd : Command) :
    (∀ e d', Exec.run (Dispatcher.dispatch spawner cmd) d = (.error (.command e), d') →
      d'.state = d.state ∧ d'.effects = d.effects) ∧
    ∀ out d', Exec.run (Dispatcher.dispatch spawner cmd) d = (.ok out, d') →
      d'.state.revision.toNat = d.state.revision.toNat + 1 ∧ out.Present d'.state ∧
        (∀ id ∈ out.ids, id ∈ d'.state.ids ∧ id ∉ d.state.ids) ∧
        ∀ s ∈ out.session, s ∈ d'.state.held ∧ (s ∉ d.spawned → s ∉ d.state.held) := by
  have hl := legal_of_reach h
  refine ⟨fun e d' hrun => ?_, fun out d' hrun => ?_⟩
  · have hframe := dispatch_atomic spawner cmd d (.command e) (by rw [hrun])
      (by simp [Fault.IsCommand])
    rw [hrun] at hframe
    exact ⟨congrArg Prod.fst hframe, congrArg (fun f => f.2.2) hframe⟩
  · obtain ⟨gone, d₁, revision, hperformed, hrevision, rfl⟩ := dispatch_ok hrun
    have hpresent := effect_present hl hperformed.effect
    refine ⟨?_, present_revision hpresent, fun id hid => ⟨?_, ?_⟩, fun s hs => ⟨?_, ?_⟩⟩
    · rw [hrevision, effect_revision hperformed.effect]
    · exact present_ids (s := d₁.state) hpresent id hid
    · exact effect_fresh hl hperformed.effect id hid
    · exact present_held (s := d₁.state) hpresent s hs
    · exact fun hnew hheld => hnew (held_spawned h s hheld)

/-- A split of the pane of two terminals. -/
theorem dispatch_contract_split :
    (CommandOutput.paneCreated ⟨5⟩ ⟨6⟩ (some ⟨7⟩) (some 9)).Present
      (Exec.run (Dispatcher.dispatch (fun _ => .ok 9)
        (.splitPane ⟨2⟩ .vertical (some (.terminal none))))
        (Dispatcher.machine.run Dispatcher.new twoTerminalsTrace)).2.state := by
  have hreach : Dispatcher.machine.Reach Dispatcher.Start
      (Dispatcher.machine.run Dispatcher.new twoTerminalsTrace) :=
    .of_trace (.init (.inl rfl)) twoTerminalsTrace (by decide)
  exact ((dispatch_contract hreach _ _).2 _ _ (Prod.ext (by rfl) rfl)).2.1

end Mast
