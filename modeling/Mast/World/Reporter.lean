import Mast.World

/-!
# Who reported the status of a workspace

A workspace that shows `Running` or `NeedsInput` remembers the tab that reported
it. The tab should still hold the session that sent the report. Four of the five
ways in which a tab loses its session take the report back; a respawn of a tab
that still holds its session does not.

Results:
1. `backed_deed`, `backed_hear`: what every other step keeps.
2. `not_status_backed`: a respawn leaves the report of a killed session.
3. `status_backed`: in a run that respawns no reporter, every status is backed by a
   live session.
-/

namespace Mast

/-- A status that is shown was set by a session that its source still holds. -/
def Backed (setter : WorkspaceId → Option SessionId) (b : Board) : Prop :=
  b.slot.status ≠ .idle → ∃ c ∈ b.cells, b.slot.source = some c.tab ∧
    ∃ s, c.session = some s ∧ setter b.id = some s

namespace World

/-- Every workspace that shows a status names a terminal tab of its own as the
source, which still holds the session that set the status; and that session lives. -/
def StatusBacked (w : World) : Prop :=
  ∀ ws ∈ w.disp.state.workspaces, ws.agentStatus ≠ .idle →
    ∃ t ∈ ws.tabs, ws.agentStatusSource = some t.id ∧ t.isTerminal = true ∧
      ∃ s, t.session = some s ∧ w.seen.setter ws.id = some s ∧
        s ∉ w.disp.killed ∧ s ∉ w.seen.exited

/-- The action respawns no tab whose report a workspace still shows. -/
def SparesReporter (w : World) : Action → Prop
  | .respawnTab _ tab => ∀ ws ∈ w.disp.state.workspaces, ∀ t ∈ ws.tabs, t.id = tab →
      t.kind.respawnable.isSome = true → ws.agentStatusSource = some tab → ws.agentStatus = .idle
  | _ => True

instance (w : World) (a : Action) : Decidable (w.SparesReporter a) := by
  cases a <;> unfold SparesReporter <;> infer_instance

end World

namespace ReporterLemmas

open WorldLemmas BoardLemmas LegalLemmas

variable {w : World} {a : Action} {setter : WorkspaceId → Option SessionId} {b b' : Board}

/-! ## One board -/

theorem backed_idle (h : b.slot.status = .idle) : Backed setter b := fun hne => absurd h hne

/-- A withdrawn slot shows nothing; the others are as before. -/
theorem withdraw_cases (slot : StatusSlot) (tabs : List TabId) :
    (slot.withdraw .idle tabs).status = .idle ∨
      (slot.withdraw .idle tabs = slot ∧ ∀ tab ∈ tabs, slot.source ≠ some tab) := by
  unfold PrioritySlot.withdraw
  split
  · exact .inl rfl
  next h => exact .inr ⟨rfl, fun tab htab hsource => h ⟨tab, htab, hsource⟩⟩

/-- Only the seats matter. -/
theorem backed_of_seats (hid : b'.id = b.id) (hslot : b'.slot = b.slot)
    (hseats : b'.cells.map Cell.seat = b.cells.map Cell.seat) (h : Backed setter b) :
    Backed setter b' := by
  intro hne
  rw [hslot] at hne
  obtain ⟨c, hc, hsource, s, hs, hset⟩ := h hne
  have hseat : c.seat ∈ b'.cells.map Cell.seat := by
    rw [hseats]
    exact Multiset.mem_map_of_mem _ hc
  obtain ⟨c', hc', heq⟩ := Multiset.mem_map.mp hseat
  obtain ⟨htab, hsession⟩ := Prod.mk.inj heq
  exact ⟨c', hc', by rw [hslot, htab]; exact hsource, s, hsession.trans hs, by rw [hid]; exact hset⟩

/-- What an action that spares the reporter does to a board. -/
theorem backed_deed {ws : Workspace} {fresh : Option SessionId} {deed : Deed}
    (hspares : w.SparesReporter a) (hws : ws ∈ w.disp.state.workspaces)
    (hcause : a.Causes w.disp ws fresh deed) (h : BoardStep ws.board deed b')
    (hb : Backed setter ws.board) : Backed setter b' := by
  intro hne
  cases h with
  | @edited session gone come kept hcells _ _ =>
    rcases withdraw_cases ws.board.slot (gone.map Cell.tab) with hidle | ⟨hsame, hgone⟩
    · exact absurd hidle hne
    · dsimp only at hne ⊢
      rw [hsame] at hne ⊢
      obtain ⟨c, hc, hsource, hset⟩ := hb hne
      rw [hcells] at hc
      rcases Multiset.mem_add.mp hc with hc | hc
      · exact absurd hsource (hgone c.tab (List.mem_map_of_mem (Multiset.mem_coe.mp hc)))
      · exact ⟨c, Multiset.mem_add.mpr (.inr hc), hsource, hset⟩
  | @respawned c₀ kept session status hcells houtcome =>
    obtain ⟨c, hc, hsource, hset⟩ := hb hne
    rw [hcells] at hc
    rcases Multiset.mem_cons.mp hc with rfl | hc
    · -- the respawned tab is the source: the action is not one that spares it
      cases hcause with
      | respawned spawner ht hid heligible =>
        exact absurd (hspares ws hws _ ht hid heligible hsource) hne
    · exact ⟨c, Multiset.mem_cons_of_mem hc, hsource, hset⟩
  | @exited session code endedAtMs holders hholders =>
    rcases withdraw_cases ws.board.slot holders with hidle | ⟨hsame, hgone⟩
    · exact absurd hidle hne
    · dsimp only at hne ⊢
      rw [hsame] at hne ⊢
      obtain ⟨c, hc, hsource, hset⟩ := hb hne
      have hother : c.session ≠ some session := fun hs =>
        hgone c.tab ((hholders c.tab).mpr ⟨c, hc, hs, rfl⟩) hsource
      have hkeep : c.exit session (.exited code endedAtMs) = c := if_neg hother
      exact ⟨c, Multiset.mem_map.mpr ⟨c, hc, hkeep⟩, hsource, hset⟩
  | timedOut =>
    refine backed_of_seats (b := ws.board) rfl rfl ?_ hb hne
    rw [Multiset.map_map]
    exact Multiset.map_congr rfl fun c _ => timeout_seat _ c
  | reported _ _ => cases hcause
  | missed _ => cases hcause

/-! ## Entries -/

theorem setter_after (d : Dispatcher) (notes : Notes)
    (hosc : ∀ batch nowMs, a ≠ .applyOsc batch nowMs) :
    (notes.after d a).setter = notes.setter := by
  cases a with
  | applyOsc batch nowMs => exact absurd rfl (hosc batch nowMs)
  | applyEvent ev => cases ev <;> rfl
  | _ => rfl

/-- The setters after an entry that was located. -/
theorem setter_hear {d : Dispatcher} {entry : SessionId × OscDelta} {pos : TabPos} {ws : Workspace}
    {p : Pane} {t : Tab} (hpos : d.state.locateSession entry.1 = some pos)
    (hlookup : d.state.lookup pos = some (ws, p, t)) (notes : Notes) :
    (notes.hear d entry).setter = entry.2.status.elim notes.setter fun status =>
      if ws.allowsStatus t.id status then
        Function.update notes.setter ws.id (some entry.1) else notes.setter := by
  unfold Notes.hear
  cases entry.2.status with
  | none =>
    dsimp only
    split <;> rfl
  | some status =>
    dsimp only
    rw [Option.elim_some, Notes.noteStatus, hpos, Option.bind_some, hlookup]
    dsimp only
    split <;> split <;> rfl

/-- The setters after an entry that was not located. -/
theorem setter_hear_missed {d : Dispatcher} {entry : SessionId × OscDelta}
    (hpos : d.state.locateSession entry.1 = none) (notes : Notes) :
    (notes.hear d entry).setter = notes.setter := by
  unfold Notes.hear
  cases entry.2.status with
  | none =>
    dsimp only
    split <;> rfl
  | some status =>
    dsimp only
    rw [Notes.noteStatus, hpos, Option.bind_none]
    dsimp only
    split <;> rfl

/-- Two workspaces of a legal state have different ids. -/
theorem id_ne_of_rest {s : AppState} {ws ws' : Workspace} {rest : Multiset Workspace}
    (hl : s.Legal) (hlist : (s.workspaces : Multiset Workspace) = ws ::ₘ rest)
    (hws' : ws' ∈ rest) : ws'.id ≠ ws.id := by
  have hnodup := Multiset.coe_nodup.mpr (workspace_ids_nodup hl)
  rw [← Multiset.map_coe, hlist, Multiset.map_cons, Multiset.nodup_cons] at hnodup
  exact fun heq => hnodup.1 (heq ▸ Multiset.mem_map_of_mem Workspace.id hws')

/-- The workspace that an entry is about. -/
theorem backed_heard {s : AppState} {nowMs : UInt64} {entry : SessionId × OscDelta} {pos : TabPos}
    {ws : Workspace} {p : Pane} {t : Tab} (hlookup : s.lookup pos = some (ws, p, t))
    (hsession : t.session = some entry.1) (hb : Backed setter ws.board) :
    Backed (entry.2.status.elim setter fun status =>
      if ws.allowsStatus t.id status then Function.update setter ws.id (some entry.1) else setter)
      (heard s ws p t pos entry.2 nowMs).board := by
  have hslot := slot_heard s ws p t pos entry.2 nowMs
  have hid := id_heard s ws p t pos entry.2 nowMs
  obtain ⟨kept, hcells, hheard⟩ := exists_rest_heard entry.2 nowMs hlookup hsession
  have hseat : ∀ c : Cell, c = (if entry.2.started then t.cell.start entry.1 else t.cell) →
      c.seat = t.cell.seat := by
    rintro c rfl
    split
    · exact start_seat _ _
    · rfl
  have hseats : (heard s ws p t pos entry.2 nowMs).cells.map Cell.seat =
      ws.cells.map Cell.seat := by
    rw [hheard, hcells, Multiset.map_cons, Multiset.map_cons, hseat _ rfl]
  have hquiet : (heard s ws p t pos entry.2 nowMs).slot = ws.slot →
      Backed setter (heard s ws p t pos entry.2 nowMs).board := fun h =>
    backed_of_seats (b := ws.board) hid h hseats hb
  cases hstatus : entry.2.status with
  | none => exact hquiet (by rw [hslot, hstatus]; rfl)
  | some status =>
    rw [hstatus, Option.elim_some] at hslot
    rw [Option.elim_some]
    have hallows : ws.allowsStatus t.id status = true ↔ ws.slot.Allows .needsInput t.id status := by
      simp [Workspace.allowsStatus, PrioritySlot.Allows, Workspace.slot, or_assoc]
    split
    next hallowed =>
      -- the report is let in: the tab that sent it is the new source
      rw [PrioritySlot.report, if_pos (hallows.mp hallowed)] at hslot
      have hnew : (if entry.2.started then t.cell.start entry.1 else t.cell) ∈
          (heard s ws p t pos entry.2 nowMs).cells := by
        rw [hheard]
        exact Multiset.mem_cons_self _ _
      obtain ⟨htab, hholds⟩ := Prod.mk.inj (hseat _ rfl)
      refine fun _ => ⟨_, hnew, ?_, entry.1, hholds.trans hsession, ?_⟩
      · rw [htab]
        exact congrArg PrioritySlot.source hslot
      · have hset : Function.update setter ws.id (some entry.1)
            (heard s ws p t pos entry.2 nowMs).id = some entry.1 := by
          rw [hid, Function.update_self]
        exact hset
    next hallowed =>
      rw [PrioritySlot.report, if_neg (mt hallows.mpr hallowed)] at hslot
      exact hquiet hslot

/-- Every status is backed, in a legal state. -/
structure AllBacked (w : World) : Prop where
  legal : w.disp.state.Legal
  boards : ∀ ws ∈ w.disp.state.workspaces, Backed w.seen.setter ws.board

theorem backed_hear (nowMs : UInt64) (w : World) (entry : SessionId × OscDelta)
    (h : AllBacked w) : AllBacked (WorldLemmas.hear nowMs w entry) := by
  refine ⟨(ReachableLemmas.sameShape_applyEntry nowMs entry w.disp).legal h.legal,
    fun ws' hws' => ?_⟩
  have hheard := applyEntry_heard nowMs entry w.disp
  unfold WorldLemmas.hear at hws' ⊢
  dsimp only at hws' ⊢
  generalize (w.disp.applyEntry nowMs entry).2.state = s' at hheard hws'
  cases hheard with
  | missed hpos =>
    rw [setter_hear_missed hpos]
    exact h.boards ws' hws'
  | @located pos ws p t hpos hlookup hsession =>
    rw [setter_hear hpos hlookup]
    obtain ⟨hws, _⟩ := EffectLemmas.lookup_eq_some.mp hlookup
    obtain ⟨rest, hlist, _, hmodify⟩ := ListEdit.exists_rest hws
    rcases Multiset.mem_cons.mp (hmodify _ ▸ Multiset.mem_coe.mpr hws') with rfl | hother
    · exact backed_heard hlookup hsession (h.boards ws (mem_of_getElem hws))
    · -- another workspace has another id, so its setter stays
      have hmem : ws' ∈ w.disp.state.workspaces := by
        rw [← Multiset.mem_coe, hlist]
        exact Multiset.mem_cons_of_mem hother
      have hne := id_ne_of_rest h.legal hlist hother
      intro hstatus
      obtain ⟨c, hc, hsource, s, hs, hset⟩ := h.boards ws' hmem hstatus
      refine ⟨c, hc, hsource, s, hs, ?_⟩
      cases entry.2.status with
      | none => exact hset
      | some status =>
        rw [Option.elim_some]
        split
        · exact (Function.update_of_ne hne _ _).trans hset
        · exact hset

/-! ## Runs -/

theorem backed_step (hledger : Ledger w) (ha : a.returns w.disp = true)
    (hspares : w.SparesReporter a) (h : AllBacked w) : AllBacked (w.step a) := by
  refine step_rule hledger ha h
    (fun w revision h => ⟨(ReachableLemmas.sameShape_withRevision _ revision).legal h.legal,
      h.boards⟩)
    (fun nowMs w entry _ => backed_hear nowMs w entry) fun d' hstepped hosc => ?_
  obtain ⟨fresh, _, hboards⟩ := hstepped.boards h.legal hosc
  refine ⟨ReachableLemmas.legal_step hstepped h.legal, fun ws' hws' => ?_⟩
  rw [setter_after _ _ hosc]
  rcases hboards ws' hws' with ⟨ws, hws, deed, hcause, hstep⟩ | hnew
  · exact backed_deed hspares hws hcause hstep (h.boards ws hws)
  · exact backed_idle hnew.idle

theorem isTerminal_of_session {t : Tab} {s : SessionId} (h : t.session = some s) :
    t.isTerminal = true := by
  unfold Tab.session at h
  unfold Tab.isTerminal
  cases hk : t.kind <;> simp_all

end ReporterLemmas

/-- A workspace waits for input; the start deadline of its terminal has passed. -/
def staleReporterTrace : List Action :=
  [.dispatch (fun _ => .ok 7) (.createWorkspace "w" none none (some (.terminal none))),
    .applyEvent (.sessionStartupTimeout 7),
    .applyOsc (OscBatch.empty.mergeAll [(7, .osc777Notify "mast:needsInput" "approve?")]) 10,
    .respawnTab (fun _ => .ok 8) ⟨3⟩]

/-- After the respawn the workspace still shows what the killed session reported. -/
theorem not_status_backed :
    ¬ ∀ w, (World.machine World.Fresh).Reach World.Start w → w.StatusBacked := by
  intro h
  have hreach : (World.machine World.Fresh).Reach World.Start
      ((World.machine World.Fresh).run newWorld staleReporterTrace) :=
    .of_trace (.init newWorld_start) staleReporterTrace (by decide)
  have hshown : ∃ ws ∈ ((World.machine World.Fresh).run newWorld
      staleReporterTrace).disp.state.workspaces, ws.id = ⟨1⟩ ∧ ws.agentStatus = .needsInput := by
    decide
  obtain ⟨ws, hws, hid, hstatus⟩ := hshown
  obtain ⟨t, ht, _, _, s, hs, hset, hkilled, _⟩ := h _ hreach ws hws (by simp [hstatus])
  rw [hid] at hset
  have hsetter : ((World.machine World.Fresh).run newWorld staleReporterTrace).seen.setter ⟨1⟩ =
      some 7 := by decide
  obtain rfl : 7 = s := Option.some_inj.mp (hsetter.symm.trans hset)
  exact hkilled (by decide)

open ReporterLemmas WorldLemmas in
/-- In a run that respawns no tab whose report is still shown, every status is
backed by a live session. -/
theorem status_backed {w : World}
    (h : (World.machine fun w a => w.Fresh a ∧ w.SparesReporter a).Reach World.Start w) :
    w.StatusBacked := by
  have hledger : Ledger w := ledger_of_reach (fun _ _ hp => hp.1) h
  have hall : AllBacked w := by
    refine h.invariant (I := AllBacked) (fun w hw => ⟨?_, fun ws hws => ?_⟩)
      fun w a hr hI ha => ?_
    · exact ReachableLemmas.start_legal hw.1
    · exact backed_idle (start_idle hw.1 hws)
    · exact backed_step (ledger_of_reach (fun _ _ hp => hp.1) hr) ha.1 ha.2.2 hI
  intro ws hws hne
  obtain ⟨c, hc, hsource, s, hs, hset⟩ := hall.boards ws hws hne
  have hlive := (hledger.live s).mp (BoardLemmas.mem_held.mpr ⟨ws, hws, c, hc, hs⟩)
  obtain ⟨t, ht, rfl⟩ := BoardLemmas.mem_cells.mp hc
  exact ⟨t, ht, hsource, isTerminal_of_session hs, s, hs, hset, hlive.2.1, hlive.2.2⟩

/-- A workspace whose reporter exits and is respawned afterwards. -/
def sparedReporterTrace : List Action :=
  [.dispatch (fun _ => .ok 7) (.createWorkspace "w" none none (some (.terminal none))),
    .applyOsc (OscBatch.empty.mergeAll [(7, .osc777Notify "mast:needsInput" "approve?")]) 10,
    .applyEvent (.sessionExited 7 none 11), .respawnTab (fun _ => .ok 8) ⟨3⟩,
    .applyOsc (OscBatch.empty.mergeAll [(8, .osc777Notify "mast:running" "")]) 12]

theorem status_backed_spared : ((World.machine fun w a => w.Fresh a ∧ w.SparesReporter a).run
    newWorld sparedReporterTrace).StatusBacked :=
  status_backed (.of_trace (.init newWorld_start) sparedReporterTrace (by decide))

end Mast
