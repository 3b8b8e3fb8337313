import Mast.Machine
import Mast.Structure.Legal

/-!
# Every reachable state is well formed

Results:
1. `restore_ok`: a state that `load` restores is legal and sanitised.
2. `legal_of_reach`: every state that a run reaches from a new dispatcher or from a
   restored state is legal.
3. `state_wellFormed`: every state that a run reaches from a new dispatcher is
   well formed.
-/

namespace Mast

namespace ReachableLemmas

open WorkspaceLemmas LegalLemmas

variable {d d' : Dispatcher} {s : AppState}

/-! ## Steps that leave the structure alone -/

theorem setTerminal_id (session : Option SessionId) (status : TerminalStatus) (t : Tab) :
    (t.setTerminal session status).id = t.id := by
  unfold Tab.setTerminal
  split <;> rfl

theorem exitSession_id (session : SessionId) (code : Option UInt32) (endedAtMs : UInt64)
    (t : Tab) : (t.exitSession session code endedAtMs).id = t.id := by
  unfold Tab.exitSession
  split
  · split <;> rfl
  · rfl

theorem startupTimeout_id (session : SessionId) (t : Tab) :
    (t.startupTimeout session).id = t.id := by
  unfold Tab.startupTimeout
  split
  · split <;> rfl
  · rfl

theorem markStarted_id (t : Tab) : t.markStarted.id = t.id := by
  unfold Tab.markStarted
  split <;> rfl

theorem setCwd_id (path : String) (t : Tab) : (t.setCwd path).id = t.id := by
  unfold Tab.setCwd
  split <;> rfl

theorem applyDelta_id (visible : Bool) (delta : OscDelta) (nowMs : UInt64) (t : Tab) :
    (t.applyDelta visible delta nowMs).id = t.id := by
  unfold Tab.applyDelta
  cases delta.started <;> cases delta.title <;> cases delta.cwd <;>
    cases delta.unread && !visible <;> simp [markStarted_id, setCwd_id]

theorem shape_reportStatus (tab : TabId) (status : AgentStatus) (ws : Workspace) :
    (ws.reportStatus tab status).shape = ws.shape := by
  unfold Workspace.reportStatus
  split <;> rfl

theorem shape_applyDelta (tab : TabId) (delta : OscDelta) (ws : Workspace) :
    (ws.applyDelta tab delta).shape = ws.shape := by
  unfold Workspace.applyDelta
  cases delta.status <;> cases delta.message
  · rfl
  · rfl
  · exact shape_reportStatus _ _ _
  · exact shape_reportStatus _ _ _

theorem shape_exitSession (session : SessionId) (code : Option UInt32) (endedAtMs : UInt64)
    (ws : Workspace) : (ws.exitSession session code endedAtMs).shape = ws.shape :=
  (shape_resetAll _).trans (shape_mapTabs (exitSession_id session code endedAtMs))

theorem sameShape_map {f : Workspace → Workspace} (hf : ∀ ws, (f ws).shape = ws.shape)
    (d : Dispatcher) : SameShape d.state (d.mapWorkspaces f).state where
  shapes := by
    simp only [Dispatcher.mapWorkspaces, List.map_map]
    exact List.map_congr_left fun ws _ => hf ws
  active := rfl
  nextId := rfl

theorem sameShape_modify {s s' : AppState} {wi : Nat} {ws ws' : Workspace}
    (hws : s.workspaces[wi]? = some ws) (hshape : ws'.shape = ws.shape)
    (hlist : s'.workspaces = s.workspaces.modify wi fun _ => ws')
    (hactive : s'.activeWorkspace = s.activeWorkspace) (hnext : s'.nextId = s.nextId) :
    SameShape s s' where
  shapes := by
    rw [hlist]
    refine ListEdit.map_modify _ _ fun w hw => ?_
    rw [hshape, Option.some_inj.mp (hws.symm.trans hw)]
  active := hactive
  nextId := hnext

theorem sameShape_respawned {tab : TabId} {ws : Workspace} {pos : TabPos} {t : Tab}
    {session : Option SessionId} {status : TerminalStatus}
    (h : Respawned d tab ws pos t session status d') : SameShape d.state d'.state := by
  obtain ⟨p, hlookup⟩ := h.place
  obtain ⟨hws, hp, ht⟩ := EffectLemmas.lookup_eq_some.mp hlookup
  exact sameShape_modify hws (shape_replaceTab hp ht (setTerminal_id session status t))
    h.workspaces h.active h.nextId

theorem sameShape_receive (ev : SessionEvent) (d : Dispatcher) :
    SameShape d.state (d.receive ev).2.state := by
  cases ev with
  | sessionExited session code endedAtMs =>
    exact sameShape_map (shape_exitSession session code endedAtMs)
      { d with startedSessions := d.startedSessions.erase session }
  | sessionStartupTimeout session =>
    unfold Dispatcher.receive
    dsimp only
    split
    · exact .refl _
    · exact sameShape_map (fun ws => shape_mapTabs (startupTimeout_id session)) d

theorem sameShape_applyDelta (s : AppState) (pos : TabPos) (delta : OscDelta) (nowMs : UInt64) :
    SameShape s (s.applyDelta pos delta nowMs).2 := by
  unfold AppState.applyDelta
  split
  · exact .refl _
  next ws pane tab hlookup =>
    obtain ⟨hws, _⟩ := EffectLemmas.lookup_eq_some.mp hlookup
    refine sameShape_modify hws ?_ rfl rfl rfl
    exact (shape_applyDelta _ _ _).trans (shape_modifyTab (applyDelta_id _ _ _))

theorem sameShape_applyEntry (nowMs : UInt64) (entry : SessionId × OscDelta) (d : Dispatcher) :
    SameShape d.state (d.applyEntry nowMs entry).2.state := by
  have hstate : (if entry.2.started then
      { d with startedSessions := insert entry.1 d.startedSessions } else d).state = d.state := by
    split <;> rfl
  unfold Dispatcher.applyEntry
  dsimp only
  rw [hstate]
  split
  · rw [hstate]
    exact .refl _
  · exact sameShape_applyDelta _ _ _ _

theorem sameShape_applyEntries (nowMs : UInt64) (entries : List (SessionId × OscDelta))
    (d : Dispatcher) : SameShape d.state (d.applyEntries nowMs entries).2.state := by
  induction entries generalizing d with
  | nil => exact .refl _
  | cons entry entries ih => exact (sameShape_applyEntry nowMs entry d).trans (ih _)

theorem sameShape_withRevision (d : Dispatcher) (revision : UInt64) :
    SameShape d.state (d.withRevision revision).state := ⟨rfl, rfl, rfl⟩

/-- What an action does to the structure: a command has its effect, everything
else leaves it alone. -/
theorem stepped_structure {a : Action} (h : Stepped d a d') :
    (∃ cmd out gone s, Effect cmd d.state out gone s ∧ SameShape s d'.state) ∨
      SameShape d.state d'.state := by
  cases h with
  | performed revision h => exact .inl ⟨_, _, _, _, h.effect, sameShape_withRevision _ revision⟩
  | failed h =>
    have hstate : d'.state = d.state := congrArg Prod.fst h
    exact .inr (hstate ▸ .refl _)
  | refused spawner tab => exact .inr (.refl _)
  | respawned h => exact .inr (sameShape_respawned h)
  | event ev revision =>
    exact .inr ((sameShape_receive ev d).trans (sameShape_withRevision _ revision))
  | osc batch nowMs revision =>
    exact .inr ((sameShape_applyEntries nowMs _ d).trans (sameShape_withRevision _ revision))

theorem legal_step {a : Action} (h : Stepped d a d') (hl : d.state.Legal) : d'.state.Legal := by
  rcases stepped_structure h with ⟨cmd, out, gone, s, heffect, hsame⟩ | hsame
  · exact hsame.legal (heffect.legal hl)
  · exact hsame.legal hl

theorem settled_step {a : Action} (h : Stepped d a d') (hl : d.state.Legal)
    (hs : d.state.Settled) : d'.state.Settled := by
  rcases stepped_structure h with ⟨cmd, out, gone, s, heffect, hsame⟩ | hsame
  · exact hsame.settled (heffect.settled hl hs)
  · exact hsame.settled hs

/-! ## Restored states -/

theorem claimAll_eq_ok_iff {seen : Finset UInt64} {claims : List (UInt64 × IdKind)} :
    claimAll seen claims = .ok () ↔
      (claims.map Prod.fst).Nodup ∧ ∀ id ∈ claims.map Prod.fst, id ∉ seen := by
  induction claims generalizing seen with
  | nil => simp [claimAll]
  | cons claim claims ih =>
    obtain ⟨id, what⟩ := claim
    rw [claimAll, List.map_cons, List.nodup_cons, List.forall_mem_cons]
    split
    next hseen => simp [hseen]
    next hseen =>
      rw [ih]
      constructor
      · rintro ⟨hnodup, hfresh⟩
        refine ⟨⟨fun hid => hfresh id hid (Finset.mem_insert_self _ _), hnodup⟩, hseen, ?_⟩
        exact fun id' hid' hin => hfresh id' hid' (Finset.mem_insert_of_mem hin)
      · rintro ⟨⟨hid, hnodup⟩, _, hfresh⟩
        refine ⟨hnodup, fun id' hid' hin => ?_⟩
        rcases Finset.mem_insert.mp hin with rfl | hin
        · exact hid hid'
        · exact hfresh id' hid' hin

theorem claims_ids (ws : Workspace) : ws.claims.map Prod.fst = ws.ids := by
  simp [Workspace.claims, Workspace.ids, List.map_flatMap, Function.comp_def]

theorem validateAll_eq_ok_iff {l : List Workspace} :
    validateAll l = .ok () ↔ ∀ ws ∈ l, ws.Valid := by
  induction l with
  | nil => simp [validateAll]
  | cons ws l ih =>
    rw [validateAll, List.forall_mem_cons, ← validate_eq_ok_iff, ← ih]
    cases ws.validate <;> simp

theorem validateActive_eq_ok_iff : validateActive s = .ok () ↔
    ∀ id, s.activeWorkspace = some id → ∃ ws ∈ s.workspaces, ws.id = id := by
  unfold validateActive
  cases hactive : s.activeWorkspace with
  | none => simp
  | some active =>
    simp only [Option.isNone_iff_eq_none, AppState.workspace, Option.some_inj, forall_eq']
    by_cases h : ∃ ws ∈ s.workspaces, ws.id = active
    · obtain ⟨ws, hws, hid⟩ := h
      have hne : s.workspaces.find? (fun ws => ws.id = active) ≠ none := fun hnone => by
        simpa [hid] using List.find?_eq_none.mp hnone ws hws
      simp only [hne, if_false, true_iff]
      exact ⟨ws, hws, hid⟩
    · have hnone : s.workspaces.find? (fun ws => ws.id = active) = none := by
        refine List.find?_eq_none.mpr fun ws hws hid => h ⟨ws, hws, by simpa using hid⟩
      simp [hnone, h]

/-- What `validate_app` accepts is legal, but for the counter. -/
theorem validateApp_eq_ok_iff : validateApp s = .ok () ↔
    s.ids.Nodup ∧ (∀ ws ∈ s.workspaces, ws.Valid) ∧
      ∀ id, s.activeWorkspace = some id → ∃ ws ∈ s.workspaces, ws.id = id := by
  have hids : (s.workspaces.flatMap Workspace.claims).map Prod.fst = s.ids := by
    simp only [List.map_flatMap, claims_ids, AppState.ids]
  rw [← validateActive_eq_ok_iff, ← validateAll_eq_ok_iff, ← hids]
  have hclaims : claimAll ∅ (s.workspaces.flatMap Workspace.claims) = .ok () ↔ _ :=
    claimAll_eq_ok_iff
  simp only [Finset.notMem_empty, not_false_eq_true, implies_true, and_true] at hclaims
  rw [← hclaims, validateApp]
  cases claimAll ∅ (s.workspaces.flatMap Workspace.claims) with
  | error e => simp [bind, Except.bind]
  | ok u => cases validateAll s.workspaces <;> simp [bind, Except.bind]

theorem le_maxUsedId {id : UInt64} (h : id ∈ s.ids) : id ≤ maxUsedId s := by
  have hfold : ∀ (l : List UInt64) (m : UInt64), m ≤ l.foldl max m ∧
      ∀ id ∈ l, id ≤ l.foldl max m := by
    intro l
    induction l with
    | nil => simp
    | cons a l ih =>
      intro m
      obtain ⟨hle, hmem⟩ := ih (max m a)
      refine ⟨(le_max_left m a).trans hle, fun id hid => ?_⟩
      rcases List.mem_cons.mp hid with rfl | hid
      · exact (le_max_right m id).trans hle
      · exact hmem id hid
  exact (hfold s.ids 0).2 id h

theorem shape_sanitize (ws : Workspace) : ws.sanitize.shape = ws.shape := by
  have hshape : (ws.mapTabs Tab.sanitize).shape = ws.shape := shape_mapTabs fun _ => rfl
  exact hshape

/-- A restored state: valid as a whole, with a free counter, and sanitised. -/
structure Restored (s : AppState) : Prop where
  legal : s.Legal
  sanitized : ∀ ws ∈ s.workspaces, ∃ ws₀ : Workspace, ws = ws₀.sanitize

theorem sanitize_ok {reserved : Option UInt64} {s' : AppState} {repairs : List Repair}
    (hvalid : validateApp s = .ok ()) (h : sanitize s reserved = .ok (s', repairs)) :
    Restored s' := by
  obtain ⟨hnodup, hws, hactive⟩ := validateApp_eq_ok_iff.mp hvalid
  have hshapes : (s.workspaces.map Workspace.sanitize).map Workspace.shape =
      s.workspaces.map Workspace.shape := by
    rw [List.map_map]
    exact List.map_congr_left fun ws _ => shape_sanitize ws
  -- whatever the counter, the state is legal as soon as the counter is above the ids
  have hrestored : ∀ n : UInt64, maxUsedId { s with workspaces := s.workspaces.map .sanitize } < n →
      Restored { s with workspaces := s.workspaces.map .sanitize, nextId := n } := by
    intro n hn
    refine ⟨⟨fun w hw => ?_, ?_, fun id hid => lt_of_le_of_lt (le_maxUsedId hid) hn,
      fun id hid => ?_⟩, fun w hw => ?_⟩
    · obtain ⟨w₀, hw₀, rfl⟩ := List.mem_map.mp hw
      exact Valid.of_shape (hws w₀ hw₀) (shape_sanitize w₀).symm
    · rw [ids_of_shapes (s := s) hshapes]
      exact hnodup
    · obtain ⟨w, hw, rfl⟩ := hactive id hid
      exact ⟨w.sanitize, List.mem_map_of_mem hw, rfl⟩
    · obtain ⟨w₀, _, rfl⟩ := List.mem_map.mp hw
      exact ⟨w₀, rfl⟩
  unfold sanitize at h
  dsimp only at h
  split at h
  next hle =>
    split at h
    next n hn =>
      obtain ⟨rfl, _⟩ := Prod.mk.inj (Except.ok.inj h)
      refine hrestored n (lt_of_le_of_lt (le_max_left _ (reserved.getD 0)) ?_)
      rw [UInt64.lt_iff_toNat_lt, checkedAdd_eq_some.mp hn]
      exact Nat.lt_succ_self _
    next => simp at h
  next hle =>
    obtain ⟨rfl, _⟩ := Prod.mk.inj (Except.ok.inj h)
    exact hrestored s.nextId (lt_of_le_of_lt (le_max_left _ (reserved.getD 0)) (not_le.mp hle))

/-- A state that `load` restores is legal and sanitised. -/
theorem restore_ok {persisted s : AppState} {removed : List RemovedUnknownTab}
    {repairs : List Repair} (h : restore persisted removed = .ok (s, repairs)) : Restored s := by
  unfold restore at h
  cases hfirst : validateApp persisted with
  | error e => simp [hfirst, Except.mapError, bind, Except.bind] at h
  | ok u =>
    cases hsecond : validateApp (removeUnknownTabs persisted removed) with
    | error e => simp [hfirst, hsecond, Except.mapError, bind, Except.bind] at h
    | ok u =>
      simp only [hfirst, hsecond, Except.mapError, bind, Except.bind, pure, Except.pure] at h
      split at h
      · simp at h
      next sanitized hsanitized =>
        obtain ⟨rfl, _⟩ := Prod.mk.inj (Except.ok.inj h)
        exact sanitize_ok hsecond hsanitized

theorem start_legal (h : d.Start) : d.state.Legal := by
  rcases h with rfl | ⟨persisted, removed, s, repairs, hrestore, rfl⟩
  · exact legal_new
  · exact (restore_ok hrestore).legal

end ReachableLemmas

open ReachableLemmas

/-- Every reachable state is legal. -/
theorem legal_of_reach {d : Dispatcher} (h : Dispatcher.machine.Reach Dispatcher.Start d) :
    d.state.Legal := by
  refine h.invariant (fun d hd => start_legal hd) fun d a _ hl ha => ?_
  exact legal_step (Action.stepped ha) hl

/-- Every state of a run from a new dispatcher is legal and settled. -/
theorem settled_of_reach_new {d : Dispatcher}
    (h : Dispatcher.machine.Reach (fun d => d = Dispatcher.new) d) :
    d.state.Legal ∧ d.state.Settled := by
  refine h.invariant (I := fun d => d.state.Legal ∧ d.state.Settled) (fun d hd => ?_)
    fun d a _ hl ha => ?_
  · subst hd
    exact ⟨LegalLemmas.legal_new, LegalLemmas.settled_new⟩
  · have hstep := Action.stepped ha
    exact ⟨legal_step hstep hl.1, settled_step hstep hl.1 hl.2⟩

/-! ## Well-formed states -/

/-- A pane under its key: it carries that id, and shows one of its tabs if it has
any. -/
structure Pane.WellFormed (key : PaneId) (p : Pane) : Prop where
  id : p.id = key
  activeTab : ∀ tab ∈ p.activeTab, ∃ t ∈ p.tabs, t.id = tab
  shows : p.tabs ≠ [] → p.activeTab.isSome

structure Workspace.WellFormed (ws : Workspace) : Prop where
  leaves_nodup : ws.layout.leaves.Nodup
  leaves_keys : ∀ pane, pane ∈ ws.layout.leaves ↔ pane ∈ ws.panes.keys
  splitIds_nodup : ws.layout.splitIds.Nodup
  ratios : ∀ r ∈ ws.layout.ratios, r.isFinite = true ∧ 0 < r.value ∧ r.value < 1
  activePane : ws.activePane ∈ ws.panes.keys
  panes : ∀ e ∈ ws.panes.entries, e.2.WellFormed e.1

/-- The tree and the panes of each workspace agree, an existing workspace is
active, and every stable id is used once and below the counter. -/
structure AppState.WellFormed (s : AppState) : Prop where
  workspaces : ∀ ws ∈ s.workspaces, ws.WellFormed
  active_none : s.activeWorkspace = none ↔ s.workspaces = []
  active : ∀ id ∈ s.activeWorkspace, ∃ ws ∈ s.workspaces, ws.id = id
  ids_nodup : s.ids.Nodup
  ids_lt : ∀ id ∈ s.ids, id < s.nextId

namespace ReachableLemmas

theorem pane_wellFormed {key : PaneId} {p : Pane} (hid : p.id = key) (hl : p.Legal)
    (hs : p.Shows) : p.WellFormed key where
  id := hid
  activeTab tab htab := List.mem_map.mp (hl tab htab)
  shows hne := hs fun hnil => hne (List.map_eq_nil_iff.mp hnil)

theorem workspace_wellFormed {ws : Workspace} (hv : ws.Valid) (hs : ws.Settled) :
    ws.WellFormed where
  leaves_nodup := hv.leaves_nodup
  leaves_keys := hv.leaves_keys
  splitIds_nodup := hv.splitIds_nodup
  ratios r hr := SplitTree.ratioInvalid_eq_false_iff.mp (hv.ratios r hr)
  activePane := hv.activePane
  panes e he := pane_wellFormed (hs.paneIds e he) (hv.panes e he) (hs.shows e he)

end ReachableLemmas

/-- Every state of a run from a new dispatcher is well formed. -/
theorem state_wellFormed {d : Dispatcher}
    (h : Dispatcher.machine.Reach (fun d => d = Dispatcher.new) d) : d.state.WellFormed := by
  obtain ⟨hl, hs⟩ := settled_of_reach_new h
  exact {
    workspaces := fun ws hws => workspace_wellFormed (hl.valid ws hws) (hs.workspaces ws hws)
    active_none := hs.active
    active := hl.active
    ids_nodup := hl.ids_nodup
    ids_lt := hl.ids_lt }

/-- A pane is split, a spawn fails, and the first pane is emptied and collapses. -/
def collapseTrace : List Action :=
  [.dispatch (fun _ => .ok 7) (.createWorkspace "w" none none (some (.terminal none))),
    .dispatch (fun _ => .ok 8) (.splitPane ⟨2⟩ .vertical (some (.terminal none))),
    .dispatch (fun _ => .error "no shell") (.createTab ⟨2⟩ (.terminal none)),
    .dispatch (fun _ => .ok 9) (.closeTab ⟨3⟩), .applyEvent (.sessionExited 8 none 5)]

theorem state_wellFormed_collapse :
    (Dispatcher.machine.run Dispatcher.new collapseTrace).state.WellFormed := by
  have hstart : Dispatcher.machine.Reach (fun d => d = Dispatcher.new) Dispatcher.new := .init rfl
  exact state_wellFormed (hstart.of_trace collapseTrace (by decide))

end Mast
