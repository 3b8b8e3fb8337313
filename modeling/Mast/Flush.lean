import Mast.Board.Batch
import Mast.Lib.Coalesce

/-!
# One flush for many events

The events of a flush window are gathered into one slot for each session, and
the slots are applied at once. On the tabs and on the set of started sessions
this is the same as flushing each event by itself: the slots of two sessions
change two tabs, and what an event adds to a slot acts after the slot.

Results:
1. `mergeEvent_over`, `applyDelta_over`: an event acts after the slot it is merged
   into.
2. `screens_applyEntries`: what a batch does to the tabs, session by session.
3. `flush_once`: flushing the merged events is flushing each event.
-/

namespace Mast

/-! ## Slots -/

/-- One report after another. -/
def OscDelta.over (earlier later : OscDelta) : OscDelta where
  title := later.title.or earlier.title
  cwd := later.cwd.or earlier.cwd
  status := later.status.or earlier.status
  message := later.message.or earlier.message
  unread := earlier.unread || later.unread
  started := earlier.started || later.started

/-- What a terminal becomes by a start marker and a new directory. -/
def TabKind.heard (started : Bool) (cwd : Option String) : TabKind → TabKind
  | .terminal session status old =>
    .terminal session (if started && status = .notStarted then .running else status) (cwd.or old)
  | kind => kind

/-- What a report can change, other than the status of a workspace: the panes of
the workspaces, and the sessions that are known to have started. -/
@[ext] structure Screens where
  panes : List (OrdMap PaneId Pane)
  started : Finset SessionId

def Dispatcher.screens (d : Dispatcher) : Screens :=
  ⟨d.state.workspaces.map Workspace.panes, d.startedSessions⟩

/-- Change the tab at a position. -/
def editTab (pos : TabPos) (f : Tab → Tab) (panes : List (OrdMap PaneId Pane)) :
    List (OrdMap PaneId Pane) :=
  panes.modify pos.ws fun panes => panes.modify pos.pane fun p =>
    { p with tabs := p.tabs.modify pos.tab f }

namespace AppState

/-- Whether the tab at a position is on screen. -/
def shownAt (s : AppState) (pos : TabPos) : Bool :=
  (s.lookup pos).any fun found => s.visible found.1 found.2.1 found.2.2.id

/-- What the slot of a session does to the screens. -/
def hearScreens (s : AppState) (nowMs : UInt64) (session : SessionId) (delta : OscDelta)
    (v : Screens) : Screens where
  panes := (s.locateSession session).elim v.panes fun pos =>
    editTab pos (Tab.applyDelta (s.shownAt pos) delta nowMs) v.panes
  started := if delta.started then insert session v.started else v.started

end AppState

namespace FlushLemmas

open BoardLemmas BatchLemmas

theorem over_mergeMessage (earlier later : OscDelta) (body : String) :
    (earlier.over later).mergeMessage body = earlier.over (later.mergeMessage body) := by
  unfold OscDelta.mergeMessage
  split <;> rfl

/-- An event acts after the slot it is merged into. -/
theorem mergeEvent_over {ev : OscEvent} {f : OscDelta → OscDelta}
    (h : OscDelta.mergeEvent ev = some f) (delta : OscDelta) :
    f delta = delta.over (f OscDelta.default) := by
  cases ev with
  | osc0Title title =>
    cases h
    simp [OscDelta.over, OscDelta.default]
  | osc7Cwd uri =>
    rw [OscDelta.mergeEvent] at h
    cases hpath : parseFileUri uri with
    | none => simp [hpath] at h
    | some path =>
      rw [hpath] at h
      cases h
      simp [OscDelta.over, OscDelta.default]
  | osc9Notify body =>
    cases h
    rw [← over_mergeMessage]
    simp [OscDelta.over, OscDelta.default]
  | osc777Notify title body =>
    rw [OscDelta.mergeEvent] at h
    cases hstatus : parseStatusToken title with
    | none =>
      rw [hstatus] at h
      cases h
      rw [← over_mergeMessage]
      simp [OscDelta.over, OscDelta.default]
    | some status =>
      rw [hstatus] at h
      cases h
      dsimp only
      rw [← over_mergeMessage]
      congr 1
      split <;> simp [OscDelta.over, OscDelta.default]
  | osc777Started =>
    cases h
    simp [OscDelta.over, OscDelta.default]
  | _ => cases h

/-- The tab part of a report, field by field. -/
theorem applyDelta_eq (visible : Bool) (delta : OscDelta) (nowMs : UInt64) (t : Tab) :
    t.applyDelta visible delta nowMs =
      { id := t.id
        title := delta.title.getD t.title
        kind := t.kind.heard delta.started delta.cwd
        notification := if delta.unread && !visible then .unread else t.notification
        lastActivityMs := some nowMs } := by
  obtain ⟨id, title, kind, notification, lastActivityMs⟩ := t
  obtain ⟨title', cwd', status', message', unread', started'⟩ := delta
  unfold Tab.applyDelta
  dsimp only
  generalize (unread' && !visible) = unread
  cases kind with
  | terminal session status cwd =>
    cases status <;> cases started' <;> cases title' <;> cases cwd' <;> cases unread <;> rfl
  | _ => cases started' <;> cases title' <;> cases cwd' <;> cases unread <;> rfl

theorem heard_heard (started started' : Bool) (cwd cwd' : Option String) (kind : TabKind) :
    (kind.heard started cwd).heard started' cwd' =
      kind.heard (started || started') (cwd'.or cwd) := by
  cases kind with
  | terminal session status old =>
    cases status <;> cases started <;> cases started' <;> simp [TabKind.heard, Option.or_assoc]
  | _ => rfl

/-- Two reports one after the other are their combination. -/
theorem applyDelta_over (visible : Bool) (earlier later : OscDelta) (nowMs : UInt64) (t : Tab) :
    t.applyDelta visible (earlier.over later) nowMs =
      (t.applyDelta visible earlier nowMs).applyDelta visible later nowMs := by
  simp only [applyDelta_eq, heard_heard, OscDelta.over]
  congr 1
  · cases later.title <;> rfl
  · cases earlier.unread <;> cases later.unread <;> cases visible <;> rfl

/-! ## Tabs at positions -/

variable {s s' : AppState} {pos pos' : TabPos}

theorem editTab_editTab (f g : Tab → Tab) (panes : List (OrdMap PaneId Pane)) :
    editTab pos g (editTab pos f panes) = editTab pos (g ∘ f) panes := by
  unfold editTab
  rw [List.modify_modify_eq]
  refine congrArg (fun h => List.modify panes pos.ws h) (funext fun m => ?_)
  rw [Function.comp_apply, OrdMap.modify_modify_self]
  refine congrArg (m.modify pos.pane) (funext fun p => ?_)
  simp only [Function.comp_apply, List.modify_modify_eq]

/-- Changes at different positions commute. -/
theorem editTab_comm (f g : Tab → Tab) (panes : List (OrdMap PaneId Pane)) (h : pos ≠ pos') :
    editTab pos f (editTab pos' g panes) = editTab pos' g (editTab pos f panes) := by
  unfold editTab
  by_cases hws : pos'.ws = pos.ws
  · rw [hws, List.modify_modify_eq, List.modify_modify_eq]
    refine congrArg (fun h => List.modify panes pos.ws h) (funext fun m => ?_)
    simp only [Function.comp_apply]
    by_cases hpane : pos'.pane = pos.pane
    · rw [hpane, OrdMap.modify_modify_self, OrdMap.modify_modify_self]
      refine congrArg (m.modify pos.pane) (funext fun p => ?_)
      have htab : pos'.tab ≠ pos.tab := fun htab => h (by
        cases pos
        cases pos'
        simp_all)
      simp only [Function.comp_apply, List.modify_modify_ne _ _ _ htab]
    · exact OrdMap.modify_modify_ne _ _ _ hpane
  · exact List.modify_modify_ne _ _ _ hws

/-- Two sessions are located in two tabs. -/
theorem locate_injective {session session' : SessionId} (h : s.locateSession session = some pos)
    (h' : s.locateSession session' = some pos) : session = session' := by
  obtain ⟨ws, p, t, hlookup, hsession⟩ := EffectLemmas.findTab_eq_some h
  obtain ⟨ws', p', t', hlookup', hsession'⟩ := EffectLemmas.findTab_eq_some h'
  obtain ⟨rfl, rfl, rfl⟩ : ws = ws' ∧ p = p' ∧ t = t' := by
    simpa using hlookup.symm.trans hlookup'
  have hheld : t.session = some session := by simpa using hsession
  have hheld' : t.session = some session' := by simpa using hsession'
  exact Option.some_inj.mp (hheld.symm.trans hheld')

/-! ## Slots act independently, and absorb what comes later -/

theorem panes_hearScreens (s : AppState) (nowMs : UInt64) (session : SessionId)
    (delta : OscDelta) (v : Screens) : (s.hearScreens nowMs session delta v).panes =
      (s.locateSession session).elim v.panes fun pos =>
        editTab pos (Tab.applyDelta (s.shownAt pos) delta nowMs) v.panes := rfl

theorem started_hearScreens (s : AppState) (nowMs : UInt64) (session : SessionId)
    (delta : OscDelta) (v : Screens) : (s.hearScreens nowMs session delta v).started =
      if delta.started then insert session v.started else v.started := rfl

theorem hearScreens_independent (s : AppState) (nowMs : UInt64) :
    Coalesce.Independent (s.hearScreens nowMs) := by
  intro session session' hne delta delta' v
  refine Screens.ext ?_ ?_
  · simp only [panes_hearScreens]
    cases hpos : s.locateSession session with
    | none => rw [Option.elim_none, Option.elim_none]
    | some pos =>
      cases hpos' : s.locateSession session' with
      | none => rw [Option.elim_none, Option.elim_none]
      | some pos' =>
        simp only [Option.elim_some]
        exact editTab_comm _ _ _ fun heq => hne (locate_injective hpos (heq ▸ hpos'))
  · simp only [started_hearScreens]
    split <;> split
    · exact Finset.insert_comm _ _ _
    all_goals rfl

theorem hearScreens_over (s : AppState) (nowMs : UInt64) (session : SessionId)
    (earlier later : OscDelta) (v : Screens) : s.hearScreens nowMs session (earlier.over later) v =
      s.hearScreens nowMs session later (s.hearScreens nowMs session earlier v) := by
  refine Screens.ext ?_ ?_
  · simp only [panes_hearScreens]
    cases s.locateSession session with
    | none => simp only [Option.elim_none]
    | some pos =>
      simp only [Option.elim_some, editTab_editTab]
      refine congrArg (fun f => editTab pos f v.panes) (funext fun t => ?_)
      exact applyDelta_over _ _ _ _ _
  · simp only [started_hearScreens, OscDelta.over]
    cases earlier.started <;> cases later.started <;> simp

theorem hearScreens_absorbed (s : AppState) (nowMs : UInt64) {ev : OscEvent}
    {f : OscDelta → OscDelta} (h : OscDelta.mergeEvent ev = some f) :
    Coalesce.Absorbed OscDelta.default (s.hearScreens nowMs) f := by
  intro session delta v
  rw [mergeEvent_over h, hearScreens_over]

/-! ## A batch, slot by slot -/

/-- States in which sessions are at the same places and the same tabs are shown. -/
structure SamePlaces (s s' : AppState) : Prop where
  seating : s'.seating = s.seating
  shape : SameShape s s'

theorem SamePlaces.locate (h : SamePlaces s s') : s'.locateSession = s.locateSession := by
  funext session
  rw [locateSession_eq, locateSession_eq, h.seating]

/-- Whether a tab is shown, read off the shapes. -/
theorem shownAt_eq (s : AppState) (pos : TabPos) : s.shownAt pos =
    ((s.workspaces.map Workspace.shape)[pos.ws]?.bind fun ws => (ws.panes.get? pos.pane).bind
      fun p => p.tabs[pos.tab]?.map fun tab =>
        decide (s.activeWorkspace = some ws.id) && decide (p.activeTab = some tab)).getD false := by
  unfold AppState.shownAt AppState.lookup
  rw [List.getElem?_map]
  cases s.workspaces[pos.ws]? with
  | none => rfl
  | some ws =>
    simp only [Option.bind_eq_bind, Option.bind_some, Option.map_some, Workspace.shape,
      OrdMap.get?_mapValues]
    cases ws.panes.get? pos.pane with
    | none => rfl
    | some p =>
      simp only [Option.bind_some, Option.map_some, Pane.shape, Pane.tabIds, List.getElem?_map]
      cases p.tabs[pos.tab]? <;> rfl

theorem SamePlaces.shown (h : SamePlaces s s') : s'.shownAt = s.shownAt := by
  funext pos
  rw [shownAt_eq, shownAt_eq, h.shape.shapes, h.shape.active]

theorem SamePlaces.hear (h : SamePlaces s s') (nowMs : UInt64) :
    s'.hearScreens nowMs = s.hearScreens nowMs := by
  unfold AppState.hearScreens
  rw [h.locate, h.shown]

theorem samePlaces_applyEntry (nowMs : UInt64) (entry : SessionId × OscDelta) (d : Dispatcher) :
    SamePlaces d.state (d.applyEntry nowMs entry).2.state :=
  ⟨seating_heard (applyEntry_heard nowMs entry d),
    ReachableLemmas.sameShape_applyEntry nowMs entry d⟩

theorem panes_heard {nowMs : UInt64} {entry : SessionId × OscDelta} (h : Heard s nowMs entry s') :
    s'.workspaces.map Workspace.panes =
      (s.locateSession entry.1).elim (s.workspaces.map Workspace.panes) fun pos =>
        editTab pos (Tab.applyDelta (s.shownAt pos) entry.2 nowMs)
          (s.workspaces.map Workspace.panes) := by
  cases h with
  | missed hpos =>
    rw [hpos]
    rfl
  | @located pos ws p t hpos hlookup hsession =>
    obtain ⟨hws, _⟩ := EffectLemmas.lookup_eq_some.mp hlookup
    have hshown : s.shownAt pos = s.visible ws p t.id := by
      rw [AppState.shownAt, hlookup]
      rfl
    rw [hpos, Option.elim_some, hshown]
    refine List.ext_getElem? fun i => ?_
    simp only [editTab, List.getElem?_map, List.getElem?_modify]
    by_cases hi : pos.ws = i
    · subst hi
      simp only [hws, if_true, Option.map_some, Option.map_eq_map]
      rw [heard, panes_applyDelta]
      rfl
    · simp only [hi, if_false]
      cases s.workspaces[i]? <;> rfl

/-- What one entry does to the screens. -/
theorem screens_applyEntry (nowMs : UInt64) (entry : SessionId × OscDelta) (d : Dispatcher) :
    (d.applyEntry nowMs entry).2.screens =
      d.state.hearScreens nowMs entry.1 entry.2 d.screens := by
  refine Screens.ext ?_ ?_
  · exact panes_heard (applyEntry_heard nowMs entry d)
  · exact applyEntry_started nowMs entry d

/-- What a batch does to the screens, session by session. -/
theorem screens_applyEntries (nowMs : UInt64) (entries : List (SessionId × OscDelta))
    (d : Dispatcher) : (d.applyEntries nowMs entries).2.screens =
      Coalesce.applyAll (d.state.hearScreens nowMs) entries d.screens := by
  induction entries generalizing d with
  | nil => rfl
  | cons entry entries ih =>
    refine (ih (d.applyEntry nowMs entry).2).trans ?_
    rw [(samePlaces_applyEntry nowMs entry d).hear, screens_applyEntry]
    rfl

/-! ## Batches of events -/

/-- The events as keyed reports. -/
def reports (events : List (SessionId × OscEvent)) :
    List (SessionId × Option (OscDelta → OscDelta)) :=
  events.map fun ev => (ev.1, OscDelta.mergeEvent ev.2)

theorem entries_mergeAll (events : List (SessionId × OscEvent)) (batch : OscBatch) :
    (batch.mergeAll events).entries =
      Coalesce.gather OscDelta.default batch.entries (reports events) := by
  induction events generalizing batch with
  | nil => rfl
  | cons ev events ih =>
    have hreports : reports (ev :: events) =
        (ev.1, OscDelta.mergeEvent ev.2) :: reports events := rfl
    refine (ih (batch.merge ev.1 ev.2)).trans ?_
    rw [hreports, OscBatch.merge]
    cases OscDelta.mergeEvent ev.2 <;> rfl

theorem reports_absorbed (s : AppState) (nowMs : UInt64) {events : List (SessionId × OscEvent)} :
    ∀ r ∈ reports events, ∀ f ∈ r.2,
      Coalesce.Absorbed OscDelta.default (s.hearScreens nowMs) f := by
  intro r hr f hf
  obtain ⟨ev, _, rfl⟩ := List.mem_map.mp hr
  exact hearScreens_absorbed s nowMs hf

theorem applyAll_mergeAll (s : AppState) (nowMs : UInt64) (events : List (SessionId × OscEvent))
    (v : Screens) :
    Coalesce.applyAll (s.hearScreens nowMs) (OscBatch.empty.mergeAll events).entries.entries v =
      Coalesce.applyEach OscDelta.default (s.hearScreens nowMs) (reports events) v := by
  rw [entries_mergeAll, Coalesce.applyAll_gather (hearScreens_independent s nowMs)
    (reports_absorbed s nowMs)]
  rfl

theorem samePlaces_applyEntries (nowMs : UInt64) (entries : List (SessionId × OscDelta))
    (d : Dispatcher) : SamePlaces d.state (d.applyEntries nowMs entries).2.state :=
  ⟨seating_applyEntries nowMs entries d, ReachableLemmas.sameShape_applyEntries nowMs entries d⟩

end FlushLemmas

/-- One flush of all events. -/
def flushOnce (nowMs : UInt64) (events : List (SessionId × OscEvent)) (d : Dispatcher) :
    Dispatcher := Dispatcher.machine.step d (.applyOsc (OscBatch.empty.mergeAll events) nowMs)

/-- One flush for each event. -/
def flushEach (nowMs : UInt64) (events : List (SessionId × OscEvent)) (d : Dispatcher) :
    Dispatcher := Dispatcher.machine.run d
  (events.map fun ev => .applyOsc (OscBatch.empty.mergeAll [ev]) nowMs)

namespace FlushLemmas

theorem flushOnce_eq (nowMs : UInt64) (events : List (SessionId × OscEvent)) (d : Dispatcher) :
    ∃ revision, flushOnce nowMs events d =
      (d.applyEntries nowMs (OscBatch.empty.mergeAll events).entries.entries).2.withRevision
        revision := by
  obtain ⟨revision, hrun⟩ := MachineLemmas.run_applyOsc (OscBatch.empty.mergeAll events) nowMs d
  refine ⟨revision, ?_⟩
  have hstep : flushOnce nowMs events d =
      Action.step d (.applyOsc (OscBatch.empty.mergeAll events) nowMs) := rfl
  rw [hstep, Action.step, Action.method, MachineLemmas.run_then_pure, hrun]

theorem screens_flushOnce (nowMs : UInt64) (events : List (SessionId × OscEvent))
    (d : Dispatcher) : (flushOnce nowMs events d).screens =
      Coalesce.applyEach OscDelta.default (d.state.hearScreens nowMs) (reports events)
        d.screens := by
  obtain ⟨revision, heq⟩ := flushOnce_eq nowMs events d
  rw [heq, ← applyAll_mergeAll, ← screens_applyEntries]
  rfl

theorem samePlaces_flushOnce (nowMs : UInt64) (events : List (SessionId × OscEvent))
    (d : Dispatcher) : SamePlaces d.state (flushOnce nowMs events d).state := by
  obtain ⟨revision, heq⟩ := flushOnce_eq nowMs events d
  have hsame := samePlaces_applyEntries nowMs (OscBatch.empty.mergeAll events).entries.entries d
  rw [heq]
  exact ⟨hsame.seating, hsame.shape.trans (ReachableLemmas.sameShape_withRevision _ revision)⟩

theorem screens_flushEach (nowMs : UInt64) (events : List (SessionId × OscEvent))
    (d : Dispatcher) : (flushEach nowMs events d).screens =
      Coalesce.applyEach OscDelta.default (d.state.hearScreens nowMs) (reports events)
        d.screens := by
  induction events generalizing d with
  | nil => rfl
  | cons ev events ih =>
    refine (ih (flushOnce nowMs [ev] d)).trans ?_
    rw [(samePlaces_flushOnce nowMs [ev] d).hear, screens_flushOnce]
    simp only [reports, List.map_cons, List.map_nil]
    cases OscDelta.mergeEvent ev.2 <;> rfl

theorem mergeMessage_le (delta : OscDelta) (h : ∀ m ∈ delta.message, m.length ≤ 500)
    (body : String) : ∀ m ∈ (delta.mergeMessage body).message, m.length ≤ 500 := by
  unfold OscDelta.mergeMessage
  split
  · exact h
  · intro m hm
    obtain rfl := Option.some_inj.mp hm
    have hlength : (truncateChars body maxMessageChars).length =
        (body.toList.take maxMessageChars).length := by
      rw [truncateChars, String.length_ofList]
    rw [hlength]
    exact List.length_take_le _ _

/-- No event makes a message longer than the bound. -/
theorem mergeEvent_le {ev : OscEvent} {f : OscDelta → OscDelta}
    (hf : OscDelta.mergeEvent ev = some f) {delta : OscDelta}
    (h : ∀ m ∈ delta.message, m.length ≤ 500) : ∀ m ∈ (f delta).message, m.length ≤ 500 := by
  cases ev with
  | osc0Title title =>
    cases hf
    exact h
  | osc7Cwd uri =>
    rw [OscDelta.mergeEvent] at hf
    cases hpath : parseFileUri uri with
    | none => simp [hpath] at hf
    | some path =>
      rw [hpath] at hf
      cases hf
      exact h
  | osc9Notify body =>
    cases hf
    exact mergeMessage_le { delta with unread := true } h body
  | osc777Notify title body =>
    rw [OscDelta.mergeEvent] at hf
    cases hstatus : parseStatusToken title with
    | none =>
      rw [hstatus] at hf
      cases hf
      exact mergeMessage_le { delta with unread := true } h body
    | some status =>
      rw [hstatus] at hf
      cases hf
      refine mergeMessage_le _ ?_ body
      split <;> exact h
  | osc777Started =>
    cases hf
    exact h
  | _ => cases hf

/-- An event has no slot exactly when merging it never changes a batch. -/
theorem mergeEvent_eq_none_iff (session : SessionId) (ev : OscEvent) :
    OscDelta.mergeEvent ev = none ↔ ∀ batch : OscBatch, batch.merge session ev = batch := by
  constructor
  · intro h batch
    rw [OscBatch.merge, h]
  · intro h
    have hempty := h OscBatch.empty
    cases hev : OscDelta.mergeEvent ev with
    | none => rfl
    | some f =>
      rw [OscBatch.merge, hev] at hempty
      have hentries := congrArg (fun b : OscBatch => b.entries.entries) hempty
      simp [OscBatch.empty, OrdMap.upsert, OrdMap.insert, OrdMap.empty] at hentries

end FlushLemmas

open FlushLemmas in
/-- Flushing the merged events once leaves every pane, with every field of its
tabs, and the started sessions as flushing each event by itself does. The merged
batch has one slot for a session, it is empty exactly when no event changes a slot,
and its messages are bounded. -/
theorem flush_once (d : Dispatcher) (nowMs : UInt64) (events : List (SessionId × OscEvent)) :
    (flushOnce nowMs events d).state.workspaces.map Workspace.panes =
      (flushEach nowMs events d).state.workspaces.map Workspace.panes ∧
    (flushOnce nowMs events d).startedSessions = (flushEach nowMs events d).startedSessions ∧
    (OscBatch.empty.mergeAll events).entries.keys.Nodup ∧
    ((OscBatch.empty.mergeAll events).isEmpty = true ↔
      ∀ ev ∈ events, ∀ batch : OscBatch, batch.merge ev.1 ev.2 = batch) ∧
    ∀ slot ∈ (OscBatch.empty.mergeAll events).entries.entries, ∀ m ∈ slot.2.message,
      m.length ≤ 500 := by
  have hscreens := (screens_flushOnce nowMs events d).trans (screens_flushEach nowMs events d).symm
  refine ⟨congrArg Screens.panes hscreens, congrArg Screens.started hscreens,
    OrdMap.keys_nodup _, ?_, ?_⟩
  · have hempty : (OscBatch.empty.mergeAll events).isEmpty = true ↔
        (OscBatch.empty.mergeAll events).entries.entries = [] := by
      simp [OscBatch.isEmpty, OrdMap.size]
    rw [hempty, entries_mergeAll, Coalesce.gather_eq_nil_iff, reports, List.forall_mem_map]
    refine (and_iff_right rfl).trans (forall₂_congr fun ev _ => ?_)
    exact mergeEvent_eq_none_iff ev.1 ev.2
  · rw [entries_mergeAll]
    refine Coalesce.forall_gather
      (P := fun slot : OscDelta => ∀ m ∈ slot.message, m.length ≤ 500)
      (by simp [OscDelta.default]) (fun r hr f hf delta => ?_)
      (by simp [OscBatch.empty, OrdMap.empty])
    obtain ⟨ev, _, rfl⟩ := List.mem_map.mp hr
    exact mergeEvent_le hf

end Mast
