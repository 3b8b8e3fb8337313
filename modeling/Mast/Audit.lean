import Mast.Board.Steps

/-!
# The audit

`command/audit.rs` and `audit.rs`: the tabs of the model are compared with the two
registries of live sessions and of their sinks. A tab whose session is not in both is
dangling and is marked as exited; what no other tab holds is an orphan and is released.

Results:
1. `auditLocked_spec`: what the repair of the tabs leaves.
2. `audit_settles`: after the repairs of one audit the next one finds nothing, and what
   was consistent is as it was.
-/

namespace Mast

/-- What an audit found. -/
structure RegistryAudit where
  orphanSessions : List SessionId
  orphanSinks : List SessionId
  danglingTabs : List (TabId × SessionId)
deriving DecidableEq, Repr

/-- The ids in the session registry and in the sink registry. -/
structure Registries where
  sessions : List SessionId
  sinks : List SessionId
deriving DecidableEq, Repr

/-- The tabs with a session, in the order of the loops. -/
def AppState.references (model : AppState) : List (TabId × SessionId) :=
  model.tabs.filterMap fun t => t.session.map fun session => (t.id, session)

def Registries.contains (r : Registries) (session : SessionId) : Bool :=
  session ∈ r.sessions && session ∈ r.sinks

/-- A dangling tab does not count as one that holds its session. -/
def referenced (model : AppState) (r : Registries) : List SessionId :=
  (model.references.filter fun e => r.contains e.2).map Prod.snd

/-- `audit_registries`. -/
def auditRegistries (model : AppState) (r : Registries) : RegistryAudit where
  orphanSessions := r.sessions.filter fun id => id ∉ referenced model r
  orphanSinks := r.sinks.filter fun id => id ∉ referenced model r
  danglingTabs := model.references.filter fun e => !r.contains e.2

namespace RegistryAudit

def isEmpty (a : RegistryAudit) : Bool :=
  a.orphanSessions.isEmpty && a.orphanSinks.isEmpty && a.danglingTabs.isEmpty

/-- Sessions whose exit is between the model and the registries are no orphans. -/
def excluding (exiting : List SessionId) (a : RegistryAudit) : RegistryAudit :=
  { a with
    orphanSessions := a.orphanSessions.filter fun id => id ∉ exiting
    orphanSinks := a.orphanSinks.filter fun id => id ∉ exiting }

/-- What is released, on both sides. -/
def orphans (a : RegistryAudit) : List SessionId := a.orphanSessions ++ a.orphanSinks

end RegistryAudit

namespace Registries

def remove (r : Registries) (id : SessionId) : Registries where
  sessions := r.sessions.filter fun s => s ≠ id
  sinks := r.sinks.filter fun s => s ≠ id

def removeAll (r : Registries) (ids : List SessionId) : Registries := ids.foldl remove r

end Registries

/-- The repair of the dangling tabs. `clock` tells the time of each of them. -/
def repairTabs (clock : Nat → UInt64) : List (TabId × SessionId) → Method PUnit
  | [] => pure ()
  | (_, session) :: rest => do
    Dispatcher.applyEvent (.sessionExited session none (clock rest.length))
    repairTabs clock rest

/-- The part of `audit_once` under the lock of the dispatcher. -/
def auditLocked (clock : Nat → UInt64) (exiting : List SessionId) (r : Registries) :
    Method RegistryAudit := do
  let audit ← Method.get fun s => (auditRegistries s r).excluding exiting
  repairTabs clock audit.danglingTabs
  pure audit

/-! ## Consistency -/

/-- The session of the tab, if it has one, is in both registries. -/
def Tab.Consistent (r : Registries) (t : Tab) : Prop :=
  ∀ session ∈ t.session, r.contains session = true

/-- Some tab holds the session, and it is in both registries. -/
def AppState.Holds (model : AppState) (r : Registries) (session : SessionId) : Prop :=
  (∃ t ∈ model.tabs, t.session = some session) ∧ r.contains session = true

def Pane.mapTabs (f : Tab → Tab) (p : Pane) : Pane := { p with tabs := p.tabs.map f }

/-- The panes are as they were, with each of their tabs changed. -/
def MapsTabs (f : Tab → Tab) (model model' : AppState) : Prop :=
  model'.workspaces.map Workspace.panes =
    (model.workspaces.map Workspace.panes).map fun panes => panes.mapValues (Pane.mapTabs f)

namespace AuditLemmas

open Exec MachineLemmas

variable {model model' : AppState} {r : Registries} {session : SessionId} {t : Tab}
  {f g : Tab → Tab}

/-! ## What an audit reports -/

theorem mem_references {e : TabId × SessionId} : e ∈ model.references ↔
    ∃ t ∈ model.tabs, t.id = e.1 ∧ t.session = some e.2 := by
  obtain ⟨tab, session⟩ := e
  unfold AppState.references
  rw [List.mem_filterMap]
  refine exists_congr fun t => and_congr_right fun _ => ?_
  cases t.session with
  | none => simp
  | some s => simp

theorem mem_dangling {e : TabId × SessionId} : e ∈ (auditRegistries model r).danglingTabs ↔
    (∃ t ∈ model.tabs, t.id = e.1 ∧ t.session = some e.2) ∧ r.contains e.2 = false := by
  show e ∈ model.references.filter _ ↔ _
  rw [List.mem_filter, mem_references, Bool.not_eq_true']

theorem mem_referenced {id : SessionId} : id ∈ referenced model r ↔ model.Holds r id := by
  unfold referenced AppState.Holds
  rw [List.mem_map]
  constructor
  · rintro ⟨e, he, rfl⟩
    obtain ⟨he, hwhole⟩ := List.mem_filter.mp he
    obtain ⟨t, ht, -, hsession⟩ := mem_references.mp he
    exact ⟨⟨t, ht, hsession⟩, hwhole⟩
  · rintro ⟨⟨t, ht, hsession⟩, hwhole⟩
    exact ⟨(t.id, id), List.mem_filter.mpr ⟨mem_references.mpr ⟨t, ht, rfl, hsession⟩, hwhole⟩, rfl⟩

theorem mem_orphanSessions {id : SessionId} : id ∈ (auditRegistries model r).orphanSessions ↔
    id ∈ r.sessions ∧ ¬ model.Holds r id := by
  rw [← mem_referenced]
  exact List.mem_filter.trans (and_congr_right fun _ => decide_eq_true_iff)

theorem mem_orphanSinks {id : SessionId} : id ∈ (auditRegistries model r).orphanSinks ↔
    id ∈ r.sinks ∧ ¬ model.Holds r id := by
  rw [← mem_referenced]
  exact List.mem_filter.trans (and_congr_right fun _ => decide_eq_true_iff)

/-- An audit finds nothing when every tab is consistent and every entry is held. -/
theorem isEmpty_iff : (auditRegistries model r).isEmpty = true ↔
    (∀ t ∈ model.tabs, t.Consistent r) ∧ (∀ s ∈ r.sessions, model.Holds r s) ∧
      ∀ s ∈ r.sinks, model.Holds r s := by
  simp only [RegistryAudit.isEmpty, Bool.and_eq_true, List.isEmpty_iff,
    List.eq_nil_iff_forall_not_mem, mem_orphanSessions, mem_orphanSinks, mem_dangling, not_and,
    not_not]
  constructor
  · rintro ⟨⟨hsessions, hsinks⟩, hdangling⟩
    refine ⟨fun t ht session hsession => ?_, hsessions, hsinks⟩
    by_contra hnot
    exact hdangling (t.id, session) ⟨t, ht, rfl, hsession⟩ (Bool.eq_false_iff.mpr hnot)
  · rintro ⟨htabs, hsessions, hsinks⟩
    refine ⟨⟨hsessions, hsinks⟩, fun e => ?_⟩
    rintro ⟨t, ht, -, hsession⟩ hnot
    exact Bool.false_ne_true (hnot.symm.trans (htabs t ht e.2 hsession))

/-! ## The repair of the tabs -/

theorem mapValues_mapValues {K : Type} [LinearOrder K] {V : Type} (m : OrdMap K V)
    (f g : V → V) : (m.mapValues f).mapValues g = m.mapValues (g ∘ f) := by
  refine OrdMap.ext ?_
  show (m.entries.map _).map _ = m.entries.map _
  rw [List.map_map]
  rfl

theorem mapsTabs_refl (model : AppState) : MapsTabs id model model := by
  have hpane : Pane.mapTabs id = id := by
    funext p
    show { p with tabs := p.tabs.map id } = p
    rw [List.map_id]
  have hpanes : (fun panes : OrdMap PaneId Pane => panes.mapValues (Pane.mapTabs id)) = id := by
    funext panes
    refine OrdMap.ext ?_
    rw [hpane]
    exact List.map_id _
  unfold MapsTabs
  rw [hpanes, List.map_id]

theorem mapsTabs_trans {model'' : AppState} (h : MapsTabs f model model')
    (h' : MapsTabs g model' model'') : MapsTabs (g ∘ f) model model'' := by
  have hpane : Pane.mapTabs g ∘ Pane.mapTabs f = Pane.mapTabs (g ∘ f) := by
    funext p
    show { p with tabs := (p.tabs.map f).map g } = _
    rw [List.map_map]
    rfl
  unfold MapsTabs at *
  rw [h', h, List.map_map]
  refine List.map_congr_left fun panes _ => ?_
  rw [← hpane]
  exact mapValues_mapValues panes (Pane.mapTabs f) (Pane.mapTabs g)

theorem tabs_of_mapsTabs (h : MapsTabs f model model') : model'.tabs = model.tabs.map f := by
  have hflat : ∀ m : AppState,
      m.tabs = (m.workspaces.map Workspace.panes).flatMap fun m => m.values.flatMap Pane.tabs := by
    intro m
    rw [List.flatMap_map]
    rfl
  rw [hflat model', h, hflat model, List.flatMap_map, List.map_flatMap]
  refine List.flatMap_congr fun panes _ => ?_
  show List.flatMap Pane.tabs (List.map _ (List.map _ panes.entries)) =
    (List.flatMap Pane.tabs (List.map _ panes.entries)).map f
  rw [List.flatMap_map, List.flatMap_map, List.flatMap_map, List.map_flatMap]
  rfl

theorem mapsTabs_receive (session : SessionId) (code : Option UInt32) (endedAtMs : UInt64)
    (d : Dispatcher) : MapsTabs (Tab.exitSession session code endedAtMs) d.state
      (d.receive (.sessionExited session code endedAtMs)).2.state := by
  unfold MapsTabs
  show List.map _ (List.map _ d.state.workspaces) = _
  rw [List.map_map, List.map_map]
  exact List.map_congr_left fun ws _ => BoardLemmas.panes_resetAll _

/-- What the repair of some tabs does to a tab. -/
def exits (clock : Nat → UInt64) : List (TabId × SessionId) → Tab → Tab
  | [], t => t
  | e :: rest, t => exits clock rest (t.exitSession e.2 none (clock rest.length))

theorem mapsTabs_repair {clock : Nat → UInt64} {dangling : List (TabId × SessionId)}
    {d d' : Dispatcher} (h : run (repairTabs clock dangling) d = (.ok (), d')) :
    MapsTabs (exits clock dangling) d.state d'.state := by
  induction dangling generalizing d with
  | nil =>
    obtain ⟨-, rfl⟩ := Prod.mk.inj h
    exact mapsTabs_refl _
  | cons e rest ih =>
    obtain ⟨_, d₁, hevent, hrest⟩ := run_bind_ok.mp h
    obtain ⟨revision, hstep⟩ := run_applyEvent (.sessionExited e.2 none (clock rest.length)) d
    rw [hevent] at hstep
    subst hstep
    have hfirst : MapsTabs (Tab.exitSession e.2 none (clock rest.length)) d.state
        ((d.receive (.sessionExited e.2 none (clock rest.length))).2.withRevision revision).state :=
      mapsTabs_receive e.2 none (clock rest.length) d
    exact mapsTabs_trans hfirst (ih hrest)

theorem applyEvent_returns (ev : SessionEvent) {d : Dispatcher}
    (h : (d.receive ev).2.state.revision.toNat + 1 < 2 ^ 64) :
    ∃ d', run (Dispatcher.applyEvent ev) d = (.ok (), d') ∧
      d'.state.revision.toNat ≤ (d.receive ev).2.state.revision.toNat + 1 := by
  have hbump : ∃ d', run (Method.bumpIf (d.receive ev).1) (d.receive ev).2 = (.ok (), d') ∧
      d'.state.revision.toNat ≤ (d.receive ev).2.state.revision.toNat + 1 := by
    cases (d.receive ev).1 with
    | false => exact ⟨_, rfl, Nat.le_succ _⟩
    | true =>
      obtain ⟨revision, hrevision⟩ : ∃ revision,
          checkedAdd (d.receive ev).2.state.revision 1 = some revision := by
        exact ⟨_, if_pos h⟩
      refine ⟨(d.receive ev).2.withRevision revision, ?_, ?_⟩
      · rw [Method.bumpIf, if_pos rfl, run_bumpRevision, hrevision]
      · exact (checkedAdd_eq_some.mp hrevision).le
  obtain ⟨d', hbump, hle⟩ := hbump
  exact ⟨d', run_bind_ok.mpr ⟨_, _, rfl, hbump⟩, hle⟩

/-- The repair returns while the revision can count it. -/
theorem repairTabs_returns (clock : Nat → UInt64) {dangling : List (TabId × SessionId)}
    {d : Dispatcher} (h : d.state.revision.toNat + dangling.length < 2 ^ 64) :
    ∃ d', run (repairTabs clock dangling) d = (.ok (), d') := by
  induction dangling generalizing d with
  | nil => exact ⟨d, rfl⟩
  | cons e rest ih =>
    rw [List.length_cons] at h
    have hsame : (d.receive (.sessionExited e.2 none (clock rest.length))).2.state.revision =
        d.state.revision := rfl
    obtain ⟨d₁, hevent, hle⟩ := applyEvent_returns (d := d)
      (.sessionExited e.2 none (clock rest.length)) (by rw [hsame]; omega)
    rw [hsame] at hle
    obtain ⟨d', hrest⟩ := ih (d := d₁) (by omega)
    exact ⟨d', run_bind_ok.mpr ⟨(), d₁, hevent, hrest⟩⟩

theorem exitSession_of_ne {code : Option UInt32} {endedAtMs : UInt64}
    (h : t.session ≠ some session) : t.exitSession session code endedAtMs = t := by
  unfold Tab.session at h
  unfold Tab.exitSession
  split
  · next s status cwd hkind =>
    rw [hkind] at h
    exact if_neg fun heq => h (congrArg some heq)
  · rfl

/-- A tab whose session is not repaired stays as it is. -/
theorem exits_of_not_mem {clock : Nat → UInt64} {dangling : List (TabId × SessionId)}
    (h : ∀ e ∈ dangling, t.session ≠ some e.2) : exits clock dangling t = t := by
  induction dangling with
  | nil => rfl
  | cons e rest ih =>
    show exits clock rest (t.exitSession e.2 none (clock rest.length)) = t
    rw [exitSession_of_ne (h e List.mem_cons_self)]
    exact ih fun e he => h e (List.mem_cons_of_mem _ he)

/-- A tab whose session is repaired lets it go and is marked as exited. -/
theorem exits_of_mem {clock : Nat → UInt64} {dangling : List (TabId × SessionId)}
    (h : ∃ e ∈ dangling, t.session = some e.2) : ∃ status cwd time,
      t.kind = .terminal t.session status cwd ∧ exits clock dangling t =
        { t with kind := .terminal none (.exited none (some time)) cwd } := by
  induction dangling with
  | nil =>
    obtain ⟨e, he, -⟩ := h
    cases he
  | cons e rest ih =>
    by_cases hsession : t.session = some e.2
    · obtain ⟨status, cwd, hkind⟩ : ∃ status cwd, t.kind = .terminal (some e.2) status cwd := by
        unfold Tab.session at hsession
        split at hsession
        · next old status cwd hkind => exact ⟨status, cwd, hsession ▸ hkind⟩
        · cases hsession
      refine ⟨status, cwd, clock rest.length, hsession ▸ hkind, ?_⟩
      have hfirst : t.exitSession e.2 none (clock rest.length) =
          { t with kind := .terminal none (.exited none (some (clock rest.length))) cwd } := by
        unfold Tab.exitSession
        rw [hkind]
        exact if_pos rfl
      show exits clock rest (t.exitSession e.2 none (clock rest.length)) = _
      rw [hfirst]
      exact exits_of_not_mem fun e' _ => nofun
    · show ∃ status cwd time, _ ∧ exits clock rest (t.exitSession e.2 none _) = _
      rw [exitSession_of_ne hsession]
      obtain ⟨e', he', heq⟩ := h
      rcases List.mem_cons.mp he' with rfl | he'
      · exact absurd heq hsession
      · exact ih ⟨e', he', heq⟩

/-! ## The release of the orphans -/

theorem removeAll_sessions (r : Registries) (ids : List SessionId) :
    (r.removeAll ids).sessions = r.sessions.filter fun s => s ∉ ids := by
  induction ids generalizing r with
  | nil => simp [Registries.removeAll]
  | cons id ids ih =>
    show ((r.remove id).removeAll ids).sessions = _
    rw [ih]
    show (r.sessions.filter _).filter _ = _
    rw [List.filter_filter]
    refine List.filter_congr fun s _ => ?_
    simp [Bool.and_comm]

theorem removeAll_sinks (r : Registries) (ids : List SessionId) :
    (r.removeAll ids).sinks = r.sinks.filter fun s => s ∉ ids := by
  induction ids generalizing r with
  | nil => simp [Registries.removeAll]
  | cons id ids ih =>
    show ((r.remove id).removeAll ids).sinks = _
    rw [ih]
    show (r.sinks.filter _).filter _ = _
    rw [List.filter_filter]
    refine List.filter_congr fun s _ => ?_
    simp [Bool.and_comm]

theorem excluding_nil (a : RegistryAudit) : a.excluding [] = a := by
  simp [RegistryAudit.excluding]

/-- What an audit does under the lock. -/
theorem run_auditLocked {clock : Nat → UInt64} {exiting : List SessionId} {d d' : Dispatcher}
    {audit : RegistryAudit} (h : run (auditLocked clock exiting r) d = (.ok audit, d')) :
    audit = (auditRegistries d.state r).excluding exiting ∧
      MapsTabs (exits clock (auditRegistries d.state r).danglingTabs) d.state d'.state := by
  obtain ⟨a, d₁, hread, hrest⟩ := run_bind_ok.mp h
  have hread : (Except.ok ((auditRegistries d.state r).excluding exiting), d) =
      (Except.ok a, d₁) := hread
  cases hread
  obtain ⟨_, d₂, hrepair, hpure⟩ := run_bind_ok.mp hrest
  have hpure : (Except.ok ((auditRegistries d.state r).excluding exiting), d₂) =
      (Except.ok audit, d') := hpure
  cases hpure
  exact ⟨rfl, mapsTabs_repair hrepair⟩

/-! ## A second audit -/

/-- A tab is consistent when its session is not repaired. -/
theorem consistent_iff (ht : t ∈ model.tabs) : t.Consistent r ↔
    ∀ e ∈ (auditRegistries model r).danglingTabs, t.session ≠ some e.2 := by
  constructor
  · intro hwhole e he hsession
    exact Bool.false_ne_true ((mem_dangling.mp he).2.symm.trans (hwhole e.2 hsession))
  · intro hnot session hsession
    by_contra hmissing
    exact hnot (t.id, session) (mem_dangling.mpr ⟨⟨t, ht, rfl, hsession⟩,
      Bool.eq_false_iff.mpr hmissing⟩) hsession

theorem not_orphan_of_holds (h : model.Holds r session) :
    session ∉ (auditRegistries model r).orphans := by
  intro horphan
  rcases List.mem_append.mp horphan with horphan | horphan
  · exact (mem_orphanSessions.mp horphan).2 h
  · exact (mem_orphanSinks.mp horphan).2 h

theorem mem_removeAll_sessions {ids : List SessionId} :
    session ∈ (r.removeAll ids).sessions ↔ session ∈ r.sessions ∧ session ∉ ids := by
  rw [removeAll_sessions, List.mem_filter, decide_eq_true_iff]

theorem mem_removeAll_sinks {ids : List SessionId} :
    session ∈ (r.removeAll ids).sinks ↔ session ∈ r.sinks ∧ session ∉ ids := by
  rw [removeAll_sinks, List.mem_filter, decide_eq_true_iff]

theorem contains_iff : r.contains session = true ↔ session ∈ r.sessions ∧ session ∈ r.sinks := by
  unfold Registries.contains
  rw [Bool.and_eq_true, decide_eq_true_iff, decide_eq_true_iff]

/-- What was held before the repairs is held after them. -/
theorem holds_after {clock : Nat → UInt64}
    (hmaps : MapsTabs (exits clock (auditRegistries model r).danglingTabs) model model')
    (h : model.Holds r session) :
    model'.Holds (r.removeAll (auditRegistries model r).orphans) session := by
  have hnot := not_orphan_of_holds h
  obtain ⟨⟨t, ht, hsession⟩, hwhole⟩ := h
  have hconsistent : t.Consistent r := fun s hs => by
    obtain rfl : session = s := Option.some.inj (hsession.symm.trans hs)
    exact hwhole
  refine ⟨⟨t, ?_, hsession⟩, ?_⟩
  · rw [tabs_of_mapsTabs hmaps]
    have hsame : exits clock (auditRegistries model r).danglingTabs t = t :=
      exits_of_not_mem ((consistent_iff ht).mp hconsistent)
    exact hsame ▸ List.mem_map_of_mem ht
  · rw [contains_iff] at hwhole ⊢
    exact ⟨mem_removeAll_sessions.mpr ⟨hwhole.1, hnot⟩, mem_removeAll_sinks.mpr ⟨hwhole.2, hnot⟩⟩

/-- What a repair does to a tab that is not consistent. -/
theorem exits_of_not_consistent {clock : Nat → UInt64} (ht : t ∈ model.tabs)
    (h : ¬ t.Consistent r) : ∃ status cwd time, t.kind = .terminal t.session status cwd ∧
      exits clock (auditRegistries model r).danglingTabs t =
        { t with kind := .terminal none (.exited none (some time)) cwd } := by
  rw [consistent_iff ht] at h
  simp only [not_forall, not_not] at h
  obtain ⟨e, he, hsession⟩ := h
  exact exits_of_mem ⟨e, he, hsession⟩

theorem isEmpty_after {clock : Nat → UInt64}
    (hmaps : MapsTabs (exits clock (auditRegistries model r).danglingTabs) model model') :
    (auditRegistries model' (r.removeAll (auditRegistries model r).orphans)).isEmpty = true := by
  refine isEmpty_iff.mpr ⟨fun t' ht' => ?_, fun s hs => ?_, fun s hs => ?_⟩
  · rw [tabs_of_mapsTabs hmaps] at ht'
    obtain ⟨t, ht, rfl⟩ := List.mem_map.mp ht'
    by_cases hconsistent : t.Consistent r
    · rw [exits_of_not_mem ((consistent_iff ht).mp hconsistent)]
      intro s hs
      exact (holds_after hmaps ⟨⟨t, ht, hs⟩, hconsistent s hs⟩).2
    · obtain ⟨status, cwd, time, -, hexited⟩ :
          ∃ status cwd time, _ ∧ exits clock _ t = _ := exits_of_not_consistent ht hconsistent
      rw [hexited]
      exact nofun
  · obtain ⟨hs, hnot⟩ := mem_removeAll_sessions.mp hs
    refine holds_after hmaps ?_
    by_contra hlost
    exact hnot (List.mem_append_left _ (mem_orphanSessions.mpr ⟨hs, hlost⟩))
  · obtain ⟨hs, hnot⟩ := mem_removeAll_sinks.mp hs
    refine holds_after hmaps ?_
    by_contra hlost
    exact hnot (List.mem_append_right _ (mem_orphanSinks.mpr ⟨hs, hlost⟩))

end AuditLemmas

open AuditLemmas in
/-- An audit returns while the revision can count its repairs, and after them a second one
finds nothing. The tabs stay where they are; a consistent one is as it was, and any other
is marked as exited and lets its session go. No session or sink that a consistent tab
holds is released. -/
theorem audit_settles (clock : Nat → UInt64) (r : Registries) (d : Dispatcher) :
    (d.state.revision.toNat + (auditRegistries d.state r).danglingTabs.length < 2 ^ 64 →
      ∃ d', Exec.run (auditLocked clock [] r) d = (.ok (auditRegistries d.state r), d')) ∧
    ∀ audit d', Exec.run (auditLocked clock [] r) d = (.ok audit, d') →
      audit = auditRegistries d.state r ∧
      (auditRegistries d'.state (r.removeAll audit.orphans)).isEmpty = true ∧
      (∃ repair, MapsTabs repair d.state d'.state ∧ ∀ t ∈ d.state.tabs,
        (t.Consistent r → repair t = t) ∧
        (¬ t.Consistent r → ∃ status cwd time, t.kind = .terminal t.session status cwd ∧
          repair t = { t with kind := .terminal none (.exited none (some time)) cwd })) ∧
      ∀ s, d.state.Holds r s → s ∉ audit.orphans ∧ (∀ e ∈ audit.danglingTabs, e.2 ≠ s) ∧
        (r.removeAll audit.orphans).sessions.count s = r.sessions.count s ∧
        (r.removeAll audit.orphans).sinks.count s = r.sinks.count s := by
  refine ⟨fun hrevision => ?_, fun audit d' h => ?_⟩
  · obtain ⟨d', hrepair⟩ := repairTabs_returns clock hrevision
    refine ⟨d', Exec.run_bind_ok.mpr ⟨auditRegistries d.state r, d, ?_, ?_⟩⟩
    · show (Except.ok ((auditRegistries d.state r).excluding []), d) = _
      rw [excluding_nil]
    · exact Exec.run_bind_ok.mpr ⟨(), d', hrepair, rfl⟩
  · obtain ⟨haudit, hmaps⟩ := run_auditLocked h
    rw [excluding_nil] at haudit
    subst haudit
    refine ⟨rfl, isEmpty_after hmaps, ⟨_, hmaps, fun t ht => ⟨fun hconsistent => ?_,
      exits_of_not_consistent ht⟩⟩, fun s hs => ?_⟩
    · exact exits_of_not_mem ((consistent_iff ht).mp hconsistent)
    · have hnot := not_orphan_of_holds hs
      refine ⟨hnot, fun e he heq => ?_, ?_, ?_⟩
      · subst heq
        exact Bool.false_ne_true ((mem_dangling.mp he).2.symm.trans hs.2)
      · rw [removeAll_sessions]
        exact List.count_filter (decide_eq_true hnot)
      · rw [removeAll_sinks]
        exact List.count_filter (decide_eq_true hnot)

/-- Two terminals, of which the second lost its sink; session 9 belongs to no tab. -/
def auditedDispatcher : Dispatcher :=
  Dispatcher.machine.run .new
    [.dispatch (fun _ => .ok 7) (.createWorkspace "w" none none (some (.terminal none))),
      .dispatch (fun _ => .ok 8) (.createTab ⟨2⟩ (.terminal none))]

theorem audit_settles_two : ∃ d',
    Exec.run (auditLocked (fun _ => 5) [] ⟨[7, 8, 9], [7, 9]⟩) auditedDispatcher =
      (.ok ⟨[8, 9], [9], [(⟨4⟩, 8)]⟩, d') ∧
    (auditRegistries d'.state ⟨[7], [7]⟩).isEmpty = true := by
  have haudit : auditRegistries auditedDispatcher.state ⟨[7, 8, 9], [7, 9]⟩ =
      ⟨[8, 9], [9], [(⟨4⟩, 8)]⟩ := by decide +kernel
  obtain ⟨hreturns, hsettles⟩ := audit_settles (fun _ => 5) ⟨[7, 8, 9], [7, 9]⟩ auditedDispatcher
  rw [haudit] at hreturns
  obtain ⟨d', hrun⟩ := hreturns (by decide +kernel)
  exact ⟨d', hrun, (hsettles _ d' hrun).2.1⟩

end Mast
