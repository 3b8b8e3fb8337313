import Mast.Audit.Threads
import Mast.World

/-!
# Model and registries agree

What holds in every interleaving of the threads. `Sound` is about one session, `AuditSound`
about one audit; a step is followed at the one session that it is about.

Results:
1. `agrees_of_reach`: the invariant of the threads.
2. `shells_agree`: no audit finds a tab without its shell, none reports a shell that a
   tab references or whose exit is under way, no release hits a shell that a tab
   references, and when all exits and spawns are done nothing is left over.
-/

namespace Mast

/-- What holds of one session: whether a tab references it, its places in the registries,
its marker, whether a dispatch waits for it, and where its spawn and its exit are. -/
structure Sound (held sink session marked awaited : Prop) (spawn : SpawnStage)
    (exit : ExitStage) : Prop where
  kept : held → sink ∧ session ∧ spawn = .over ∧ exit.beforeUpdate = true ∧ ¬ awaited
  waited : awaited → spawn ≠ .absent ∧ spawn ≠ .discarding ∧ (exit = .alive ∨ exit = .recorded) ∧
    (spawn = .sinkIn → sink) ∧ (spawn = .sessionIn → sink ∧ session)
  sink : sink → held ∨ spawn = .sinkIn ∨ spawn = .sessionIn ∨ exit = .updated
  session : session → held ∨ spawn = .sessionIn ∨ spawn = .discarding ∨ exit.inWindow = true
  born : exit ≠ .alive → spawn ≠ .absent ∧ spawn ≠ .starting
  marker : exit.hasMarker = true → marked

namespace Sound

variable {held sink session marked awaited : Prop} {spawn : SpawnStage} {exit : ExitStage}

theorem startSpawn (h : Sound held sink session marked False .absent exit) :
    Sound held sink session marked True .starting exit := by
  obtain ⟨kept, waited, sink, session, born, marker⟩ := h
  constructor <;> grind [ExitStage.inWindow]

theorem giveUp (h : Sound held sink session marked awaited spawn exit) :
    Sound held sink session marked False spawn exit := by
  obtain ⟨kept, waited, sink, session, born, marker⟩ := h
  constructor <;> grind

/-- The end of a dispatch for the session it waited for: it is adopted if it is there.
`lost` are the sessions that the dispatch kills. -/
theorem adopt (h : Sound held sink session marked True spawn exit)
    (hended : spawn = .sessionIn ∨ spawn = .over) (lost : Prop) :
    Sound ((held ∨ spawn = .sessionIn) ∧ ¬ lost) (sink ∧ ¬ lost) (session ∧ ¬ lost) marked False
      .over exit := by
  obtain ⟨kept, waited, sink, session, born, marker⟩ := h
  constructor <;> grind [ExitStage.inWindow, ExitStage.beforeUpdate]

theorem kill (h : Sound held sink session marked awaited spawn exit) (lost : Prop) :
    Sound (held ∧ ¬ lost) (sink ∧ ¬ lost) (session ∧ ¬ lost) marked False spawn exit := by
  obtain ⟨kept, waited, sink, session, born, marker⟩ := h
  constructor <;> grind

theorem insertSink (h : Sound held sink session marked awaited .starting exit) :
    Sound held True session marked awaited .sinkIn exit := by
  obtain ⟨kept, waited, sink, session, born, marker⟩ := h
  constructor <;> grind

theorem insertSession (h : Sound held sink session marked awaited .sinkIn exit) :
    Sound held sink True marked awaited .sessionIn exit := by
  obtain ⟨kept, waited, sink, session, born, marker⟩ := h
  constructor <;> grind

theorem rollBack (h : Sound held sink session marked awaited .sinkIn .alive) :
    Sound held False session marked awaited .over .alive := by
  obtain ⟨kept, waited, sink, session, born, marker⟩ := h
  constructor <;> grind [ExitStage.inWindow]

theorem discardSink (h : Sound held sink session marked awaited .sessionIn exit)
    (hleft : ¬ awaited) : Sound held False session marked awaited .discarding exit := by
  obtain ⟨kept, waited, sink, session, born, marker⟩ := h
  constructor <;> grind

theorem discardSession (h : Sound held sink session marked awaited .discarding exit) :
    Sound held sink False marked awaited .over exit := by
  obtain ⟨kept, waited, sink, session, born, marker⟩ := h
  constructor <;> grind

theorem takeRecord (h : Sound held sink session marked awaited spawn .alive)
    (hborn : spawn ≠ .absent ∧ spawn ≠ .starting) :
    Sound held sink session marked awaited spawn .recorded := by
  obtain ⟨kept, waited, sink, session, born, marker⟩ := h
  constructor <;> grind [ExitStage.inWindow, ExitStage.beforeUpdate, ExitStage.hasMarker]

/-- The lock that the check takes is free only if no dispatch waits. -/
theorem checkAdoption (h : Sound held sink session marked awaited spawn .recorded)
    (hleft : ¬ awaited) : Sound held sink session marked awaited spawn .checked := by
  obtain ⟨kept, waited, sink, session, born, marker⟩ := h
  constructor <;> grind [ExitStage.inWindow, ExitStage.beforeUpdate, ExitStage.hasMarker]

theorem enterExit (h : Sound held sink session marked awaited spawn .checked) :
    Sound held sink session True awaited spawn .marked := by
  obtain ⟨kept, waited, sink, session, born, marker⟩ := h
  constructor <;> grind [ExitStage.inWindow, ExitStage.beforeUpdate, ExitStage.hasMarker]

theorem updateModel (h : Sound held sink session marked awaited spawn .marked) :
    Sound False sink session marked awaited spawn .updated := by
  obtain ⟨kept, waited, sink, session, born, marker⟩ := h
  constructor <;> grind [ExitStage.inWindow, ExitStage.beforeUpdate, ExitStage.hasMarker]

theorem releaseSink (h : Sound held sink session marked awaited spawn .updated) :
    Sound held False session marked awaited spawn .sinkReleased := by
  obtain ⟨kept, waited, sink, session, born, marker⟩ := h
  constructor <;> grind [ExitStage.inWindow, ExitStage.beforeUpdate, ExitStage.hasMarker]

theorem releaseSession (h : Sound held sink session marked awaited spawn .sinkReleased) :
    Sound held sink False marked awaited spawn .released := by
  obtain ⟨kept, waited, sink, session, born, marker⟩ := h
  constructor <;> grind [ExitStage.inWindow, ExitStage.beforeUpdate, ExitStage.hasMarker]

theorem dropMarker (h : Sound held sink session marked awaited spawn .released) :
    Sound held sink session False awaited spawn .over := by
  obtain ⟨kept, waited, sink, session, born, marker⟩ := h
  constructor <;> grind [ExitStage.inWindow, ExitStage.beforeUpdate, ExitStage.hasMarker]

end Sound

namespace Shells

def SoundAt (s : Shells) (id : SessionId) : Prop :=
  Sound (id ∈ s.held) (id ∈ s.registries.sinks) (id ∈ s.registries.sessions)
    (id ∈ s.exitsInFlight) (s.awaited = some id) (s.spawn id) (s.exit id)

/-- No tab references the session, and none ever will again. -/
structure Spent (s : Shells) (id : SessionId) : Prop where
  lost : id ∉ s.held
  born : s.spawn id ≠ .absent
  left : s.awaited ≠ some id

/-- The snapshot has every referenced session, and no id that was not spawned. -/
def Covers (s : Shells) (snapshot : List SessionId) : Prop :=
  (∀ id ∈ s.held, id ∈ snapshot) ∧ ∀ id ∈ snapshot, s.spawn id ≠ .absent

/-- What holds of one audit. -/
structure AuditSound (s : Shells) (i : Nat) : Prop where
  lock : (s.audit i).holdsLock = true → s.lock = .audit i
  exiting : ∀ exiting ∈ (s.audit i).exiting?, ∀ id, (s.exit id).inWindow = true → id ∈ exiting
  sessions : ∀ snapshot ∈ (s.audit i).sessions?, s.Covers snapshot
  sinks : ∀ snapshot ∈ (s.audit i).sinks?, s.Covers snapshot
  todo : ∀ removal ∈ (s.audit i).todo, s.Spent removal.id
  rest : ∀ audit todo, s.audit i = .releasing audit todo → todo <:+ audit.removals

/-- The invariant of the threads. -/
structure Agrees (s : Shells) : Prop where
  reach : Dispatcher.machine.Reach Dispatcher.Start s.disp
  nodup : s.held.Nodup
  asked : ∀ op id, s.lock = .dispatch op (.waitsFor id) → s.spawns op id = true
  each : ∀ id, s.SoundAt id
  audits : ∀ i, s.AuditSound i

/-- Two states that differ at most in what they say about one session. -/
structure OnlyAt (id : SessionId) (s s' : Shells) : Prop where
  lock : s'.lock = s.lock
  audit : s'.audit = s.audit
  held : ∀ x, x ≠ id → (x ∈ s'.held ↔ x ∈ s.held)
  spawn : ∀ x, x ≠ id → s'.spawn x = s.spawn x
  exit : ∀ x, x ≠ id → s'.exit x = s.exit x
  sinks : ∀ x, x ≠ id → (x ∈ s'.registries.sinks ↔ x ∈ s.registries.sinks)
  sessions : ∀ x, x ≠ id → (x ∈ s'.registries.sessions ↔ x ∈ s.registries.sessions)
  markers : ∀ x, x ≠ id → (x ∈ s'.exitsInFlight ↔ x ∈ s.exitsInFlight)

end Shells

namespace ThreadsLemmas

open Shells

variable {s s' s'' : Shells} {id : SessionId} {i : Nat}

/-! ## Steps about one session -/

theorem onlyAt_refl (id : SessionId) (s : Shells) : OnlyAt id s s :=
  ⟨rfl, rfl, fun _ _ => .rfl, fun _ _ => rfl, fun _ _ => rfl, fun _ _ => .rfl, fun _ _ => .rfl,
    fun _ _ => .rfl⟩

theorem onlyAt_trans (h : OnlyAt id s s') (h' : OnlyAt id s' s'') : OnlyAt id s s'' where
  lock := h'.lock.trans h.lock
  audit := h'.audit.trans h.audit
  held x hx := (h'.held x hx).trans (h.held x hx)
  spawn x hx := (h'.spawn x hx).trans (h.spawn x hx)
  exit x hx := (h'.exit x hx).trans (h.exit x hx)
  sinks x hx := (h'.sinks x hx).trans (h.sinks x hx)
  sessions x hx := (h'.sessions x hx).trans (h.sessions x hx)
  markers x hx := (h'.markers x hx).trans (h.markers x hx)

theorem onlyAt_setSpawn (s : Shells) (id : SessionId) (stage : SpawnStage) :
    OnlyAt id s (s.setSpawn id stage) := by
  refine ⟨rfl, rfl, fun _ _ => .rfl, fun x hx => ?_, fun _ _ => rfl, fun _ _ => .rfl,
    fun _ _ => .rfl, fun _ _ => .rfl⟩
  exact Function.update_of_ne hx _ _

theorem onlyAt_setExit (s : Shells) (id : SessionId) (stage : ExitStage) :
    OnlyAt id s (s.setExit id stage) := by
  refine ⟨rfl, rfl, fun _ _ => .rfl, fun _ _ => rfl, fun x hx => ?_, fun _ _ => .rfl,
    fun _ _ => .rfl, fun _ _ => .rfl⟩
  exact Function.update_of_ne hx _ _

theorem onlyAt_setRegistries {r : Registries}
    (hsinks : ∀ x, x ≠ id → (x ∈ r.sinks ↔ x ∈ s.registries.sinks))
    (hsessions : ∀ x, x ≠ id → (x ∈ r.sessions ↔ x ∈ s.registries.sessions)) :
    OnlyAt id s (s.setRegistries r) :=
  ⟨rfl, rfl, fun _ _ => .rfl, fun _ _ => rfl, fun _ _ => rfl, hsinks, hsessions, fun _ _ => .rfl⟩

theorem onlyAt_setMarkers {markers : List SessionId}
    (h : ∀ x, x ≠ id → (x ∈ markers ↔ x ∈ s.exitsInFlight)) : OnlyAt id s (s.setMarkers markers) :=
  ⟨rfl, rfl, fun _ _ => .rfl, fun _ _ => rfl, fun _ _ => rfl, fun _ _ => .rfl, fun _ _ => .rfl, h⟩

theorem onlyAt_remove (s : Shells) (removal : Removal) :
    OnlyAt removal.id s (s.remove removal) := by
  cases removal with
  | sink id =>
    refine onlyAt_setRegistries (fun x hx => ?_) fun x hx => .rfl
    show x ∈ s.registries.sinks.filter _ ↔ _
    rw [List.mem_filter, decide_eq_true_iff]
    exact and_iff_left hx
  | session id =>
    refine onlyAt_setRegistries (fun x hx => .rfl) fun x hx => ?_
    show x ∈ s.registries.sessions.filter _ ↔ _
    rw [List.mem_filter, decide_eq_true_iff]
    exact and_iff_left hx

theorem onlyAt_insertSink (s : Shells) (id : SessionId) :
    OnlyAt id s (s.setRegistries (s.registries.insertSink id)) := by
  refine onlyAt_setRegistries (fun x hx => ?_) fun x hx => .rfl
  show x ∈ s.registries.sinks.insert id ↔ _
  rw [List.mem_insert_iff, or_iff_right hx]

theorem onlyAt_insertSession (s : Shells) (id : SessionId) :
    OnlyAt id s (s.setRegistries (s.registries.insertSession id)) := by
  refine onlyAt_setRegistries (fun x hx => .rfl) fun x hx => ?_
  show x ∈ s.registries.sessions.insert id ↔ _
  rw [List.mem_insert_iff, or_iff_right hx]

theorem awaited_congr (h : s'.lock = s.lock) : s'.awaited = s.awaited := by
  unfold awaited
  rw [h]

/-- A session that the step is not about is as sound as before. -/
theorem sound_of_onlyAt (h : OnlyAt id s s') {x : SessionId} (hx : x ≠ id) (hs : s.SoundAt x) :
    s'.SoundAt x := by
  unfold SoundAt
  rw [h.held x hx, h.sinks x hx, h.sessions x hx, h.markers x hx, awaited_congr h.lock,
    h.spawn x hx, h.exit x hx]
  exact hs

/-- What an audit knows stays right if the session is not taken up or forgotten, and its
exit enters no window while the audit has the lock. -/
theorem auditSound_of_onlyAt (h : OnlyAt id s s') (hs : s.AuditSound i)
    (hheld : id ∈ s'.held → id ∈ s.held) (hborn : s.spawn id ≠ .absent → s'.spawn id ≠ .absent)
    (hwindow : (s'.exit id).inWindow = true → (s.exit id).inWindow = true ∨ s.lock = .free) :
    s'.AuditSound i := by
  have hall : ∀ x, x ∈ s'.held → x ∈ s.held := fun x hx => by
    by_cases heq : x = id
    · exact heq ▸ hheld (heq ▸ hx)
    · exact (h.held x heq).mp hx
  have hspawn : ∀ x, s.spawn x ≠ .absent → s'.spawn x ≠ .absent := fun x hx => by
    by_cases heq : x = id
    · exact heq ▸ hborn (heq ▸ hx)
    · exact h.spawn x heq ▸ hx
  have hcovers : ∀ snapshot, s.Covers snapshot → s'.Covers snapshot := fun snapshot hcovers =>
    ⟨fun x hx => hcovers.1 x (hall x hx), fun x hx => hspawn x (hcovers.2 x hx)⟩
  constructor
  · rw [h.audit, h.lock]
    exact hs.lock
  · rw [h.audit]
    intro exiting hexiting x hx
    -- An audit that has read the exits holds the lock, so no exit enters its window.
    have hlock : s.lock ≠ .free := by
      have hholds : (s.audit i).holdsLock = true := by
        cases hstage : s.audit i <;> simp_all [AuditStage.exiting?, AuditStage.holdsLock]
      rw [hs.lock hholds]
      exact nofun
    refine hs.exiting exiting hexiting x ?_
    by_cases heq : x = id
    · subst heq
      exact (hwindow hx).resolve_right hlock
    · exact h.exit x heq ▸ hx
  · rw [h.audit]
    exact fun snapshot hmem => hcovers snapshot (hs.sessions snapshot hmem)
  · rw [h.audit]
    exact fun snapshot hmem => hcovers snapshot (hs.sinks snapshot hmem)
  · rw [h.audit]
    intro removal hmem
    obtain ⟨hlost, hborn, hleft⟩ := hs.todo removal hmem
    exact ⟨fun hin => hlost (hall _ hin), hspawn _ hborn, awaited_congr h.lock ▸ hleft⟩
  · rw [h.audit]
    exact hs.rest

/-- The invariant after a step about one session that leaves the dispatcher alone. -/
theorem agrees_at (hs : s.Agrees) (h : OnlyAt id s s') (hdisp : s'.disp = s.disp)
    (hsound : s'.SoundAt id) (hborn : s.spawn id ≠ .absent → s'.spawn id ≠ .absent)
    (hwindow : (s'.exit id).inWindow = true → (s.exit id).inWindow = true) : s'.Agrees where
  reach := hdisp ▸ hs.reach
  nodup := by
    unfold held
    rw [hdisp]
    exact hs.nodup
  asked op x hlock := by
    unfold spawns
    rw [hdisp]
    exact hs.asked op x (h.lock ▸ hlock)
  each x := by
    by_cases heq : x = id
    · exact heq ▸ hsound
    · exact sound_of_onlyAt h heq (hs.each x)
  audits i := by
    refine auditSound_of_onlyAt h (hs.audits i) (fun hheld => ?_) hborn fun hw => .inl (hwindow hw)
    unfold held at hheld ⊢
    exact hdisp ▸ hheld

theorem agrees_setSpawn {stage : SpawnStage} (hs : s.Agrees) (h : OnlyAt id s s')
    (hdisp : s'.disp = s.disp) (hexit : s'.exit id = s.exit id) (hstage : stage ≠ .absent)
    (hsound : Sound (id ∈ s'.held) (id ∈ s'.registries.sinks) (id ∈ s'.registries.sessions)
      (id ∈ s'.exitsInFlight) (s'.awaited = some id) stage (s'.exit id)) :
    (s'.setSpawn id stage).Agrees := by
  have hspawn : (s'.setSpawn id stage).spawn id = stage := Function.update_self ..
  refine agrees_at hs (onlyAt_trans h (onlyAt_setSpawn s' id stage)) hdisp ?_ (fun _ => ?_)
    fun hwindow => ?_
  · unfold SoundAt
    rw [hspawn]
    exact hsound
  · rw [hspawn]
    exact hstage
  · exact hexit ▸ hwindow

theorem agrees_setExit {stage : ExitStage} (hs : s.Agrees) (h : OnlyAt id s s')
    (hdisp : s'.disp = s.disp) (hspawn : s'.spawn id = s.spawn id)
    (hwindow : stage.inWindow = true → (s.exit id).inWindow = true)
    (hsound : Sound (id ∈ s'.held) (id ∈ s'.registries.sinks) (id ∈ s'.registries.sessions)
      (id ∈ s'.exitsInFlight) (s'.awaited = some id) (s'.spawn id) stage) :
    (s'.setExit id stage).Agrees := by
  have hexit : (s'.setExit id stage).exit id = stage := Function.update_self ..
  refine agrees_at hs (onlyAt_trans h (onlyAt_setExit s' id stage)) hdisp ?_ (fun hborn => ?_) ?_
  · unfold SoundAt
    rw [hexit]
    exact hsound
  · exact hspawn ▸ hborn
  · rw [hexit]
    exact hwindow

/-! ## Steps about a lock -/

theorem free_of_isFree (h : s.isFree = true) : s.lock = .free := by
  unfold isFree at h
  split at h
  · next hlock => exact hlock
  · cases h

theorem awaited_iff : s.awaited = some id ↔ ∃ op, s.lock = .dispatch op (.waitsFor id) := by
  unfold awaited
  split
  · next op x hlock =>
    constructor
    · rintro ⟨⟩
      exact ⟨op, hlock⟩
    · rintro ⟨op', hlock'⟩
      cases hlock.symm.trans hlock'
      rfl
  · next hnot => exact ⟨nofun, fun ⟨op, hlock⟩ => absurd hlock (hnot op id)⟩

theorem no_holder (hs : s.Agrees) (h : ∀ i, s.lock ≠ .audit i) (i : Nat) :
    (s.audit i).holdsLock = false :=
  Bool.eq_false_iff.mpr fun hholds => h i ((hs.audits i).lock hholds)

/-- The lock is taken or handed on by a thread that waits for no spawn. -/
theorem agrees_setLock {lock : Lock} (hs : s.Agrees) (hnot : ∀ i, (s.audit i).holdsLock = false)
    (hlock : ∀ op id, lock ≠ .dispatch op (.waitsFor id)) : (s.setLock lock).Agrees := by
  have hnone : ∀ id, (s.setLock lock).awaited ≠ some id := fun id h => by
    obtain ⟨op, hwaits⟩ := awaited_iff.mp h
    exact hlock op id hwaits
  refine ⟨hs.reach, hs.nodup, fun op id h => absurd h (hlock op id), fun id => ?_, fun i => ?_⟩
  · unfold SoundAt
    rw [eq_false (hnone id)]
    exact (hs.each id).giveUp
  · obtain ⟨-, hexiting, hsessions, hsinks, htodo, hrest⟩ := hs.audits i
    refine ⟨fun hholds => ?_, hexiting, hsessions, hsinks, fun removal hmem => ?_, hrest⟩
    · exact absurd (hnot i) (ne_false_of_eq_true hholds)
    · obtain ⟨hlost, hborn, -⟩ := htodo removal hmem
      exact ⟨hlost, hborn, hnone removal.id⟩

theorem dispatch_of_asksFor (h : s.asksFor id = true) :
    ∃ op, s.lock = .dispatch op .notYet ∧ s.spawns op id = true := by
  unfold asksFor at h
  split at h
  · next op hlock => exact ⟨op, hlock, h⟩
  · cases h

theorem agrees_startSpawn (hs : s.Agrees) (habsent : s.spawn id = .absent)
    (hasks : s.asksFor id = true) : (s.step (.startSpawn id)).Agrees := by
  obtain ⟨op, hlock, hspawns⟩ := dispatch_of_asksFor hasks
  have hstep : s.step (.startSpawn id) =
      (s.setSpawn id .starting).setLock (.dispatch op (.waitsFor id)) := by
    show (s.setSpawn id .starting).setWaits _ = _
    unfold setWaits
    rw [show (s.setSpawn id .starting).lock = s.lock from rfl, hlock]
  rw [hstep]
  -- The dispatch waited for no session before.
  have hnone : ∀ x, s.awaited ≠ some x := fun x h => by
    obtain ⟨op', hwaits⟩ := awaited_iff.mp h
    cases hlock.symm.trans hwaits
  have hspawn : ∀ x, s.spawn x ≠ .absent → x ≠ id := fun x hx heq => hx (heq ▸ habsent)
  have hborn : ∀ x, s.spawn x ≠ .absent → Function.update s.spawn id .starting x ≠ .absent := by
    intro x hx
    rw [Function.update_of_ne (hspawn x hx)]
    exact hx
  refine ⟨hs.reach, hs.nodup, fun op' x h => ?_, fun x => ?_, fun i => ?_⟩
  · cases h
    exact hspawns
  · have hx := hs.each x
    unfold SoundAt at hx
    rw [eq_false (hnone x)] at hx
    show Sound _ _ _ _ (some id = some x) (Function.update s.spawn id .starting x) _
    -- Only the session that is spawned is waited for now.
    by_cases heq : x = id
    · subst heq
      rw [habsent] at hx
      rw [Function.update_self, eq_true rfl]
      exact hx.startSpawn
    · rw [Function.update_of_ne heq, eq_false fun h => heq (Option.some.inj h).symm]
      exact hx
  · obtain ⟨-, hexiting, hsessions, hsinks, htodo, hrest⟩ := hs.audits i
    have hcovers : ∀ snapshot, s.Covers snapshot →
        ((s.setSpawn id .starting).setLock (.dispatch op (.waitsFor id))).Covers snapshot :=
      fun snapshot hcovers => ⟨hcovers.1, fun x hx => hborn x (hcovers.2 x hx)⟩
    refine ⟨fun hholds => ?_, hexiting, fun snapshot hmem => hcovers _ (hsessions snapshot hmem),
      fun snapshot hmem => hcovers _ (hsinks snapshot hmem), fun removal hmem => ?_, hrest⟩
    · have hnot := no_holder hs (fun i h => by cases hlock.symm.trans h) i
      exact absurd hnot (ne_false_of_eq_true hholds)
    · obtain ⟨hlost, hstage, -⟩ := htodo removal hmem
      refine ⟨hlost, hborn _ hstage, fun h => ?_⟩
      exact hspawn _ hstage (Option.some.inj h).symm

/-! ## Audits -/

theorem agrees_setAudit {stage : AuditStage} (hs : s.Agrees)
    (h : (s.setAudit i stage).AuditSound i) : (s.setAudit i stage).Agrees := by
  refine ⟨hs.reach, hs.nodup, hs.asked, hs.each, fun j => ?_⟩
  by_cases heq : j = i
  · exact heq ▸ h
  · have hother : (s.setAudit i stage).audit j = s.audit j := Function.update_of_ne heq _ _
    obtain ⟨hlock, hexiting, hsessions, hsinks, htodo, hrest⟩ := hs.audits j
    constructor <;> rw [hother]
    · exact hlock
    · exact hexiting
    · exact hsessions
    · exact hsinks
    · intro removal hmem
      obtain ⟨hlost, hborn, hleft⟩ := htodo removal hmem
      exact ⟨hlost, hborn, hleft⟩
    · exact hrest

theorem agrees_lockAudit (hs : s.Agrees) (hfree : s.lock = .free) :
    (s.step (.lockAudit i)).Agrees := by
  have hlocked : (s.setLock (.audit i)).Agrees :=
    agrees_setLock hs (no_holder hs fun j h => by cases hfree.symm.trans h) fun op id => nofun
  have hstage : ((s.setLock (.audit i)).setAudit i .locked).audit i = .locked :=
    Function.update_self ..
  refine agrees_setAudit hlocked ?_
  constructor <;> rw [hstage]
  · exact fun _ => rfl
  all_goals exact nofun

/-- A referenced session is in both registries, and what is in one of them was spawned. -/
theorem covers_registries (hs : s.Agrees) :
    s.Covers s.registries.sessions ∧ s.Covers s.registries.sinks := by
  refine ⟨⟨fun id hid => ((hs.each id).kept hid).2.1, fun id hid habsent => ?_⟩,
    ⟨fun id hid => ((hs.each id).kept hid).1, fun id hid habsent => ?_⟩⟩
  · obtain ⟨kept, -, -, session, born, -⟩ := hs.each id
    have halive : s.exit id = .alive := by_contra fun h => (born h).1 habsent
    rcases session hid with h | h | h | h
    · exact nomatch habsent.symm.trans (kept h).2.2.1
    · exact nomatch habsent.symm.trans h
    · exact nomatch habsent.symm.trans h
    · rw [halive] at h
      cases h
  · obtain ⟨kept, -, sink, -, born, -⟩ := hs.each id
    have halive : s.exit id = .alive := by_contra fun h => (born h).1 habsent
    rcases sink hid with h | h | h | h
    · exact nomatch habsent.symm.trans (kept h).2.2.1
    · exact nomatch habsent.symm.trans h
    · exact nomatch habsent.symm.trans h
    · exact nomatch halive.symm.trans h

theorem hasMarker_of_inWindow {exit : ExitStage} (h : exit.inWindow = true) :
    exit.hasMarker = true := by
  cases exit <;> first | rfl | cases h

theorem agrees_readNext (hs : s.Agrees) (i : Nat) : (s.readNext i).Agrees := by
  obtain ⟨hlock, hexiting, hsessions, -, -, -⟩ := hs.audits i
  unfold readNext
  split
  · next hstage =>
    -- a marker is set before the window opens, and the lock keeps it from opening now
    refine agrees_setAudit hs ?_
    have hnext : (s.setAudit i (.hasExits s.exitsInFlight)).audit i = .hasExits s.exitsInFlight :=
      Function.update_self ..
    constructor <;> rw [hnext]
    · exact fun _ => hlock (by rw [hstage]; rfl)
    · rintro exiting ⟨⟩ id hwindow
      exact (hs.each id).marker (hasMarker_of_inWindow hwindow)
    all_goals exact nofun
  · next exiting hstage =>
    refine agrees_setAudit hs ?_
    have hnext : (s.setAudit i (.hasSessions exiting s.registries.sessions)).audit i =
      .hasSessions exiting s.registries.sessions := Function.update_self ..
    rw [hstage] at hlock hexiting
    constructor <;> rw [hnext]
    · exact hlock
    · exact hexiting
    · rintro snapshot ⟨⟩
      exact (covers_registries hs).1
    all_goals exact nofun
  · next exiting sessions hstage =>
    refine agrees_setAudit hs ?_
    have hnext : (s.setAudit i (.hasSinks exiting sessions s.registries.sinks)).audit i =
      .hasSinks exiting sessions s.registries.sinks := Function.update_self ..
    rw [hstage] at hlock hexiting hsessions
    constructor <;> rw [hnext]
    · exact hlock
    · exact hexiting
    · exact hsessions
    · rintro snapshot ⟨⟩
      exact (covers_registries hs).2
    all_goals exact nofun
  · exact hs

/-- What is spent is in the registries only while something else will remove it. -/
theorem sound_remove {removal : Removal} (hs : s.SoundAt removal.id) (hlost : removal.id ∉ s.held)
    (hleft : s.awaited ≠ some removal.id) : (s.remove removal).SoundAt removal.id := by
  obtain ⟨kept, waited, sink, session, born, marker⟩ := hs
  refine ⟨fun h => absurd h hlost, fun h => absurd h hleft, fun h => ?_, fun h => ?_, born, marker⟩
  · refine sink ?_
    cases removal with
    | sink id => exact List.mem_of_mem_filter h
    | session id => exact h
  · refine session ?_
    cases removal with
    | sink id => exact h
    | session id => exact List.mem_of_mem_filter h

theorem agrees_releaseNext (hs : s.Agrees) (i : Nat) : (s.releaseNext i).Agrees := by
  unfold releaseNext
  split
  · next audit removal todo hstage =>
    obtain ⟨-, -, -, -, htodo, hrest⟩ := hs.audits i
    rw [hstage] at htodo
    obtain ⟨hlost, hborn, hleft⟩ := htodo removal List.mem_cons_self
    have hremoved : (s.remove removal).Agrees := agrees_at hs (onlyAt_remove s removal) rfl
      (sound_remove (hs.each _) hlost hleft) (fun h => h) fun h => h
    refine agrees_setAudit hremoved ?_
    have hnext : ((s.remove removal).setAudit i (.releasing audit todo)).audit i =
      .releasing audit todo := Function.update_self ..
    constructor <;> rw [hnext]
    iterate 4 exact nofun
    · intro r hr
      obtain ⟨hlost, hborn, hleft⟩ := htodo r (List.mem_cons_of_mem _ hr)
      exact ⟨hlost, hborn, hleft⟩
    · rintro _ _ ⟨⟩
      exact (List.suffix_cons removal todo).trans (hrest audit _ hstage)
  · exact hs

theorem mem_held_iff {model : AppState} :
    id ∈ model.held ↔ ∃ t ∈ model.tabs, t.session = some id := List.mem_filterMap

/-- An audit whose snapshots cover the referenced sessions repairs nothing. -/
theorem run_audit_covered (clock : Nat → UInt64) (exiting : List SessionId) {r : Registries}
    {d : Dispatcher} (h : ∀ id ∈ d.state.held, r.contains id = true) :
    Exec.run (auditLocked clock exiting r) d =
      (.ok ((auditRegistries d.state r).excluding exiting), d) ∧
    (auditRegistries d.state r).danglingTabs = [] := by
  have hnone : (auditRegistries d.state r).danglingTabs = [] := by
    refine List.eq_nil_iff_forall_not_mem.mpr fun e he => ?_
    obtain ⟨⟨t, ht, -, hsession⟩, hmissing⟩ := AuditLemmas.mem_dangling.mp he
    exact Bool.false_ne_true (hmissing.symm.trans (h e.2 (mem_held_iff.mpr ⟨t, ht, hsession⟩)))
  refine ⟨?_, hnone⟩
  have hrepair : Exec.run (repairTabs clock
      ((auditRegistries d.state r).excluding exiting).danglingTabs) d = (.ok (), d) := by
    show Exec.run (repairTabs clock (auditRegistries d.state r).danglingTabs) d = _
    rw [hnone]
    rfl
  exact Exec.run_bind_ok.mpr ⟨_, d, rfl, Exec.run_bind_ok.mpr ⟨(), d, hrepair, rfl⟩⟩

theorem hasSinks_of_isSome (h : (s.audit i).sinks?.isSome = true) :
    ∃ exiting sessions sinks, s.audit i = .hasSinks exiting sessions sinks := by
  cases hstage : s.audit i with
  | hasSinks exiting sessions sinks => exact ⟨exiting, sessions, sinks, rfl⟩
  | _ =>
    rw [hstage] at h
    cases h

/-- What an audit reports: no tab is dangling, and an orphan is a session that no tab
references and whose exit is not under way. -/
theorem judge_eq (hs : s.Agrees) (h : (s.audit i).sinks?.isSome = true) (clock : Nat → UInt64) :
    ∃ audit, s.judge i clock = (s.setAudit i (.releasing audit audit.removals)).setLock .free ∧
      audit.danglingTabs = [] ∧ ∀ id ∈ audit.orphans,
        id ∉ s.held ∧ (s.exit id).inWindow = false ∧ s.spawn id ≠ .absent := by
  obtain ⟨exiting, sessions, sinks, hstage⟩ := hasSinks_of_isSome h
  obtain ⟨-, hexiting, hsessions, hsinks, -, -⟩ := hs.audits i
  rw [hstage] at hexiting hsessions hsinks
  have hcovered : ∀ id ∈ s.held, Registries.contains ⟨sessions, sinks⟩ id = true := fun id hid =>
    AuditLemmas.contains_iff.mpr ⟨(hsessions _ rfl).1 id hid, (hsinks _ rfl).1 id hid⟩
  obtain ⟨hrun, hnone⟩ := run_audit_covered clock exiting hcovered
  refine ⟨(auditRegistries s.disp.state ⟨sessions, sinks⟩).excluding exiting, ?_, hnone, ?_⟩
  · unfold judge
    rw [hstage]
    dsimp only
    rw [hrun]
    rfl
  · intro id hid
    have horphan : (id ∈ sessions ∨ id ∈ sinks) ∧ id ∉ exiting ∧
        ¬ s.disp.state.Holds ⟨sessions, sinks⟩ id := by
      rcases List.mem_append.mp hid with hid | hid
      · obtain ⟨hin, hnot⟩ := List.mem_filter.mp hid
        obtain ⟨hin, hlost⟩ := AuditLemmas.mem_orphanSessions.mp hin
        exact ⟨.inl hin, of_decide_eq_true hnot, hlost⟩
      · obtain ⟨hin, hnot⟩ := List.mem_filter.mp hid
        obtain ⟨hin, hlost⟩ := AuditLemmas.mem_orphanSinks.mp hin
        exact ⟨.inr hin, of_decide_eq_true hnot, hlost⟩
    obtain ⟨hin, hnot, hlost⟩ := horphan
    refine ⟨fun hheld => hlost ⟨mem_held_iff.mp hheld, hcovered id hheld⟩, ?_, ?_⟩
    · exact Bool.eq_false_iff.mpr fun hwindow => hnot (hexiting _ rfl id hwindow)
    · exact hin.elim ((hsessions _ rfl).2 id) ((hsinks _ rfl).2 id)

theorem mem_removals {audit : RegistryAudit} {removal : Removal}
    (h : removal ∈ audit.removals) : removal.id ∈ audit.orphans := by
  obtain ⟨id, hid, h⟩ := List.mem_flatMap.mp h
  rcases List.mem_pair.mp h with rfl | rfl <;> exact hid

theorem agrees_judge (hs : s.Agrees) (h : (s.audit i).sinks?.isSome = true)
    (clock : Nat → UInt64) : (s.judge i clock).Agrees := by
  obtain ⟨audit, hjudge, -, horphans⟩ := judge_eq hs h clock
  rw [hjudge]
  have hlock : s.lock = .audit i := by
    obtain ⟨exiting, sessions, sinks, hstage⟩ := hasSinks_of_isSome h
    exact (hs.audits i).lock (by rw [hstage]; rfl)
  have hnone : ∀ x, s.awaited ≠ some x := fun x hx => by
    obtain ⟨op, hwaits⟩ := awaited_iff.mp hx
    cases hlock.symm.trans hwaits
  have hnext : (s.setAudit i (.releasing audit audit.removals)).audit i =
    .releasing audit audit.removals := Function.update_self ..
  have hjudged : (s.setAudit i (.releasing audit audit.removals)).Agrees := by
    refine agrees_setAudit hs ?_
    constructor <;> rw [hnext]
    iterate 4 exact nofun
    · intro removal hmem
      obtain ⟨hlost, -, hborn⟩ := horphans removal.id (mem_removals hmem)
      exact ⟨hlost, hborn, hnone removal.id⟩
    · rintro _ _ ⟨⟩
      exact List.suffix_rfl
  refine agrees_setLock hjudged (fun j => ?_) fun op id => nofun
  by_cases heq : j = i
  · rw [heq, hnext]
    rfl
  · have hother : (s.setAudit i (.releasing audit audit.removals)).audit j = s.audit j :=
      Function.update_of_ne heq _ _
    rw [hother]
    refine Bool.eq_false_iff.mpr fun hholds => heq ?_
    exact Lock.audit.inj (((hs.audits j).lock hholds).symm.trans hlock)

/-! ## The model update of an exit -/

/-- The end of a session takes it from its tab, and nothing else. -/
theorem held_exited {d : Dispatcher} {code : Option UInt32} {endedAtMs : UInt64}
    (hreach : Dispatcher.machine.Reach Dispatcher.Start d) (hnodup : d.state.held.Nodup)
    (ha : (Action.applyEvent (.sessionExited id code endedAtMs)).returns d = true) :
    let d' := (Action.applyEvent (.sessionExited id code endedAtMs)).step d
    d'.state.held.Nodup ∧ ∀ x, x ∈ d'.state.held ↔ x ∈ d.state.held ∧ x ≠ id := by
  obtain ⟨fresh, lost, hbalance⟩ := (Action.stepped ha).balance (legal_of_reach hreach)
  obtain rfl : fresh = none := hbalance.ended nofun
  have hlost : lost = [] := by
    obtain ⟨revision, hstep⟩ :=
      MachineLemmas.run_applyEvent (.sessionExited id code endedAtMs) d
    have hkilled := hbalance.killed
    rw [show (Action.applyEvent (.sessionExited id code endedAtMs)).step d = _ from hstep]
      at hkilled
    exact List.append_right_eq_self.mp hkilled.symm
  subst hlost
  obtain ⟨hheld, hmem⟩ := WorldLemmas.mem_held_of_balance hbalance hnodup nofun
  refine ⟨hheld, fun x => ?_⟩
  rw [hmem x]
  constructor
  · rintro ⟨⟨hx, hended⟩ | hx, -⟩
    · exact ⟨hx, fun heq => hended (heq ▸ rfl)⟩
    · cases hx
  · rintro ⟨hx, hne⟩
    exact ⟨.inl ⟨hx, fun heq => hne (Option.some.inj heq).symm⟩, List.not_mem_nil⟩

theorem agrees_updateModel {code : Option UInt32} {endedAtMs : UInt64} (hs : s.Agrees)
    (hexit : s.exit id = .marked) (hfree : s.lock = .free)
    (ha : (Action.applyEvent (.sessionExited id code endedAtMs)).returns s.disp = true) :
    (s.step (.updateModel id code endedAtMs)).Agrees := by
  obtain ⟨hnodup, hheld⟩ := held_exited hs.reach hs.nodup ha
  have hupdated : (s.step (.updateModel id code endedAtMs)).exit id = .updated :=
    Function.update_self ..
  have honly : OnlyAt id s (s.step (.updateModel id code endedAtMs)) := by
    refine ⟨rfl, rfl, fun x hx => (hheld x).trans (and_iff_left hx), fun _ _ => rfl,
      fun x hx => Function.update_of_ne hx _ _, fun _ _ => .rfl, fun _ _ => .rfl, fun _ _ => .rfl⟩
  have hgone : id ∉ (s.step (.updateModel id code endedAtMs)).held := fun hin =>
    ((hheld id).mp hin).2 rfl
  refine ⟨.step hs.reach ha, hnodup, fun op x hlock => ?_, fun x => ?_, fun i => ?_⟩
  · exact nomatch hfree.symm.trans hlock
  · by_cases heq : x = id
    · subst heq
      have hx := hs.each x
      unfold SoundAt at hx ⊢
      rw [hexit] at hx
      rw [hupdated, eq_false hgone]
      exact hx.updateModel
    · exact sound_of_onlyAt honly heq (hs.each x)
  · exact auditSound_of_onlyAt honly (hs.audits i) (fun hin => absurd hin hgone) (fun h => h)
      fun _ => .inr hfree

/-! ## The end of a dispatch -/

theorem ended_action (op : DispatchOp) (answer : Except String SessionId) :
    (op.action answer).ended = none := by
  cases op <;> rfl

theorem spawner_refused (op : DispatchOp) (message : String) (req : ShellSpawnReq)
    (session : SessionId) : (op.action (.error message)).spawner req ≠ .ok session := by
  cases op <;> exact nofun

theorem dispatch_of_finishes {message : String} (h : s.finishes message = true) :
    ∃ op waits, s.lock = .dispatch op waits ∧ s.spawnEnded waits = true ∧
      (op.action (s.answer message waits)).returns s.disp = true := by
  unfold finishes at h
  split at h
  · next op waits hlock =>
    obtain ⟨hended, hreturns⟩ := (Bool.and_eq_true _ _).mp h
    exact ⟨op, waits, hlock, hended, hreturns⟩
  · cases h

/-- A dispatch that returns adopts the session it waited for, if it is there. -/
theorem adopts {op : DispatchOp} {waits : SpawnWait} {message : String} {fresh : Option SessionId}
    (hs : s.Agrees) (hlock : s.lock = .dispatch op waits)
    (hspawned : ((op.action (s.answer message waits)).step s.disp).spawned =
      s.disp.spawned ++ fresh.toList) (x : SessionId) :
    x ∈ fresh ↔ s.awaited = some x ∧ s.spawn x = .sessionIn := by
  -- A refused spawn brings no session.
  have hrefused : s.answer message waits = .error message → fresh = none := fun hanswer => by
    rw [hanswer, Action.spawned_refused (spawner_refused op message)] at hspawned
    exact Option.toList_eq_nil_iff.mp (List.append_right_eq_self.mp hspawned.symm)
  have hawaited : s.awaited = some x ↔ waits = .waitsFor x := by
    rw [awaited_iff]
    constructor
    · rintro ⟨op', hlock'⟩
      cases hlock.symm.trans hlock'
      rfl
    · rintro rfl
      exact ⟨op, hlock⟩
  rw [hawaited]
  cases waits with
  | waitsFor id =>
    -- What is adopted is the session that is in the registries by now.
    by_cases hstage : s.spawn id = .sessionIn
    · have hanswer : s.answer message (.waitsFor id) = .ok id := if_pos hstage
      have hasked := of_decide_eq_true (hs.asked op id hlock)
      rw [hanswer] at hspawned
      rw [hspawned, List.drop_left, Option.mem_toList] at hasked
      rw [hasked, Option.mem_some_iff]
      constructor
      · rintro rfl
        exact ⟨rfl, hstage⟩
      · rintro ⟨⟨⟩, -⟩
        rfl
    · rw [hrefused (if_neg hstage)]
      constructor
      · nofun
      · rintro ⟨⟨⟩, hin⟩
        exact absurd hin hstage
  | _ =>
    rw [hrefused rfl]
    exact ⟨nofun, nofun⟩

/-- What the end of a dispatch leaves: `lost` are the sessions that it killed. -/
structure Finished (s s' : Shells) (lost : List SessionId) : Prop where
  reach : Dispatcher.machine.Reach Dispatcher.Start s'.disp
  nodup : s'.held.Nodup
  held : ∀ x, x ∈ s'.held ↔ (x ∈ s.held ∨ s.awaited = some x ∧ s.spawn x = .sessionIn) ∧ x ∉ lost
  killed : s'.disp.killed = s.disp.killed ++ lost
  lock : s'.lock = .free
  registries : s'.registries = s.registries.removeAll lost
  spawn : ∀ x, s'.spawn x = if s.awaited = some x then .over else s.spawn x
  exit : s'.exit = s.exit
  markers : s'.exitsInFlight = s.exitsInFlight
  audit : s'.audit = s.audit

theorem finished {message : String} (hs : s.Agrees) (h : s.finishes message = true) :
    ∃ lost, Finished s (s.finish message) lost := by
  obtain ⟨op, waits, hlock, -, hreturns⟩ := dispatch_of_finishes h
  obtain ⟨fresh, lost, hbalance⟩ := (Action.stepped hreturns).balance
    (legal_of_reach hs.reach)
  have hadopts := adopts hs hlock hbalance.spawned
  -- An adopted session was waited for, and no tab references such a one.
  have hnew : ∀ x ∈ fresh, x ∉ s.disp.state.held := fun x hx hheld =>
    ((hs.each x).kept hheld).2.2.2.2 ((hadopts x).mp hx).1
  obtain ⟨hnodup, hheld⟩ := WorldLemmas.mem_held_of_balance hbalance hs.nodup hnew
  refine ⟨lost, ?_⟩
  unfold finish
  rw [hlock]
  constructor
  · exact .step hs.reach hreturns
  · exact hnodup
  · intro x
    refine (hheld x).trans (and_congr_left fun _ => or_congr (and_iff_left ?_) (hadopts x))
    rw [ended_action]
    exact nofun
  · exact hbalance.killed
  · rfl
  · show s.registries.removeAll _ = _
    rw [hbalance.killed, List.drop_left]
  · exact fun x => rfl
  iterate 3 rfl

theorem agrees_finish {message : String} (hs : s.Agrees) (h : s.finishes message = true) :
    (s.finish message).Agrees := by
  obtain ⟨lost, hdone⟩ := finished hs h
  obtain ⟨op, waits, hlock, hended, -⟩ := dispatch_of_finishes h
  have hnone : ∀ x, (s.finish message).awaited ≠ some x := fun x hx => by
    obtain ⟨op, hwaits⟩ := awaited_iff.mp hx
    cases hdone.lock.symm.trans hwaits
  refine ⟨hdone.reach, hdone.nodup, fun op' x hlock' => ?_, fun x => ?_, fun i => ?_⟩
  · exact nomatch hdone.lock.symm.trans hlock'
  · have hx := hs.each x
    unfold SoundAt at hx ⊢
    rw [hdone.held, hdone.registries, AuditLemmas.mem_removeAll_sinks,
      AuditLemmas.mem_removeAll_sessions, hdone.markers, eq_false (hnone x), hdone.spawn,
      hdone.exit]
    by_cases hwaits : s.awaited = some x
    · have hstage : s.spawn x = .sessionIn ∨ s.spawn x = .over := by
        obtain ⟨op', hlock'⟩ := awaited_iff.mp hwaits
        cases hlock.symm.trans hlock'
        simpa [spawnEnded] using hended
      rw [eq_true hwaits] at hx
      rw [if_pos hwaits, eq_true hwaits, true_and]
      exact hx.adopt hstage _
    · rw [if_neg hwaits, eq_false hwaits, false_and, or_false]
      exact hx.kill _
  · -- The dispatch had the lock, so every audit is past its reads.
    have hnot := no_holder hs (fun j hj => nomatch hlock.symm.trans hj) i
    obtain ⟨-, -, -, -, htodo, hrest⟩ := hs.audits i
    constructor <;> rw [hdone.audit]
    · exact fun hholds => absurd hnot (ne_false_of_eq_true hholds)
    iterate 3
      intro read hread
      cases hstage : s.audit i <;> simp_all [AuditStage.holdsLock, AuditStage.exiting?,
        AuditStage.sessions?, AuditStage.sinks?]
    · intro removal hmem
      obtain ⟨hlost, hborn, hleft⟩ := htodo removal hmem
      refine ⟨fun hin => ?_, ?_, hnone _⟩
      · rcases ((hdone.held _).mp hin).1 with hheld | ⟨hwaits, -⟩
        · exact hlost hheld
        · exact hleft hwaits
      · rw [hdone.spawn, if_neg hleft]
        exact hborn
    · exact hrest

/-! ## Runs -/

theorem agrees_start (h : s.Start) : s.Agrees := by
  obtain ⟨disp, hstart, rfl⟩ := h
  have hledger : Ledger ⟨disp, Notes.none⟩ := WorldLemmas.start_ledger ⟨hstart, rfl⟩
  have hhost := (WorldLemmas.start_sanitized hstart).1
  have hheld : ∀ id, id ∉ disp.state.held := fun id hid => by
    have hspawned := ((hledger.live id).mp hid).1
    unfold Dispatcher.spawned at hspawned
    rw [hhost] at hspawned
    cases hspawned
  refine ⟨.init hstart, hledger.nodup, fun op id => nofun, fun id => ?_, fun i => ?_⟩
  · exact ⟨fun h => absurd h (hheld id), nofun, nofun, nofun, fun h => absurd rfl h, nofun⟩
  · exact ⟨nofun, nofun, nofun, nofun, nofun, nofun⟩

theorem sink_removed (s : Shells) (id : SessionId) :
    (id ∈ (s.remove (.sink id)).registries.sinks) = False :=
  eq_false fun hin => of_decide_eq_true (List.mem_filter.mp hin).2 rfl

theorem session_removed (s : Shells) (id : SessionId) :
    (id ∈ (s.remove (.session id)).registries.sessions) = False :=
  eq_false fun hin => of_decide_eq_true (List.mem_filter.mp hin).2 rfl

theorem agrees_passDeadline (hs : s.Agrees) (ha : s.awaited.isSome = true) :
    (s.setWaits .gaveUp).Agrees := by
  obtain ⟨id, hid⟩ := Option.isSome_iff_exists.mp ha
  obtain ⟨op, hlock⟩ := awaited_iff.mp hid
  have hgaveUp : s.setWaits .gaveUp = s.setLock (.dispatch op .gaveUp) := by
    unfold setWaits
    rw [hlock]
  rw [hgaveUp]
  exact agrees_setLock hs (no_holder hs fun i hi => nomatch hlock.symm.trans hi) fun op id => nofun

theorem agrees_step {a : Step} (hs : s.Agrees) (ha : s.admits a) : (s.step a).Agrees := by
  have hunlocked : s.isFree = true → ∀ i, (s.audit i).holdsLock = false := fun hfree =>
    no_holder hs fun i hi => nomatch (free_of_isFree hfree).symm.trans hi
  have hspawn : ∀ id stage, s.spawn id = stage → Sound (id ∈ s.held) (id ∈ s.registries.sinks)
      (id ∈ s.registries.sessions) (id ∈ s.exitsInFlight) (s.awaited = some id) stage
      (s.exit id) := fun id stage hstage => hstage ▸ hs.each id
  have hexit : ∀ id stage, s.exit id = stage → Sound (id ∈ s.held) (id ∈ s.registries.sinks)
      (id ∈ s.registries.sessions) (id ∈ s.exitsInFlight) (s.awaited = some id) (s.spawn id)
      stage := fun id stage hstage => hstage ▸ hs.each id
  -- One transition of `Sound` for each step; the rest of the session stays as it is.
  cases a with
  | lockDispatch op => exact agrees_setLock hs (hunlocked ha) fun op id => nofun
  | startSpawn id => exact agrees_startSpawn hs ha.1 ha.2
  | insertSink id =>
    refine agrees_setSpawn hs (onlyAt_insertSink s id) rfl rfl nofun ?_
    have hin : (id ∈ (s.setRegistries (s.registries.insertSink id)).registries.sinks) = True :=
      eq_true List.mem_insert_self
    rw [hin]
    exact (hspawn id _ ha).insertSink
  | insertSession id =>
    refine agrees_setSpawn hs (onlyAt_insertSession s id) rfl rfl nofun ?_
    have hin : (id ∈ (s.setRegistries (s.registries.insertSession id)).registries.sessions) =
        True := eq_true List.mem_insert_self
    rw [hin]
    exact (hspawn id _ ha).insertSession
  | rollBack id =>
    obtain ⟨hstage, halive⟩ : s.spawn id = .sinkIn ∧ s.exit id = .alive := ha
    refine agrees_setSpawn hs (onlyAt_remove s (.sink id)) rfl rfl nofun ?_
    have hid := hspawn id _ hstage
    rw [halive] at hid
    rw [sink_removed, show (s.remove (.sink id)).exit id = .alive from halive]
    exact hid.rollBack
  | passDeadline => exact agrees_passDeadline hs ha
  | finish message => exact agrees_finish hs ha
  | discardSink id =>
    refine agrees_setSpawn hs (onlyAt_remove s (.sink id)) rfl rfl nofun ?_
    rw [sink_removed]
    exact (hspawn id _ ha.1).discardSink ha.2
  | discardSession id =>
    refine agrees_setSpawn hs (onlyAt_remove s (.session id)) rfl rfl nofun ?_
    rw [session_removed]
    exact (hspawn id _ ha).discardSession
  | takeRecord id =>
    exact agrees_setExit hs (onlyAt_refl id s) rfl rfl nofun ((hexit id _ ha.1).takeRecord ha.2)
  | checkAdoption id =>
    -- The lock is free, so no dispatch waits for the session.
    have hleft : s.awaited ≠ some id := fun hwaits => by
      obtain ⟨op, hlock⟩ := awaited_iff.mp hwaits
      exact nomatch (free_of_isFree ha.2).symm.trans hlock
    exact agrees_setExit hs (onlyAt_refl id s) rfl rfl nofun
      ((hexit id _ ha.1).checkAdoption hleft)
  | enterExit id =>
    have hmarkers : ∀ x, x ≠ id → (x ∈ s.exitsInFlight.insert id ↔ x ∈ s.exitsInFlight) :=
      fun x hx => by rw [List.mem_insert_iff, or_iff_right hx]
    refine agrees_setExit hs (onlyAt_setMarkers hmarkers) rfl rfl nofun ?_
    have hin : (id ∈ (s.setMarkers (s.exitsInFlight.insert id)).exitsInFlight) = True :=
      eq_true List.mem_insert_self
    rw [hin]
    exact (hexit id _ ha).enterExit
  | updateModel id code endedAtMs =>
    exact agrees_updateModel hs ha.1 (free_of_isFree ha.2.1) ha.2.2
  | releaseSink id =>
    have hwindow : (s.exit id).inWindow = true := by
      rw [show s.exit id = .updated from ha]
      rfl
    refine agrees_setExit hs (onlyAt_remove s (.sink id)) rfl rfl (fun _ => hwindow) ?_
    rw [sink_removed]
    exact (hexit id _ ha).releaseSink
  | releaseSession id =>
    refine agrees_setExit hs (onlyAt_remove s (.session id)) rfl rfl nofun ?_
    rw [session_removed]
    exact (hexit id _ ha).releaseSession
  | dropMarker id =>
    have hmarkers : ∀ x, x ≠ id →
        (x ∈ s.exitsInFlight.filter (fun e => e ≠ id) ↔ x ∈ s.exitsInFlight) := fun x hx => by
      rw [List.mem_filter, decide_eq_true_iff, and_iff_left hx]
    refine agrees_setExit hs (onlyAt_setMarkers hmarkers) rfl rfl nofun ?_
    have hgone : (id ∈ (s.setMarkers (s.exitsInFlight.filter fun e => e ≠ id)).exitsInFlight) =
        False := eq_false fun hin => of_decide_eq_true (List.mem_filter.mp hin).2 rfl
    rw [hgone]
    exact (hexit id _ ha).dropMarker
  | lockAudit i => exact agrees_lockAudit hs (free_of_isFree ha.2)
  | readExits i | readSessions i | readSinks i => exact agrees_readNext hs i
  | judge i clock => exact agrees_judge hs ha clock
  | release i => exact agrees_releaseNext hs i

end ThreadsLemmas

open ThreadsLemmas in
theorem Shells.agrees_of_reach {s : Shells} (h : Shells.machine.Reach Shells.Start s) :
    s.Agrees :=
  h.invariant (I := fun s => s.Agrees) (fun _ => agrees_start) fun _ _ _ hs ha => agrees_step hs ha

namespace Shells

/-- The sessions that a step removes from a registry, or aims to. -/
def releases (s : Shells) : Step → List SessionId
  | .rollBack id | .discardSink id | .discardSession id | .releaseSink id | .releaseSession id =>
    [id]
  | .finish message => (s.finish message).disp.killed.drop s.disp.killed.length
  | .release i => ((s.audit i).todo.head?.map Removal.id).toList
  | _ => []

/-- All exits that began and all spawns are done. -/
def Settled (s : Shells) : Prop :=
  (∀ id, s.spawn id = .absent ∨ s.spawn id = .over) ∧ ∀ id, s.exit id = .alive ∨ s.exit id = .over

end Shells

namespace ThreadsLemmas

open Shells

variable {s : Shells}

/-- No step removes a session that a tab references. -/
theorem releases_lost {a : Step} (hs : s.Agrees) (ha : s.admits a) :
    ∀ id ∈ s.releases a, id ∉ (s.step a).held := by
  -- A referenced session has its spawn behind it and its exit before it.
  have hother : ∀ id, s.spawn id ≠ .over ∨ (s.exit id).beforeUpdate = false → id ∉ s.held := by
    intro id hnot hheld
    obtain ⟨-, -, hover, hbefore, -⟩ := (hs.each id).kept hheld
    rcases hnot with hnot | hnot
    · exact hnot hover
    · exact Bool.false_ne_true (hnot.symm.trans hbefore)
  have hstage : ∀ stage, stage ≠ .over → ∀ {id x}, s.spawn id = stage → x ∈ [id] → x ∉ s.held := by
    intro stage hne id x heq hx
    rw [List.mem_singleton.mp hx]
    exact hother id (.inl (heq ▸ hne))
  have hexit : ∀ stage, stage.beforeUpdate = false → ∀ {id x}, s.exit id = stage → x ∈ [id] →
      x ∉ s.held := by
    intro stage hafter id x heq hx
    rw [List.mem_singleton.mp hx]
    exact hother id (.inr (heq ▸ hafter))
  intro x hx
  cases a with
  | rollBack id => exact hstage .sinkIn nofun ha.1 hx
  | discardSink id => exact hstage .sessionIn nofun ha.1 hx
  | discardSession id => exact hstage .discarding nofun ha hx
  | releaseSink id => exact hexit .updated rfl ha hx
  | releaseSession id => exact hexit .sinkReleased rfl ha hx
  | finish message =>
    obtain ⟨lost, hdone⟩ := finished hs ha
    have hx : x ∈ (s.finish message).disp.killed.drop s.disp.killed.length := hx
    rw [hdone.killed, List.drop_left] at hx
    exact fun hheld => ((hdone.held x).mp hheld).2 hx
  | release i =>
    obtain ⟨removal, hfirst, rfl⟩ := Option.map_eq_some_iff.mp (Option.mem_toList.mp hx)
    have hlost := ((hs.audits i).todo removal (List.mem_of_head? hfirst)).lost
    have hheld : (s.releaseNext i).held = s.held := by
      unfold releaseNext
      split <;> rfl
    show removal.id ∉ (s.releaseNext i).held
    rw [hheld]
    exact hlost
  | _ => cases hx

theorem settled_registries (hs : s.Agrees) (h : s.Settled) (id : SessionId) :
    (id ∈ s.registries.sessions ↔ id ∈ s.held) ∧ (id ∈ s.registries.sinks ↔ id ∈ s.held) := by
  obtain ⟨kept, -, sink, session, -, -⟩ := hs.each id
  refine ⟨⟨fun hin => ?_, fun hheld => (kept hheld).2.1⟩,
    ⟨fun hin => ?_, fun hheld => (kept hheld).1⟩⟩
  · rcases h.1 id with hspawn | hspawn <;> rcases h.2 id with hexit | hexit <;>
      rw [hspawn, hexit] at session <;> simpa [ExitStage.inWindow] using session hin
  · rcases h.1 id with hspawn | hspawn <;> rcases h.2 id with hexit | hexit <;>
      rw [hspawn, hexit] at sink <;> simpa using sink hin

end ThreadsLemmas

/-! ## The agreement -/

/-- A spawn that misses its deadline: the shell is an orphan when it is there at last, and
its exit updates the model before the audit releases it. -/
def lateShellTrace : List Shells.Step :=
  [.lockDispatch (.command (.createWorkspace "w" none none (some (.terminal none)))),
    .startSpawn 7, .passDeadline, .finish "late", .insertSink 7, .insertSession 7, .lockAudit 0,
    .readExits 0, .readSessions 0, .readSinks 0, .judge 0 fun _ => 0, .takeRecord 7,
    .checkAdoption 7, .enterExit 7, .updateModel 7 none 0]

theorem ofDispatcher_new_reach :
    Shells.machine.Reach Shells.Start (.ofDispatcher .new) := .init ⟨.new, .inl rfl, rfl⟩

/-- An audit can release a session whose exit has entered its window since the judgement. -/
theorem not_spares_window : ¬ ∀ s, Shells.machine.Reach Shells.Start s → ∀ i,
    Shells.machine.admits s (.release i) → ∀ id ∈ s.releases (.release i),
      id ∈ s.registries.sinks → (s.exit id).inWindow = false := by
  intro h
  have hreach := ofDispatcher_new_reach.of_trace lateShellTrace (by decide +kernel)
  have hspared := h _ hreach 0 (by decide +kernel) 7 (by decide +kernel) (by decide +kernel)
  exact absurd hspared (by decide +kernel)

open ThreadsLemmas in
/-- In every interleaving of the threads, an audit finds no tab dangling, and what it reports as
an orphan is referenced by no tab and not between the model update and the registry release of
its exit. It releases only what it reported. A session that a tab references is in both
registries, and no release, of whatever thread, is aimed at one. Once all exits and spawns are
done, both registries have exactly the sessions that tabs reference. -/
theorem shells_agree {s : Shells} (h : Shells.machine.Reach Shells.Start s) :
    (∀ i clock, Shells.machine.admits s (.judge i clock) → ∃ audit,
      (Shells.machine.step s (.judge i clock)).audit i = .releasing audit audit.removals ∧
      audit.danglingTabs = [] ∧
      ∀ id ∈ audit.orphans, id ∉ s.held ∧ (s.exit id).inWindow = false) ∧
    (∀ i audit todo, s.audit i = .releasing audit todo →
      ∀ removal ∈ todo, removal.id ∈ audit.orphans) ∧
    (∀ a, Shells.machine.admits s a → ∀ id ∈ s.releases a, id ∉ (Shells.machine.step s a).held) ∧
    (∀ id ∈ s.held, s.registries.contains id = true) ∧
    (s.Settled → ∀ id, (id ∈ s.registries.sessions ↔ id ∈ s.held) ∧
      (id ∈ s.registries.sinks ↔ id ∈ s.held)) := by
  have hs := Shells.agrees_of_reach h
  refine ⟨fun i clock ha => ?_, fun i audit todo hstage removal hmem => ?_, fun a ha => ?_,
    fun id hheld => ?_, settled_registries hs⟩
  · obtain ⟨audit, hjudge, hnone, horphans⟩ := judge_eq hs ha clock
    refine ⟨audit, ?_, hnone, fun id hid => ⟨(horphans id hid).1, (horphans id hid).2.1⟩⟩
    show (s.judge i clock).audit i = _
    rw [hjudge]
    exact Function.update_self ..
  · exact mem_removals (((hs.audits i).rest audit todo hstage).subset hmem)
  · exact releases_lost hs ha
  · obtain ⟨hsink, hsession, -⟩ := (hs.each id).kept hheld
    exact AuditLemmas.contains_iff.mpr ⟨hsession, hsink⟩

/-- A shell that is handed over in time. -/
def adoptedShellTrace : List Shells.Step :=
  [.lockDispatch (.command (.createWorkspace "w" none none (some (.terminal none)))),
    .startSpawn 7, .insertSink 7, .insertSession 7, .finish ""]

theorem shells_agree_adopted :
    (Shells.machine.run (.ofDispatcher .new) adoptedShellTrace).registries.contains 7 = true := by
  have hreach := ofDispatcher_new_reach.of_trace adoptedShellTrace (by decide +kernel)
  exact (shells_agree hreach).2.2.2.1 7 (by decide +kernel)

end Mast
