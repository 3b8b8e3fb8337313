import Mast.Audit
import Mast.Board.Answers
import Mathlib.Logic.Function.Basic

/-!
# The threads around the registries

`audit.rs`, `sink.rs` and `host.rs`: dispatches, the threads that spawn their shells,
the exits of shells and the audits, as one machine. A step is what a thread does
under one lock, so that a run is an interleaving of them.

The lock of the dispatcher is held over several steps by a dispatch, which waits
for its spawn at most until the deadline, and by an audit, which takes three
snapshots. A run consists of calls that return, as for the dispatcher itself.
-/

namespace Mast

/-! ## The threads -/

/-- The calls that lock the dispatcher, except for exits and audits. -/
inductive DispatchOp
  | command (cmd : Command)
  | respawn (tab : TabId)
  | osc (batch : OscBatch) (nowMs : UInt64)
  | startupTimeout (session : SessionId)

/-- The call, with the answer of the host to a spawn. -/
def DispatchOp.action (answer : Except String SessionId) : DispatchOp → Action
  | command cmd => .dispatch (fun _ => answer) cmd
  | respawn tab => .respawnTab (fun _ => answer) tab
  | osc batch nowMs => .applyOsc batch nowMs
  | startupTimeout session => .applyEvent (.sessionStartupTimeout session)

/-- What a dispatch knows of its spawn. -/
inductive SpawnWait
  | notYet
  | waitsFor (id : SessionId)
  | gaveUp
deriving DecidableEq, Repr

inductive Lock
  | free
  | dispatch (op : DispatchOp) (waits : SpawnWait)
  | audit (i : Nat)

/-- `create_session`, with the discard of a late session. `over` is a session
that was handed over, rolled back or discarded. -/
inductive SpawnStage
  | absent
  | starting
  | sinkIn
  | sessionIn
  | discarding
  | over
deriving DecidableEq, Repr

/-- `on_exit`. -/
inductive ExitStage
  | alive
  | recorded
  | checked
  | marked
  | updated
  | sinkReleased
  | released
  | over
deriving DecidableEq, Repr

/-- The exit is between its model update and its registry release. -/
def ExitStage.inWindow : ExitStage → Bool
  | updated | sinkReleased => true
  | _ => false

/-- The model still has the session. -/
def ExitStage.beforeUpdate : ExitStage → Bool
  | alive | recorded | checked | marked => true
  | _ => false

/-- The marker of the exit is set. -/
def ExitStage.hasMarker : ExitStage → Bool
  | marked | updated | sinkReleased | released => true
  | _ => false

/-- A removal from one registry. -/
inductive Removal
  | sink (id : SessionId)
  | session (id : SessionId)
deriving DecidableEq, Repr

def Removal.id : Removal → SessionId
  | sink id | session id => id

/-- `audit_once`, with what it has read. -/
inductive AuditStage
  | idle
  | locked
  | hasExits (exiting : List SessionId)
  | hasSessions (exiting sessions : List SessionId)
  | hasSinks (exiting sessions sinks : List SessionId)
  | releasing (audit : RegistryAudit) (todo : List Removal)
deriving DecidableEq, Repr

namespace AuditStage

/-- The audit holds the lock of the dispatcher. -/
def holdsLock : AuditStage → Bool
  | idle | releasing .. => false
  | _ => true

def exiting? : AuditStage → Option (List SessionId)
  | hasExits exiting | hasSessions exiting _ | hasSinks exiting _ _ => some exiting
  | _ => none

def sessions? : AuditStage → Option (List SessionId)
  | hasSessions _ sessions | hasSinks _ sessions _ => some sessions
  | _ => none

def sinks? : AuditStage → Option (List SessionId)
  | hasSinks _ _ sinks => some sinks
  | _ => none

def todo : AuditStage → List Removal
  | releasing _ todo => todo
  | _ => []

end AuditStage

namespace Registries

def insertSink (r : Registries) (id : SessionId) : Registries :=
  { r with sinks := r.sinks.insert id }

def insertSession (r : Registries) (id : SessionId) : Registries :=
  { r with sessions := r.sessions.insert id }

def apply (r : Registries) : Removal → Registries
  | .sink id => { r with sinks := r.sinks.filter fun s => s ≠ id }
  | .session id => { r with sessions := r.sessions.filter fun s => s ≠ id }

end Registries

/-- The releases of an audit, in their order. -/
def RegistryAudit.removals (a : RegistryAudit) : List Removal :=
  a.orphans.flatMap fun id => [.sink id, .session id]

/-! ## The machine -/

/-- The state that the threads share, and where each of them is. -/
structure Shells where
  disp : Dispatcher
  lock : Lock
  registries : Registries
  exitsInFlight : List SessionId
  spawn : SessionId → SpawnStage
  exit : SessionId → ExitStage
  audit : Nat → AuditStage

namespace Shells

inductive Step
  | lockDispatch (op : DispatchOp)
  | startSpawn (id : SessionId)
  | insertSink (id : SessionId)
  | insertSession (id : SessionId)
  | rollBack (id : SessionId)
  | passDeadline
  | finish (message : String)
  | discardSink (id : SessionId)
  | discardSession (id : SessionId)
  | takeRecord (id : SessionId)
  | checkAdoption (id : SessionId)
  | enterExit (id : SessionId)
  | updateModel (id : SessionId) (code : Option UInt32) (endedAtMs : UInt64)
  | releaseSink (id : SessionId)
  | releaseSession (id : SessionId)
  | dropMarker (id : SessionId)
  | lockAudit (i : Nat)
  | readExits (i : Nat)
  | readSessions (i : Nat)
  | readSinks (i : Nat)
  | judge (i : Nat) (clock : Nat → UInt64)
  | release (i : Nat)

variable (s : Shells)

def held : List SessionId := s.disp.state.held

def isFree : Bool :=
  match s.lock with
  | .free => true
  | _ => false

/-- The session that a dispatch waits for. -/
def awaited : Option SessionId :=
  match s.lock with
  | .dispatch _ (.waitsFor id) => some id
  | _ => none

/-- The call spawns a shell: it takes the session if the host returns it. -/
def spawns (op : DispatchOp) (id : SessionId) : Bool :=
  id ∈ ((op.action (.ok id)).step s.disp).spawned.drop s.disp.spawned.length

/-- The dispatch asks for a shell, and has not done so before. -/
def asksFor (id : SessionId) : Bool :=
  match s.lock with
  | .dispatch op .notYet => s.spawns op id
  | _ => false

/-- The spawn that a dispatch waited for has ended. -/
def spawnEnded : SpawnWait → Bool
  | .waitsFor id => s.spawn id = .sessionIn || s.spawn id = .over
  | _ => true

/-- What the dispatch gets for its spawn. -/
def answer (message : String) : SpawnWait → Except String SessionId
  | .waitsFor id => if s.spawn id = .sessionIn then .ok id else .error message
  | _ => .error message

/-- The dispatch has its answer, and returns with it. -/
def finishes (message : String) : Bool :=
  match s.lock with
  | .dispatch op waits =>
    s.spawnEnded waits && (op.action (s.answer message waits)).returns s.disp
  | _ => false

def setSpawn (id : SessionId) (stage : SpawnStage) : Shells :=
  { s with spawn := Function.update s.spawn id stage }

def setExit (id : SessionId) (stage : ExitStage) : Shells :=
  { s with exit := Function.update s.exit id stage }

def setAudit (i : Nat) (stage : AuditStage) : Shells :=
  { s with audit := Function.update s.audit i stage }

def setRegistries (registries : Registries) : Shells := { s with registries }

def setMarkers (exitsInFlight : List SessionId) : Shells := { s with exitsInFlight }

def setLock (lock : Lock) : Shells := { s with lock }

def remove (removal : Removal) : Shells := s.setRegistries (s.registries.apply removal)

def setWaits (waits : SpawnWait) : Shells :=
  match s.lock with
  | .dispatch op _ => s.setLock (.dispatch op waits)
  | _ => s

/-- The end of a dispatch: the call is done, with its kills. -/
def finish (message : String) : Shells :=
  match s.lock with
  | .dispatch op waits =>
    let disp := (op.action (s.answer message waits)).step s.disp
    { s with
      disp
      lock := .free
      registries := s.registries.removeAll (disp.killed.drop s.disp.killed.length)
      spawn := fun id => if s.awaited = some id then .over else s.spawn id }
  | _ => s

/-- The judgement of an audit and its repairs, at the end of its lock. -/
def judge (i : Nat) (clock : Nat → UInt64) : Shells :=
  match s.audit i with
  | .hasSinks exiting sessions sinks =>
    let judged := Exec.run (auditLocked clock exiting ⟨sessions, sinks⟩) s.disp
    match judged.1 with
    | .ok audit =>
      { s with
        disp := judged.2
        lock := .free
        audit := Function.update s.audit i (.releasing audit audit.removals) }
    | .error _ => s
  | _ => s

/-- The snapshot that an audit takes next. -/
def readNext (i : Nat) : Shells :=
  match s.audit i with
  | .locked => s.setAudit i (.hasExits s.exitsInFlight)
  | .hasExits exiting => s.setAudit i (.hasSessions exiting s.registries.sessions)
  | .hasSessions exiting sessions => s.setAudit i (.hasSinks exiting sessions s.registries.sinks)
  | _ => s

/-- The next release of an audit. -/
def releaseNext (i : Nat) : Shells :=
  match s.audit i with
  | .releasing audit (removal :: todo) => (s.remove removal).setAudit i (.releasing audit todo)
  | _ => s

def step : Step → Shells
  | .lockDispatch op => s.setLock (.dispatch op .notYet)
  | .startSpawn id => (s.setSpawn id .starting).setWaits (.waitsFor id)
  | .insertSink id => (s.setRegistries (s.registries.insertSink id)).setSpawn id .sinkIn
  | .insertSession id => (s.setRegistries (s.registries.insertSession id)).setSpawn id .sessionIn
  | .rollBack id => (s.remove (.sink id)).setSpawn id .over
  | .passDeadline => s.setWaits .gaveUp
  | .finish message => s.finish message
  | .discardSink id => (s.remove (.sink id)).setSpawn id .discarding
  | .discardSession id => (s.remove (.session id)).setSpawn id .over
  | .takeRecord id => s.setExit id .recorded
  | .checkAdoption id => s.setExit id .checked
  | .enterExit id => (s.setMarkers (s.exitsInFlight.insert id)).setExit id .marked
  | .updateModel id code endedAtMs =>
    { s with disp := (Action.applyEvent (.sessionExited id code endedAtMs)).step s.disp }.setExit id
      .updated
  | .releaseSink id => (s.remove (.sink id)).setExit id .sinkReleased
  | .releaseSession id => (s.remove (.session id)).setExit id .released
  | .dropMarker id => (s.setMarkers (s.exitsInFlight.filter fun e => e ≠ id)).setExit id .over
  | .lockAudit i => (s.setLock (.audit i)).setAudit i .locked
  | .readExits i | .readSessions i | .readSinks i => s.readNext i
  | .judge i clock => s.judge i clock
  | .release i => s.releaseNext i

/-- When a thread can take its step. -/
def admits : Step → Prop
  | .lockDispatch _ => s.isFree = true
  | .startSpawn id => s.spawn id = .absent ∧ s.asksFor id = true
  | .insertSink id => s.spawn id = .starting
  | .insertSession id => s.spawn id = .sinkIn
  | .rollBack id => s.spawn id = .sinkIn ∧ s.exit id = .alive
  | .passDeadline => s.awaited.isSome = true
  | .finish message => s.finishes message = true
  | .discardSink id => s.spawn id = .sessionIn ∧ s.awaited ≠ some id
  | .discardSession id => s.spawn id = .discarding
  | .takeRecord id => s.exit id = .alive ∧ s.spawn id ≠ .absent ∧ s.spawn id ≠ .starting
  | .checkAdoption id => s.exit id = .recorded ∧ s.isFree = true
  | .enterExit id => s.exit id = .checked
  | .updateModel id code endedAtMs => s.exit id = .marked ∧ s.isFree = true ∧
    (Action.applyEvent (.sessionExited id code endedAtMs)).returns s.disp = true
  | .releaseSink id => s.exit id = .updated
  | .releaseSession id => s.exit id = .sinkReleased
  | .dropMarker id => s.exit id = .released
  | .lockAudit i => s.audit i = .idle ∧ s.isFree = true
  | .readExits i => s.audit i = .locked
  | .readSessions i => (s.audit i).exiting?.isSome = true ∧ (s.audit i).sessions? = none
  | .readSinks i => (s.audit i).sessions?.isSome = true ∧ (s.audit i).sinks? = none
  | .judge i _ => (s.audit i).sinks?.isSome = true
  | .release i => (s.audit i).todo ≠ []

instance : ∀ a, Decidable (s.admits a)
  | .lockDispatch _ => inferInstanceAs (Decidable (_ = _))
  | .startSpawn _ => inferInstanceAs (Decidable (_ ∧ _))
  | .insertSink _ => inferInstanceAs (Decidable (_ = _))
  | .insertSession _ => inferInstanceAs (Decidable (_ = _))
  | .rollBack _ => inferInstanceAs (Decidable (_ ∧ _))
  | .passDeadline => inferInstanceAs (Decidable (_ = _))
  | .finish _ => inferInstanceAs (Decidable (_ = _))
  | .discardSink _ => inferInstanceAs (Decidable (_ ∧ _))
  | .discardSession _ => inferInstanceAs (Decidable (_ = _))
  | .takeRecord _ => inferInstanceAs (Decidable (_ ∧ _ ∧ _))
  | .checkAdoption _ => inferInstanceAs (Decidable (_ ∧ _))
  | .enterExit _ => inferInstanceAs (Decidable (_ = _))
  | .updateModel .. => inferInstanceAs (Decidable (_ ∧ _ ∧ _))
  | .releaseSink _ => inferInstanceAs (Decidable (_ = _))
  | .releaseSession _ => inferInstanceAs (Decidable (_ = _))
  | .dropMarker _ => inferInstanceAs (Decidable (_ = _))
  | .lockAudit _ => inferInstanceAs (Decidable (_ ∧ _))
  | .readExits _ => inferInstanceAs (Decidable (_ = _))
  | .readSessions _ => inferInstanceAs (Decidable (_ ∧ _))
  | .readSinks _ => inferInstanceAs (Decidable (_ ∧ _))
  | .judge .. => inferInstanceAs (Decidable (_ = _))
  | .release _ => inferInstanceAs (Decidable (¬ _ = _))

/-- No thread has done anything yet. -/
def ofDispatcher (disp : Dispatcher) : Shells :=
  { disp, lock := .free, registries := ⟨[], []⟩, exitsInFlight := [], spawn := fun _ => .absent,
    exit := fun _ => .alive, audit := fun _ => .idle }

/-- The start of the app, with a new or a restored dispatcher. -/
def Start (s : Shells) : Prop := ∃ disp : Dispatcher, disp.Start ∧ s = ofDispatcher disp

/-- The threads as a machine. -/
def machine : Machine Shells Step where
  step := step
  admits := admits

instance (s : Shells) (a : Step) : Decidable (machine.admits s a) :=
  inferInstanceAs (Decidable (s.admits a))

end Shells

end Mast
