import Mast.Capture
import Mast.Lib.Polling
import Mathlib.Logic.Function.Basic

/-!
# The capture of a command

`capture` of `capture.rs` starts a command and polls it: whether it has exited, whether the
deadline is reached, and what its two pipes hold. The command and its descendants go on meanwhile;
what the system answers is up to it. A command that writes too much, or runs too long, is stopped.

Results:
1. `stopProcess_ok`: a stop that succeeds has reaped the command.
2. `Paced`: a turn that brings nothing sleeps.
3. `capture_returns`: a capture ends, and what it returns.
-/

namespace Mast

/-- `POLL_INTERVAL`, in nanoseconds, as all times here are. -/
def pollInterval : Nat := 10 * 1000 * 1000

structure CaptureLimits where
  stdoutBytes : Nat
  stderrBytes : Nat
  timeout : Nat
deriving DecidableEq, Repr

/-- A signal leaves no code. `text` is how the status is printed. -/
structure ExitStatus where
  code : Option Int
  text : String
deriving DecidableEq, Repr

def ExitStatus.success (s : ExitStatus) : Bool := s.code == some 0

structure CapturedOutput where
  status : Option ExitStatus
  stdout : List UInt8
  stderr : List UInt8
  stdoutTruncated : Bool
  stderrTruncated : Bool
  timedOut : Bool
deriving DecidableEq, Repr

inductive Side
  | stdout
  | stderr
deriving DecidableEq, Repr

def CapturedOutput.bytes (output : CapturedOutput) : Side → List UInt8
  | .stdout => output.stdout
  | .stderr => output.stderr

def CapturedOutput.truncated (output : CapturedOutput) : Side → Bool
  | .stdout => output.stdoutTruncated
  | .stderr => output.stderrTruncated

def Side.name : Side → String
  | .stdout => "stdout"
  | .stderr => "stderr"

def CaptureLimits.cap (limits : CaptureLimits) : Side → Nat
  | .stdout => limits.stdoutBytes
  | .stderr => limits.stderrBytes

/-! ## Stopping a command -/

inductive KillAnswer
  | killed
  | notFound
  | failed (error : String)
deriving DecidableEq, Repr

/-- What the system answers while a command is stopped. -/
structure StopAnswers where
  killProcessGroup : Except String Bool
  kill : KillAnswer
  tryWait : Except String (Option ExitStatus)
  wait : Except String ExitStatus

/-- The last part: the command is waited for, unless its status is known. -/
def reap (wait : Except String ExitStatus) (status : Option ExitStatus) (errors : List String) :
    Except String Unit × Option ExitStatus :=
  let (status, errors) :=
    match status, wait with
    | some exit, _ => (some exit, errors)
    | none, .ok exit => (some exit, errors)
    | none, .error error => (none, errors ++ ["cannot reap stopped capture command: " ++ error])
  (if errors = [] then .ok () else .error ("; ".intercalate errors), status)

def stopProcess (os : StopAnswers) (status : Option ExitStatus) :
    Except String Unit × Option ExitStatus :=
  let (groupKilled, errors) :=
    match os.killProcessGroup with
    | .ok killed => (killed, [])
    | .error error => (false, ["cannot kill capture process group: " ++ error])
  match status with
  | some _ => reap os.wait status errors
  | none =>
    let (childKilled, errors) :=
      match os.kill with
      | .killed => (true, errors)
      | .notFound => (false, errors)
      | .failed error => (false, errors ++ ["cannot kill capture command: " ++ error])
    if !groupKilled && !childKilled then
      match os.tryWait with
      | .ok (some exit) => reap os.wait (some exit) errors
      | .ok none =>
        (.error (if errors = [] then "capture command could not be stopped"
          else "; ".intercalate errors), none)
      | .error error =>
        (.error ("; ".intercalate errors ++
          "; cannot poll capture command after stop failure: " ++ error), none)
    else reap os.wait none errors

/-- The error text, and the status if the command was reaped. -/
def cleanupError (os : StopAnswers) (status : Option ExitStatus) (message : String) :
    String × Option ExitStatus :=
  match stopProcess os status with
  | (.ok (), status) => (message, status)
  | (.error cleanup, status) => (message ++ "; cleanup failed: " ++ cleanup, status)

/-! ## The loop -/

/-- Where the capture is. -/
inductive Place
  | setup
  | poll
  | clock
  | drain (side : Side) (deadlineReached progress : Bool)
  | last (deadlineReached progress : Bool)
  | asleep (till : Nat)
  | returned (result : Except String CapturedOutput)

structure CaptureStream where
  state : StreamState Pipe
  closed : Bool

/-- `now` is the time since the start; `exit` is what the command exited with. `turns`, `checked`,
the time of the last look at the deadline, `reaped` and `refused`, a stop that failed, are only
spoken about. -/
structure CaptureRun where
  now : Nat
  exit : Option ExitStatus
  streams : Side → CaptureStream
  status : Option ExitStatus
  stopped : Bool
  timedOut : Bool
  place : Place
  turns : Nat
  checked : Nat
  spawned : Bool
  reaped : Bool
  refused : Bool

namespace CaptureRun

def new : CaptureRun where
  now := 0
  exit := none
  streams _ := ⟨.new ⟨[], 0⟩, false⟩
  status := none
  stopped := false
  timedOut := false
  place := .setup
  turns := 0
  checked := 0
  spawned := false
  reaped := false
  refused := false

/-- The command writes to its pipes, lets go of them and exits, and time passes. -/
inductive Action
  | write (side : Side) (bytes : List UInt8)
  | close (side : Side)
  | exit (status : ExitStatus)
  | tick (ns : Nat)
  | start (spawn : Except String Unit) (pipes : Side → Bool) (prepared : Side → Except String Unit)
      (os : StopAnswers)
  | tryWait (answer : Except String (Option ExitStatus)) (os : StopAnswers)
  | clock (os : StopAnswers)
  | drain (outcome : Except String ReadOutcome) (reserve : Except String Unit) (os : StopAnswers)
  | last
  | wake

def output (c : CaptureRun) : CapturedOutput where
  status := c.status
  stdout := (c.streams .stdout).state.bytes
  stderr := (c.streams .stderr).state.bytes
  stdoutTruncated := (c.streams .stdout).state.truncated
  stderrTruncated := (c.streams .stderr).state.truncated
  timedOut := c.timedOut

/-- What a stop leaves: the command has exited if it was reaped. -/
def withStatus (c : CaptureRun) (status : Option ExitStatus) : CaptureRun :=
  { c with status, exit := c.exit.or status, reaped := c.reaped || status.isSome }

/-- `stop_process(..)?`, and then the given rest; nothing is stopped twice. -/
def stop (c : CaptureRun) (os : StopAnswers) (place : Place) : CaptureRun :=
  if c.stopped then { c with place }
  else
    match stopProcess os c.status with
    | (.ok (), status) => { c.withStatus status with stopped := true, place }
    | (.error error, status) =>
      { c.withStatus status with refused := true, place := .returned (.error error) }

/-- `return Err(cleanup_error(..))` -/
def cleanup (c : CaptureRun) (os : StopAnswers) (message : String) : CaptureRun :=
  let (error, status) := cleanupError os c.status message
  { c.withStatus status with
    refused := c.refused || decide ((stopProcess os c.status).1 ≠ .ok ())
    place := .returned (.error error) }

/-- The pipes are taken, and then prepared. -/
def setupPipes (pipes : Side → Bool) (prepared : Side → Except String Unit) :
    Except String Unit :=
  if !pipes .stdout then .error "capture command did not provide stdout pipe"
  else if !pipes .stderr then .error "capture command did not provide stderr pipe"
  else
    match prepared .stdout with
    | .error error => .error ("cannot prepare stdout pipe for capture: " ++ error)
    | .ok () =>
      match prepared .stderr with
      | .error error => .error ("cannot prepare stderr pipe for capture: " ++ error)
      | .ok () => .ok ()

def start (c : CaptureRun) (spawn : Except String Unit) (pipes : Side → Bool)
    (prepared : Side → Except String Unit) (os : StopAnswers) : CaptureRun :=
  match c.place with
  | .setup =>
    match spawn with
    | .error error =>
      { c with place := .returned (.error ("cannot spawn capture command: " ++ error)) }
    | .ok () =>
      let c := { c with spawned := true }
      match setupPipes pipes prepared with
      | .error message => c.cleanup os message
      | .ok () => { c with place := .poll }
  | _ => c

/-- The top of a turn. -/
def tryWait (c : CaptureRun) (answer : Except String (Option ExitStatus)) (os : StopAnswers) :
    CaptureRun :=
  match c.place with
  | .poll =>
    let c := { c with turns := c.turns + 1 }
    match c.status with
    | some _ => { c with place := .clock }
    | none =>
      match answer with
      | .ok exit => { c.withStatus exit with place := .clock }
      | .error error => c.cleanup os ("cannot poll capture command: " ++ error)
  | _ => c

def clock (limits : CaptureLimits) (c : CaptureRun) (os : StopAnswers) : CaptureRun :=
  match c.place with
  | .clock =>
    let c := { c with checked := c.now }
    if limits.timeout ≤ c.now then { c with timedOut := true }.stop os (.drain .stdout true false)
    else { c with place := .drain .stdout false false }
  | _ => c

/-- Where a turn goes on behind a drain. -/
def next (side : Side) (deadlineReached progress : Bool) : Place :=
  match side with
  | .stdout => .drain .stderr deadlineReached progress
  | .stderr => .last deadlineReached progress

def drain (limits : CaptureLimits) (c : CaptureRun) (outcome : Except String ReadOutcome)
    (reserve : Except String Unit) (os : StopAnswers) : CaptureRun :=
  match c.place with
  | .drain side deadlineReached progress =>
    let stream := c.streams side
    if !stream.state.active then { c with place := next side deadlineReached progress }
    else
      match stream.state.drain (Pipe.readAvailable outcome) reserve (limits.cap side) with
      | (.error error, _) =>
        c.cleanup os ("cannot read capture " ++ side.name ++ ": " ++ error)
      | (.ok drained, state) =>
        let c := { c with streams := Function.update c.streams side { stream with state } }
        match drained with
        | .overflow => c.stop os (next side deadlineReached true)
        | .progress => { c with place := next side deadlineReached true }
        | .noData | .eof => { c with place := next side deadlineReached progress }
  | _ => c

/-- The end of a turn. -/
def last (limits : CaptureLimits) (c : CaptureRun) : CaptureRun :=
  match c.place with
  | .last deadlineReached progress =>
    if c.status.isSome ∧ (c.streams .stdout).state.active = false ∧
        (c.streams .stderr).state.active = false ∨ deadlineReached = true then
      { c with place := .returned (.ok c.output) }
    else if progress then { c with place := .poll }
    else
      let left := limits.timeout - c.now
      if left = 0 then { c with place := .poll }
      else { c with place := .asleep (c.now + min left pollInterval) }
  | _ => c

def wake (c : CaptureRun) : CaptureRun :=
  match c.place with
  | .asleep _ => { c with place := .poll }
  | _ => c

/-- The command writes to a pipe. -/
def write (c : CaptureRun) (side : Side) (bytes : List UInt8) : CaptureRun :=
  let stream := c.streams side
  { c with
    streams := Function.update c.streams side
      { stream with state.pipe.data := stream.state.pipe.data ++ bytes } }

def close (c : CaptureRun) (side : Side) : CaptureRun :=
  { c with
    streams := Function.update c.streams side { c.streams side with closed := true } }

def step (limits : CaptureLimits) (c : CaptureRun) : Action → CaptureRun
  | .write side bytes => c.write side bytes
  | .close side => c.close side
  | .exit status => { c with exit := c.exit.or (some status) }
  | .tick ns => { c with now := c.now + ns }
  | .start spawn pipes prepared os => c.start spawn pipes prepared os
  | .tryWait answer os => c.tryWait answer os
  | .clock os => c.clock limits os
  | .drain outcome reserve os => c.drain limits outcome reserve os
  | .last => c.last limits
  | .wake => c.wake

/-- The command exits once. -/
def Agrees (c : CaptureRun) (os : StopAnswers) : Prop :=
  ∀ status, os.tryWait = .ok (some status) ∨ os.wait = .ok status →
    c.exit = none ∨ c.exit = some status

/-- A pipe gives what there is, and its end behind all that was written. -/
def Answers (limits : CaptureLimits) (c : CaptureRun) (side : Side) :
    Except String ReadOutcome → Prop
  | .ok (.bytes read) => 0 < read ∧
      read ≤ (c.streams side).state.requested (limits.cap side) ∧
      (c.streams side).state.pipe.taken + read ≤ (c.streams side).state.pipe.data.length
  | .ok .eof => (c.streams side).closed = true ∧
      (c.streams side).state.pipe.taken = (c.streams side).state.pipe.data.length
  | _ => True

/-- Nothing is written to a pipe that was let go of. A sleep is no shorter than asked for. -/
def admits (limits : CaptureLimits) (c : CaptureRun) : Action → Prop
  | .write side _ => (c.streams side).closed = false
  | .start _ _ _ os | .clock os => c.Agrees os
  | .tryWait answer os => (∀ status, answer = .ok (some status) → c.exit = some status) ∧
      c.Agrees os
  | .drain outcome _ os => c.Agrees os ∧ ∀ side deadlineReached progress,
      c.place = .drain side deadlineReached progress → c.Answers limits side outcome
  | .wake => ∀ till, c.place = .asleep till → till ≤ c.now
  | _ => True

def machine (limits : CaptureLimits) : Machine CaptureRun Action := ⟨step limits, admits limits⟩

def Start (c : CaptureRun) : Prop := c = .new

end CaptureRun

/-! ## What holds in a run -/

/-- A status that is known stays, a new one is what the system answers, and a stop that succeeds
has one. -/
structure Reaps (os : StopAnswers) (status : Option ExitStatus)
    (result : Except String Unit × Option ExitStatus) : Prop where
  known : status.isSome = true → result.2 = status
  answered : ∀ exit, result.2 = some exit →
    status = some exit ∨ os.tryWait = .ok (some exit) ∨ os.wait = .ok exit
  reaped : result.1 = .ok () → result.2.isSome = true

/-- What is kept of a stream; its end comes behind all that was written. -/
structure CaptureStream.Inv (cap : Nat) (s : CaptureStream) : Prop where
  kept : Capture.Kept cap ⟨s.state, none⟩
  ended : s.state.eof = true → s.closed = true ∧ s.state.pipe.taken = s.state.pipe.data.length

/-- The turns of a capture, but for the last one. -/
def CaptureLimits.turns (limits : CaptureLimits) : Nat :=
  limits.stdoutBytes + 1 + (limits.stderrBytes + 1) +
    Polling.periodsLeft pollInterval limits.timeout 0

namespace CaptureRun

/-- The turns that are left at a time: one for each byte, and one for each period. -/
def allowance (limits : CaptureLimits) (c : CaptureRun) (time : Nat) : Nat :=
  limits.stdoutBytes + 1 - (c.streams .stdout).state.pipe.taken +
    (limits.stderrBytes + 1 - (c.streams .stderr).state.pipe.taken) +
      Polling.periodsLeft pollInterval limits.timeout time

/-- A command whose output was cut off, or that ran too long, is stopped. -/
def Quiet (c : CaptureRun) : Prop :=
  (c.timedOut = true ∨ ∃ side, (c.streams side).state.truncated = true) → c.stopped = true

/-- The rest of a turn. -/
structure InTurn (limits : CaptureLimits) (c : CaptureRun) (deadlineReached progress : Bool) :
    Prop where
  quiet : c.Quiet
  bounded : c.turns ≤ limits.turns + 1
  timedOut : deadlineReached = true → c.timedOut = true
  paced : deadlineReached = false → c.checked ≤ c.now ∧ c.checked < limits.timeout ∧
    c.turns + c.allowance limits c.checked + progress.toNat ≤ limits.turns + 1

/-- What holds where the capture is. A turn that brings nothing sleeps. -/
def Paced (limits : CaptureLimits) (c : CaptureRun) : Prop :=
  match c.place with
  | .setup => c.Quiet ∧ c.turns = 0 ∧ c.spawned = false
  | .poll => c.Quiet ∧ c.turns + c.allowance limits c.now ≤ limits.turns
  | .clock => c.Quiet ∧ c.turns + c.allowance limits c.now ≤ limits.turns + 1
  | .drain _ deadlineReached progress | .last deadlineReached progress =>
    c.InTurn limits deadlineReached progress
  | .asleep till => c.Quiet ∧ c.turns + c.allowance limits till ≤ limits.turns
  | .returned (.error _) => c.turns ≤ limits.turns + 1 ∧
      (c.spawned = true → c.reaped = true ∨ c.refused = true)
  | .returned (.ok output) => c.turns ≤ limits.turns + 1 ∧ c.Quiet ∧ output = c.output ∧
      c.status.isSome = true ∧
      (c.timedOut = true ∨ ∀ side, (c.streams side).state.active = false)

/-- What holds everywhere. -/
structure Core (limits : CaptureLimits) (c : CaptureRun) : Prop where
  streams : ∀ side, (c.streams side).Inv (limits.cap side)
  status : ∀ status, c.status = some status → c.exit = some status ∧ c.reaped = true
  stopped : c.stopped = true → c.status.isSome = true
  timedOut : c.timedOut = true → limits.timeout ≤ c.now

end CaptureRun

namespace CaptureLoopLemmas

open CaptureRun Polling

variable {limits : CaptureLimits} {c : CaptureRun} {os : StopAnswers} {side : Side}
  {deadlineReached progress : Bool} {place : Place} {status : Option ExitStatus}

/-! ### Stops -/

theorem reaps_reap (os : StopAnswers) (status : Option ExitStatus) (errors : List String) :
    Reaps os status (reap os.wait status errors) := by
  unfold reap
  cases status with
  | some exit => exact ⟨fun _ => rfl, fun _ h => .inl h, fun _ => rfl⟩
  | none =>
    cases hwait : os.wait with
    | ok exit =>
      refine ⟨nofun, fun e he => .inr (.inr ?_), fun _ => rfl⟩
      exact hwait.trans (congrArg Except.ok (Option.some_inj.mp he))
    | error error =>
      refine ⟨nofun, nofun, fun h => ?_⟩
      dsimp only at h
      rw [if_neg (List.append_ne_nil_of_right_ne_nil _ (List.cons_ne_nil _ _))] at h
      cases h

theorem reaps_stopProcess (os : StopAnswers) (status : Option ExitStatus) :
    Reaps os status (stopProcess os status) := by
  unfold stopProcess
  generalize (match os.killProcessGroup with
    | .ok killed => (killed, [])
    | .error error => (false, ["cannot kill capture process group: " ++ error])) = group
  obtain ⟨groupKilled, errors⟩ := group
  cases status with
  | some exit => exact reaps_reap os _ errors
  | none =>
    dsimp only
    generalize (match os.kill with
      | .killed => (true, errors)
      | .notFound => (false, errors)
      | .failed error => (false, errors ++ ["cannot kill capture command: " ++ error])) = child
    obtain ⟨childKilled, errors⟩ := child
    dsimp only
    split
    · cases htry : os.tryWait with
      | error error => exact ⟨nofun, nofun, nofun⟩
      | ok answer =>
        cases answer with
        | none => exact ⟨nofun, nofun, nofun⟩
        | some exit =>
          have h := reaps_reap os (some exit) errors
          refine ⟨nofun, fun e he => .inr ?_, h.reaped⟩
          rcases h.answered e he with hsame | hanswer
          · exact .inl (htry.trans (congrArg Except.ok hsame))
          · exact hanswer
    · exact reaps_reap os none errors

theorem Core.withStatus (h : c.Core limits) (hknown : c.status.isSome = true → status = c.status)
    (hagrees : ∀ exit, status = some exit → c.exit = none ∨ c.exit = some exit) :
    (c.withStatus status).Core limits := by
  refine ⟨h.streams, fun exit hexit => ⟨?_, ?_⟩, fun hstopped => ?_, h.timedOut⟩
  · have hsame : status = some exit := hexit
    show c.exit.or status = some exit
    rcases hagrees exit hsame with hnone | hsome
    · rw [hnone, hsame, Option.none_or]
    · rw [hsome, Option.some_or]
  · have hsame : status = some exit := hexit
    show (c.reaped || status.isSome) = true
    rw [hsame, Option.isSome_some, Bool.or_true]
  · show status.isSome = true
    have hsome := h.stopped hstopped
    rw [hknown hsome]
    exact hsome

/-- What a stop answers leaves the rest as it should be. -/
theorem Core.reaps (h : c.Core limits) (ha : c.Agrees os) :
    (c.withStatus (stopProcess os c.status).2).Core limits := by
  have hreaps := reaps_stopProcess os c.status
  refine Core.withStatus h hreaps.known fun exit hexit => ?_
  rcases hreaps.answered exit hexit with hsame | hanswer
  · exact .inr (h.status exit hsame).1
  · exact ha exit hanswer

/-- A stop that succeeds, or was made before, and one that fails. -/
theorem stop_cases (h : c.Core limits) (ha : c.Agrees os) (place : Place) :
    (∃ c' : CaptureRun, c'.Core limits ∧ c.stop os place = { c' with stopped := true, place } ∧
      c'.status.isSome = true ∧ c'.now = c.now ∧ c'.streams = c.streams ∧
      c'.timedOut = c.timedOut ∧ c'.turns = c.turns ∧ c'.checked = c.checked) ∨
    (∃ (c' : CaptureRun) (error : String), c'.Core limits ∧
      c.stop os place = { c' with refused := true, place := .returned (.error error) } ∧
      c'.turns = c.turns) := by
  unfold CaptureRun.stop
  split
  next hstopped =>
    refine .inl ⟨c, h, ?_, h.stopped hstopped, rfl, rfl, rfl, rfl, rfl⟩
    rw [← hstopped]
  next =>
    have hcore := Core.reaps h ha
    have hreaps := reaps_stopProcess os c.status
    split
    next status heq =>
      rw [heq] at hcore hreaps
      exact .inl ⟨_, hcore, rfl, hreaps.reaped rfl, rfl, rfl, rfl, rfl, rfl⟩
    next error status heq =>
      rw [heq] at hcore
      exact .inr ⟨_, error, hcore, rfl, rfl⟩

/-- The command is reaped before an error is returned, unless it cannot be stopped. -/
theorem cleanup_spec (h : c.Core limits) (ha : c.Agrees os) (message : String) :
    (c.cleanup os message).Core limits ∧ (c.cleanup os message).turns = c.turns ∧
      ∃ error, (c.cleanup os message).place = .returned (.error error) ∧
        ((c.cleanup os message).reaped = true ∨ (c.cleanup os message).refused = true) := by
  have hcore := Core.reaps h ha
  have hreaps := reaps_stopProcess os c.status
  unfold CaptureRun.cleanup cleanupError
  cases hstop : stopProcess os c.status with
  | mk result status =>
    rw [hstop] at hcore hreaps
    cases result with
    | ok _ =>
      refine ⟨⟨hcore.streams, hcore.status, hcore.stopped, hcore.timedOut⟩, rfl, _, rfl, .inl ?_⟩
      show (c.reaped || status.isSome) = true
      rw [hreaps.reaped rfl, Bool.or_true]
    | error error =>
      refine ⟨⟨hcore.streams, hcore.status, hcore.stopped, hcore.timedOut⟩, rfl, _, rfl, .inr ?_⟩
      show (c.refused || decide _) = true
      rw [decide_eq_true nofun, Bool.or_true]

/-! ### Streams -/

/-- A drain takes something out of the pipe if it says so, and only a drain that takes too much
cuts a stream off. -/
theorem drain_spec (h : (c.streams side).Inv (limits.cap side))
    (hactive : (c.streams side).state.active = true) {outcome : Except String ReadOutcome}
    (ha : c.Answers limits side outcome) {reserve : Except String Unit} {drained : DrainOutcome}
    {state : StreamState Pipe} (heq : (c.streams side).state.drain (Pipe.readAvailable outcome)
      reserve (limits.cap side) = (.ok drained, state)) :
    CaptureStream.Inv (limits.cap side) { c.streams side with state } ∧
      (c.streams side).state.pipe.taken ≤ state.pipe.taken ∧
      (drained = .progress ∨ drained = .overflow →
        (c.streams side).state.pipe.taken < state.pipe.taken) ∧
      (state.truncated = true → drained = .overflow) := by
  obtain ⟨heof, htruncated⟩ := CaptureLemmas.active_iff.mp hactive
  have hkept : Capture.Kept (limits.cap side) ⟨state, none⟩ := by
    have hadmits : Capture.admits (limits.cap side) ⟨(c.streams side).state, none⟩
        (.drain outcome reserve) := by
      cases outcome with
      | error _ => trivial
      | ok outcome =>
        cases outcome with
        | bytes read => exact fun _ => ha
        | _ => trivial
    have hdrain := CaptureLemmas.kept_drain h.kept reserve hadmits
    rw [Capture.drain] at hdrain
    dsimp only at hdrain
    rw [heq] at hdrain
    exact hdrain
  cases outcome with
  | error error => simp [StreamState.drain, hactive, Pipe.readAvailable] at heq
  | ok outcome =>
    cases outcome with
    | noData =>
      simp only [StreamState.drain, hactive, Pipe.readAvailable, Bool.not_true,
        Bool.false_eq_true, if_false, Prod.mk.injEq, Except.ok.injEq] at heq
      obtain ⟨rfl, rfl⟩ := heq
      refine ⟨⟨hkept, h.ended⟩, Nat.le_refl _, by simp, fun htrue => ?_⟩
      exact absurd (htruncated.symm.trans htrue) Bool.false_ne_true
    | eof =>
      simp only [StreamState.drain, hactive, Pipe.readAvailable, Bool.not_true,
        Bool.false_eq_true, if_false, Prod.mk.injEq, Except.ok.injEq] at heq
      obtain ⟨rfl, rfl⟩ := heq
      refine ⟨⟨hkept, fun _ => ha⟩, Nat.le_refl _, by simp, fun htrue => ?_⟩
      exact absurd (htruncated.symm.trans htrue) Bool.false_ne_true
    | bytes read =>
      obtain ⟨hpos, -, -⟩ := ha
      have hread : Pipe.readAvailable (.ok (.bytes read)) (c.streams side).state.pipe
          ((c.streams side).state.requested (limits.cap side)) = (.ok (.bytes read),
            ((c.streams side).state.pipe.data.drop (c.streams side).state.pipe.taken).take read,
            { (c.streams side).state.pipe with
              taken := (c.streams side).state.pipe.taken + read }) := rfl
      rcases CaptureLemmas.drain_bytes reserve hactive hread with ⟨error, herror⟩ | hok
      · cases heq.symm.trans herror
      · obtain ⟨hdrained, hstate⟩ := Prod.mk.inj (heq.symm.trans hok)
        subst hstate
        have htaken : (c.streams side).state.pipe.taken <
            (c.streams side).state.pipe.taken + read := Nat.lt_add_of_pos_right hpos
        refine ⟨⟨hkept, fun hend => absurd (heof.symm.trans hend) Bool.false_ne_true⟩, htaken.le,
          fun _ => htaken, fun htrue => ?_⟩
        rw [if_pos (of_decide_eq_true htrue)] at hdrained
        exact Except.ok.inj hdrained

/-! ### The allowance -/

theorem pollInterval_pos : 0 < pollInterval := by decide

theorem allowance_anti (limits : CaptureLimits) (c : CaptureRun) {time time' : Nat}
    (h : time ≤ time') : c.allowance limits time' ≤ c.allowance limits time :=
  Nat.add_le_add_left (periodsLeft_anti pollInterval_pos h) _

theorem allowance_le (limits : CaptureLimits) (c : CaptureRun) (time : Nat) :
    c.allowance limits time ≤ limits.turns :=
  Nat.add_le_add (Nat.add_le_add (Nat.sub_le _ _) (Nat.sub_le _ _))
    (periodsLeft_anti pollInterval_pos (Nat.zero_le _))

/-- The time of an allowance is what its bytes leave alone. -/
theorem allowance_sleep {c : CaptureRun} (hchecked : c.checked ≤ c.now)
    (hdeadline : c.checked < limits.timeout) :
    c.allowance limits (c.now + min (limits.timeout - c.now) pollInterval) + 1 ≤
      c.allowance limits c.checked := by
  have hsleep := periodsLeft_sleep pollInterval_pos hdeadline hchecked
  unfold CaptureRun.allowance
  rw [Nat.add_assoc]
  exact Nat.add_le_add_left hsleep _

/-- A drain of one stream. -/
def drained (c : CaptureRun) (side : Side) (state : StreamState Pipe) : CaptureRun :=
  { c with streams := Function.update c.streams side { c.streams side with state } }

theorem drained_self (state : StreamState Pipe) :
    (drained c side state).streams side = { c.streams side with state } :=
  Function.update_self ..

theorem drained_of_ne {i : Side} (h : i ≠ side) (state : StreamState Pipe) :
    (drained c side state).streams i = c.streams i :=
  Function.update_of_ne h ..

theorem allowance_drained {state : StreamState Pipe} (time : Nat)
    (hle : (c.streams side).state.pipe.taken ≤ state.pipe.taken) :
    (drained c side state).allowance limits time ≤ c.allowance limits time := by
  refine Nat.add_le_add_right ?_ _
  cases side
  · exact Nat.add_le_add_right (Nat.sub_le_sub_left hle _) _
  · exact Nat.add_le_add_left (Nat.sub_le_sub_left hle _) _

/-- What is taken out of a pipe is taken from the allowance. -/
theorem allowance_taken {state : StreamState Pipe} (time : Nat)
    (hlt : (c.streams side).state.pipe.taken < state.pipe.taken)
    (hbounded : state.pipe.taken ≤ limits.cap side + 1) :
    (drained c side state).allowance limits time + 1 ≤ c.allowance limits time := by
  have hone : limits.cap side + 1 - state.pipe.taken + 1 ≤
      limits.cap side + 1 - (c.streams side).state.pipe.taken := by omega
  unfold CaptureRun.allowance drained
  cases side with
  | stdout =>
    simp only [Function.update_self, CaptureLimits.cap] at hone ⊢
    rw [Function.update_of_ne (by decide)]
    omega
  | stderr =>
    simp only [Function.update_self, CaptureLimits.cap] at hone ⊢
    rw [Function.update_of_ne (by decide)]
    omega

/-! ### Steps of the command -/

/-- What the loop knows of a stream. -/
def Unread (s s' : CaptureStream) : Prop :=
  s'.state.pipe.taken = s.state.pipe.taken ∧ s'.state.bytes = s.state.bytes ∧
    s'.state.eof = s.state.eof ∧ s'.state.truncated = s.state.truncated

/-- Time passes, the command exits, and more is there to be read. -/
theorem Paced.env (h : c.Paced limits) {now : Nat} {exit : Option ExitStatus}
    {streams : Side → CaptureStream} (hnow : c.now ≤ now)
    (hstreams : ∀ side, Unread (c.streams side) (streams side)) :
    Paced limits { c with now, exit, streams } := by
  have hallowance : ∀ time, ({ c with now, exit, streams } : CaptureRun).allowance limits time =
      c.allowance limits time := by
    intro time
    unfold CaptureRun.allowance
    rw [(hstreams .stdout).1, (hstreams .stderr).1]
  have hquiet : c.Quiet → ({ c with now, exit, streams } : CaptureRun).Quiet := by
    intro hquiet hcause
    refine hquiet (hcause.imp_right fun ⟨side, htruncated⟩ => ⟨side, ?_⟩)
    rwa [← (hstreams side).2.2.2]
  have houtput : ({ c with now, exit, streams } : CaptureRun).output = c.output := by
    unfold CaptureRun.output
    rw [(hstreams .stdout).2.1, (hstreams .stderr).2.1, (hstreams .stdout).2.2.2,
      (hstreams .stderr).2.2.2]
  have hactive : ∀ side, (streams side).state.active = (c.streams side).state.active := by
    intro side
    rw [StreamState.active, (hstreams side).2.2.1, (hstreams side).2.2.2, StreamState.active]
  have hturn : ∀ deadlineReached progress, c.InTurn limits deadlineReached progress →
      ({ c with now, exit, streams } : CaptureRun).InTurn limits deadlineReached progress := by
    intro deadlineReached progress hturn
    refine ⟨hquiet hturn.quiet, hturn.bounded, hturn.timedOut, fun hopen => ?_⟩
    obtain ⟨hchecked, hdeadline, hpaced⟩ := hturn.paced hopen
    exact ⟨hchecked.trans hnow, hdeadline, (hallowance c.checked).symm ▸ hpaced⟩
  have hlater : c.allowance limits now ≤ c.allowance limits c.now := allowance_anti limits c hnow
  unfold CaptureRun.Paced at h ⊢
  dsimp only
  split at h
  · exact ⟨hquiet h.1, h.2⟩
  · refine ⟨hquiet h.1, ?_⟩
    rw [hallowance]
    exact (Nat.add_le_add_left hlater _).trans h.2
  · refine ⟨hquiet h.1, ?_⟩
    rw [hallowance]
    exact (Nat.add_le_add_left hlater _).trans h.2
  · exact hturn _ _ h
  · exact hturn _ _ h
  · refine ⟨hquiet h.1, ?_⟩
    rw [hallowance]
    exact h.2
  · exact h
  · obtain ⟨hbounded, hq, hresult, hstatus, hend⟩ := h
    refine ⟨hbounded, hquiet hq, hresult.trans houtput.symm, hstatus, ?_⟩
    exact hend.imp_right fun hidle side => (hactive side).trans (hidle side)

/-- The two parts together. -/
def Sound (limits : CaptureLimits) (c : CaptureRun) : Prop := c.Core limits ∧ c.Paced limits

theorem Sound.env (h : Sound limits c) {now : Nat} {exit : Option ExitStatus}
    {streams : Side → CaptureStream} (hnow : c.now ≤ now)
    (hexit : ∀ status, c.exit = some status → exit = some status)
    (hinv : ∀ side, (streams side).Inv (limits.cap side))
    (hstreams : ∀ side, Unread (c.streams side) (streams side)) :
    Sound limits { c with now, exit, streams } := by
  refine ⟨⟨hinv, fun status hstatus => ?_, h.1.stopped, fun htimedOut => ?_⟩,
    Paced.env h.2 hnow hstreams⟩
  · obtain ⟨hexited, hreaped⟩ := h.1.status status hstatus
    exact ⟨hexit status hexited, hreaped⟩
  · exact (h.1.timedOut htimedOut).trans hnow

theorem unread_update {stream : CaptureStream} (h : Unread (c.streams side) stream) (i : Side) :
    Unread (c.streams i) (Function.update c.streams side stream i) := by
  by_cases hi : i = side
  · subst hi
    rwa [Function.update_self]
  · rw [Function.update_of_ne hi]
    exact ⟨rfl, rfl, rfl, rfl⟩

theorem inv_update (h : c.Core limits) {stream : CaptureStream}
    (hstream : stream.Inv (limits.cap side)) (i : Side) :
    (Function.update c.streams side stream i).Inv (limits.cap i) := by
  by_cases hi : i = side
  · subst hi
    rwa [Function.update_self]
  · rw [Function.update_of_ne hi]
    exact h.streams i

theorem Sound.write (h : Sound limits c) (hopen : (c.streams side).closed = false)
    (bytes : List UInt8) : Sound limits (c.write side bytes) := by
  refine Sound.env h (Nat.le_refl _) (fun _ hexit => hexit) (inv_update h.1 ⟨?_, fun heof => ?_⟩)
    (unread_update ⟨rfl, rfl, rfl, rfl⟩)
  · exact CaptureLemmas.kept_write (h.1.streams side).kept bytes
  · exact absurd (hopen.symm.trans ((h.1.streams side).ended heof).1) Bool.false_ne_true

theorem Sound.close (h : Sound limits c) : Sound limits (c.close side) := by
  refine Sound.env h (Nat.le_refl _) (fun _ hexit => hexit) (inv_update h.1 ?_)
    (unread_update ⟨rfl, rfl, rfl, rfl⟩)
  exact ⟨(h.1.streams side).kept, fun heof => ⟨rfl, ((h.1.streams side).ended heof).2⟩⟩

/-! ### Steps of the loop -/

/-- An error is returned behind a cleanup. -/
theorem Sound.cleanup (hcore : c.Core limits) (ha : c.Agrees os)
    (hbounded : c.turns ≤ limits.turns + 1) (message : String) :
    Sound limits (c.cleanup os message) := by
  obtain ⟨hcore', hturns, error, hplace, hgone⟩ := cleanup_spec hcore ha message
  refine ⟨hcore', ?_⟩
  unfold CaptureRun.Paced
  rw [hplace]
  exact ⟨hturns.trans_le hbounded, fun _ => hgone⟩

/-- A stop, and what comes behind it: the rest of a turn. -/
theorem Sound.stop (hcore : c.Core limits) (ha : c.Agrees os) {place : Place}
    (hplace : place = .drain side deadlineReached progress ∨ place = .last deadlineReached progress)
    (hbounded : c.turns ≤ limits.turns + 1) (htimedOut : deadlineReached = true → c.timedOut = true)
    (hpaced : deadlineReached = false → c.checked ≤ c.now ∧ c.checked < limits.timeout ∧
      c.turns + c.allowance limits c.checked + progress.toNat ≤ limits.turns + 1) :
    Sound limits (c.stop os place) := by
  rcases stop_cases hcore ha place with
    ⟨c', hcore', heq, hstatus, hnow, hstreams, htimedOut', hturns, hchecked⟩ |
      ⟨c', error, hcore', heq, hturns⟩
  · rw [heq]
    refine ⟨⟨hcore'.streams, hcore'.status, fun _ => hstatus, hcore'.timedOut⟩, ?_⟩
    have hturn : ({ c' with stopped := true, place } : CaptureRun).InTurn limits deadlineReached
        progress := by
      refine ⟨fun _ => rfl, hturns.trans_le hbounded, fun hreached => ?_, fun hopen => ?_⟩
      · exact htimedOut'.trans (htimedOut hreached)
      · obtain ⟨hle, hlt, hallowance⟩ := hpaced hopen
        refine ⟨?_, ?_, ?_⟩
        · show c'.checked ≤ c'.now
          rw [hchecked, hnow]
          exact hle
        · show c'.checked < limits.timeout
          rw [hchecked]
          exact hlt
        · show c'.turns + c'.allowance limits c'.checked + progress.toNat ≤ limits.turns + 1
          rw [hturns, hchecked, CaptureRun.allowance, hstreams]
          exact hallowance
    unfold CaptureRun.Paced
    rcases hplace with rfl | rfl
    · exact hturn
    · exact hturn
  · rw [heq]
    refine ⟨⟨hcore'.streams, hcore'.status, hcore'.stopped, hcore'.timedOut⟩, ?_⟩
    exact ⟨hturns.trans_le hbounded, fun _ => .inr rfl⟩

theorem Sound.start (h : Sound limits c) (ha : c.Agrees os) (spawn : Except String Unit)
    (pipes : Side → Bool) (prepared : Side → Except String Unit) :
    Sound limits (c.start spawn pipes prepared os) := by
  obtain ⟨hcore, hpaced⟩ := h
  unfold CaptureRun.start
  split
  next hplace =>
    unfold CaptureRun.Paced at hpaced
    rw [hplace] at hpaced
    obtain ⟨hquiet, hturns, hspawned⟩ := hpaced
    have hbounded : c.turns ≤ limits.turns + 1 := hturns ▸ Nat.zero_le _
    cases spawn with
    | error error =>
      refine ⟨⟨hcore.streams, hcore.status, hcore.stopped, hcore.timedOut⟩, hbounded, fun h => ?_⟩
      exact absurd (hspawned.symm.trans h) Bool.false_ne_true
    | ok _ =>
      have hcore' : ({ c with spawned := true } : CaptureRun).Core limits :=
        ⟨hcore.streams, hcore.status, hcore.stopped, hcore.timedOut⟩
      dsimp only
      split
      next message _ => exact Sound.cleanup hcore' ha hbounded message
      next =>
        refine ⟨⟨hcore.streams, hcore.status, hcore.stopped, hcore.timedOut⟩, hquiet, ?_⟩
        show c.turns + _ ≤ limits.turns
        rw [hturns, Nat.zero_add]
        exact allowance_le limits _ _
  next => exact ⟨hcore, hpaced⟩

theorem Sound.tryWait (h : Sound limits c) {answer : Except String (Option ExitStatus)}
    (hanswer : ∀ status, answer = .ok (some status) → c.exit = some status) (ha : c.Agrees os) :
    Sound limits (c.tryWait answer os) := by
  obtain ⟨hcore, hpaced⟩ := h
  unfold CaptureRun.tryWait
  split
  next hplace =>
    unfold CaptureRun.Paced at hpaced
    rw [hplace] at hpaced
    obtain ⟨hquiet, hturns⟩ := hpaced
    have hcore' : ({ c with turns := c.turns + 1 } : CaptureRun).Core limits :=
      ⟨hcore.streams, hcore.status, hcore.stopped, hcore.timedOut⟩
    have hnext : c.turns + 1 + c.allowance limits c.now ≤ limits.turns + 1 := by
      rw [Nat.add_right_comm]
      exact Nat.add_le_add_right hturns 1
    have hbounded : c.turns + 1 ≤ limits.turns + 1 := (Nat.le_add_right _ _).trans hnext
    dsimp only
    split
    next => exact ⟨⟨hcore.streams, hcore.status, hcore.stopped, hcore.timedOut⟩, hquiet, hnext⟩
    next hstatus =>
      cases answer with
      | error error => exact Sound.cleanup hcore' ha hbounded _
      | ok exit =>
        have hknown : c.status.isSome = true → exit = c.status := by
          intro hsome
          rw [hstatus] at hsome
          cases hsome
        have hwith := Core.withStatus hcore' hknown fun status hexit =>
          .inr (hanswer status (congrArg Except.ok hexit))
        exact ⟨⟨hwith.streams, hwith.status, hwith.stopped, hwith.timedOut⟩, hquiet, hnext⟩
  next => exact ⟨hcore, hpaced⟩

theorem Sound.clock (h : Sound limits c) (ha : c.Agrees os) : Sound limits (c.clock limits os) := by
  obtain ⟨hcore, hpaced⟩ := h
  unfold CaptureRun.clock
  split
  next hplace =>
    unfold CaptureRun.Paced at hpaced
    rw [hplace] at hpaced
    obtain ⟨hquiet, hturns⟩ := hpaced
    have hbounded : c.turns ≤ limits.turns + 1 := (Nat.le_add_right _ _).trans hturns
    dsimp only
    split
    next hreached =>
      have hcore' : ({ c with checked := c.now, timedOut := true } : CaptureRun).Core limits :=
        ⟨hcore.streams, hcore.status, hcore.stopped, fun _ => hreached⟩
      exact Sound.stop hcore' ha (.inl (Eq.refl (Place.drain .stdout true false))) hbounded
        (fun _ => rfl) nofun
    next hearly =>
      refine ⟨⟨hcore.streams, hcore.status, hcore.stopped, hcore.timedOut⟩, hquiet, hbounded,
        nofun, fun _ => ⟨Nat.le_refl _, Nat.lt_of_not_le hearly, ?_⟩⟩
      rw [Bool.toNat_false, Nat.add_zero]
      exact hturns
  next => exact ⟨hcore, hpaced⟩

theorem paced_next (h : c.InTurn limits deadlineReached progress) (side : Side) :
    Paced limits { c with place := next side deadlineReached progress } := by
  cases side <;> exact ⟨h.quiet, h.bounded, h.timedOut, h.paced⟩

/-- A drain in a turn. -/
theorem inTurn_drained (h : c.InTurn limits deadlineReached progress) {state : StreamState Pipe}
    {progress' : Bool} (htruncated : state.truncated = false)
    (hallowance : ∀ time, (drained c side state).allowance limits time + progress'.toNat ≤
      c.allowance limits time + progress.toNat) :
    (drained c side state).InTurn limits deadlineReached progress' := by
  refine ⟨fun hcause => ?_, h.bounded, h.timedOut, fun hopen => ?_⟩
  · refine h.quiet (hcause.imp_right fun ⟨i, hi⟩ => ⟨i, ?_⟩)
    by_cases hside : i = side
    · subst hside
      have hstate : state.truncated = true := by
        rwa [drained_self] at hi
      exact absurd (htruncated.symm.trans hstate) Bool.false_ne_true
    · rwa [drained_of_ne hside] at hi
  · obtain ⟨hchecked, hdeadline, hpaced⟩ := h.paced hopen
    refine ⟨hchecked, hdeadline, ?_⟩
    show c.turns + (drained c side state).allowance limits c.checked + progress'.toNat ≤ _
    rw [Nat.add_assoc] at hpaced ⊢
    exact (Nat.add_le_add_left (hallowance c.checked) _).trans hpaced

/-- Nothing is read of a stream that was cut off, or that ended. -/
theorem Sound.drain (h : Sound limits c) (ha : c.Agrees os)
    {outcome : Except String ReadOutcome}
    (hanswers : ∀ side deadlineReached progress, c.place = .drain side deadlineReached progress →
      c.Answers limits side outcome) (reserve : Except String Unit) :
    Sound limits (c.drain limits outcome reserve os) := by
  obtain ⟨hcore, hpaced⟩ := h
  unfold CaptureRun.drain
  split
  next side deadlineReached progress hplace =>
    have hturn : c.InTurn limits deadlineReached progress := by
      unfold CaptureRun.Paced at hpaced
      rwa [hplace] at hpaced
    dsimp only
    split
    · exact ⟨⟨hcore.streams, hcore.status, hcore.stopped, hcore.timedOut⟩, paced_next hturn side⟩
    next hactive =>
      rw [Bool.not_eq_true, Bool.not_eq_false'] at hactive
      split
      next error _ _ => exact Sound.cleanup hcore ha hturn.bounded _
      next result state heq =>
        obtain ⟨hinv, hle, hlt, htruncated⟩ :=
          drain_spec (hcore.streams side) hactive (hanswers _ _ _ hplace) heq
        have hcore' : (drained c side state).Core limits :=
          ⟨inv_update hcore hinv, hcore.status, hcore.stopped, hcore.timedOut⟩
        -- a read takes a byte at least, which pays for the turn
        have hpaid : result = .progress ∨ result = .overflow → ∀ time,
            (drained c side state).allowance limits time + 1 ≤ c.allowance limits time :=
          fun hread time => allowance_taken time (hlt hread) hinv.kept.bounded
        have hwhole : result ≠ .overflow → state.truncated = false := fun hne =>
          Bool.eq_false_iff.mpr fun htrue => hne (htruncated htrue)
        split
        next =>
          have hnext : next side deadlineReached true = .drain .stderr deadlineReached true ∨
              next side deadlineReached true = .last deadlineReached true := by
            cases side
            · exact .inl rfl
            · exact .inr rfl
          refine Sound.stop hcore' ha hnext hturn.bounded hturn.timedOut fun hopen => ?_
          obtain ⟨hchecked, hdeadline, hturns⟩ := hturn.paced hopen
          refine ⟨hchecked, hdeadline, ?_⟩
          show c.turns + (drained c side state).allowance limits c.checked + 1 ≤ _
          rw [Nat.add_assoc]
          exact (Nat.add_le_add_left (hpaid (.inr rfl) _) _).trans
            ((Nat.le_add_right _ _).trans hturns)
        next =>
          refine ⟨⟨hcore'.streams, hcore'.status, hcore'.stopped, hcore'.timedOut⟩,
            paced_next (inTurn_drained hturn (hwhole nofun) fun time => ?_) side⟩
          exact (hpaid (.inl rfl) time).trans (Nat.le_add_right _ _)
        next =>
          refine ⟨⟨hcore'.streams, hcore'.status, hcore'.stopped, hcore'.timedOut⟩,
            paced_next (inTurn_drained hturn (hwhole nofun) fun time => ?_) side⟩
          exact Nat.add_le_add_right (allowance_drained time hle) _
        next =>
          refine ⟨⟨hcore'.streams, hcore'.status, hcore'.stopped, hcore'.timedOut⟩,
            paced_next (inTurn_drained hturn (hwhole nofun) fun time => ?_) side⟩
          exact Nat.add_le_add_right (allowance_drained time hle) _
  next => exact ⟨hcore, hpaced⟩

theorem Sound.last (h : Sound limits c) : Sound limits (c.last limits) := by
  obtain ⟨hcore, hpaced⟩ := h
  unfold CaptureRun.last
  split
  next deadlineReached progress hplace =>
    have hturn : c.InTurn limits deadlineReached progress := by
      unfold CaptureRun.Paced at hpaced
      rwa [hplace] at hpaced
    have hcore' : ∀ place, ({ c with place } : CaptureRun).Core limits :=
      fun place => ⟨hcore.streams, hcore.status, hcore.stopped, hcore.timedOut⟩
    split
    next hend =>
      refine ⟨hcore' _, hturn.bounded, hturn.quiet, rfl, ?_, ?_⟩
      · rcases hend with ⟨hstatus, -, -⟩ | hreached
        · exact hstatus
        · exact hcore.stopped (hturn.quiet (.inl (hturn.timedOut hreached)))
      · rcases hend with ⟨-, hstdout, hstderr⟩ | hreached
        · exact .inr fun side => by cases side <;> assumption
        · exact .inl (hturn.timedOut hreached)
    next hgoes =>
      rw [not_or, Bool.not_eq_true] at hgoes
      obtain ⟨hchecked, hdeadline, hpaid⟩ := hturn.paced hgoes.2
      split
      next hprogress =>
        refine ⟨hcore' _, hturn.quiet, ?_⟩
        rw [hprogress, Bool.toNat_true, Nat.add_le_add_iff_right] at hpaid
        exact (Nat.add_le_add_left (allowance_anti limits c hchecked) _).trans hpaid
      next hidle =>
        have hsleep := allowance_sleep hchecked hdeadline
        rw [Bool.not_eq_true] at hidle
        rw [hidle, Bool.toNat_false, Nat.add_zero] at hpaid
        have hless : c.turns +
            c.allowance limits (c.now + min (limits.timeout - c.now) pollInterval) ≤
              limits.turns := by omega
        dsimp only
        split
        next hover =>
          rw [hover, Nat.zero_min, Nat.add_zero] at hless
          exact ⟨hcore' _, hturn.quiet, hless⟩
        next => exact ⟨hcore' _, hturn.quiet, hless⟩
  next => exact ⟨hcore, hpaced⟩

theorem Sound.wake (h : Sound limits c) (ha : ∀ till, c.place = .asleep till → till ≤ c.now) :
    Sound limits c.wake := by
  obtain ⟨hcore, hpaced⟩ := h
  unfold CaptureRun.wake
  split
  next till hplace =>
    unfold CaptureRun.Paced at hpaced
    rw [hplace] at hpaced
    refine ⟨⟨hcore.streams, hcore.status, hcore.stopped, hcore.timedOut⟩, hpaced.1, ?_⟩
    exact (Nat.add_le_add_left (allowance_anti limits c (ha till hplace)) _).trans hpaced.2
  next => exact ⟨hcore, hpaced⟩

theorem Sound.step (h : Sound limits c) {a : CaptureRun.Action} (ha : c.admits limits a) :
    Sound limits (c.step limits a) := by
  have hsame : ∀ side, Unread (c.streams side) (c.streams side) :=
    fun side => ⟨rfl, rfl, rfl, rfl⟩
  cases a with
  | write side bytes => exact Sound.write h ha bytes
  | close side => exact Sound.close h
  | exit status =>
    refine Sound.env h (Nat.le_refl _) (fun exit hexit => ?_) h.1.streams hsame
    rw [hexit, Option.some_or]
  | tick ns =>
    exact Sound.env h (Nat.le_add_right _ _) (fun _ hexit => hexit) h.1.streams hsame
  | start spawn pipes prepared os => exact Sound.start h ha spawn pipes prepared
  | tryWait answer os => exact Sound.tryWait h ha.1 ha.2
  | clock os => exact Sound.clock h ha
  | drain outcome reserve os => exact Sound.drain h ha.1 ha.2 reserve
  | last => exact Sound.last h
  | wake => exact Sound.wake h ha

theorem sound_of_reach (h : (machine limits).Reach Start c) : Sound limits c := by
  refine h.invariant (I := Sound limits) (fun c hc => ?_) fun c a _ hsound ha =>
    Sound.step hsound ha
  subst hc
  refine ⟨⟨fun side => ⟨⟨Nat.le_refl _, Nat.zero_le _, fun _ => rfl, fun _ => ?_⟩, nofun⟩, nofun,
    nofun, nofun⟩, ?_, rfl, rfl⟩
  · exact ⟨nofun, fun hlt => absurd hlt (Nat.not_lt_zero _)⟩
  · rintro (htimedOut | ⟨side, htruncated⟩)
    · cases htimedOut
    · cases htruncated

theorem turns_le (h : Sound limits c) : c.turns ≤ limits.turns + 1 := by
  have hpaced := h.2
  unfold CaptureRun.Paced at hpaced
  split at hpaced
  · rw [hpaced.2.1]
    exact Nat.zero_le _
  · exact ((Nat.le_add_right _ _).trans hpaced.2).trans (Nat.le_succ _)
  · exact (Nat.le_add_right _ _).trans hpaced.2
  · exact hpaced.bounded
  · exact hpaced.bounded
  · exact ((Nat.le_add_right _ _).trans hpaced.2).trans (Nat.le_succ _)
  · exact hpaced.1
  · exact hpaced.1

theorem bytes_output (c : CaptureRun) (side : Side) :
    c.output.bytes side = (c.streams side).state.bytes ∧
      c.output.truncated side = (c.streams side).state.truncated := by
  cases side <;> exact ⟨rfl, rfl⟩

/-- What a stream has when a capture returns. -/
theorem stream_returned (hcore : c.Core limits) (side : Side) :
    c.output.bytes side = (c.streams side).state.pipe.data.take
        (min (c.streams side).state.pipe.taken (limits.cap side)) ∧
      (c.output.truncated side = true ↔ limits.cap side < (c.streams side).state.pipe.taken) := by
  obtain ⟨hbytes, htruncated⟩ := bytes_output c side
  have hkept := (hcore.streams side).kept
  rw [hbytes, htruncated]
  exact ⟨hkept.bytes rfl, hkept.truncated rfl⟩

/-- A stream that is not cut off and has ended is whole. -/
theorem stream_whole (hcore : c.Core limits) (hidle : (c.streams side).state.active = false)
    (hwhole : c.output.truncated side = false) : (c.streams side).closed = true ∧
      c.output.bytes side = (c.streams side).state.pipe.data := by
  obtain ⟨hbytes, htruncated⟩ := stream_returned hcore side
  have heof : (c.streams side).state.eof = true := by
    rw [(bytes_output c side).2] at hwhole
    rw [StreamState.active, hwhole, Bool.not_false, Bool.and_true, Bool.not_eq_false'] at hidle
    exact hidle
  obtain ⟨hclosed, htaken⟩ := (hcore.streams side).ended heof
  have hroom : (c.streams side).state.pipe.taken ≤ limits.cap side :=
    Nat.le_of_not_lt fun hlt => by
      rw [htruncated.mpr hlt] at hwhole
      cases hwhole
  refine ⟨hclosed, ?_⟩
  rw [hbytes, Nat.min_eq_left hroom, htaken, List.take_length]

/-- An output that is returned. -/
theorem returned_ok (h : (machine limits).Reach Start c) {output : CapturedOutput}
    (hplace : c.place = .returned (.ok output)) : c.Core limits ∧ c.Quiet ∧ output = c.output ∧
      c.status.isSome = true ∧
      (c.timedOut = true ∨ ∀ side, (c.streams side).state.active = false) := by
  obtain ⟨hcore, hpaced⟩ := sound_of_reach h
  unfold CaptureRun.Paced at hpaced
  rw [hplace] at hpaced
  exact ⟨hcore, hpaced.2⟩

end CaptureLoopLemmas

open CaptureLoopLemmas in
/-- A capture takes no more turns than its limits allow, and leaves no command behind that can be
stopped. What it returns is what the command exited with and the first bytes that it wrote: all of
them, unless the output says otherwise. -/
theorem capture_returns {limits : CaptureLimits} {c : CaptureRun}
    (h : (CaptureRun.machine limits).Reach CaptureRun.Start c) :
    c.turns ≤ limits.stdoutBytes + limits.stderrBytes + limits.timeout ⌈/⌉ pollInterval + 3 ∧
    (∀ result, c.place = .returned result → c.spawned = true →
      c.reaped = true ∨ c.refused = true) ∧
    ∀ output, c.place = .returned (.ok output) →
      (∃ exit, output.status = some exit ∧ c.exit = some exit) ∧
      (output.timedOut = true → limits.timeout ≤ c.now) ∧
      ∀ side,
        output.bytes side = (c.streams side).state.pipe.data.take
          (min (c.streams side).state.pipe.taken (limits.cap side)) ∧
        (output.truncated side = true ↔ limits.cap side < (c.streams side).state.pipe.taken) ∧
        (output.truncated side = true ∨ output.timedOut = true → c.stopped = true) ∧
        (output.timedOut = false → output.truncated side = false → (c.streams side).closed = true ∧
          output.bytes side = (c.streams side).state.pipe.data) := by
  refine ⟨?_, fun result hplace hspawned => ?_, fun output hplace => ?_⟩
  · have hturns := turns_le (sound_of_reach h)
    unfold CaptureLimits.turns Polling.periodsLeft at hturns
    rw [Nat.sub_zero] at hturns
    omega
  · cases result with
    | error error =>
      obtain ⟨-, hpaced⟩ := sound_of_reach h
      unfold CaptureRun.Paced at hpaced
      rw [hplace] at hpaced
      exact hpaced.2 hspawned
    | ok output =>
      obtain ⟨hcore, -, -, hstatus, -⟩ := returned_ok h hplace
      obtain ⟨status, hstatus⟩ := Option.isSome_iff_exists.mp hstatus
      exact .inl (hcore.status status hstatus).2
  · obtain ⟨hcore, hquiet, rfl, hstatus, hend⟩ := returned_ok h hplace
    obtain ⟨status, hstatus⟩ := Option.isSome_iff_exists.mp hstatus
    refine ⟨⟨status, hstatus, (hcore.status status hstatus).1⟩, hcore.timedOut, fun side => ?_⟩
    obtain ⟨hbytes, htruncated⟩ := stream_returned hcore side
    refine ⟨hbytes, htruncated, fun hcause => ?_, fun hintime hwhole => ?_⟩
    · refine hquiet (hcause.symm.imp_right fun hcut => ⟨side, ?_⟩)
      rwa [← (bytes_output c side).2]
    · have hidle := hend.resolve_left fun hlate => Bool.false_ne_true (hintime.symm.trans hlate)
      exact stream_whole hcore (hidle side) hwhole

/-- The answers to a stop: the group is killed, and the command ends by the signal. -/
def killedGroup : StopAnswers := ⟨.ok true, .killed, .ok none, .ok ⟨none, "signal: 9"⟩⟩

/-- A command writes three bytes to a capture that keeps two, and is stopped. -/
def overflowing : List CaptureRun.Action :=
  [.start (.ok ()) (fun _ => true) (fun _ => .ok ()) killedGroup, .write .stdout [1, 2, 3],
    .tryWait (.ok none) killedGroup, .clock killedGroup,
    .drain (.ok (.bytes 3)) (.ok ()) killedGroup, .drain (.ok .noData) (.ok ()) killedGroup, .last,
    .close .stderr, .tryWait (.ok none) killedGroup, .clock killedGroup,
    .drain (.ok .noData) (.ok ()) killedGroup, .drain (.ok .eof) (.ok ()) killedGroup, .last]

def overflowed : CaptureRun :=
  (CaptureRun.machine ⟨2, 4, 1000⟩).run .new overflowing

theorem capture_returns_overflowed :
    overflowed.place = .returned (.ok ⟨some ⟨none, "signal: 9"⟩, [1, 2], [], true, false, false⟩) ∧
      overflowed.turns = 2 ∧ overflowed.stopped = true := by
  have hstart : (CaptureRun.machine ⟨2, 4, 1000⟩).Reach CaptureRun.Start .new := .init rfl
  have hagrees (c : CaptureRun) (h : c.exit = none ∨ c.exit = some ⟨none, "signal: 9"⟩) :
      c.Agrees killedGroup := by
    rintro status (htry | hwait)
    · cases htry
    · cases hwait
      exact h
  have hrun := hstart.of_trace overflowing
    ⟨hagrees _ (.inl rfl), rfl, ⟨nofun, hagrees _ (.inl rfl)⟩, hagrees _ (.inl rfl),
      ⟨hagrees _ (.inl rfl), ?_⟩, ⟨hagrees _ (.inr rfl), fun _ _ _ _ => trivial⟩, trivial, trivial,
      ⟨nofun, hagrees _ (.inr rfl)⟩, hagrees _ (.inr rfl),
      ⟨hagrees _ (.inr rfl), fun _ _ _ _ => trivial⟩, ⟨hagrees _ (.inr rfl), ?_⟩, trivial, trivial⟩
  · have hplace : overflowed.place = .returned
        (.ok ⟨some ⟨none, "signal: 9"⟩, [1, 2], [], true, false, false⟩) := rfl
    obtain ⟨-, -, hreturned⟩ := capture_returns hrun
    exact ⟨hplace, rfl, ((hreturned _ hplace).2.2 .stdout).2.2.1 (.inl rfl)⟩
  · rintro side deadlineReached progress hplace
    cases hplace
    exact ⟨by decide, by decide, by decide⟩
  · rintro side deadlineReached progress hplace
    cases hplace
    exact ⟨rfl, rfl⟩

end Mast
