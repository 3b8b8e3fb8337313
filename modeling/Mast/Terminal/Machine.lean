import Mast.Lib.Machine
import Mast.Session

/-!
# A terminal with its threads and views

A session runs with several threads at once: the reader loop of `session.rs`, the
calls of the frontend, and the waiter that sees the process end. Each section under
the session's lock is one step, and so is each section under the lock of the sink's
channel slot (`sink.rs`). A view attaches a channel, then asks for the snapshot, and
its `AttachGate` (`attach-gate.ts`) judges the chunks of the channel by the offset
at which the snapshot ends.

A notification comes after the lock is released, except in `ack`; `notifying`
counts the threads in between. The accounted chunks and the history of the flow
account are kept along, only to be spoken about.
-/

namespace Mast

/-! ## Views -/

/-- A chunk on a channel: its offset in the stream, and its bytes. -/
structure Frame where
  offset : UInt64
  bytes : List UInt8
deriving DecidableEq, Repr

/-- The largest integer up to which numbers of the frontend are exact. An offset
beyond it is refused when a frame is parsed. -/
def maxSafeInteger : Nat := 2 ^ 53 - 1

/-- What a gate decides: bytes for the terminal, acknowledged once they are written,
and a count to acknowledge at once. -/
structure GateResult where
  deliver : List (List UInt8)
  discardedBytes : Nat
deriving DecidableEq, Repr

structure AttachGate where
  endOffset : Option Nat
  queued : List Frame
deriving DecidableEq, Repr

namespace AttachGate

def new : AttachGate := ⟨none, []⟩

/-- A chunk inside the snapshot is discarded. -/
def judge (endOffset : Nat) (frame : Frame) : GateResult :=
  if frame.offset.toNat < endOffset then ⟨[], frame.bytes.length⟩ else ⟨[frame.bytes], 0⟩

def push (g : AttachGate) (frame : Frame) : AttachGate × GateResult :=
  match g.endOffset with
  | none => ({ g with queued := g.queued ++ [frame] }, ⟨[], 0⟩)
  | some endOffset => (g, judge endOffset frame)

/-- The results for the queued frames together. -/
def judgeAll (endOffset : Nat) (frames : List Frame) : GateResult :=
  ⟨frames.flatMap fun frame => (judge endOffset frame).deliver,
    (frames.map fun frame => (judge endOffset frame).discardedBytes).sum⟩

/-- The end of the snapshot is known. A second call is an error. -/
def onSnapshot (g : AttachGate) (endOffset : Nat) : Option (AttachGate × GateResult) :=
  match g.endOffset with
  | none => some (⟨some endOffset, []⟩, judgeAll endOffset g.queued)
  | some _ => none

end AttachGate

/-- A view, its channel and the answer to its request. Behind the gate: what the
terminal writes, and what was delivered and discarded. -/
structure View where
  /-- Where the stream was when the channel was attached. -/
  start : Nat
  /-- Everything that was sent on the channel. -/
  channel : List Frame
  arrived : Nat
  answer : Option (UInt64 × List UInt8)
  gate : AttachGate
  received : List Frame
  terminal : List UInt8
  delivered : List (List UInt8)
  discarded : Nat
deriving DecidableEq

namespace View

def attached (start : Nat) : View := ⟨start, [], 0, none, .new, [], [], [], 0⟩

/-- The terminal writes what the gate delivers. -/
def apply (v : View) (gate : AttachGate) (result : GateResult) : View :=
  { v with
    gate
    terminal := v.terminal ++ result.deliver.flatten
    delivered := v.delivered ++ result.deliver
    discarded := v.discarded + result.discardedBytes }

/-- The next frame of the channel arrives. -/
def arrive (v : View) : View :=
  match v.channel[v.arrived]? with
  | some frame =>
    let v := { v with arrived := v.arrived + 1 }
    if frame.offset.toNat ≤ maxSafeInteger then
      let pushed := v.gate.push frame
      { v with received := v.received ++ [frame] }.apply pushed.1 pushed.2
    else v
  | none => v

/-- The answer arrives: the terminal writes it, and the gate opens. -/
def respond (v : View) : View :=
  match v.answer with
  | some (endOffset, bytes) =>
    if endOffset.toNat ≤ maxSafeInteger then
      match v.gate.onSnapshot endOffset.toNat with
      | some (gate, result) => { v with terminal := v.terminal ++ bytes }.apply gate result
      | none => v
    else v
  | none => v

/-- The view asks for the snapshot, once. -/
def answered (v : View) (endOffset : UInt64) (bytes : List UInt8) : View :=
  match v.answer with
  | none => { v with answer := some (endOffset, bytes) }
  | some _ => v

end View

/-! ## The history of the flow account -/

inductive FlowEvent
  | sent (n : Nat)
  | delivered (n : Nat)
  | rolledBack (n : Nat)
  | acked (n : Nat)
  | reset
deriving DecidableEq, Repr

/-- What happened to the account, and what it decided. The newest entry is first. -/
abbrev FlowLog := List (FlowEvent × FlowAction)

namespace FlowLog

/-- A sum over the entries. -/
def total (weight : FlowEvent → Nat) (log : FlowLog) : Nat := (log.map fun e => weight e.1).sum

def sent : FlowLog → Nat := total fun | .sent n => n | _ => 0

def delivered : FlowLog → Nat := total fun | .delivered n => n | _ => 0

def rolledBack : FlowLog → Nat := total fun | .rolledBack n => n | _ => 0

def acked : FlowLog → Nat := total fun | .acked n => n | _ => 0

/-- The bytes that were sent and neither acknowledged nor taken back. -/
def outstanding (log : FlowLog) : Nat := log.sent - (log.acked + log.rolledBack)

/-- The bytes that reached a channel and were not acknowledged. -/
def unacked (log : FlowLog) : Nat := log.delivered - log.acked

/-- Since the last reset, the last decision was to pause. -/
def pausing : FlowLog → Bool
  | [] => false
  | (.reset, _) :: _ => false
  | (_, .pause) :: _ => true
  | (_, .resume) :: _ => false
  | (_, .none) :: rest => pausing rest

/-- Between resets, the decisions are a pause, a resume, a pause, and so on. -/
def Alternates : FlowLog → Prop
  | [] => True
  | (_, .pause) :: rest => pausing rest = false ∧ Alternates rest
  | (_, .resume) :: rest => pausing rest = true ∧ Alternates rest
  | (_, .none) :: rest => Alternates rest

/-- The entry counts bytes down. -/
def isAck : FlowEvent → Bool
  | .acked _ | .rolledBack _ => true
  | _ => false

/-- The last decision was to pause, and nothing was counted down since. -/
def Unacked : FlowLog → Prop
  | [] => False
  | (_, .pause) :: _ => True
  | (e, _) :: rest => isAck e = false ∧ Unacked rest

end FlowLog

/-! ## The threads -/

/-- Where the reader loop is. -/
inductive Reader
  | top
  | asleep
  | reading
  | scanned (chunk : List UInt8) (modeEvents : List OscEvent)
  | accounted (offset : UInt64) (chunk : List UInt8)
  | dropped (n : Nat)
  | exited
deriving DecidableEq

structure Terminal where
  inner : Inner
  scanner : OscScanner
  reader : Reader
  /-- The view whose channel is in the slot of the sink. -/
  slot : Option Nat
  views : List View
  notifying : Nat
  chunks : List (List UInt8)
  log : FlowLog

namespace Terminal

inductive Action
  | check
  | read (chunk : List UInt8)
  | interrupted
  | readEnd
  | account
  | output (sends : Bool)
  | rollback
  | wake
  | notify
  | ack (n : Nat)
  | resetFlow
  | kill
  | exit
  | takeRecord
  | attach
  | detach
  | reattach (view : Nat)
  | arrive (view : Nat)
  | respond (view : Nat)
deriving DecidableEq

/-- The steps of the reader loop. -/
def Action.ofReader : Action → Bool
  | check | read _ | interrupted | readEnd | account | output _ | rollback | wake => true
  | _ => false

def new (inner : Inner) : Terminal := ⟨inner, .new, .top, none, [], 0, [], []⟩

/-- The bytes that were accounted. -/
def stream (t : Terminal) : List UInt8 := t.chunks.flatten

/-- The number of chunks that were handed to the sink. -/
def cursor (t : Terminal) : Nat :=
  match t.reader with
  | .accounted .. => t.chunks.length - 1
  | _ => t.chunks.length

/-! ### The reader loop -/

/-- The top of the loop: the reader waits while it is paused. -/
def check (t : Terminal) : Terminal :=
  match t.reader with
  | .top =>
    { t with
      reader :=
        if t.inner.flow.paused && !t.inner.killed then .asleep
        else if t.inner.killed then .exited
        else .reading }
  | _ => t

/-- A read returns bytes, and they are scanned. -/
def read (t : Terminal) (chunk : List UInt8) : Terminal :=
  match t.reader with
  | .reading =>
    let scanned := t.scanner.feed chunk
    { t with scanner := scanned.1, reader := .scanned chunk (scanned.2.filter isModeEvent) }
  | _ => t

def interrupted (t : Terminal) : Terminal :=
  match t.reader with
  | .reading => { t with reader := .top }
  | _ => t

def readEnd (t : Terminal) : Terminal :=
  match t.reader with
  | .reading => { t with reader := .exited }
  | _ => t

def account (t : Terminal) : Terminal :=
  match t.reader with
  | .scanned chunk modeEvents =>
    match t.inner.account chunk modeEvents with
    | some (offset, inner) =>
      { t with
        inner
        reader := .accounted offset chunk
        chunks := t.chunks ++ [chunk]
        log := (.sent chunk.length, (t.inner.flow.onSent chunk.length).2) :: t.log }
    | none => t
  | _ => t

/-- `on_output`: the chunk goes to the channel in the slot, if there is one. A channel
that does not take it is removed from the slot. -/
def output (t : Terminal) (sends : Bool) : Terminal :=
  match t.reader with
  | .accounted offset chunk =>
    match t.slot with
    | some view =>
      if sends then
        { t with
          views := t.views.modify view fun v => { v with channel := v.channel ++ [⟨offset, chunk⟩] }
          reader := .top
          log := (.delivered chunk.length, .none) :: t.log }
      else { t with slot := none, reader := .dropped chunk.length }
    | none => { t with reader := .dropped chunk.length }
  | _ => t

def rollback (t : Terminal) : Terminal :=
  match t.reader with
  | .dropped n =>
    { t with
      inner := t.inner.rollback n
      reader := .top
      log := (.rolledBack n, (t.inner.flow.onAcked n).2) :: t.log }
  | _ => t

/-- The reader awakes, for a reason or for none, and checks again. -/
def wake (t : Terminal) : Terminal :=
  match t.reader with
  | .asleep => { t with reader := .top }
  | _ => t

/-! ### The other threads -/

/-- `notify_all`, after the lock was released. -/
def notify (t : Terminal) : Terminal := { t.wake with notifying := t.notifying - 1 }

/-- The frontend consumed bytes. The notification is under the lock. -/
def ack (t : Terminal) (n : Nat) : Terminal :=
  let acked :=
    { t with
      inner := (t.inner.ack n).1
      log := (.acked n, (t.inner.flow.onAcked n).2) :: t.log }
  if (t.inner.ack n).2 then acked.wake else acked

def resetFlow (t : Terminal) : Terminal :=
  { t with
    inner := t.inner.resetFlow
    log := (.reset, .none) :: t.log
    notifying := t.notifying + 1 }

def kill (t : Terminal) : Terminal :=
  if t.inner.killed then t else { t with inner := t.inner.kill, notifying := t.notifying + 1 }

/-- The waiter saw the process end. -/
def exit (t : Terminal) : Terminal :=
  { t with inner := t.inner.exit, notifying := t.notifying + 1 }

def takeRecord (t : Terminal) : Terminal := { t with inner := t.inner.takeRecord.1 }

/-- `TerminalSink::attach`: the channel of a new view replaces what is in the slot. -/
def attach (t : Terminal) : Terminal :=
  { t with slot := some t.views.length, views := t.views ++ [.attached t.cursor] }

def detach (t : Terminal) : Terminal := { t with slot := none }

/-- The second half of `attach_terminal`, for a view whose channel is attached. -/
def reattach (t : Terminal) (view : Nat) : Terminal :=
  let (inner, endOffset, bytes) := t.inner.reattach
  { t with
    inner
    views := t.views.modify view (·.answered endOffset bytes)
    log := (.reset, .none) :: t.log
    notifying := t.notifying + 1 }

def step (t : Terminal) : Action → Terminal
  | .check => t.check
  | .read chunk => t.read chunk
  | .interrupted => t.interrupted
  | .readEnd => t.readEnd
  | .account => t.account
  | .output sends => t.output sends
  | .rollback => t.rollback
  | .wake => t.wake
  | .notify => t.notify
  | .ack n => t.ack n
  | .resetFlow => t.resetFlow
  | .kill => t.kill
  | .exit => t.exit
  | .takeRecord => t.takeRecord
  | .attach => t.attach
  | .detach => t.detach
  | .reattach view => t.reattach view
  | .arrive view => { t with views := t.views.modify view View.arrive }
  | .respond view => { t with views := t.views.modify view View.respond }

/-- A read that returns has at least one byte, the count of the stream does not
overflow, and the frontend acknowledges bytes that reached a channel. -/
def admits (t : Terminal) : Action → Prop
  | .read chunk => chunk ≠ []
  | .account => ∀ chunk modeEvents, t.reader = .scanned chunk modeEvents →
      t.inner.bytesOut.toNat + chunk.length < 2 ^ 64
  | .ack n => n ≤ t.log.unacked
  | _ => True

/-- The terminal as a machine: every interleaving of its threads is a run. -/
def machine : Machine Terminal Action := ⟨step, admits⟩

/-- A session that was just spawned. -/
def Start (t : Terminal) : Prop :=
  ∃ replayCap highWater lowWater h, t = new (.new replayCap highWater lowWater h)

end Terminal

end Mast
