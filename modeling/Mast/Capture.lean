import Mast.Flow
import Mast.Lib.Machine
import Mathlib.Data.Nat.Basic

/-!
# Captured output

`capture.rs` reads the output of a command from a pipe, a piece at a time, and keeps no more
than a cap. A drain asks for one byte more than there is room for, in chunks, so a stream that
is too long is told from one that just fits.

Results:
1. `drain_inactive`, `drain_bytes`: what a drain does.
2. `kept_drain`: what a drain keeps.
3. `capture_bounded`: what is kept of a stream, over runs.
-/

namespace Mast

/-- `READ_CHUNK` -/
def readChunk : Nat := 8 * 1024

inductive DrainOutcome
  | noData
  | progress
  | eof
  | overflow
deriving DecidableEq, Repr

inductive ReadOutcome
  | noData
  | eof
  | bytes (read : Nat)
deriving DecidableEq, Repr

/-- `StreamState` over a pipe. -/
structure StreamState (R : Type) where
  pipe : R
  bytes : List UInt8
  eof : Bool
  truncated : Bool
deriving DecidableEq, Repr

namespace StreamState

variable {R : Type}

def new (pipe : R) : StreamState R := ⟨pipe, [], false, false⟩

def active (s : StreamState R) : Bool := !s.eof && !s.truncated

/-- The room that is left. -/
def remaining (s : StreamState R) (cap : Nat) : Nat := cap - s.bytes.length

/-- The bytes that a drain asks for. -/
def requested (s : StreamState R) (cap : Nat) : Nat :=
  min (min (s.remaining cap + 1) usizeMax) readChunk

/-- `read_available` answers to a request, and fills the chunk; `reserve` grows the buffer. -/
def drain (readAvailable : R → Nat → Except String ReadOutcome × List UInt8 × R)
    (reserve : Except String Unit) (s : StreamState R) (cap : Nat) :
    Except String DrainOutcome × StreamState R :=
  if !s.active then (.ok .noData, s)
  else
    let remaining := s.remaining cap
    let (outcome, chunk, pipe) := readAvailable s.pipe (s.requested cap)
    let s := { s with pipe }
    match outcome with
    | .error error => (.error error, s)
    | .ok .noData => (.ok .noData, s)
    | .ok .eof => (.ok .eof, { s with eof := true })
    | .ok (.bytes read) =>
      let keep := min read remaining
      match (if keep > 0 then reserve else .ok ()) with
      | .error error => (.error ("capture buffer allocation failed: " ++ error), s)
      | .ok () =>
        let s := { s with bytes := s.bytes ++ chunk.take keep }
        if read > remaining then (.ok .overflow, { s with truncated := true })
        else (.ok .progress, s)

end StreamState

/-! ## A capture -/

/-- What a command wrote to a pipe, and how much of it was taken out. -/
structure Pipe where
  data : List UInt8
  taken : Nat
deriving DecidableEq, Repr

/-- The pipe answers in this way. -/
def Pipe.readAvailable (outcome : Except String ReadOutcome) (pipe : Pipe) (_requested : Nat) :
    Except String ReadOutcome × List UInt8 × Pipe :=
  match outcome with
  | .ok (.bytes read) =>
    (outcome, (pipe.data.drop pipe.taken).take read, { pipe with taken := pipe.taken + read })
  | _ => (outcome, [], pipe)

/-- One stream of a command; an error ends the capture. -/
structure Capture where
  stream : StreamState Pipe
  error : Option String

namespace Capture

inductive Action
  | write (bytes : List UInt8)
  | drain (outcome : Except String ReadOutcome) (reserve : Except String Unit)

def drain (cap : Nat) (c : Capture) (outcome : Except String ReadOutcome)
    (reserve : Except String Unit) : Capture :=
  match c.error with
  | some _ => c
  | none =>
    match c.stream.drain (Pipe.readAvailable outcome) reserve cap with
    | (.ok _, stream) => { c with stream }
    | (.error error, stream) => ⟨stream, some error⟩

def step (cap : Nat) (c : Capture) : Action → Capture
  | .write bytes =>
    { c with stream.pipe.data := c.stream.pipe.data ++ bytes }
  | .drain outcome reserve => c.drain cap outcome reserve

/-- A pipe gives what there is, and no more than was asked for. -/
def admits (cap : Nat) (c : Capture) : Action → Prop
  | .drain (.ok (.bytes read)) _ => c.stream.active = true →
      0 < read ∧ read ≤ c.stream.requested cap ∧
        c.stream.pipe.taken + read ≤ c.stream.pipe.data.length
  | _ => True

def machine (cap : Nat) : Machine Capture Action := ⟨step cap, admits cap⟩

def Start (c : Capture) : Prop := c = ⟨.new ⟨[], 0⟩, none⟩

/-- What is kept. -/
structure Kept (cap : Nat) (c : Capture) : Prop where
  taken : c.stream.pipe.taken ≤ c.stream.pipe.data.length
  bounded : c.stream.pipe.taken ≤ cap + 1
  bytes : c.error = none → c.stream.bytes = c.stream.pipe.data.take (min c.stream.pipe.taken cap)
  truncated : c.error = none → (c.stream.truncated = true ↔ cap < c.stream.pipe.taken)

end Capture

namespace CaptureLemmas

open StreamState Capture

variable {cap : Nat} {c c' : Capture}

/-! ## A drain -/

/-- A stream that was cut off, or that ended, is not read. -/
theorem drain_inactive {R : Type}
    {readAvailable : R → Nat → Except String ReadOutcome × List UInt8 × R}
    {reserve : Except String Unit} {s : StreamState R} (h : s.active = false) :
    s.drain readAvailable reserve cap = (.ok .noData, s) := by
  rw [StreamState.drain, h]
  rfl

/-- One byte more than there is room for is asked for at most. -/
theorem requested_le {R : Type} (s : StreamState R) (cap : Nat) :
    s.requested cap ≤ s.remaining cap + 1 :=
  (Nat.min_le_left _ _).trans (Nat.min_le_left _ _)

theorem active_iff {R : Type} {s : StreamState R} :
    s.active = true ↔ s.eof = false ∧ s.truncated = false := by
  simp [active]

/-- What a read gives is kept as far as there is room, unless the buffer does not grow. -/
theorem drain_bytes {R : Type}
    {readAvailable : R → Nat → Except String ReadOutcome × List UInt8 × R} {s : StreamState R}
    {read : Nat} {chunk : List UInt8} {pipe : R} (reserve : Except String Unit)
    (hactive : s.active = true)
    (hread : readAvailable s.pipe (s.requested cap) = (.ok (.bytes read), chunk, pipe)) :
    (∃ error, s.drain readAvailable reserve cap = (.error error, { s with pipe })) ∨
    s.drain readAvailable reserve cap =
      (.ok (if read > s.remaining cap then .overflow else .progress),
        ⟨pipe, s.bytes ++ chunk.take (min read (s.remaining cap)), s.eof,
          decide (read > s.remaining cap)⟩) := by
  unfold StreamState.drain
  simp only [hactive, hread, Bool.not_true, Bool.false_eq_true, if_false]
  split
  next error _ => exact .inl ⟨_, rfl⟩
  next =>
    refine .inr ?_
    split
    next hover => simp [hover]
    next hover => simp [hover, (active_iff.mp hactive).2]

/-- A piece is kept as far as there is room for it. -/
theorem take_append_piece {data : List UInt8} {taken read : Nat} (h : taken ≤ cap) :
    data.take taken ++ ((data.drop taken).take read).take (min read (cap - taken)) =
      data.take (min (taken + read) cap) := by
  -- The room is what the cap leaves of the bytes that were taken.
  have hkeep : min (min read (cap - taken)) read = min (taken + read) cap - taken := by omega
  have hsum : taken + (min (taken + read) cap - taken) = min (taken + read) cap := by omega
  rw [List.take_take, hkeep, ← List.take_add, hsum]

/-! ## Runs -/

theorem Kept.room (h : c.Kept cap) (herror : c.error = none) (hactive : c.stream.active = true) :
    c.stream.pipe.taken ≤ cap ∧ c.stream.bytes = c.stream.pipe.data.take c.stream.pipe.taken ∧
      c.stream.remaining cap = cap - c.stream.pipe.taken := by
  have htaken : c.stream.pipe.taken ≤ cap := by
    by_contra hlt
    have htruncated := (h.truncated herror).mpr (Nat.lt_of_not_le hlt)
    rw [(active_iff.mp hactive).2] at htruncated
    cases htruncated
  have hbytes := h.bytes herror
  rw [Nat.min_eq_left htaken] at hbytes
  refine ⟨htaken, hbytes, ?_⟩
  rw [remaining, hbytes, List.length_take, Nat.min_eq_left h.taken]

theorem kept_write (h : c.Kept cap) (bytes : List UInt8) :
    (c.step cap (.write bytes)).Kept cap where
  taken := by
    refine h.taken.trans ?_
    show _ ≤ (c.stream.pipe.data ++ bytes).length
    rw [List.length_append]
    exact Nat.le_add_right _ _
  bounded := h.bounded
  bytes herror := by
    show c.stream.bytes = (c.stream.pipe.data ++ bytes).take (min c.stream.pipe.taken cap)
    rw [List.take_append_of_le_length ((Nat.min_le_left _ _).trans h.taken)]
    exact h.bytes herror
  truncated := h.truncated

/-- A drain that reads `read` bytes. -/
theorem kept_read (h : c.Kept cap) (herror : c.error = none) (hactive : c.stream.active = true)
    {read : Nat} (hread : read ≤ c.stream.requested cap)
    (hdata : c.stream.pipe.taken + read ≤ c.stream.pipe.data.length)
    (reserve : Except String Unit) : (c.drain cap (.ok (.bytes read)) reserve).Kept cap := by
  obtain ⟨htaken, hbytes, hroom⟩ := Kept.room h herror hactive
  -- At most one byte over the cap is taken, which marks the stream as cut off.
  have hread := hread.trans (requested_le _ _)
  have hbounded : c.stream.pipe.taken + read ≤ cap + 1 := by omega
  have hpipe : Pipe.readAvailable (.ok (.bytes read)) c.stream.pipe (c.stream.requested cap) =
      (.ok (.bytes read), (c.stream.pipe.data.drop c.stream.pipe.taken).take read,
        { c.stream.pipe with taken := c.stream.pipe.taken + read }) := rfl
  rw [Capture.drain, herror]
  rcases drain_bytes reserve hactive hpipe with ⟨error, heq⟩ | heq
  · simp only [heq]
    exact ⟨hdata, hbounded, nofun, nofun⟩
  · simp only [heq, hroom, hbytes]
    refine ⟨hdata, hbounded, fun _ => take_append_piece htaken, fun _ => ?_⟩
    simp only [decide_eq_true_eq]
    omega

/-- A step that takes nothing out of the pipe. -/
theorem kept_frame (h : c.Kept cap) (hpipe : c'.stream.pipe = c.stream.pipe)
    (hbytes : c'.stream.bytes = c.stream.bytes)
    (htruncated : c'.stream.truncated = c.stream.truncated)
    (herror : c'.error = none → c.error = none) : c'.Kept cap where
  taken := hpipe ▸ h.taken
  bounded := hpipe ▸ h.bounded
  bytes heq := by
    rw [hbytes, hpipe]
    exact h.bytes (herror heq)
  truncated heq := by
    rw [htruncated, hpipe]
    exact h.truncated (herror heq)

theorem drain_eq_self (h : c.stream.active = false) (outcome : Except String ReadOutcome)
    (reserve : Except String Unit) : c.drain cap outcome reserve = c := by
  unfold Capture.drain
  split
  · rfl
  · rw [drain_inactive h]

theorem kept_drain (h : c.Kept cap) {outcome : Except String ReadOutcome}
    (reserve : Except String Unit) (ha : c.admits cap (.drain outcome reserve)) :
    (c.drain cap outcome reserve).Kept cap := by
  cases hactive : c.stream.active with
  | false => exact (drain_eq_self hactive outcome reserve).symm ▸ h
  | true =>
    -- A drain that failed is not repeated.
    cases herror : c.error with
    | some error =>
      rw [Capture.drain, herror]
      exact h
    | none =>
      cases outcome with
      | error error =>
        refine kept_frame h ?_ ?_ ?_ fun _ => herror <;>
          simp [Capture.drain, herror, StreamState.drain, hactive, Pipe.readAvailable]
      | ok outcome =>
        cases outcome with
        | noData | eof =>
          refine kept_frame h ?_ ?_ ?_ fun _ => herror <;>
            simp [Capture.drain, herror, StreamState.drain, hactive, Pipe.readAvailable]
        | bytes read =>
          obtain ⟨-, hread, hdata⟩ := ha hactive
          exact kept_read h herror hactive hread hdata reserve

theorem kept_of_reach (h : (machine cap).Reach Start c) : c.Kept cap := by
  refine h.invariant (I := Kept cap) ?_ fun c a _ hkept ha => ?_
  · rintro _ rfl
    exact ⟨Nat.le_refl _, Nat.zero_le _, fun _ => rfl, fun _ =>
      ⟨nofun, fun hlt => absurd hlt (Nat.not_lt_zero _)⟩⟩
  · cases a with
    | write bytes => exact kept_write hkept bytes
    | drain outcome reserve => exact kept_drain hkept reserve ha

/-- Later steps leave a stream alone that was cut off, or that ended. -/
theorem inactive_of_reach (hactive : c.stream.active = false)
    (h : (machine cap).Reach (fun start => start = c) c') :
    c'.stream = { c.stream with pipe := ⟨c'.stream.pipe.data, c.stream.pipe.taken⟩ } := by
  refine h.invariant (I := fun c' => c'.stream =
    { c.stream with pipe := ⟨c'.stream.pipe.data, c.stream.pipe.taken⟩ }) ?_
    fun c' a _ hsame _ => ?_
  · rintro _ rfl
    rfl
  · have hinactive : c'.stream.active = false := by
      rw [hsame]
      exact hactive
    cases a with
    | write bytes =>
      exact congrArg (fun s : StreamState Pipe =>
        { s with pipe.data := s.pipe.data ++ bytes }) hsame
    | drain outcome reserve =>
      have heq : (machine cap).step c' (.drain outcome reserve) = c' :=
        drain_eq_self hinactive outcome reserve
      rw [heq]
      exact hsame

end CaptureLemmas

open CaptureLemmas in
/-- What is kept of a stream is what was read of it, up to the cap, and it is marked as cut off
when more was read; nothing is read behind that, or behind the end. -/
theorem capture_bounded {cap : Nat} {c : Capture}
    (h : (Capture.machine cap).Reach Capture.Start c) :
    (c.error = none →
      c.stream.bytes = c.stream.pipe.data.take (min c.stream.pipe.taken cap) ∧
      c.stream.bytes.length = min c.stream.pipe.taken cap ∧
      (c.stream.truncated = true ↔ cap < c.stream.pipe.taken)) ∧
    c.stream.pipe.taken ≤ cap + 1 ∧
    (c.error = none → c.stream.eof = false → c.stream.pipe.data.length = cap →
      c.stream.pipe.taken = cap → c.stream.bytes = c.stream.pipe.data ∧
        c.stream.truncated = false ∧ ∀ reserve,
          c.drain cap (.ok .eof) reserve = { c with stream.eof := true }) ∧
    (c.stream.active = false → ∀ c', (Capture.machine cap).Reach (fun start => start = c) c' →
      c'.stream = { c.stream with pipe := ⟨c'.stream.pipe.data, c.stream.pipe.taken⟩ } ∧
      ∀ outcome reserve, c'.drain cap outcome reserve = c') := by
  have hkept := kept_of_reach h
  refine ⟨fun herror => ⟨hkept.bytes herror, ?_, hkept.truncated herror⟩, hkept.bounded,
    fun herror heof hlength htaken => ?_, fun hactive c' hc' => ?_⟩
  · rw [hkept.bytes herror, List.length_take]
    exact Nat.min_eq_left ((Nat.min_le_left _ _).trans hkept.taken)
  · have htruncated : c.stream.truncated = false := by
      refine Bool.eq_false_iff.mpr fun htrue => ?_
      have hlt := (hkept.truncated herror).mp htrue
      omega
    refine ⟨?_, htruncated, fun reserve => ?_⟩
    · rw [hkept.bytes herror, htaken, Nat.min_self, ← hlength, List.take_length]
    · simp [Capture.drain, herror, StreamState.drain, active_iff.mpr ⟨heof, htruncated⟩,
        Pipe.readAvailable]
  · have hsame := inactive_of_reach hactive hc'
    refine ⟨hsame, drain_eq_self ?_⟩
    rw [hsame]
    exact hactive

/-- A command writes three bytes to a stream with a cap of two, and they are read one by one. -/
def cutOff : Capture := (Capture.machine 2).run ⟨.new ⟨[], 0⟩, none⟩
  [.write [1, 2, 3], .drain (.ok (.bytes 1)) (.ok ()), .drain (.ok .noData) (.ok ()),
    .drain (.ok (.bytes 1)) (.ok ()), .drain (.ok (.bytes 1)) (.ok ())]

theorem capture_bounded_cutOff : cutOff.stream = ⟨⟨[1, 2, 3], 3⟩, [1, 2], false, true⟩ ∧
    cutOff.stream.bytes.length = min cutOff.stream.pipe.taken 2 ∧
    ∀ outcome reserve, cutOff.drain 2 outcome reserve = cutOff := by
  have hstart : (Capture.machine 2).Reach Capture.Start ⟨.new ⟨[], 0⟩, none⟩ := .init rfl
  have hrun : (Capture.machine 2).Reach Capture.Start cutOff := hstart.of_trace _
    ⟨trivial, fun _ => by decide, trivial, fun _ => by decide, fun _ => by decide, trivial⟩
  have hstream : cutOff.stream = ⟨⟨[1, 2, 3], 3⟩, [1, 2], false, true⟩ := by decide
  obtain ⟨hkept, -, -, hinactive⟩ := capture_bounded hrun
  exact ⟨hstream, (hkept rfl).2.1, (hinactive (by decide) cutOff (.init rfl)).2⟩

end Mast
