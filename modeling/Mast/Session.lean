import Mast.Model
import Mast.Osc
import Mast.Flow
import Mast.Replay

/-!
# Terminal sessions

`session.rs`: what a session keeps behind its lock (`Inner`), and the sections that
run under the lock: the reader accounts a chunk (`account`) and takes one back that
was not delivered (`rollback`), the frontend acknowledges (`ack`), reconnects
(`reattach`) and disconnects (`resetFlow`), an ended session gives its screen away
(`takeRecord`), and a remote client polls (`screenSince`).

The DEC private modes that a program sets are tracked, so that a fresh terminal can
be put into them: `decModePreamble` writes the sequences that do so.
-/

namespace Mast

instance instLinearOrderUInt16 : LinearOrder UInt16 where
  le_refl _ := UInt16.le_refl _
  le_trans _ _ _ := UInt16.le_trans
  le_antisymm _ _ := UInt16.le_antisymm
  le_total := UInt16.le_total
  toDecidableLE := inferInstance
  lt_iff_le_not_ge a b := by rw [UInt16.not_le]; exact ⟨fun h => ⟨UInt16.le_of_lt h, h⟩, And.right⟩

/-! ## DEC private modes -/

abbrev DecModes := OrdMap UInt16 Bool

def maxTrackedDecModes : Nat := 64

/-- Modes that are transitions with a side effect: setting them again is wrong. -/
def untrackedDecModes : List UInt16 := [47, 1047, 1048, 1049, 2026]

/-- The modes that DECSTR puts back to their defaults. -/
def softResetDecModes : List UInt16 := [1, 6, 7, 25, 45, 66, 1004, 2004]

/-- One touched mode. The bound holds off new modes only. -/
def applyMode (set : Bool) (modes : DecModes) (mode : UInt16) : DecModes :=
  if mode ∈ untrackedDecModes then modes
  else if !modes.contains mode && decide (maxTrackedDecModes ≤ modes.size) then modes
  else modes.insert mode set

def applyModeEvent (modes : DecModes) : OscEvent → DecModes
  | .decPrivateMode touched set => touched.foldl (applyMode set) modes
  | .terminalReset true => modes.retain fun mode => !softResetDecModes.contains mode
  | .terminalReset false => .empty
  | _ => modes

def isModeEvent : OscEvent → Bool
  | .decPrivateMode .. | .terminalReset _ => true
  | _ => false

/-- The decimal digits of a mode number. -/
def modeDigits (mode : UInt16) : List UInt8 := (Nat.toDigits 10 mode.toNat).map ascii

/-- The sequence that sets or resets one mode. -/
def modeSequence (mode : UInt16) (set : Bool) : List UInt8 :=
  esc :: ascii '[' :: ascii '?' :: (modeDigits mode ++ [if set then ascii 'h' else ascii 'l'])

/-- The sequences that put a fresh terminal into the tracked modes, ascending. -/
def decModePreamble (modes : DecModes) : List UInt8 :=
  modes.entries.flatMap fun e => modeSequence e.1 e.2

/-! ## The state behind the lock -/

structure Inner where
  flow : FlowControl
  replay : ReplayBuffer
  decModes : DecModes
  bytesOut : UInt64
  alive : Bool
  killed : Bool

/-- What a poll of the screen answers. -/
structure Screen where
  endOffset : UInt64
  reset : Bool
  cols : UInt16
  rows : UInt16
  bytes : List UInt8
deriving DecidableEq, Repr

namespace Inner

def new (replayCap highWater lowWater : Nat) (h : lowWater ≤ highWater) : Inner where
  flow := .new highWater lowWater h
  replay := .new replayCap
  decModes := .empty
  bytesOut := 0
  alive := true
  killed := false

/-- The section of the reader between the scan of a chunk and its delivery: the
offset of the chunk in the stream, and the state with the chunk accounted. A count
of the stream that overflows is a panic. -/
def account (i : Inner) (chunk : List UInt8) (modeEvents : List OscEvent) :
    Option (UInt64 × Inner) :=
  if i.bytesOut.toNat + chunk.length < 2 ^ 64 then
    some (i.bytesOut,
      { i with
        decModes := modeEvents.foldl applyModeEvent i.decModes
        replay := i.replay.push chunk
        flow := (i.flow.onSent chunk.length).1
        bytesOut := UInt64.ofNat (i.bytesOut.toNat + chunk.length) })
  else none

/-- The chunk just accounted was not delivered. -/
def rollback (i : Inner) (n : Nat) : Inner := { i with flow := (i.flow.onAcked n).1 }

/-- Bytes were consumed; `true` when the reader is to be woken. -/
def ack (i : Inner) (n : Nat) : Inner × Bool :=
  ({ i with flow := (i.flow.onAcked n).1 }, decide ((i.flow.onAcked n).2 = .resume))

def resetFlow (i : Inner) : Inner := { i with flow := i.flow.reset }

/-- What a fresh terminal is given. -/
def screenBytes (i : Inner) : List UInt8 := decModePreamble i.decModes ++ i.replay.snapshot

/-- The frontend reconnects: where the snapshot ends in the stream, and what the new
terminal is to be given. -/
def reattach (i : Inner) : Inner × UInt64 × List UInt8 :=
  (i.resetFlow, i.bytesOut, i.screenBytes)

def kill (i : Inner) : Inner := { i with killed := true }

/-- The process ended. -/
def exit (i : Inner) : Inner := { i with alive := false, killed := true }

/-- The last screen of an ended session. A session that lives keeps its screen, and
one without a screen leaves no record of its modes. -/
def takeRecord (i : Inner) : Inner × Option (List UInt8) :=
  if i.alive then (i, none)
  else
    ({ i with replay := i.replay.clear },
      some (if i.replay.snapshot.isEmpty then [] else i.screenBytes))

/-- Where the retained bytes begin in the stream. -/
def retainedStart (i : Inner) : Nat := i.bytesOut.toNat - i.replay.len

/-- The output since an offset, or what a fresh terminal is given where the offset
is missing, no longer retained, or of another stream. -/
def screenSince (i : Inner) (cols rows : UInt16) (since : Option UInt64) : Screen :=
  match since with
  | some since =>
    if since = i.bytesOut then ⟨i.bytesOut, false, cols, rows, []⟩
    else if i.retainedStart ≤ since.toNat ∧ since < i.bytesOut then
      ⟨i.bytesOut, false, cols, rows, i.replay.bytesFrom (since.toNat - i.retainedStart)⟩
    else ⟨i.bytesOut, true, cols, rows, i.screenBytes⟩
  | none => ⟨i.bytesOut, true, cols, rows, i.screenBytes⟩

end Inner

end Mast
