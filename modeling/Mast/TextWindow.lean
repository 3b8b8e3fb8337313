import Mast.Lib.Lines
import Mathlib.Data.Nat.Basic

/-!
# Windows of the text viewer

`window.ts` and `view.ts` show a file a window at a time. A window is read from one byte before
its target, so that a target behind a newline keeps its line; partial lines and broken UTF-8
sequences are cut off at both ends, and a line without a newline in the window is shown as a
piece. Offsets are those of the file, and the end of a window is behind its last byte.

The file is taken to stay as it is, and `TextDecoder` is a parameter.
-/

namespace Mast

/-- `WINDOW_BYTES` -/
@[irreducible] def windowBytes : Nat := 512 * 1024

/-- `LF` -/
def lineFeed : UInt8 := 0x0a

/-- `CR` -/
def carriageReturn : UInt8 := 0x0d

structure TextWindow where
  start : Nat
  stop : Nat
  lines : List String
  lineStarts : List Nat
deriving DecidableEq, Repr

namespace TextWindow

def isContinuation (byte : UInt8) : Bool := byte &&& 0xc0 == 0x80

/-- The length of the sequence that a byte begins; no sequence begins with a byte of length 0. -/
def sequenceLength (byte : UInt8) : Nat :=
  if byte < 0x80 then 1
  else if byte &&& 0xe0 == 0xc0 then 2
  else if byte &&& 0xf0 == 0xe0 then 3
  else if byte &&& 0xf8 == 0xf0 then 4
  else 0

/-- The bytes of a line, without a carriage return at their end. -/
def decodeLine (decode : List UInt8 → String) (line : List UInt8) : String :=
  decode (if line.getLast? = some carriageReturn then line.dropLast else line)

/-! ## Where a window begins and ends -/

def indexOf (byte : UInt8) (bytes : List UInt8) : Option Nat := bytes.findIdx? (· = byte)

def lastIndexOf (byte : UInt8) : List UInt8 → Option Nat
  | [] => none
  | b :: rest =>
    match lastIndexOf byte rest with
    | some i => some (i + 1)
    | none => if b = byte then some 0 else none

/-- A partial line at the front is cut off. -/
def lineFrom (bytes : List UInt8) (readOffset : Nat) : Nat :=
  if readOffset > 0 then
    match indexOf lineFeed bytes with
    | some nl => nl + 1
    | none => 0
  else 0

/-- A partial line at the end is cut off, unless it is all that there is. -/
def lineTo (bytes : List UInt8) (start : Nat) (atEof : Bool) : Nat :=
  if atEof then bytes.length
  else
    match lastIndexOf lineFeed bytes with
    | some nl => if nl ≥ start then nl + 1 else bytes.length
    | none => bytes.length

/-- The rest of a sequence at the front is skipped. -/
def skipContinuation (bytes : List UInt8) (start stop : Nat) : Nat :=
  start + (((bytes.drop start).take (stop - start)).takeWhile isContinuation).length

def lengthAt (bytes : List UInt8) (i : Nat) : Nat := (bytes[i]?.map sequenceLength).getD 0

/-- The last byte that begins a sequence is looked for, so many bytes back. -/
def cutBack (bytes : List UInt8) (start stop : Nat) : List Nat → Nat
  | [] => stop
  | k :: ks =>
    if start + k ≤ stop then
      if lengthAt bytes (stop - k) = 0 then cutBack bytes start stop ks
      else if lengthAt bytes (stop - k) > k then stop - k
      else stop
    else stop

/-- A sequence that goes on behind the end is cut off. -/
def cutPartial (bytes : List UInt8) (start stop : Nat) : Nat :=
  cutBack bytes start stop [1, 2, 3, 4]

/-- The lines of the bytes from an offset on, each with where it starts; `line` was read of the
first one. -/
def readLines (decode : List UInt8 → String) (offset : Nat) (line : List UInt8) :
    List UInt8 → List (Nat × String)
  | [] => if line = [] then [] else [(offset, decodeLine decode line)]
  | b :: rest =>
    if b = lineFeed then
      (offset, decodeLine decode line) :: readLines decode (offset + line.length + 1) [] rest
    else readLines decode offset (line ++ [b]) rest

def decodeWindow (decode : List UInt8 → String) (bytes : List UInt8) (readOffset : Nat)
    (atEof : Bool) : TextWindow :=
  let start := lineFrom bytes readOffset
  let stop := lineTo bytes start atEof
  let start := if readOffset + start > 0 then skipContinuation bytes start stop else start
  let stop := if atEof then stop else cutPartial bytes start stop
  let lines := readLines decode (readOffset + start) [] ((bytes.drop start).take (stop - start))
  ⟨readOffset + start, readOffset + stop, lines.map Prod.snd, lines.map Prod.fst⟩

/-! ## The viewer -/

inductive Action
  | first
  | prev
  | next
  | last
deriving DecidableEq, Repr

def nextWindowStart (action : Action) (current : TextWindow) (size : Nat) : Nat :=
  let lastStart := size - windowBytes
  match action with
  | .first => 0
  | .prev => current.start - windowBytes
  | .next => min lastStart current.stop
  | .last => lastStart

/-- The window around an offset that is shown again. -/
def windowStartForRestore (target size : Nat) : Nat :=
  if target = 0 then 0 else min (target - windowBytes / 2) (size - windowBytes)

def windowButtonsDisabled (current : TextWindow) (size : Nat) (action : Action) : Bool :=
  match action with
  | .first | .prev => current.start = 0
  | .next | .last => current.stop ≥ size

/-- `fsReadChunk` -/
def fsReadChunk (file : List UInt8) (offset len : Nat) : List UInt8 := (file.drop offset).take len

def loadWindow (decode : List UInt8 → String) (file : List UInt8) (target : Nat)
    (restore : Bool) : TextWindow :=
  let size := file.length
  let start := if restore then windowStartForRestore target size else min target size
  let start := if start ≥ size then size - windowBytes else start
  let readOffset := if start > 0 then start - 1 else 0
  let readLen := windowBytes + (start - readOffset)
  let bytes := fsReadChunk file readOffset readLen
  let atEof := decide (bytes.length < readLen) || decide (readOffset + bytes.length ≥ size)
  decodeWindow decode bytes readOffset atEof

/-- A button, or its key: nothing happens where it is disabled. -/
def moveWindow (decode : List UInt8 → String) (file : List UInt8) (action : Action)
    (win : TextWindow) : Option TextWindow :=
  if windowButtonsDisabled win file.length action then none
  else some (loadWindow decode file (nextWindowStart action win file.length) false)

/-- The viewer was just opened. -/
def opened (decode : List UInt8 → String) (file : List UInt8) : TextWindow :=
  loadWindow decode file 0 true

end TextWindow

end Mast
