import Mathlib.Algebra.Group.Nat.Defs
import Mast.Lib.Transducer
import Mast.Lib.Utf8

/-!
# Terminal control sequences

`osc.rs`: the scanner that finds OSC sequences, DEC private modes and terminal
resets in a PTY output stream. It only detects: the bytes pass through. A
sequence may be cut anywhere by the chunks of the stream, so the scanner is a
transducer over bytes (`OscScanner.scanner`), and `feed` reads a chunk.
-/

namespace Mast

/-- One recognised control sequence. -/
inductive OscEvent
  | osc0Title (title : String)
  | osc7Cwd (uri : String)
  | osc9Notify (body : String)
  | osc777Notify (title body : String)
  | osc777Send (target textB64 : String)
  | osc777Query (kind replyB64 : String)
  | osc777Started
  | oscColorQuery (code : UInt8)
  | decPrivateMode (modes : List UInt16) (set : Bool)
  | terminalReset (soft : Bool)
deriving DecidableEq, Repr

/-! ## Bytes and bounds -/

/-- The bound on the payload of an OSC sequence. -/
def maxPayloadBytes : Nat := 64 * 1024

/-- The bound on the parameter and intermediate bytes of a CSI sequence. -/
def maxCsiBytes : Nat := 128

def esc : UInt8 := 0x1B

def bel : UInt8 := 0x07

def can : UInt8 := 0x18

def sub : UInt8 := 0x1A

/-- The byte of an ASCII character. -/
def ascii (c : Char) : UInt8 := UInt8.ofNat c.toNat

/-! ## Completed sequences -/

def isAsciiDigit (b : UInt8) : Bool := decide (ascii '0' ≤ b ∧ b ≤ ascii '9')

/-- The number that decimal digits denote. -/
def decimal (digits : List UInt8) : Nat :=
  digits.foldl (fun n b => 10 * n + (b.toNat - (ascii '0').toNat)) 0

/-- One mode number: digits only, at least one, and within 16 bits. -/
def parseMode (part : List UInt8) : Option UInt16 :=
  if part.isEmpty || !part.all isAsciiDigit then none
  else if decimal part < 2 ^ 16 then some (UInt16.ofNat (decimal part)) else none

/-- The parameters of DECSTR: digits and `;`, then the intermediate byte `!`. -/
def isDecstrParams (params : List UInt8) : Bool :=
  match params.getLast? with
  | some last =>
    decide (last = ascii '!') && params.dropLast.all fun b => isAsciiDigit b || b = ascii ';'
  | none => false

/-- A completed CSI sequence as an event, if it is one that is tracked. -/
def parseCsi (params : List UInt8) (finalByte : UInt8) : Option OscEvent :=
  if finalByte = ascii 'h' ∨ finalByte = ascii 'l' then
    match params with
    | prefixByte :: digits =>
      if prefixByte = ascii '?' ∧ digits ≠ [] then
        ((digits.splitOn (ascii ';')).mapM parseMode).map fun modes =>
          .decPrivateMode modes (finalByte = ascii 'h')
      else none
    | [] => none
  else if finalByte = ascii 'p' ∧ isDecstrParams params then some (.terminalReset true)
  else none

/-- The text before the first `c` and the text after it. -/
def splitOnce (c : Char) : List Char → Option (List Char × List Char)
  | [] => none
  | x :: rest => if x = c then some ([], rest) else (splitOnce c rest).map fun p => (x :: p.1, p.2)

theorem splitOnce_append {c : Char} {first : List Char} (h : c ∉ first) (rest : List Char) :
    splitOnce c (first ++ c :: rest) = some (first, rest) := by
  induction first with
  | nil => exact if_pos rfl
  | cons x first ih =>
    obtain ⟨hx, hfirst⟩ := not_or.mp (mt List.mem_cons.mpr h)
    rw [List.cons_append, splitOnce, if_neg (Ne.symm hx), ih hfirst]
    rfl

theorem splitOnce_cases (c : Char) (text : List Char) :
    (splitOnce c text = none ∧ c ∉ text) ∨
      ∃ first rest, splitOnce c text = some (first, rest) ∧ text = first ++ c :: rest ∧
        c ∉ first := by
  induction text with
  | nil => exact .inl ⟨rfl, List.not_mem_nil⟩
  | cons x text ih =>
    rw [splitOnce]
    by_cases hx : x = c
    · rw [if_pos hx]
      exact .inr ⟨[], text, rfl, by rw [hx]; rfl, List.not_mem_nil⟩
    · rw [if_neg hx]
      rcases ih with ⟨hnone, habsent⟩ | ⟨first, rest, hsome, rfl, habsent⟩
      · rw [hnone]
        refine .inl ⟨rfl, ?_⟩
        rw [List.mem_cons, not_or]
        exact ⟨Ne.symm hx, habsent⟩
      · rw [hsome]
        refine .inr ⟨x :: first, rest, rfl, rfl, ?_⟩
        rw [List.mem_cons, not_or]
        exact ⟨Ne.symm hx, habsent⟩

/-- At most `n` pieces between the separators; the last one holds the rest. -/
def splitn : Nat → Char → List Char → List (List Char)
  | 0, _, _ => []
  | 1, _, text => [text]
  | n + 2, c, text =>
    match splitOnce c text with
    | some (piece, rest) => piece :: splitn (n + 1) c rest
    | none => [text]

/-- The fields of an OSC 777 payload, behind its code. -/
def parse777 (rest : List Char) : Option OscEvent :=
  let parts := (splitn 3 ';' rest).map String.ofList
  let kind := parts[0]?.getD ""
  if kind = "notify" then some (.osc777Notify (parts[1]?.getD "") (parts[2]?.getD ""))
  else if kind = "mast-send" then do
    let target ← parts[1]?
    let textB64 ← parts[2]?
    some (.osc777Send target textB64)
  else if kind = "mast-query" then do
    let kind ← parts[1]?
    let replyB64 ← parts[2]?
    some (.osc777Query kind replyB64)
  else if kind = "mast-started" then some .osc777Started
  else none

/-- A completed OSC payload as an event. -/
def parsePayload (payload : List UInt8) : Option OscEvent :=
  let text := (Utf8.fromUtf8Lossy payload).toList
  let (code, rest) := (splitOnce ';' text).getD (text, [])
  let code := String.ofList code
  if code = "0" ∨ code = "2" then some (.osc0Title (String.ofList rest))
  else if code = "7" then some (.osc7Cwd (String.ofList rest))
  else if code = "9" then some (.osc9Notify (String.ofList rest))
  -- only a query is an event: a sequence that sets a colour passes through
  else if code = "10" ∧ rest = ['?'] then some (.oscColorQuery 10)
  else if code = "11" ∧ rest = ['?'] then some (.oscColorQuery 11)
  else if code = "777" then parse777 rest
  else none

/-! ## The scanner -/

/-- Where the scanner is in a sequence. -/
inductive ScanState
  | ground
  | esc
  | csi
  | collect
  | collectEsc
deriving DecidableEq, Repr

structure OscScanner where
  state : ScanState
  buf : List UInt8
  overflow : Bool
deriving DecidableEq, Repr

namespace OscScanner

def new : OscScanner := ⟨.ground, [], false⟩

def beginCollect (s : OscScanner) : OscScanner :=
  { s with state := .collect, buf := [], overflow := false }

def beginCsi (s : OscScanner) : OscScanner :=
  { s with state := .csi, buf := [], overflow := false }

/-- Drop the sequence under way, and go to `state`. -/
def discardTo (s : OscScanner) (state : ScanState) : OscScanner :=
  { s with state, buf := [], overflow := false }

def finishCsi (s : OscScanner) (finalByte : UInt8) : OscScanner × Option OscEvent :=
  (s.discardTo .ground, if s.overflow then none else parseCsi s.buf finalByte)

def finish (s : OscScanner) : OscScanner × Option OscEvent :=
  (s.discardTo .ground, if s.overflow then none else parsePayload s.buf)

/-- Keep one more byte; one byte too many drops what was kept, and the sequence is
then consumed to its end without an event. -/
def keep (s : OscScanner) (bound : Nat) (b : UInt8) : OscScanner :=
  if bound ≤ s.buf.length then { s with overflow := true, buf := [] }
  else { s with buf := s.buf ++ [b] }

/-- The reaction to one byte: the body of the loop of `feed`. -/
def step (s : OscScanner) (b : UInt8) : OscScanner × Option OscEvent :=
  match s.state with
  | .ground => if b = Mast.esc then ({ s with state := .esc }, none) else (s, none)
  | .esc =>
    if b = ascii ']' then (s.beginCollect, none)
    else if b = ascii '[' then (s.beginCsi, none)
    else if b = ascii 'c' then ({ s with state := .ground }, some (.terminalReset false))
    else if b = Mast.esc then ({ s with state := .esc }, none)
    else ({ s with state := .ground }, none)
  | .csi =>
    if b = can ∨ b = sub then (s.discardTo .ground, none)
    else if b = Mast.esc then (s.discardTo .esc, none)
    else if 0x20 ≤ b ∧ b ≤ 0x3F then (s.keep maxCsiBytes b, none)
    else if 0x40 ≤ b ∧ b ≤ 0x7E then s.finishCsi b
    -- other control bytes are executed in the middle of a sequence
    else (s, none)
  | .collect =>
    if b = bel then s.finish
    else if b = Mast.esc then ({ s with state := .collectEsc }, none)
    else if b = can ∨ b = sub then (s.discardTo .ground, none)
    else (s.keep maxPayloadBytes b, none)
  | .collectEsc =>
    if b = ascii '\\' then s.finish
    else if b = ascii ']' then (s.beginCollect, none)
    else if b = ascii '[' then (s.beginCsi, none)
    else if b = ascii 'c' then (s.discardTo .ground, some (.terminalReset false))
    else if b = Mast.esc then (s.discardTo .esc, none)
    else (s.discardTo .ground, none)

/-- The scanner as a transducer. -/
def scanner : Transducer OscScanner UInt8 OscEvent := ⟨step⟩

/-- Read a chunk: the scanner after it, and the events that it completes. -/
def feed (s : OscScanner) (bytes : List UInt8) : OscScanner × List OscEvent := scanner.feed s bytes

/-- Read a stream chunk by chunk. -/
def feedAll (s : OscScanner) (chunks : List (List UInt8)) : OscScanner × List OscEvent :=
  scanner.feedAll s chunks

/-- A state that some stream leaves the scanner in. -/
def Reachable (s : OscScanner) : Prop := scanner.Reachable new s

end OscScanner

end Mast
