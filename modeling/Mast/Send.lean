import Mast.Osc

/-!
# The text of a send request

`send.rs`: the decoder of the text field. It accepts the standard alphabet with at
most two padding characters at the end, checks the size before it decodes, and
shifts six bits at a time into a 32-bit accumulator.
-/

namespace Mast

/-- The bound on the decoded text. -/
def maxSendBytes : Nat := 32 * 1024

inductive SendDecodeError
  | invalidBase64
  | tooLarge (bytes : Nat)
deriving DecidableEq, Repr

/-- The six bits of a character of the alphabet. -/
def decodeDigit (b : UInt8) : Option UInt8 :=
  if ascii 'A' ≤ b ∧ b ≤ ascii 'Z' then some (b - ascii 'A')
  else if ascii 'a' ≤ b ∧ b ≤ ascii 'z' then some (b - ascii 'a' + 26)
  else if ascii '0' ≤ b ∧ b ≤ ascii '9' then some (b - ascii '0' + 52)
  else if b = ascii '+' then some 62
  else if b = ascii '/' then some 63
  else none

/-- Drop padding from the end, at most `budget` characters of it. -/
def dropPadding : Nat → List UInt8 → List UInt8
  | 0, raw => raw
  | budget + 1, raw =>
    if raw.getLast? = some (ascii '=') then dropPadding budget raw.dropLast else raw

/-- The decoder's registers: the bytes so far, the bits shifted in, and how many of
them have not been put out. -/
structure Decoder where
  out : List UInt8
  acc : UInt32
  bits : UInt32
deriving DecidableEq, Repr

/-- Shift one digit in, and put a byte out when eight bits are there. -/
def Decoder.shift (d : Decoder) (digit : UInt8) : Decoder :=
  let acc := d.acc <<< 6 ||| digit.toUInt32
  let bits := d.bits + 6
  if 8 ≤ bits then { out := d.out ++ [(acc >>> (bits - 8)).toUInt8], acc, bits := bits - 8 }
  else { d with acc, bits }

def Decoder.run (d : Decoder) : List UInt8 → Except SendDecodeError (List UInt8)
  | [] => .ok d.out
  | b :: rest =>
    match decodeDigit b with
    | some digit => (d.shift digit).run rest
    | none => .error .invalidBase64

/-- The bytes of the last, incomplete group; one digit alone has none. -/
def tailBytes (length : Nat) : Option Nat :=
  match length % 4 with
  | 0 => some 0
  | 2 => some 1
  | 3 => some 2
  | _ => none

def decodeSendText (textB64 : String) : Except SendDecodeError (List UInt8) :=
  let body := dropPadding 2 (Utf8.bytes textB64)
  match tailBytes body.length with
  | none => .error .invalidBase64
  | some tail =>
    let outLen := body.length / 4 * 3 + tail
    if maxSendBytes < outLen then .error (.tooLarge outLen)
    else Decoder.run ⟨[], 0, 0⟩ body

example : decodeSendText "Y2FyZ28gdGVzdA==" = .ok (Utf8.bytes "cargo test") := by rfl

end Mast
