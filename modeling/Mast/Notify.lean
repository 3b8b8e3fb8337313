import Mast.Model
import Mast.Osc
import Mast.Lib.Utf8

/-!
# Coalescing of terminal notifications

`notify.rs`: a batch keeps one slot (an `OscDelta`) for each session, and every
event of a flush window is merged into its session's slot. Title, directory and
status are last-wins, the message is the last non-empty one, and the unread and
started flags stay up once raised.
-/

namespace Mast

/-- What one session reported during a flush window. -/
structure OscDelta where
  title : Option String
  cwd : Option String
  status : Option AgentStatus
  message : Option String
  unread : Bool
  started : Bool
deriving DecidableEq, Repr

/-- The slot of a session that has reported nothing. -/
def OscDelta.default : OscDelta :=
  { title := none, cwd := none, status := none, message := none, unread := false, started := false }

/-- The slots of a flush window, by session. -/
structure OscBatch where
  entries : OrdMap SessionId OscDelta
deriving DecidableEq

/-! ## Text of the events -/

def maxMessageChars : Nat := 500

def truncateChars (s : String) (maxChars : Nat) : String := String.ofList (s.toList.take maxChars)

def hexVal (b : UInt8) : Option UInt8 :=
  if 48 ≤ b ∧ b ≤ 57 then some (b - 48)
  else if 97 ≤ b ∧ b ≤ 102 then some (b - 97 + 10)
  else if 65 ≤ b ∧ b ≤ 70 then some (b - 65 + 10)
  else none

/-- Undo `%XX` escapes; an incomplete or non-hex escape stays as it is. -/
def percentDecodeBytes : List UInt8 → List UInt8
  | 37 :: h :: l :: rest =>
    match hexVal h, hexVal l with
    | some hi, some lo => (hi * 16 + lo) :: percentDecodeBytes rest
    | _, _ => 37 :: percentDecodeBytes (h :: l :: rest)
  | b :: rest => b :: percentDecodeBytes rest
  | [] => []

def percentDecode (s : String) : String := Utf8.fromUtf8Lossy (percentDecodeBytes (Utf8.bytes s))

/-- The decoded path of a `file://host/path` URI. -/
def parseFileUri (uri : String) : Option String :=
  let scheme := "file://".toList
  if scheme.isPrefixOf uri.toList then
    match (uri.toList.drop scheme.length).dropWhile fun c => c ≠ '/' with
    | [] => none
    | path => some (percentDecode (String.ofList path))
  else none

def parseStatusToken (title : String) : Option AgentStatus :=
  if title = "mast:running" then some .running
  else if title = "mast:needsInput" then some .needsInput
  else if title = "mast:idle" then some .idle
  else none

/-! ## Merging -/

namespace OscDelta

def mergeMessage (delta : OscDelta) (body : String) : OscDelta :=
  if body = "" then delta else { delta with message := some (truncateChars body maxMessageChars) }

/-- What an event does to its session's slot. `none`: the event has no slot,
and does not even open one. -/
def mergeEvent : OscEvent → Option (OscDelta → OscDelta)
  | .osc0Title title => some fun delta => { delta with title := some title }
  | .osc7Cwd uri =>
    match parseFileUri uri with
    | some path => some fun delta => { delta with cwd := some path }
    | none => none
  | .osc9Notify body => some fun delta => mergeMessage { delta with unread := true } body
  | .osc777Notify title body =>
    match parseStatusToken title with
    | some status => some fun delta =>
      let delta := { delta with status := some status }
      let delta := if status ≠ .running then { delta with unread := true } else delta
      mergeMessage delta body
    | none => some fun delta => mergeMessage { delta with unread := true } body
  -- sends, queries and colour queries are actions, not state: they have no slot
  | .osc777Send .. | .osc777Query .. => none
  | .osc777Started => some fun delta => { delta with started := true }
  | .oscColorQuery _ => none
  | .decPrivateMode .. | .terminalReset _ => none

end OscDelta

namespace OscBatch

def empty : OscBatch := ⟨OrdMap.empty⟩

/-- Merge one event into the slot of its session. -/
def merge (batch : OscBatch) (session : SessionId) (ev : OscEvent) : OscBatch :=
  match OscDelta.mergeEvent ev with
  | some f => ⟨batch.entries.upsert session OscDelta.default f⟩
  | none => batch

/-- Merge a sequence of events in order. -/
def mergeAll (batch : OscBatch) (events : List (SessionId × OscEvent)) : OscBatch :=
  events.foldl (fun batch ev => batch.merge ev.1 ev.2) batch

def isEmpty (batch : OscBatch) : Bool := batch.entries.size = 0

end OscBatch

end Mast
