import Mast.Terminal.Machine

/-!
# The remote screen

A remote client polls the screen of one tab: `handlers.rs` answers, and the client
(`protocol.ts`, `poller.ts`, `tab-view.ts`) appends the answer to its terminal or starts
over. The server keeps nothing about its clients: a request brings the offset up to
which the client has the stream, and the token of the session that it counts in.

The sessions that the tab had are all kept along, each with its terminal and whatever
its other threads do. A respawn gives the tab a new session, and a restart of the app
a new epoch, in which ids begin anew.
-/

namespace Mast

/-! ## The server -/

/-- `session_token`: opaque to the client. -/
def sessionToken (epoch : UInt64) (id : SessionId) : String :=
  toString epoch ++ ":" ++ toString id

/-- A session of the tab. -/
structure RemoteSession where
  epoch : UInt64
  id : SessionId
  cols : UInt16
  rows : UInt16
  terminal : Terminal

def RemoteSession.token (s : RemoteSession) : String := sessionToken s.epoch s.id

/-- The bytes of its output. -/
def RemoteSession.stream (s : RemoteSession) : List UInt8 := s.terminal.stream

/-- What a request asks for: `since` and the token that goes with it. -/
structure ScreenQuery where
  since : Nat
  session : String
deriving DecidableEq, Repr

/-- The screen handler, for the live session of the tab. The offset of a client counts
only in the session it names. -/
def screenHandler (epoch : UInt64) (s : RemoteSession) (query : Option ScreenQuery) :
    Screen × String :=
  let token := sessionToken epoch s.id
  let since :=
    match query with
    | some q => if q.session = token then some (UInt64.ofNat q.since) else none
    | none => none
  (s.terminal.inner.screenSince s.cols s.rows since, token)

/-! ## The client -/

/-- The headers of an answer. -/
structure ScreenMeta where
  endOffset : Nat
  reset : Bool
  cols : Nat
  rows : Nat
  session : String
deriving DecidableEq, Repr

/-- A count that a number of the client cannot hold exactly is refused. -/
def parseCount (n : Nat) : Option Nat := if n ≤ maxSafeInteger then some n else none

def parseScreenMeta (screen : Screen) (token : String) : Option ScreenMeta := do
  let endOffset ← parseCount screen.endOffset.toNat
  let cols ← parseCount screen.cols.toNat
  let rows ← parseCount screen.rows.toNat
  some { endOffset, reset := screen.reset, cols, rows, session := token }

inductive ScreenPhase
  | full
  | ready
deriving DecidableEq, Repr

structure ViewState where
  phase : ScreenPhase
  since : Nat
  session : Option String
  cols : Nat
  rows : Nat
deriving DecidableEq, Repr

namespace ViewState

/-- `INITIAL_VIEW_STATE`. -/
def initial : ViewState := { phase := .full, since := 0, session := none, cols := 0, rows := 0 }

/-- The next request; without a query it asks for a snapshot. -/
def screenQuery (v : ViewState) : Option ScreenQuery :=
  match v.phase, v.session with
  | .ready, some session => some ⟨v.since, session⟩
  | _, _ => none

/-- The answer cannot be appended to what the client shows. -/
def needsRecreate (v : ViewState) (got : ScreenMeta) : Bool :=
  got.reset || got.cols ≠ v.cols || got.rows ≠ v.rows || some got.session ≠ v.session

def nextRequest (v : ViewState) (got : ScreenMeta) : ViewState :=
  match v.phase with
  | .full =>
    if got.reset then
      { phase := .ready, since := got.endOffset, session := some got.session, cols := got.cols
        rows := got.rows }
    else v
  | .ready => if v.needsRecreate got then initial else { v with since := got.endOffset }

end ViewState

/-- A view of the tab: its protocol state, the bytes its terminal was given, and the
generation of its requests. -/
structure RemoteClient where
  state : ViewState
  term : Option (List UInt8)
  generation : Nat

namespace RemoteClient

def new : RemoteClient := ⟨.initial, none, 0⟩

/-- The generation is raised, so that answers under way are ignored. -/
def destroyTerminal (c : RemoteClient) : RemoteClient :=
  { c with term := none, generation := c.generation + 1 }

def createTerminal (c : RemoteClient) (bytes : List UInt8) : RemoteClient :=
  { c.destroyTerminal with term := some bytes }

/-- The terminal is written to, if there is one. -/
def write (c : RemoteClient) (bytes : List UInt8) : RemoteClient :=
  { c with term := c.term.map (· ++ bytes) }

/-- An answer is applied. -/
def apply (c : RemoteClient) (got : ScreenMeta) (bytes : List UInt8) : RemoteClient :=
  let drawn :=
    match c.state.phase with
    | .full => if got.reset then c.createTerminal bytes else c
    | .ready =>
      if c.state.needsRecreate got then c.destroyTerminal
      else if bytes.length > 0 then c.write bytes
      else c
  { drawn with state := c.state.nextRequest got }

/-- The client starts over, unless it has nothing. -/
def resetToFull (c : RemoteClient) : RemoteClient :=
  match c.term with
  | some _ => { c.destroyTerminal with state := .initial }
  | none => c

end RemoteClient

/-- How far a request came: at the server, with the session that the handler found,
with an answer, or with an error, which may be that the session is gone. -/
inductive RequestStage
  | sent
  | found (session : Nat)
  | answered (screen : Screen) (token : String)
  | failed (gone : Bool)

structure RemoteRequest where
  generation : Nat
  query : Option ScreenQuery
  stage : RequestStage

/-! ## The system -/

structure Remote where
  epoch : UInt64
  /-- The epochs of this app and of those before it. -/
  epochs : List UInt64
  nextId : SessionId
  sessions : List RemoteSession
  /-- The live session of the tab. -/
  current : Option Nat
  client : RemoteClient
  request : Option RemoteRequest

namespace Remote

inductive Action
  | session (index : Nat) (a : Terminal.Action)
  | resize (index : Nat) (cols rows : UInt16)
  | otherId
  | respawn (inner : Inner) (cols rows : UInt16)
  | close
  | restart (epoch : UInt64)
  | poll
  | lookup
  | answer
  | fail (gone : Bool)
  | receive
  | startOver

/-- A new session for the tab. -/
def respawn (w : Remote) (inner : Inner) (cols rows : UInt16) : Remote :=
  { w with
    nextId := w.nextId + 1
    sessions := w.sessions ++ [⟨w.epoch, w.nextId, cols, rows, .new inner⟩]
    current := some w.sessions.length }

/-- Requests that the old app was working on fail. -/
def restart (w : Remote) (epoch : UInt64) : Remote :=
  { w with
    epoch
    epochs := epoch :: w.epochs
    nextId := 1
    current := none
    request := w.request.map fun r =>
      match r.stage with
      | .found _ => { r with stage := .failed false }
      | _ => r }

/-- The client asks, when no request is under way. -/
def poll (w : Remote) : Remote :=
  match w.request with
  | none => { w with request := some ⟨w.client.generation, w.client.state.screenQuery, .sent⟩ }
  | some _ => w

/-- The handler looks for the live session of the tab. -/
def lookup (w : Remote) : Remote :=
  match w.request with
  | some ⟨generation, query, .sent⟩ =>
    match w.current with
    | some index => { w with request := some ⟨generation, query, .found index⟩ }
    | none => { w with request := some ⟨generation, query, .failed true⟩ }
  | _ => w

/-- The handler answers from the session it found. -/
def answer (w : Remote) : Remote :=
  match w.request with
  | some ⟨generation, query, .found index⟩ =>
    match w.sessions[index]? with
    | some s =>
      let (screen, token) := screenHandler w.epoch s query
      { w with request := some ⟨generation, query, .answered screen token⟩ }
    | none => w
  | _ => w

/-- The request fails on its way, or is refused. -/
def fail (w : Remote) (gone : Bool) : Remote :=
  { w with request := w.request.map fun r => { r with stage := .failed gone } }

/-- The client gets the answer. One of an older generation is ignored. -/
def receive (w : Remote) : Remote :=
  match w.request with
  | some ⟨generation, _, .answered screen token⟩ =>
    { w with
      request := none
      client :=
        if generation = w.client.generation then
          match parseScreenMeta screen token with
          | some got => w.client.apply got screen.bytes
          | none => w.client
        else w.client }
  | some ⟨generation, _, .failed gone⟩ =>
    { w with
      request := none
      client :=
        if generation = w.client.generation && gone then w.client.resetToFull else w.client }
  | _ => w

def step (w : Remote) : Action → Remote
  | .session index a =>
    { w with sessions := w.sessions.modify index fun s => { s with terminal := s.terminal.step a } }
  | .resize index cols rows =>
    { w with sessions := w.sessions.modify index fun s => { s with cols, rows } }
  | .otherId => { w with nextId := w.nextId + 1 }
  | .respawn inner cols rows => w.respawn inner cols rows
  | .close => { w with current := none }
  | .restart epoch => w.restart epoch
  | .poll => w.poll
  | .lookup => w.lookup
  | .answer => w.answer
  | .fail gone => w.fail gone
  | .receive => w.receive
  | .startOver => { w with client := w.client.resetToFull }

/-- Sessions do what terminals do, a new one begins as `spawn` makes it, ids are not
used up, and epochs are distinct. -/
def admits (w : Remote) : Action → Prop
  | .session index a => ∀ s, w.sessions[index]? = some s → Terminal.machine.admits s.terminal a
  | .respawn inner _ _ => Terminal.Start (.new inner) ∧ w.nextId.toNat + 1 < 2 ^ 32
  | .otherId => w.nextId.toNat + 1 < 2 ^ 32
  | .restart epoch => epoch ∉ w.epochs
  | _ => True

/-- The server and its client as a machine. -/
def machine : Machine Remote Action := ⟨step, admits⟩

/-- An app that was just started, and a view that was just opened. -/
def Start (w : Remote) : Prop :=
  ∃ epoch, w = ⟨epoch, [epoch], 1, [], none, .new, none⟩

end Remote

end Mast
