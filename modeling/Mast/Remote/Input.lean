import Mast.Remote

/-!
# Input from the phone

`input-queue.ts` posts what the phone sends one item at a time, each behind the answer to the
one before; an item that fails takes those behind it along. `tab-view.ts` puts items into the
queue while its terminal is drawn, and names the session of its view when an item is posted;
`handlers.rs` writes an item only to the session it names.

The view polls the screen meanwhile, and the tab may get a new shell at any time (`Remote`).
Items are numbered, and each keeps the session that the view showed when it was queued.
-/

namespace Mast

/-- `ENTER_DELAY_MS` -/
def enterDelayMs : Nat := 150

/-- An item; its number and the session that was shown are for the history. -/
structure InputItem where
  data : String
  delayBeforeMs : Option Nat
  number : Nat
  shown : Option String
deriving DecidableEq, Repr

/-- How far a POST came: on its way, with the session that the handler found, written, refused
as for another session, or broken off. -/
inductive PostStage
  | sent
  | found (session : Nat)
  | written
  | refused
  | broken
deriving DecidableEq, Repr

/-- A POST, with the token it names; `settled`: the queue knows how it ended. -/
structure InputPost where
  item : InputItem
  token : String
  stage : PostStage
  settled : Bool
deriving DecidableEq, Repr

/-- Where `pump` is: at rest, in the delay of an item, or behind `send`, which posted nothing
if the view had no session. -/
inductive Pump
  | rest
  | delaying (item : InputItem)
  | sending (item : InputItem) (post : Option Nat)
deriving DecidableEq, Repr

structure Phone where
  remote : Remote
  /-- `inputReady`: the controls are on. -/
  inputReady : Bool
  /-- The generation of the first write to the terminal, which turns the controls on. -/
  drawing : Option Nat
  items : List InputItem
  pump : Pump
  /-- All POSTs, the oldest first. -/
  posts : List InputPost
  /-- What was written, and to which session. -/
  written : List (Nat × InputItem)
  /-- The numbers of the items that were dropped. -/
  dropped : List Nat
  count : Nat

namespace Phone

inductive Action
  | remote (a : Remote.Action)
  | drawn
  | enqueue (data : List String)
  /-- The delay of an item is over. -/
  | timer
  | resolve (post : Nat)
  | write (post : Nat) (ok : Bool)
  /-- `send` returns, or it throws, which may be for another session. -/
  | settle
  | fail (conflict : Bool)

/-- The session of the view. -/
def session (p : Phone) : Option String := p.remote.client.state.session

/-! ## The view -/

/-- A terminal that is new or gone turns the controls off; a new one is drawn at once. -/
def withRemote (p : Phone) (remote : Remote) : Phone :=
  if remote.client.generation = p.remote.client.generation then { p with remote }
  else
    { p with
      remote
      inputReady := false
      drawing := if remote.client.term.isSome then some remote.client.generation else none }

/-- An app that is restarted works on no POST. -/
def breakOff (post : InputPost) : InputPost :=
  match post.stage with
  | .found _ => { post with stage := .broken }
  | _ => post

/-- Whatever the server or the polls do. -/
def remoteStep (p : Phone) (a : Remote.Action) : Phone :=
  let p := p.withRemote (p.remote.step a)
  match a with
  | .restart _ => { p with posts := p.posts.map breakOff }
  | _ => p

/-- The terminal has drawn its first bytes. -/
def drawn (p : Phone) : Phone :=
  { p with
    inputReady := p.inputReady || decide (p.drawing = some p.remote.client.generation)
    drawing := none }

/-! ## The queue -/

/-- The items that were not posted. -/
def waiting (p : Phone) : List InputItem :=
  match p.pump with
  | .delaying item | .sending item none => item :: p.items
  | _ => p.items

/-- The token is that of the view at this moment. -/
def sendOne (p : Phone) (item : InputItem) : Phone :=
  match p.session with
  | none => { p with pump := .sending item none }
  | some token => { p with
      posts := p.posts ++ [⟨item, token, .sent, false⟩]
      pump := .sending item (some p.posts.length) }

/-- The loop goes on with the next item. -/
def next (p : Phone) : Phone :=
  match p.items with
  | [] => { p with pump := .rest }
  | item :: rest =>
    let p := { p with items := rest }
    if 0 < item.delayBeforeMs.getD 0 then { p with pump := .delaying item } else p.sendOne item

def push (p : Phone) (items : List InputItem) : Phone :=
  let p := { p with items := p.items ++ items }
  match p.pump with
  | .rest => p.next
  | _ => p

/-- The items of one action: all but the first one with a delay. -/
def itemsOf (p : Phone) (data : List String) : List InputItem :=
  data.mapIdx fun i data =>
    ⟨data, if i = 0 then none else some enterDelayMs, p.count + i, p.session⟩

def enqueue (p : Phone) (data : List String) : Phone :=
  if !p.inputReady then p
  else { p with count := p.count + data.length }.push (p.itemsOf data)

def timer (p : Phone) : Phone :=
  match p.pump with
  | .delaying item => p.sendOne item
  | _ => p

/-- The POST that the queue waits for is settled. -/
def markSettled (p : Phone) : Phone :=
  match p.pump with
  | .sending _ (some i) => { p with
      posts := p.posts.modify i fun post => { post with settled := true } }
  | _ => p

def settle (p : Phone) : Phone :=
  match p.pump with
  | .sending _ (some i) =>
    match p.posts[i]? with
    | some post => if post.stage = .written then p.markSettled.next else p
    | none => p
  | _ => p

/-- The rest of the queue is dropped. -/
def dropRest (p : Phone) : Phone :=
  { p.markSettled with
    dropped := p.dropped ++ p.waiting.map InputItem.number
    items := []
    pump := .rest }

/-- A view of another shell starts over. -/
def fail (p : Phone) (conflict : Bool) : Phone :=
  match p.pump with
  | .sending _ _ =>
    if conflict then p.dropRest.withRemote (p.dropRest.remote.step .startOver) else p.dropRest
  | _ => p

/-! ## The server -/

/-- `resolve_input_session`: the token must be that of the live session. -/
def resolveInputSession (w : Remote) (token : String) : PostStage :=
  match w.current with
  | none => .refused
  | some index =>
    match w.sessions[index]? with
    | none => .refused
    | some s => if token = sessionToken w.epoch s.id then .found index else .refused

/-- A POST gets to the handler. -/
def resolvePost (w : Remote) (post : InputPost) : InputPost :=
  match post.stage with
  | .sent => { post with stage := resolveInputSession w post.token }
  | _ => post

def resolve (p : Phone) (i : Nat) : Phone :=
  { p with posts := p.posts.modify i (resolvePost p.remote) }

/-- `write_input`: a write that fails may have written a part. -/
def write (p : Phone) (i : Nat) (ok : Bool) : Phone :=
  match p.posts[i]? with
  | none => p
  | some post =>
    match post.stage with
    | .found index => { p with
        written := p.written ++ [(index, post.item)]
        posts := p.posts.modify i fun post =>
          { post with stage := if ok then .written else .broken } }
    | _ => p

def step (p : Phone) : Action → Phone
  | .remote a => p.remoteStep a
  | .drawn => p.drawn
  | .enqueue data => p.enqueue data
  | .timer => p.timer
  | .resolve i => p.resolve i
  | .write i ok => p.write i ok
  | .settle => p.settle
  | .fail conflict => p.fail conflict

/-- A conflict is answered to a POST that was refused. -/
def admits (p : Phone) : Action → Prop
  | .remote a => Remote.machine.admits p.remote a
  | .fail true => ∃ item i post, p.pump = .sending item (some i) ∧ p.posts[i]? = some post ∧
      post.stage = .refused
  | _ => True

/-- A POST that fails, if it did not yet: it comes too late for its session. -/
def dooms (w : Remote) (post : InputPost) : Bool :=
  match post.stage with
  | .sent => decide (resolveInputSession w post.token = .refused)
  | .refused | .broken => true
  | .found _ | .written => false

/-- What the queue waits for can only fail. -/
def doomed (p : Phone) : Bool :=
  match p.pump with
  | .sending _ none => true
  | .sending _ (some i) => p.posts[i]?.any (dooms p.remote)
  | _ => false

/-- The items that may still be posted. -/
def pending (p : Phone) : List InputItem := if p.doomed then [] else p.waiting

/-- A snapshot of a session reaches a view that has none, while an item may still be posted that
was queued for another one. -/
def Overtakes (p : Phone) : Action → Prop
  | .remote .receive => ∃ query screen token got,
      p.remote.request = some ⟨p.remote.client.generation, query, .answered screen token⟩ ∧
      parseScreenMeta screen token = some got ∧ p.remote.client.state.phase = .full ∧
      got.reset = true ∧ ∃ item ∈ p.pending, item.shown ≠ some got.session
  | _ => False

def machine : Machine Phone Action := ⟨step, admits⟩

/-- Runs in which no session overtakes an item. -/
def steadyMachine : Machine Phone Action := ⟨step, fun p a => p.admits a ∧ ¬ p.Overtakes a⟩

def Start (p : Phone) : Prop :=
  ∃ w, Remote.Start w ∧ p = ⟨w, false, none, [], .rest, [], [], [], 0⟩

end Phone

end Mast
