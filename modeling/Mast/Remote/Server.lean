import Mast.Remote.Http

/-!
# Requests to the remote server

`routes.rs` and `server.rs`: one connection, from the socket to the response. The order
of the checks is that of `handle`. What the rate limiter, the dispatcher and the PTY
answer is a parameter (`ServerCtx`); the other handlers are one (`other`).

Results:
1. `readBody_eq`: the body is what the head announces of the bytes behind it, or nothing.
-/

namespace Mast

/-! ## Routes -/

inductive Route
  | state
  | screen (tab : Nat) (since : Option Nat) (session : Option String)
  | input (tab : Nat) (session : Option String)
  | static (key : String)
  | notFound
  | badRequest
deriving DecidableEq, Repr

def indexKey : String := "remote/index.html"

def parseU64 (raw : String) : Option Nat := parseDigits (2 ^ 64 - 1) raw.toList

/-- The pieces between the separators. -/
def splitAll (c : Char) (text : List Char) : List String :=
  (text.splitOn c).map String.ofList

def queryParam (query : Option String) (key : String) : Option String :=
  query.bind fun query => (splitAll '&' query.toList).findSome? fun pair =>
    let (k, v) := (splitOnce '=' pair.toList).getD (pair.toList, [])
    if String.ofList k = key then some (String.ofList v) else none

def sessionParam (query : Option String) : Option String :=
  (queryParam query "session").filter fun s => s ≠ ""

def isAsciiAlphanumeric (c : Char) : Bool :=
  c.isAlphanum

/-- `^[A-Za-z0-9][A-Za-z0-9._-]*$` -/
def isSafeSegment (seg : String) : Bool :=
  match seg.toList with
  | [] => false
  | first :: rest => isAsciiAlphanumeric first &&
      rest.all fun c => isAsciiAlphanumeric c || c = '.' || c = '_' || c = '-'

def route (method : HttpMethod) (path : String) (query : Option String) : Route :=
  match path.toList with
  | '/' :: rest =>
    if rest = [] then
      match method with
      | .get => .static indexKey
      | _ => .notFound
    else
      match splitAll '/' rest, method with
      | ["api", "state"], .get => .state
      | ["api", "tabs", tab, "screen"], .get =>
        match parseU64 tab with
        | none => .notFound
        | some tab =>
          match queryParam query "since" with
          | none => .screen tab none (sessionParam query)
          | some raw =>
            match parseU64 raw with
            | some value => .screen tab (some value) (sessionParam query)
            | none => .badRequest
      | ["api", "tabs", tab, "input"], .post =>
        match parseU64 tab with
        | none => .notFound
        | some tab => .input tab (sessionParam query)
      | "remote" :: seg :: tail, .get =>
        if (seg :: tail).all isSafeSegment then .static (String.ofList rest) else .notFound
      | _, _ => .notFound
  | _ => .notFound

/-! ## Responses -/

/-- `drain`: what the client still sends is read away before the connection closes. -/
structure Response where
  status : Nat
  reason : String
  contentType : String
  headers : List (String × String)
  body : List UInt8
  drain : Bool
deriving DecidableEq, Repr

namespace Response

def okEmpty : Response := ⟨200, "OK", "text/plain", [], [], false⟩

def error (status : Nat) (reason message : String) : Response :=
  ⟨status, reason, "application/json", [],
    Utf8.bytes ("\x7b\"error\":\"" ++ message ++ "\"\x7d"), true⟩

def notFound : Response := error 404 "Not Found" "not found"

def tooManyRequests : Response :=
  { error 429 "Too Many Requests" "too many requests" with headers := [("Retry-After", "60")] }

end Response

/-! ## The body -/

/-- What a read of the body adds to it. -/
def absorbBody (length : Nat) (body piece : List UInt8) : List UInt8 :=
  body ++ piece.take (length - body.length)

/-- The body is whole. -/
def bodyDecision (length : Nat) (body : List UInt8) : Option Unit :=
  if body.length < length then none else some ()

/-- `read_body`: what came with the head, and reads of at most 4096 bytes. -/
def readBody (src : Source UInt8) (buf : List UInt8) (headLen length : Nat) :
    Option (List UInt8) :=
  match Source.readUntil 4096 (by decide) (bodyDecision length) (absorbBody length)
    ((buf.drop headLen).take length) src with
  | (some (), body, _) => some body
  | (none, _, _) => none

/-! ## One request -/

/-- What the server knows besides the bytes of the request, and what its other parts
answer to it. -/
structure ServerCtx where
  token : String
  /-- What the rate limiter says when the connection is accepted, and when the head is
  there. -/
  admits : Bool
  stillAdmits : Bool
  /-- The failure that is recorded now blocks the address. -/
  blocks : Bool
  resolveInputSession : Nat → Option String → Except Response Unit
  /-- The PTY takes this input. -/
  ptyWrites : List UInt8 → Bool
  other : Route → Response

def needsAuth : Route → Bool
  | .state | .screen .. | .input .. => true
  | .static _ | .notFound | .badRequest => false

def authorized (head : Head) (expected : String) : Bool :=
  match head.authorization with
  | none => false
  | some value =>
    match splitOnce ' ' (trim value.toList) with
    | none => false
    | some (scheme, credential) =>
      eqIgnoreAsciiCase (String.ofList scheme) "bearer" &&
        String.ofList (trim credential) = expected

/-- What came of a request: the response, and what was written to the PTY. -/
structure Outcome where
  response : Option Response
  written : Option (List UInt8)

namespace ServerCtx

def writeInput (ctx : ServerCtx) (body : List UInt8) : Response :=
  if ctx.ptyWrites body then .okEmpty else .error 500 "Internal Server Error" "write failed"

/-- `input`: framing first, then the session, then the body. -/
def input (ctx : ServerCtx) (src : Source UInt8) (head : Head) (headLen : Nat)
    (buf : List UInt8) (tab : Nat) (session : Option String) : Response × Option (List UInt8) :=
  if head.hasTransferEncoding then
    (.error 411 "Length Required" "content-length required", none)
  else if head.duplicateContentLength then
    (.error 400 "Bad Request" "conflicting content-length", none)
  else if head.hasExpect then (.error 417 "Expectation Failed" "expectation failed", none)
  else
    match head.contentLength with
    | none => (.error 411 "Length Required" "content-length required", none)
    | some length =>
      if maxBodyBytes < length then (.error 413 "Content Too Large" "body too large", none)
      else
        match ctx.resolveInputSession tab session with
        | .error response => (response, none)
        | .ok () =>
          match readBody src buf headLen length with
          | none => (.error 400 "Bad Request" "incomplete body", none)
          | some body => (ctx.writeInput body, some body)

/-- The steps of `handle` behind the head. -/
def respond (ctx : ServerCtx) (src : Source UInt8) (head : Head) (headLen : Nat)
    (buf : List UInt8) : Outcome :=
  let target := route head.method head.path head.query
  let declaredBody := head.contentLength.any (0 < ·) || head.hasTransferEncoding
  let (response, written) : Response × Option (List UInt8) :=
    match target with
    | .notFound => (.notFound, none)
    | .badRequest => (.error 400 "Bad Request" "bad request", none)
    | target =>
      if !ctx.stillAdmits then (.tooManyRequests, none)
      else if needsAuth target && !authorized head ctx.token then
        if ctx.blocks then (.tooManyRequests, none)
        else (.error 401 "Unauthorized" "unauthorized", none)
      else
        match target with
        | .input tab session => ctx.input src head headLen buf tab session
        | target => (ctx.other target, none)
  let isInput := match target with
    | .input .. => true
    | _ => false
  ⟨some (if declaredBody && !isInput then { response with drain := true } else response), written⟩

/-- `handle`: one connection. -/
def handle (ctx : ServerCtx) (h : Httparse) (src : Source UInt8) : Outcome :=
  if !ctx.admits then ⟨some .tooManyRequests, none⟩
  else
    match h.readHead src with
    | (.error .tooLarge, _, _) =>
      ⟨some (.error 431 "Request Header Fields Too Large" "request head too large"), none⟩
    | (.error .malformed, _, _) => ⟨some (.error 400 "Bad Request" "bad request"), none⟩
    -- there is nobody to answer
    | (.error .eof, _, _) => ⟨none, none⟩
    | (.ok (head, headLen), buf, rest) => ctx.respond rest head headLen buf

end ServerCtx

namespace ServerLemmas

/-- What was kept of the body is the announced part of what was read. -/
theorem take_absorbBody (length : Nat) (got piece : List UInt8) :
    absorbBody length (got.take length) piece = (got ++ piece).take length := by
  unfold absorbBody
  rw [List.take_append, List.length_take]
  rcases Nat.le_total length got.length with h | h
  · rw [Nat.min_eq_left h, Nat.sub_self, Nat.sub_eq_zero_of_le h]
  · rw [Nat.min_eq_right h]

/-- The body is what the head announces of the bytes behind it, or nothing, if they end
before. -/
theorem readBody_eq (src : Source UInt8) (buf : List UInt8) (headLen length : Nat) :
    readBody src buf headLen length =
      let behind := buf.drop headLen ++ src.delivered
      if length ≤ behind.length then some (behind.take length) else none := by
  obtain ⟨body, more, rest, hbody, hres⟩ := Source.readUntil_rule (by decide : 0 < 4096)
    (bodyDecision length) (absorbBody length)
    (fun body got => body = (buf.drop headLen ++ got).take length)
    (fun body got piece hI _ _ _ => by rw [hI, take_absorbBody, List.append_assoc])
    (by rw [List.append_nil] : _ = (buf.drop headLen ++ []).take length) src
  rw [List.nil_append] at hbody
  have hlen : ∀ all : List UInt8, (length ≤ all.length ↔ ¬ (all.take length).length < length) := by
    intro all
    rw [List.length_take]
    omega
  dsimp only
  unfold readBody
  obtain ⟨_, hwhole, hdel, heq⟩ | ⟨hopen, hdel, heq⟩ := hres
  · have hdone : ¬ body.length < length := fun hlt => by
      rw [bodyDecision, if_pos hlt] at hwhole
      cases hwhole
    have hmore : length ≤ (buf.drop headLen ++ more).length := (hlen _).mpr (hbody ▸ hdone)
    rw [heq, hdel, ← List.append_assoc, if_pos (hmore.trans (by simp)), hbody,
      List.take_append_of_le_length hmore]
  · have hshort : body.length < length := by
      by_contra hle
      rw [bodyDecision, if_neg hle] at hopen
      cases hopen
    rw [heq, hdel, if_neg fun hle => (hlen _).mp hle (hbody ▸ hshort)]

end ServerLemmas

end Mast
