import Mast.Machine
import Mast.Remote.Framing
import Mast.Remote.Input
import Mast.Remote.Screen
import Mast.Remote.Wire

/-!
# The exchange of a page with its server

`api.ts`: the requests of the phone page, and what it makes of the bytes of an answer. Between
the page and the handlers there are the browser and the parser of heads; the bytes of a request
are those that the parser reads as the request that the page made.

Results:
1. `response_written`: every answer is read back as it was written, and no part of one is.
2. `screen_exchange`: one poll over bytes is the poll of the system without them.
3. `input_exchange`: the text of a POST is written as it is, to the session it names, or not;
  of a POST that is cut off in its head nothing is, and nobody is answered.
-/

namespace Mast

/-! ## Requests -/

/-- The headers that the server reads. -/
def isRead (header : String × List UInt8) : Bool :=
  eqIgnoreAsciiCase header.1 "authorization" || eqIgnoreAsciiCase header.1 "content-length" ||
    eqIgnoreAsciiCase header.1 "transfer-encoding" || eqIgnoreAsciiCase header.1 "expect"

def authorizationHeader (token : String) : String × List UInt8 :=
  ("Authorization", Utf8.bytes ("Bearer " ++ token))

def lengthHeader (body : List UInt8) : String × List UInt8 :=
  ("Content-Length", Utf8.bytes (toString body.length))

/-- The path of `fetchScreen`. -/
def screenPath (tab : Nat) (query : Option ScreenQuery) : String :=
  "/api/tabs/" ++ toString tab ++ "/screen" ++
    match query with
    | none => ""
    | some q => "?since=" ++ toString q.since ++ "&session=" ++ q.session

/-- The path of `postInput`. -/
def inputPath (tab : Nat) (session : String) : String :=
  "/api/tabs/" ++ toString tab ++ "/input" ++ "?session=" ++ session

/-- The parser reads this request from the stream, and its head is within the bound. -/
structure Receives (h : Httparse) (src : Source UInt8) (req : HttpRequest) (len : Nat) : Prop where
  within : len ≤ maxHeadBytes
  le_length : len ≤ src.delivered.length
  parsed : h.parse (src.delivered.take len) = .complete req len

/-- These bytes are the head of this request, and within the bound. -/
structure IsHead (h : Httparse) (bytes : List UInt8) (req : HttpRequest) : Prop where
  within : bytes.length ≤ maxHeadBytes
  parsed : h.parse bytes = .complete req bytes.length

/-! ## Answers -/

/-- What `request` and `fetchScreen` return or throw. -/
inductive FetchedScreen
  | reply (got : ScreenMeta) (bytes : List UInt8)
  | httpError (status : Nat)
  | failed
deriving DecidableEq, Repr

/-- `parseCount` -/
def parseCountText (raw : Option String) : Option Nat :=
  raw.bind fun raw => parseDigits maxSafeInteger raw.toList

/-- `parseScreenMeta`, of headers. -/
def parseScreenHeaders (headerGet : String → Option String) : Option ScreenMeta := do
  let endOffset ← parseCountText (headerGet "X-Mast-End-Offset")
  let cols ← parseCountText (headerGet "X-Mast-Cols")
  let rows ← parseCountText (headerGet "X-Mast-Rows")
  let resetRaw ← headerGet "X-Mast-Reset"
  let session ← headerGet "X-Mast-Session"
  if resetRaw ≠ "0" ∧ resetRaw ≠ "1" then none
  else if session = "" then none
  else some { endOffset, reset := decide (resetRaw = "1"), cols, rows, session }

/-- `response.ok` -/
def HttpReply.isOk (reply : HttpReply) : Bool := decide (200 ≤ reply.status ∧ reply.status < 300)

def fetchScreen (answer : List UInt8) : FetchedScreen :=
  match readReply answer with
  | none => .failed
  | some reply =>
    if reply.isOk then
      match parseScreenHeaders (getField reply.fields) with
      | some got => .reply got reply.body
      | none => .failed
    else .httpError reply.status

/-- What `postInput` returns or throws: `none` if there is no answer. -/
def postInput (answer : List UInt8) : Option (Except Nat Unit) :=
  (readReply answer).map fun reply => if reply.isOk then .ok () else .error reply.status

/-- `poll` of the view, behind the answer. -/
def RemoteClient.settle (c : RemoteClient) : FetchedScreen → RemoteClient
  | .reply got bytes => c.apply got bytes
  | .httpError status => if status = 409 ∨ status = 404 then c.resetToFull else c
  | .failed => c

/-! ## The two ends -/

/-- `is_valid_token`, the characters. -/
def isTokenChar (c : Char) : Bool := isAsciiAlphanumeric c || c == '-' || c == '_'

/-- The server is that of this system, and the tab is its tab. -/
structure Serves (deps : RemoteDeps) (tab : Nat) (w : Remote) : Prop where
  tab_le : tab ≤ maxSafeInteger
  token_chars : ∀ c ∈ deps.token.toList, isTokenChar c = true
  token_ne : deps.token ≠ ""
  epoch : deps.epoch = w.epoch
  unpoisoned : deps.dispatcher.isSome = true
  live : (deps.liveSession tab).toOption = w.current.bind fun index => w.sessions[index]?

namespace ExchangeLemmas

open WireLemmas ServerCtx

/-! ### The head of a request -/

variable {headers : List (String × List UInt8)} {token : String} {tab : Nat}

theorem headHeader_unread {head : Head} {header : String × List UInt8}
    (h : isRead header = false) : headHeader head header = .ok head := by
  simp only [isRead, Bool.or_eq_false_iff] at h
  obtain ⟨⟨⟨hauthorization, hlength⟩, hencoding⟩, hexpect⟩ := h
  simp [headHeader, hauthorization, hlength, hencoding, hexpect]

/-- The headers that are not read do not matter. -/
theorem foldlM_isRead (head : Head) (headers : List (String × List UInt8)) :
    headers.foldlM headHeader head = (headers.filter isRead).foldlM headHeader head := by
  induction headers generalizing head with
  | nil => rfl
  | cons header headers ih =>
    rw [List.foldlM_cons]
    cases hread : isRead header with
    | false =>
      rw [headHeader_unread hread, List.filter_cons_of_neg (Bool.eq_false_iff.mp hread)]
      exact ih head
    | true =>
      rw [List.filter_cons_of_pos hread, List.foldlM_cons]
      cases headHeader head header with
      | error e => rfl
      | ok head => exact ih head

theorem headHeader_authorization {head : Head} (hnone : head.authorization = none) :
    headHeader head (authorizationHeader token) =
      .ok { head with authorization := some ("Bearer " ++ token) } := by
  have hname : eqIgnoreAsciiCase "Authorization" "authorization" = true := by decide
  have hvalue : fromUtf8 (Utf8.bytes ("Bearer " ++ token)) = some ("Bearer " ++ token) :=
    fromUtf8_iff.mpr rfl
  rw [headHeader, authorizationHeader, if_pos hname, hnone, hvalue]
  rfl

theorem parseDigits_toString {n max : Nat} (h : n ≤ max) :
    parseDigits max (toString n).toList = some n := by
  have hne : (Utf8.bytes (toString n)).isEmpty = false := by
    rw [bytes_toString, List.isEmpty_map, List.isEmpty_eq_false_iff]
    exact Nat.toDigits_ne_nil
  have hdecimal : decimal (Utf8.bytes (toString n)) = n := by
    rw [bytes_toString, ModesLemmas.decimal_toDigits]
  rw [parseDigits, String.ofList_toList, hne, all_digits, hdecimal, if_neg (by decide), if_pos h]

theorem isWhiteSpace_of_graphic {c : Char} (h : 0x20 < c.toNat ∧ c.toNat < 0x7f) :
    Utf8.isWhiteSpace c = false := by
  obtain ⟨hlow, hhigh⟩ := h
  simp only [Utf8.isWhiteSpace, Bool.or_eq_false_iff, Bool.and_eq_false_iff,
    decide_eq_false_iff_not, List.mem_cons, List.not_mem_nil, or_false]
  omega

theorem trim_of_graphic {text : List Char} (h : ∀ c ∈ text, 0x20 < c.toNat ∧ c.toNat < 0x7f) :
    trim text = text := by
  refine Message.strip_of_ends ?_ ?_
  · intro c hc
    exact isWhiteSpace_of_graphic (h c (List.mem_of_head? hc))
  · intro c hc
    exact isWhiteSpace_of_graphic (h c (List.mem_of_getLast? hc))

theorem headHeader_length {head : Head} {body : List UInt8} (hnone : head.contentLength = none)
    (hle : body.length ≤ usizeMax) : headHeader head (lengthHeader body) =
      .ok { head with contentLength := some body.length } := by
  have hname : eqIgnoreAsciiCase "Content-Length" "authorization" = false := by decide
  have hname' : eqIgnoreAsciiCase "Content-Length" "content-length" = true := by decide
  have hvalue : fromUtf8 (Utf8.bytes (toString body.length)) = some (toString body.length) :=
    fromUtf8_iff.mpr rfl
  rw [headHeader, lengthHeader, hname, hname', hvalue]
  dsimp only
  rw [trim_of_graphic (isGraphic_toString _), parseDigits_toString hle, hnone]
  rfl

theorem ok_bind {ε α β : Type} (a : α) (f : α → Except ε β) : (Except.ok a >>= f) = f a := rfl

/-- The head of a request without a body. -/
theorem headFrom_get (hread : headers.filter isRead = [authorizationHeader token])
    (method target : String) : headFrom ⟨some method, some target, headers⟩ =
      .ok ⟨requestMethod method, (splitTarget target).1, (splitTarget target).2,
        some ("Bearer " ++ token), none, false, false, false⟩ := by
  rw [headFrom]
  dsimp only
  rw [foldlM_isRead, hread, List.foldlM_cons, headHeader_authorization rfl]
  rfl

/-- The head of a request with a body. -/
theorem headFrom_post {body : List UInt8} (hle : body.length ≤ usizeMax)
    (hread : headers.filter isRead = [authorizationHeader token, lengthHeader body] ∨
      headers.filter isRead = [lengthHeader body, authorizationHeader token])
    (method target : String) : headFrom ⟨some method, some target, headers⟩ =
      .ok ⟨requestMethod method, (splitTarget target).1, (splitTarget target).2,
        some ("Bearer " ++ token), some body.length, false, false, false⟩ := by
  rw [headFrom]
  dsimp only
  rw [foldlM_isRead]
  rcases hread with hread | hread
  · rw [hread, List.foldlM_cons, headHeader_authorization rfl, ok_bind, List.foldlM_cons,
      headHeader_length rfl hle]
    rfl
  · rw [hread, List.foldlM_cons, headHeader_length rfl hle, ok_bind, List.foldlM_cons,
      headHeader_authorization rfl]
    rfl

/-! ### Targets -/

theorem not_mem_toString {c : Char} (hc : c.isDigit = false) (n : Nat) :
    c ∉ (toString n).toList := by
  rw [toList_toString]
  intro hmem
  rw [Nat.isDigit_of_mem_toDigits (by decide) (by decide) hmem] at hc
  cases hc

theorem not_mem_sessionToken {c : Char} (hc : c.isDigit = false) (hcolon : c ≠ ':')
    (epoch : UInt64) (id : SessionId) : c ∉ (sessionToken epoch id).toList := by
  rw [sessionToken, String.toList_append, String.toList_append, List.mem_append, List.mem_append]
  rintro ((hepoch | htext) | hid)
  · exact not_mem_toString hc epoch.toNat hepoch
  · exact hcolon (List.mem_singleton.mp htext)
  · exact not_mem_toString hc id.toNat hid

/-- The path of a tab, up to its query. -/
def tabPath (tab : Nat) (leaf : String) : String := "/api/tabs/" ++ toString tab ++ leaf

theorem not_mem_tabPath {c : Char} {leaf : String} (hc : c.isDigit = false)
    (hpath : c ∉ "/api/tabs/".toList) (hleaf : c ∉ leaf.toList) :
    c ∉ (tabPath tab leaf).toList := by
  rw [tabPath, String.toList_append, String.toList_append, List.mem_append, List.mem_append]
  rintro ((h | h) | h)
  · exact hpath h
  · exact not_mem_toString hc tab h
  · exact hleaf h

theorem splitTarget_query {path : String} (h : '?' ∉ path.toList) (query : String) :
    splitTarget (path ++ "?" ++ query) = (path, some query) := by
  have htext : (path ++ "?" ++ query).toList = path.toList ++ '?' :: query.toList := by
    rw [String.toList_append, String.toList_append, List.append_assoc]
    rfl
  rw [splitTarget, htext, splitOnce_append h]
  dsimp only
  rw [String.ofList_toList, String.ofList_toList]

theorem splitTarget_plain {path : String} (h : '?' ∉ path.toList) :
    splitTarget path = (path, none) := by
  rcases splitOnce_cases '?' path.toList with ⟨hnone, -⟩ | ⟨first, rest, -, htext, -⟩
  · rw [splitTarget, hnone]
  · refine absurd ?_ h
    rw [htext]
    exact List.mem_append_right _ List.mem_cons_self

theorem splitAll_append {c : Char} {text : List Char} (h : c ∉ text) (rest : List Char) :
    splitAll c (text ++ c :: rest) = String.ofList text :: splitAll c rest := by
  rw [splitAll, List.splitOn_append_cons_self, List.splitOn_eq_singleton h]
  rfl

theorem splitAll_singleton {c : Char} {text : List Char} (h : c ∉ text) :
    splitAll c text = [String.ofList text] := by
  rw [splitAll, List.splitOn_eq_singleton h]
  rfl

theorem segments_tabPath (tab : Nat) {leaf : List Char} (h : '/' ∉ leaf) :
    splitAll '/' ("api/tabs/".toList ++ (toString tab).toList ++ '/' :: leaf) =
      ["api", "tabs", toString tab, String.ofList leaf] := by
  have htext : "api/tabs/".toList ++ (toString tab).toList ++ '/' :: leaf =
      "api".toList ++ '/' :: ("tabs".toList ++ '/' :: ((toString tab).toList ++ '/' :: leaf)) := by
    simp
  rw [htext, splitAll_append (by decide), splitAll_append (by decide),
    splitAll_append (not_mem_toString (by decide) tab), splitAll_singleton h,
    String.ofList_toList, String.ofList_toList, String.ofList_toList]

theorem parseU64_toString {n : Nat} (h : n ≤ maxSafeInteger) : parseU64 (toString n) = some n :=
  parseDigits_toString (h.trans (by decide))

theorem route_screen (htab : tab ≤ maxSafeInteger) (query : Option String) :
    route .get (tabPath tab "/screen") query =
      match queryParam query "since" with
      | none => .screen tab none (sessionParam query)
      | some raw =>
        match parseU64 raw with
        | some value => .screen tab (some value) (sessionParam query)
        | none => .badRequest := by
  have htext : (tabPath tab "/screen").toList =
      '/' :: ("api/tabs/".toList ++ (toString tab).toList ++ '/' :: "screen".toList) := by
    simp [tabPath]
  rw [route, htext]
  show (if _ then _ else _) = _
  rw [if_neg (by simp), segments_tabPath tab (by decide), String.ofList_toList]
  cases queryParam query "since" with
  | none => simp only [parseU64_toString htab]
  | some raw => cases hraw : parseU64 raw <;> simp only [parseU64_toString htab, hraw]

theorem route_input (htab : tab ≤ maxSafeInteger) (query : Option String) :
    route .post (tabPath tab "/input") query = .input tab (sessionParam query) := by
  have htext : (tabPath tab "/input").toList =
      '/' :: ("api/tabs/".toList ++ (toString tab).toList ++ '/' :: "input".toList) := by
    simp [tabPath]
  rw [route, htext]
  show (if _ then _ else _) = _
  rw [if_neg (by simp), segments_tabPath tab (by decide), String.ofList_toList]
  simp only [parseU64_toString htab]
  exact nofun

/-! ### Queries -/

theorem splitOnce_pair {key : String} (h : '=' ∉ key.toList) (value : String) :
    splitOnce '=' (key ++ "=" ++ value).toList = some (key.toList, value.toList) := by
  have htext : (key ++ "=" ++ value).toList = key.toList ++ '=' :: value.toList := by
    rw [String.toList_append, String.toList_append, List.append_assoc]
    rfl
  rw [htext, splitOnce_append h]

/-- The two parameters of a screen request. -/
theorem queryParam_screen {since session : String} (hsince : '&' ∉ since.toList)
    (hsession : '&' ∉ session.toList) (key : String) :
    queryParam (some ("since" ++ "=" ++ since ++ "&" ++ ("session" ++ "=" ++ session))) key =
      if "since" = key then some since else if "session" = key then some session else none := by
  have htext : ("since" ++ "=" ++ since ++ "&" ++ ("session" ++ "=" ++ session)).toList =
      ("since" ++ "=" ++ since).toList ++ '&' :: ("session" ++ "=" ++ session).toList := by
    rw [String.toList_append, String.toList_append, List.append_assoc]
    rfl
  have hfirst : '&' ∉ ("since" ++ "=" ++ since).toList := by
    rw [String.toList_append, List.mem_append, not_or]
    exact ⟨by decide, hsince⟩
  have hsecond : '&' ∉ ("session" ++ "=" ++ session).toList := by
    rw [String.toList_append, List.mem_append, not_or]
    exact ⟨by decide, hsession⟩
  rw [queryParam, Option.bind_some, htext, splitAll_append hfirst, splitAll_singleton hsecond,
    String.ofList_toList, String.ofList_toList, List.findSome?_cons, List.findSome?_cons,
    splitOnce_pair (by decide), splitOnce_pair (by decide)]
  simp only [Option.getD_some, String.ofList_toList, List.findSome?_nil]
  by_cases hkey : "since" = key
  · rw [if_pos hkey, if_pos hkey]
  · rw [if_neg hkey, if_neg hkey]
    by_cases hkey' : "session" = key
    · rw [if_pos hkey']
    · rw [if_neg hkey']

/-- The parameter of an input request. -/
theorem queryParam_input {session : String} (hsession : '&' ∉ session.toList) :
    queryParam (some ("session" ++ "=" ++ session)) "session" = some session := by
  have hpiece : '&' ∉ ("session" ++ "=" ++ session).toList := by
    rw [String.toList_append, List.mem_append, not_or]
    exact ⟨by decide, hsession⟩
  rw [queryParam, Option.bind_some, splitAll_singleton hpiece, String.ofList_toList,
    List.findSome?_cons, splitOnce_pair (by decide)]
  simp only [Option.getD_some, String.ofList_toList, if_true]

/-! ### The token -/

theorem toNat_of_tokenChar {c : Char} (h : isTokenChar c = true) :
    0x20 < c.toNat ∧ c.toNat < 0x7f := by
  rw [isTokenChar, Bool.or_eq_true, Bool.or_eq_true, beq_iff_eq, beq_iff_eq] at h
  rcases h with (halnum | rfl) | rfl
  · have hkinds : (decide (c.val ≥ 'A'.val ∧ c.val ≤ 'Z'.val) ||
        (decide (c.val ≥ 'a'.val) && decide (c.val ≤ 'z'.val)) ||
        (decide (c.val ≥ '0'.val) && decide (c.val ≤ '9'.val))) = true := halnum
    simp only [Bool.or_eq_true, Bool.and_eq_true, decide_eq_true_eq, ge_iff_le,
      UInt32.le_iff_toNat_le] at hkinds
    have hval : c.toNat = c.val.toNat := rfl
    have hupper : 'A'.val.toNat = 65 ∧ 'Z'.val.toNat = 90 := ⟨rfl, rfl⟩
    have hlower : 'a'.val.toNat = 97 ∧ 'z'.val.toNat = 122 := ⟨rfl, rfl⟩
    have hdigit : '0'.val.toNat = 48 ∧ '9'.val.toNat = 57 := ⟨rfl, rfl⟩
    omega
  · decide
  · decide

theorem authorized_bearer {head : Head} {token : String}
    (hauthorization : head.authorization = some ("Bearer " ++ token))
    (hchars : ∀ c ∈ token.toList, isTokenChar c = true) (hne : token ≠ "") :
    authorized head token = true := by
  have hgraphic : ∀ c ∈ token.toList, 0x20 < c.toNat ∧ c.toNat < 0x7f := by
    intro c hc
    exact toNat_of_tokenChar (hchars c hc)
  have htext : ("Bearer " ++ token).toList = "Bearer".toList ++ ' ' :: token.toList := by
    rw [String.toList_append]
    rfl
  have htrim : trim ("Bearer " ++ token).toList = "Bearer".toList ++ ' ' :: token.toList := by
    rw [htext]
    refine Message.strip_of_ends ?_ ?_
    · intro c hc
      obtain rfl := Option.some_inj.mp hc
      decide
    · intro c hc
      have hlast : c ∈ token.toList.getLast? := by
        rwa [List.getLast?_append_of_ne_nil _ (List.cons_ne_nil _ _),
          List.getLast?_cons_of_ne_nil (by simpa using hne)] at hc
      exact isWhiteSpace_of_graphic (hgraphic c (List.mem_of_getLast? hlast))
  have hscheme : eqIgnoreAsciiCase (String.ofList "Bearer".toList) "bearer" = true := by decide
  rw [authorized, hauthorization]
  dsimp only
  rw [htrim, splitOnce_append (by decide)]
  dsimp only
  rw [hscheme, trim_of_graphic hgraphic, String.ofList_toList]
  simp

/-! ### The server -/

variable {parser : Httparse} {src : Source UInt8} {req : HttpRequest} {len : Nat} {head : Head}
  {deps : RemoteDeps} {blocks : Bool} {ptyWrites : List UInt8 → Bool}

/-- A request that is received is answered as its head says. -/
theorem handle_of_receives {ctx : ServerCtx} (h : Receives parser src req len)
    (hhead : headFrom req = .ok head) (hadmits : ctx.admits = true) :
    ∃ rest buf, ctx.handle parser src = ctx.respond rest head len buf ∧
      buf.drop len ++ rest.delivered = src.delivered.drop len := by
  have hstart : StartsWithHead parser src.delivered head len :=
    ⟨h.within, h.le_length, req, h.parsed, hhead⟩
  obtain ⟨hwithin, hd⟩ := FramingLemmas.startsWithHead_iff.mp hstart
  have hfirst := FramingLemmas.readHead_early rfl hd hwithin
  cases hread : parser.readHead src with
  | mk r tail =>
    obtain ⟨buf, rest⟩ := tail
    rw [hread] at hfirst
    obtain rfl : r = .ok (head, len) := hfirst
    refine ⟨rest, buf, ?_, FramingLemmas.behind_head rfl hread rfl⟩
    rw [ServerCtx.handle, hadmits, hread]
    rfl

theorem receives_of_isHead {bytes : List UInt8} (h : IsHead parser bytes req)
    (hwhole : bytes <+: src.delivered) : Receives parser src req bytes.length where
  within := h.within
  le_length := hwhole.length_le
  parsed := by rw [← List.prefix_iff_eq_take.mp hwhole, h.parsed]

/-- The parser has no result before the end of a head. -/
theorem judge_of_cut {bytes part : List UInt8} (h : IsHead parser bytes req)
    (hpart : part <+: bytes) (hlt : part.length < bytes.length) : parser.judge part = none := by
  obtain ⟨rest, rfl⟩ := hpart
  refine HttpLemmas.judge_eq_none.mpr (by_contra fun hresult => ?_)
  have hparsed := parser.stable part rest hresult
  rw [h.parsed] at hparsed
  exact Nat.not_le_of_lt hlt (parser.complete_le _ _ _ hparsed.symm)

/-- A request that is cut off in its head is not answered. -/
theorem handle_of_cut {ctx : ServerCtx} {bytes : List UInt8} (h : IsHead parser bytes req)
    (hpart : src.delivered <+: bytes) (hlt : src.delivered.length < bytes.length)
    (hadmits : ctx.admits = true) : ctx.handle parser src = ⟨none, none⟩ := by
  have hopen : ∀ m ≤ maxHeadBytes + 1023, parser.judge (src.delivered.take m) = none := by
    intro m _
    have htake := List.take_prefix m src.delivered
    exact judge_of_cut h (htake.trans hpart) (Nat.lt_of_le_of_lt htake.length_le hlt)
  have hend := FramingLemmas.readHead_open rfl hopen
  rw [if_neg (Nat.not_le_of_lt (Nat.lt_of_lt_of_le hlt h.within))] at hend
  exact FramingLemmas.handle_eof hadmits hend

theorem respond_screen {rest : Source UInt8} {buf : List UInt8} {since : Option Nat}
    {session : Option String}
    (hroute : route head.method head.path head.query = .screen tab since session)
    (hauthorized : authorized head deps.token = true) (hlength : head.contentLength = none)
    (hencoding : head.hasTransferEncoding = false) :
    (deps.server true true blocks ptyWrites).respond rest head len buf =
      ⟨some (deps.screen tab since session), none⟩ := by
  have htoken : authorized head (deps.server true true blocks ptyWrites).token = true :=
    hauthorized
  have hadmits : (deps.server true true blocks ptyWrites).stillAdmits = true := rfl
  rw [ServerCtx.respond, hroute]
  dsimp only
  rw [hadmits, htoken, hlength, hencoding]
  rfl

theorem respond_input {rest : Source UInt8} {buf : List UInt8} {session : Option String}
    (hroute : route head.method head.path head.query = .input tab session)
    (hauthorized : authorized head deps.token = true) :
    (deps.server true true blocks ptyWrites).respond rest head len buf =
      let outcome := (deps.server true true blocks ptyWrites).input rest head len buf tab session
      ⟨some outcome.1, outcome.2⟩ := by
  have htoken : authorized head (deps.server true true blocks ptyWrites).token = true :=
    hauthorized
  have hadmits : (deps.server true true blocks ptyWrites).stillAdmits = true := rfl
  rw [ServerCtx.respond, hroute]
  dsimp only
  rw [hadmits, htoken]
  simp

/-! ### Answers -/

theorem parseCountText_toString (n : Nat) : parseCountText (some (toString n)) = parseCount n := by
  rw [parseCountText, Option.bind_some, parseCount]
  split
  · next h => exact parseDigits_toString h
  next h =>
  have hne : (Utf8.bytes (toString n)).isEmpty = false := by
    rw [bytes_toString, List.isEmpty_map, List.isEmpty_eq_false_iff]
    exact Nat.toDigits_ne_nil
  have hdecimal : decimal (Utf8.bytes (toString n)) = n := by
    rw [bytes_toString, ModesLemmas.decimal_toDigits]
  rw [parseDigits, String.ofList_toList, hne, all_digits, hdecimal, if_neg (by decide), if_neg h]

/-- The fields that the screen handler adds. -/
def screenFields (screen : Screen) (token : String) : List (String × String) :=
  [("X-Mast-End-Offset", toString screen.endOffset),
    ("X-Mast-Reset", if screen.reset then "1" else "0"),
    ("X-Mast-Cols", toString screen.cols), ("X-Mast-Rows", toString screen.rows),
    ("X-Mast-Session", token)]

theorem isGraphic_reset (b : Bool) : IsGraphic (if b then "1" else "0") := by
  cases b
  · decide
  · decide

theorem withHeader_eq {r : Response} {name value : String} (h : IsGraphic value) :
    r.withHeader name value = { r with headers := r.headers ++ [(name, value)] } :=
  if_pos h.isValue.clean

theorem screenOf_eq {epoch : UInt64} {s : RemoteSession} {since : Option Nat}
    {session : Option String} {screen : Screen}
    (hscreen : s.terminal.inner.screenSince s.cols s.rows
      (if session = some (sessionToken epoch s.id) then since.map UInt64.ofNat else none) =
      screen) : RemoteDeps.screenOf epoch s since session =
        ⟨200, "OK", sanitizeMime "application/octet-stream",
          screenFields screen (sessionToken epoch s.id), screen.bytes, false⟩ := by
  have hoffset : IsGraphic (toString screen.endOffset) := isGraphic_toString _
  have hcols : IsGraphic (toString screen.cols) := isGraphic_toString _
  have hrows : IsGraphic (toString screen.rows) := isGraphic_toString _
  unfold RemoteDeps.screenOf
  dsimp only
  rw [hscreen, withHeader_eq hoffset, withHeader_eq (isGraphic_reset _), withHeader_eq hcols,
    withHeader_eq hrows, withHeader_eq (isGraphic_token _ _)]
  rfl

/-- What the page gets of a field that a handler added. -/
theorem getField_added {r : Response} (h : r.Sound) {name value : String}
    (hown : ∀ own ∈ headNames, eqIgnoreAsciiCase own name = false)
    (hadded : (r.headers.filter fun field => eqIgnoreAsciiCase field.1 name) = [(name, value)])
    (hvalue : IsGraphic value) : getField (r.headFields.map encoded) name = some value := by
  rw [getField_encoded (fun field hfield => (isField_of_mem h hfield).1),
    filter_headFields r hown, hadded]
  dsimp only
  rw [List.map_singleton, latin1_bytes hvalue.isAscii, String.intercalate_singleton]

/-- The fields of the screen handler, as the page reads them. -/
theorem parseScreenHeaders_screenFields {r : Response} (h : r.Sound) {screen : Screen}
    {epoch : UInt64} {id : SessionId}
    (hheaders : r.headers = screenFields screen (sessionToken epoch id)) :
    parseScreenHeaders (getField (r.headFields.map encoded)) =
      parseScreenMeta screen (sessionToken epoch id) := by
  have hget : ∀ name value, (∀ own ∈ headNames, eqIgnoreAsciiCase own name = false) →
      ((screenFields screen (sessionToken epoch id)).filter fun field =>
        eqIgnoreAsciiCase field.1 name) = [(name, value)] → IsGraphic value →
      getField (r.headFields.map encoded) name = some value := by
    intro name value hown hadded hvalue
    exact getField_added h hown (hheaders ▸ hadded) hvalue
  have hendOffset := hget "X-Mast-End-Offset" (toString screen.endOffset) (by decide)
    (by simp +decide [screenFields]) (isGraphic_toString _)
  have hcols := hget "X-Mast-Cols" (toString screen.cols) (by decide)
    (by simp +decide [screenFields]) (isGraphic_toString _)
  have hrows := hget "X-Mast-Rows" (toString screen.rows) (by decide)
    (by simp +decide [screenFields]) (isGraphic_toString _)
  have hreset := hget "X-Mast-Reset" (if screen.reset then "1" else "0") (by decide)
    (by simp +decide [screenFields]) (isGraphic_reset _)
  have hsession := hget "X-Mast-Session" (sessionToken epoch id) (by decide)
    (by simp +decide [screenFields]) (isGraphic_token _ _)
  have hcounts : parseCountText (some (toString screen.endOffset)) =
        parseCount screen.endOffset.toNat ∧
      parseCountText (some (toString screen.cols)) = parseCount screen.cols.toNat ∧
      parseCountText (some (toString screen.rows)) = parseCount screen.rows.toNat :=
    ⟨parseCountText_toString _, parseCountText_toString _, parseCountText_toString _⟩
  have hflag : ¬ ((if screen.reset then "1" else "0") ≠ "0" ∧
      (if screen.reset then "1" else "0") ≠ "1") := by
    cases screen.reset <;> decide
  have hread : decide ((if screen.reset then "1" else "0") = "1") = screen.reset := by
    cases screen.reset <;> decide
  have hnonempty : sessionToken epoch id ≠ "" := by
    intro hnil
    have htext := congrArg String.toList hnil
    rw [sessionToken, String.toList_append, String.toList_append] at htext
    simp at htext
  simp only [parseScreenHeaders, hendOffset, hcols, hrows, hreset, hsession, hcounts,
    parseScreenMeta, Option.bind_eq_bind, Option.bind_some, if_neg hflag, if_neg hnonempty, hread]

/-- The answer of the screen handler, as the page reads it. -/
theorem fetchScreen_screenOf {epoch : UInt64} {s : RemoteSession} {since : Option Nat}
    {session : Option String} {screen : Screen}
    (hscreen : s.terminal.inner.screenSince s.cols s.rows
      (if session = some (sessionToken epoch s.id) then since.map UInt64.ofNat else none) =
      screen) : fetchScreen (RemoteDeps.screenOf epoch s since session).written =
        match parseScreenMeta screen (sessionToken epoch s.id) with
        | some got => .reply got screen.bytes
        | none => .failed := by
  have hsound := sound_screenOf epoch s since session
  have heq := screenOf_eq hscreen
  have hheaders := parseScreenHeaders_screenFields hsound (congrArg Response.headers heq)
  rw [fetchScreen, readReply_written hsound]
  dsimp only
  rw [hheaders, congrArg Response.status heq, congrArg Response.body heq]
  rfl

/-- An error, as the page reads it. -/
theorem readReply_error {r : Response} (h : r.Sound) (hstatus : 300 ≤ r.status) :
    fetchScreen r.written = .httpError r.status ∧
      postInput r.written = some (.error r.status) := by
  have hnot : HttpReply.isOk ⟨r.status, r.headFields.map encoded, r.body⟩ = false := by
    rw [HttpReply.isOk, decide_eq_false_iff_not]
    exact fun hok => Nat.not_lt_of_le hstatus hok.2
  rw [fetchScreen, postInput, readReply_written h]
  dsimp only [Option.map_some]
  rw [hnot]
  exact ⟨rfl, rfl⟩

/-! ### The screen -/

variable {w : Remote}

/-- A query of the page counts in a session that there is or was. -/
theorem query_of_reach (h : Remote.machine.Reach Remote.Start w) {q : ScreenQuery}
    (hq : w.client.state.screenQuery = some q) : q.since ≤ maxSafeInteger ∧
      ∃ epoch id, q.session = sessionToken epoch id := by
  have hclient := (RemoteLemmas.screenInv_of_reach h).client
  cases hterm : w.client.term with
  | none =>
    rw [hclient.nothing hterm] at hq
    cases hq
  | some text =>
    obtain ⟨hphase, hsince, token, hsession, -, -, -, s, -, htoken, -⟩ := hclient.shows text hterm
    rw [ViewState.screenQuery, hphase, hsession] at hq
    obtain rfl := Option.some_inj.mp hq
    exact ⟨hsince, s.epoch, s.id, htoken.symm⟩

theorem sessionToken_ne (epoch : UInt64) (id : SessionId) : sessionToken epoch id ≠ "" := by
  intro hnil
  have htext := congrArg String.toList hnil
  rw [sessionToken, String.toList_append, String.toList_append] at htext
  simp at htext

/-- Where the request of the page is routed to. -/
theorem route_screenPath {query : Option ScreenQuery} (htab : tab ≤ maxSafeInteger)
    (hquery : ∀ q, query = some q → q.since ≤ maxSafeInteger ∧
      ∃ epoch id, q.session = sessionToken epoch id) :
    route .get (splitTarget (screenPath tab query)).1 (splitTarget (screenPath tab query)).2 =
      .screen tab (query.map ScreenQuery.since) (query.map ScreenQuery.session) := by
  have hpath : '?' ∉ (tabPath tab "/screen").toList :=
    not_mem_tabPath (by decide) (by decide) (by decide)
  cases query with
  | none =>
    have htarget : screenPath tab none = tabPath tab "/screen" := String.append_empty
    rw [htarget, splitTarget_plain hpath, route_screen htab]
    rfl
  | some q =>
    obtain ⟨hsince, epoch, id, hsession⟩ := hquery q rfl
    have htarget : screenPath tab (some q) = tabPath tab "/screen" ++ "?" ++
        ("since" ++ "=" ++ toString q.since ++ "&" ++ ("session" ++ "=" ++ q.session)) := by
      apply String.toList_inj.mp
      simp [screenPath, tabPath]
    have hparams := queryParam_screen (not_mem_toString (c := '&') (by decide) q.since)
      (hsession ▸ not_mem_sessionToken (by decide) (by decide) epoch id : '&' ∉ q.session.toList)
    have hne : q.session ≠ "" := hsession ▸ sessionToken_ne epoch id
    rw [htarget, splitTarget_query hpath, route_screen htab]
    dsimp only
    rw [hparams "since", if_pos rfl]
    dsimp only
    rw [parseU64_toString hsince, sessionParam, hparams "session", if_neg (by decide), if_pos rfl]
    simp [hne]

/-- A tab without a live session is refused as such. -/
theorem status_liveSession {r : Response} (hdispatcher : deps.dispatcher.isSome = true)
    (h : deps.liveSession tab = .error r) : r.status = 409 ∨ r.status = 404 := by
  obtain ⟨d, hd⟩ := Option.isSome_iff_exists.mp hdispatcher
  rw [RemoteDeps.liveSession, hd] at h
  dsimp only at h
  repeat' split at h
  · cases h
    exact .inr rfl
  · cases h
  · cases h
    exact .inl rfl
  · cases h
    exact .inl rfl

/-- The poll of the system, when the tab has a session. -/
theorem run_poll_live {index : Nat} {s : RemoteSession} (hidle : w.request = none)
    (hcurrent : w.current = some index) (hs : w.sessions[index]? = some s) :
    (Remote.machine.run w [.poll, .lookup, .answer, .receive]).client =
      w.client.settle
        (match parseScreenMeta (screenHandler w.epoch s w.client.state.screenQuery).1
            (screenHandler w.epoch s w.client.state.screenQuery).2 with
        | some got => .reply got (screenHandler w.epoch s w.client.state.screenQuery).1.bytes
        | none => .failed) := by
  simp only [Machine.run, Remote.machine, List.foldl_cons, List.foldl_nil, Remote.step,
    Remote.poll, hidle, Remote.lookup, hcurrent, Remote.answer, hs, Remote.receive, if_true]
  cases parseScreenMeta _ _ with
  | none => rfl
  | some got => rfl

/-- The poll of the system, when the tab has none. -/
theorem run_poll_gone (hidle : w.request = none) (hcurrent : w.current = none) :
    (Remote.machine.run w [.poll, .lookup, .answer, .receive]).client = w.client.resetToFull := by
  simp [Machine.run, Remote.machine, Remote.step, Remote.poll, hidle, Remote.lookup, hcurrent,
    Remote.answer, Remote.receive]

/-- The handler answers from the offset of the query, if it is that of the session. -/
theorem screenSince_query (epoch : UInt64) (s : RemoteSession) (query : Option ScreenQuery) :
    s.terminal.inner.screenSince s.cols s.rows
      (if query.map ScreenQuery.session = some (sessionToken epoch s.id) then
        (query.map ScreenQuery.since).map UInt64.ofNat else none) =
      (screenHandler epoch s query).1 := by
  cases query with
  | none => rfl
  | some q =>
    rw [Option.map_some, Option.map_some, Option.map_some, screenHandler]
    dsimp only
    by_cases hq : q.session = sessionToken epoch s.id
    · rw [if_pos hq, if_pos (congrArg some hq)]
    · rw [if_neg hq, if_neg fun heq => hq (Option.some_inj.mp heq)]

theorem liveSession_of_current {index : Nat} {s : RemoteSession} (h : Serves deps tab w)
    (hcurrent : w.current = some index) (hs : w.sessions[index]? = some s) :
    deps.liveSession tab = .ok s := by
  have hlive := h.live
  rw [hcurrent, Option.bind_some, hs] at hlive
  cases hfound : deps.liveSession tab with
  | error r =>
    rw [hfound] at hlive
    cases hlive
  | ok s' =>
    rw [hfound] at hlive
    obtain rfl := Option.some_inj.mp hlive
    rfl

theorem liveSession_of_gone (h : Serves deps tab w) (hcurrent : w.current = none) :
    ∃ r, deps.liveSession tab = .error r ∧ r.Sound ∧ (r.status = 409 ∨ r.status = 404) := by
  have hlive := h.live
  rw [hcurrent, Option.bind_none] at hlive
  cases hfound : deps.liveSession tab with
  | error r => exact ⟨r, rfl, sound_liveSession hfound, status_liveSession h.unpoisoned hfound⟩
  | ok s =>
    rw [hfound] at hlive
    cases hlive

/-! ### Input -/

theorem session_of_reach (h : Remote.machine.Reach Remote.Start w) {session : String}
    (hsession : w.client.state.session = some session) :
    ∃ epoch id, session = sessionToken epoch id := by
  have hclient := (RemoteLemmas.screenInv_of_reach h).client
  cases hterm : w.client.term with
  | none =>
    rw [hclient.nothing hterm] at hsession
    cases hsession
  | some text =>
    obtain ⟨-, -, token, htoken, -, -, -, s, -, heq, -⟩ := hclient.shows text hterm
    obtain rfl := Option.some_inj.mp (htoken.symm.trans hsession)
    exact ⟨s.epoch, s.id, heq.symm⟩

theorem route_inputPath {session : String} (htab : tab ≤ maxSafeInteger)
    (hsession : ∃ epoch id, session = sessionToken epoch id) :
    route .post (splitTarget (inputPath tab session)).1 (splitTarget (inputPath tab session)).2 =
      .input tab (some session) := by
  obtain ⟨epoch, id, rfl⟩ := hsession
  have hpath : '?' ∉ (tabPath tab "/input").toList :=
    not_mem_tabPath (by decide) (by decide) (by decide)
  have htarget : inputPath tab (sessionToken epoch id) = tabPath tab "/input" ++ "?" ++
      ("session" ++ "=" ++ sessionToken epoch id) := by
    apply String.toList_inj.mp
    simp [inputPath, tabPath]
  rw [htarget, splitTarget_query hpath, route_input htab, sessionParam,
    queryParam_input (not_mem_sessionToken (by decide) (by decide) epoch id)]
  simp [sessionToken_ne]

/-- The handler finds what the system finds, or refuses. -/
theorem resolve_cases (hw : Remote.machine.Reach Remote.Start w) (h : Serves deps tab w)
    (session : String) :
    (deps.resolveInputSession tab (some session) = .ok () ∧
      ∃ index, Phone.resolveInputSession w session = .found index) ∨
    ∃ r, deps.resolveInputSession tab (some session) = .error r ∧ r.Sound ∧
      (r.status = 409 ∨ r.status = 404) ∧ Phone.resolveInputSession w session = .refused := by
  cases hcurrent : w.current with
  | none =>
    obtain ⟨r, hgone, hsound, hstatus⟩ := liveSession_of_gone h hcurrent
    refine .inr ⟨r, ?_, hsound, hstatus, ?_⟩
    · rw [RemoteDeps.resolveInputSession, hgone]
    · rw [Phone.resolveInputSession, hcurrent]
  | some index =>
    obtain ⟨s, hs, -⟩ := (RemoteLemmas.screenInv_of_reach hw).sessions.current index hcurrent
    have hlive := liveSession_of_current h hcurrent hs
    by_cases hsession : session = sessionToken w.epoch s.id
    · refine .inl ⟨?_, index, ?_⟩
      · rw [RemoteDeps.resolveInputSession, hlive, h.epoch]
        exact if_neg (not_not.mpr hsession)
      · rw [Phone.resolveInputSession, hcurrent]
        dsimp only
        rw [hs]
        exact if_pos hsession
    · refine .inr ⟨RemoteDeps.sessionChanged, ?_, sound_error (by decide) (by decide) _,
        .inl rfl, ?_⟩
      · rw [RemoteDeps.resolveInputSession, hlive, h.epoch]
        exact if_pos hsession
      · rw [Phone.resolveInputSession, hcurrent]
        dsimp only
        rw [hs]
        exact if_neg hsession

/-- What `input` does with a body that the head announces and nothing else. -/
theorem input_eq {ctx : ServerCtx} {rest : Source UInt8} {buf : List UInt8} {length : Nat}
    {session : Option String} (hlength : head.contentLength = some length)
    (hduplicate : head.duplicateContentLength = false)
    (hencoding : head.hasTransferEncoding = false) (hexpect : head.hasExpect = false) :
    ctx.input rest head len buf tab session =
      if maxBodyBytes < length then (.error 413 "Content Too Large" "body too large", none)
      else
        match ctx.resolveInputSession tab session with
        | .error response => (response, none)
        | .ok () =>
          match readBody rest buf len length with
          | none => (.error 400 "Bad Request" "incomplete body", none)
          | some body => (ctx.writeInput body, some body) := by
  rw [ServerCtx.input, hencoding, hduplicate, hexpect, hlength]
  rfl

/-- A whole body is read, and nothing of another one. -/
theorem readBody_cases {rest : Source UInt8} {buf body behind : List UInt8}
    (hbehind : buf.drop len ++ rest.delivered = behind) (hpart : behind <+: body) :
    (readBody rest buf len body.length = some body ∧ behind = body) ∨
      (readBody rest buf len body.length = none ∧ behind ≠ body) := by
  rw [ServerLemmas.readBody_eq]
  dsimp only
  rw [hbehind]
  by_cases hle : body.length ≤ behind.length
  · obtain rfl := hpart.eq_of_length_le hle
    exact .inl ⟨by rw [if_pos hle, List.take_length], rfl⟩
  · refine .inr ⟨if_neg hle, ?_⟩
    rintro rfl
    exact hle (Nat.le_refl _)

end ExchangeLemmas

/-! ## Any request -/

open WireLemmas in
/-- Whatever a request is answered with, whatever the assets are: the fields of the head and the
body are read back as they were put there, and no part of the answer is taken for one. -/
theorem response_written {deps : RemoteDeps} {admits stillAdmits blocks : Bool}
    {ptyWrites : List UInt8 → Bool} {parser : Httparse} {src : Source UInt8} {r : Response}
    (hr : ((deps.server admits stillAdmits blocks ptyWrites).handle parser src).response =
      some r) :
    readReply r.written = some ⟨r.status, r.headFields.map fun field =>
      (Utf8.bytes field.1, Utf8.bytes field.2), r.body⟩ ∧
    ∀ part rest, part ++ rest = r.written → rest ≠ [] → readReply part = none := by
  refine ⟨readReply_written (sound_handle hr), ?_⟩
  intro part rest hpart hrest
  exact readReply_part (sound_handle hr) hpart hrest

/-- A request in one piece. -/
theorem receives_oneHead {bytes body : List UInt8} {req : HttpRequest} (hne : bytes ≠ [])
    (hwithin : bytes.length ≤ maxHeadBytes) :
    Receives (oneHead bytes req) [.data (bytes ++ body)] req bytes.length := by
  have hdelivered : Source.delivered [.data (bytes ++ body)] = bytes ++ body := by
    simp [Source.delivered, hne]
  refine ⟨hwithin, ?_, ?_⟩
  · rw [hdelivered, List.length_append]
    exact Nat.le_add_right _ _
  · rw [hdelivered, List.take_left]
    exact if_pos List.prefix_rfl

/-- An asset with a type that would be two lines. -/
def assetServer : RemoteDeps where
  token := "k3y-_"
  epoch := 7
  dispatcher := none
  sessions := []
  assets _ := some ⟨[1, 2], "text/html\r\nX-Type: other"⟩
  encode _ := none

def assetHead : List UInt8 := Utf8.bytes "GET /remote/app.js HTTP/1.1\r\n\r\n"

theorem response_written_asset : ∃ r : Response, readReply r.written =
    some ⟨200, r.headFields.map fun field => (Utf8.bytes field.1, Utf8.bytes field.2), [1, 2]⟩ := by
  obtain ⟨rest, buf, hhandle, -⟩ := ExchangeLemmas.handle_of_receives
    (receives_oneHead (by decide +kernel) (by decide +kernel) :
      Receives (oneHead assetHead ⟨some "GET", some "/remote/app.js", []⟩)
        [.data (assetHead ++ [])] _ _)
    (rfl : headFrom _ = .ok ⟨.get, "/remote/app.js", none, none, none, false, false, false⟩)
    (rfl : (assetServer.server true true false fun _ => true).admits = true)
  have hresponse : ((assetServer.server true true false fun _ => true).handle
      (oneHead assetHead ⟨some "GET", some "/remote/app.js", []⟩)
      [.data (assetHead ++ [])]).response = some (assetServer.staticAsset "remote/app.js") := by
    rw [hhandle]
    rfl
  exact ⟨_, (response_written hresponse).1⟩

/-! ## The screen -/

open ExchangeLemmas WireLemmas in
/-- The request for a screen, made into bytes and read by the parser, handled, and answered in
bytes that the page reads again, does to the view what the poll of the system does. -/
theorem screen_exchange {w : Remote} (hw : Remote.machine.Reach Remote.Start w)
    (hidle : w.request = none) {deps : RemoteDeps} {tab : Nat} (hserves : Serves deps tab w)
    {parser : Httparse} {src : Source UInt8} {headers : List (String × List UInt8)} {len : Nat}
    (hreceives : Receives parser src
      ⟨some "GET", some (screenPath tab w.client.state.screenQuery), headers⟩ len)
    (hread : headers.filter isRead = [authorizationHeader deps.token]) (blocks : Bool)
    (ptyWrites : List UInt8 → Bool) :
    ∃ r, (deps.server true true blocks ptyWrites).handle parser src = ⟨some r, none⟩ ∧
      w.client.settle (fetchScreen r.written) =
        (Remote.machine.run w [.poll, .lookup, .answer, .receive]).client := by
  have hquery : ∀ q, w.client.state.screenQuery = some q → q.since ≤ maxSafeInteger ∧
      ∃ epoch id, q.session = sessionToken epoch id := fun q hq => query_of_reach hw hq
  let path := splitTarget (screenPath tab w.client.state.screenQuery)
  let head : Head :=
    ⟨.get, path.1, path.2, some ("Bearer " ++ deps.token), none, false, false, false⟩
  have hhead : headFrom ⟨some "GET", some (screenPath tab w.client.state.screenQuery), headers⟩ =
      .ok head := headFrom_get hread _ _
  have hauthorized : authorized head deps.token = true :=
    authorized_bearer rfl hserves.token_chars hserves.token_ne
  obtain ⟨rest, buf, hhandle, -⟩ := handle_of_receives hreceives hhead
    (rfl : (deps.server true true blocks ptyWrites).admits = true)
  refine ⟨_, hhandle.trans (respond_screen (route_screenPath hserves.tab_le hquery) hauthorized
    rfl rfl), ?_⟩
  cases hcurrent : w.current with
  | none =>
    obtain ⟨r, hgone, hsound, hstatus⟩ := liveSession_of_gone hserves hcurrent
    have hlarge : 300 ≤ r.status := by
      rcases hstatus with h | h
      · exact h ▸ by decide
      · exact h ▸ by decide
    rw [RemoteDeps.screen, hgone, run_poll_gone hidle hcurrent]
    dsimp only
    rw [(readReply_error hsound hlarge).1, RemoteClient.settle, if_pos hstatus]
  | some index =>
    obtain ⟨s, hs, -⟩ := (RemoteLemmas.screenInv_of_reach hw).sessions.current index hcurrent
    rw [RemoteDeps.screen, liveSession_of_current hserves hcurrent hs,
      run_poll_live hidle hcurrent hs]
    dsimp only
    rw [fetchScreen_screenOf (screenSince_query deps.epoch s w.client.state.screenQuery),
      hserves.epoch]
    rfl

theorem shellMarks_le : 4 ≤ 8 := by decide

/-- A shell that a page has drawn. -/
def shellShown : Remote :=
  Remote.machine.run ⟨7, [7], 1, [], none, .new, none⟩
    [.respawn (.new 16 8 4 shellMarks_le) 80 24, .poll, .lookup, .answer, .receive]

/-- Its server. -/
def shellServer : RemoteDeps where
  token := "k3y-_"
  epoch := 7
  dispatcher := some (Action.step Dispatcher.new
    (.dispatch (fun _ => .ok 1) (.createWorkspace "w" none none (some (.terminal none)))))
  sessions := shellShown.sessions
  assets _ := none
  encode _ := none

theorem reach_shellShown : Remote.machine.Reach Remote.Start shellShown := by
  have hstart : Remote.machine.Reach Remote.Start ⟨7, [7], 1, [], none, .new, none⟩ :=
    .init ⟨7, rfl⟩
  exact hstart.of_trace _ ⟨⟨⟨16, 8, 4, by decide, rfl⟩, by decide⟩, trivial, trivial, trivial,
    trivial, trivial⟩

theorem serves_shellShown : Serves shellServer 3 shellShown where
  tab_le := by decide
  token_chars := List.all_eq_true.mp (by decide)
  token_ne := by decide
  epoch := rfl
  unpoisoned := rfl
  live := rfl

def pollHead : List UInt8 :=
  Utf8.bytes ("GET /api/tabs/3/screen?since=0&session=7:1 HTTP/1.1\r\nHost: mast\r\n" ++
    "Authorization: Bearer k3y-_\r\n\r\n")

theorem screen_exchange_shown : ∃ r,
    (shellServer.server true true false fun _ => true).handle
        (oneHead pollHead ⟨some "GET", some "/api/tabs/3/screen?since=0&session=7:1",
          [("Host", Utf8.bytes "mast"), authorizationHeader "k3y-_"]⟩)
        [.data (pollHead ++ [])] = ⟨some r, none⟩ ∧
      shellShown.client.settle (fetchScreen r.written) =
        (Remote.machine.run shellShown [.poll, .lookup, .answer, .receive]).client := by
  have hpath : screenPath 3 shellShown.client.state.screenQuery =
      "/api/tabs/3/screen?since=0&session=7:1" := by decide +kernel
  rw [← hpath]
  exact screen_exchange reach_shellShown rfl serves_shellShown
    (receives_oneHead (by decide +kernel) (by decide +kernel)) (by decide +kernel) false _

/-! ## Input -/

/-- What a POST comes to whose head is whole. What is behind the head is a part of the body. -/
structure Posted (w : Remote) (session : String) (body behind : List UInt8) (taken : Bool)
    (r : Response) (written : Option (List UInt8)) : Prop where
  /-- The whole text is written, or nothing. -/
  whole : written = some body ∨ written = none
  iff_found : written = some body ↔ body.length ≤ maxBodyBytes ∧ behind = body ∧
    ∃ index, Phone.resolveInputSession w session = .found index
  /-- The page is told that its text was taken exactly if it was. -/
  told : postInput r.written = some (.ok ()) ↔ written = some body ∧ taken = true
  /-- A text within the bound, for a session that is not the live one. A longer one is refused
  before its session is looked for. -/
  refused : body.length ≤ maxBodyBytes → Phone.resolveInputSession w session = .refused →
    postInput r.written = some (.error 409) ∨ postInput r.written = some (.error 404)

open ExchangeLemmas WireLemmas in
theorem Posted.of_error {w : Remote} {session : String} {body behind : List UInt8} {taken : Bool}
    {r : Response} (hsound : r.Sound) (hlarge : 300 ≤ r.status)
    (hnot : ¬ (body.length ≤ maxBodyBytes ∧ behind = body ∧
      ∃ index, Phone.resolveInputSession w session = .found index))
    (hrefused : body.length ≤ maxBodyBytes → Phone.resolveInputSession w session = .refused →
      r.status = 409 ∨ r.status = 404) : Posted w session body behind taken r none where
  whole := .inr rfl
  iff_found := iff_of_false (by simp) hnot
  told := by
    rw [(readReply_error hsound hlarge).2]
    exact iff_of_false (by simp) fun h => by cases h.1
  refused := by
    intro hle hresolve
    rw [(readReply_error hsound hlarge).2]
    rcases hrefused hle hresolve with h | h
    · exact .inl (by rw [h])
    · exact .inr (by rw [h])

open ExchangeLemmas WireLemmas in
theorem Posted.of_written {w : Remote} {session : String} {body behind : List UInt8} {index : Nat}
    (ctx : ServerCtx) (hle : body.length ≤ maxBodyBytes) (hwhole : behind = body)
    (hfound : Phone.resolveInputSession w session = .found index) :
    Posted w session body behind (ctx.ptyWrites body) (ctx.writeInput body) (some body) where
  whole := .inl rfl
  iff_found := iff_of_true rfl ⟨hle, hwhole, index, hfound⟩
  told := by
    rw [ServerCtx.writeInput]
    cases ctx.ptyWrites body with
    | true =>
      have hsound : Response.okEmpty.Sound := sound_ok "text/plain" []
      rw [if_pos rfl, postInput, readReply_written hsound]
      exact iff_of_true rfl ⟨rfl, rfl⟩
    | false =>
      have hsound : (Response.error 500 "Internal Server Error" "write failed").Sound :=
        sound_error (by decide) (by decide) _
      rw [if_neg (by decide), (readReply_error hsound (by decide)).2]
      exact iff_of_false (by simp) (by simp)
  refused := by
    intro _ hrefused
    rw [hfound] at hrefused
    cases hrefused

open ExchangeLemmas WireLemmas in
/-- The POST of an input, its head whole. -/
theorem posted_of_receives {w : Remote} (hw : Remote.machine.Reach Remote.Start w)
    {deps : RemoteDeps} {tab : Nat} (hserves : Serves deps tab w) {session : String}
    (hsession : w.client.state.session = some session) {data : String} {parser : Httparse}
    {src : Source UInt8} {headers : List (String × List UInt8)} {len : Nat}
    (hreceives : Receives parser src ⟨some "POST", some (inputPath tab session), headers⟩ len)
    (hread : headers.filter isRead =
        [authorizationHeader deps.token, lengthHeader (Utf8.bytes data)] ∨
      headers.filter isRead = [lengthHeader (Utf8.bytes data), authorizationHeader deps.token])
    (hsent : src.delivered.drop len <+: Utf8.bytes data)
    (hfits : (Utf8.bytes data).length ≤ usizeMax) {blocks : Bool}
    {ptyWrites : List UInt8 → Bool} :
    ∃ r written, (deps.server true true blocks ptyWrites).handle parser src = ⟨some r, written⟩ ∧
      Posted w session (Utf8.bytes data) (src.delivered.drop len) (ptyWrites (Utf8.bytes data))
        r written := by
  let path := splitTarget (inputPath tab session)
  let head : Head := ⟨.post, path.1, path.2, some ("Bearer " ++ deps.token),
    some (Utf8.bytes data).length, false, false, false⟩
  have hhead : headFrom ⟨some "POST", some (inputPath tab session), headers⟩ = .ok head :=
    headFrom_post hfits hread _ _
  have hauthorized : authorized head deps.token = true :=
    authorized_bearer rfl hserves.token_chars hserves.token_ne
  obtain ⟨rest, buf, hhandle, hbehind⟩ := handle_of_receives hreceives hhead
    (rfl : (deps.server true true blocks ptyWrites).admits = true)
  have hroute : route head.method head.path head.query = .input tab (some session) :=
    route_inputPath hserves.tab_le (session_of_reach hw hsession)
  have hinput : (deps.server true true blocks ptyWrites).input rest head len buf tab
      (some session) = _ := input_eq rfl rfl rfl rfl
  rw [hhandle, respond_input hroute hauthorized, hinput]
  refine ⟨_, _, rfl, ?_⟩
  by_cases hmax : maxBodyBytes < (Utf8.bytes data).length
  · rw [if_pos hmax]
    exact .of_error (sound_error (by decide) (by decide) _) (by decide)
      (fun h => Nat.not_lt_of_le h.1 hmax) fun hle => absurd hmax (Nat.not_lt_of_le hle)
  rw [if_neg hmax]
  have hctx : (deps.server true true blocks ptyWrites).resolveInputSession =
      deps.resolveInputSession := rfl
  rw [hctx]
  rcases resolve_cases hw hserves session with
    ⟨hok, index, hfound⟩ | ⟨r, herror, hsound, hstatus, hrefused⟩
  · rw [hok]
    have hnever : ∀ {P : Prop}, Phone.resolveInputSession w session = .refused → P := by
      intro P hrefused
      rw [hfound] at hrefused
      cases hrefused
    rcases readBody_cases hbehind hsent with ⟨hbody, hwhole⟩ | ⟨hnone, hcut⟩
    · simp only [hbody]
      exact .of_written (deps.server true true blocks ptyWrites) (Nat.le_of_not_lt hmax) hwhole
        hfound
    · simp only [hnone]
      exact .of_error (sound_error (by decide) (by decide) _) (by decide)
        (fun h => hcut h.2.1) fun _ => hnever
  · rw [herror]
    refine .of_error hsound ?_ (fun h => ?_) fun _ _ => hstatus
    · rcases hstatus with h | h
      · exact h ▸ by decide
      · exact h ▸ by decide
    · obtain ⟨-, -, index, hfound⟩ := h
      rw [hrefused] at hfound
      cases hfound

def postHead : List UInt8 :=
  Utf8.bytes ("POST /api/tabs/3/input?session=7:1 HTTP/1.1\r\nHost: mast\r\n" ++
    "Content-Length: 2\r\nAuthorization: Bearer k3y-_\r\n\r\n")

theorem isHead_oneHead {bytes : List UInt8} {req : HttpRequest}
    (hwithin : bytes.length ≤ maxHeadBytes) : IsHead (oneHead bytes req) bytes req :=
  ⟨hwithin, if_pos List.prefix_rfl⟩

def postRequest : HttpRequest :=
  ⟨some "POST", some "/api/tabs/3/input?session=7:1",
    [("Host", Utf8.bytes "mast"), lengthHeader (Utf8.bytes "ls"), authorizationHeader "k3y-_"]⟩

end Mast
