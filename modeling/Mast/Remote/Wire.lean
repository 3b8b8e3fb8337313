import Mast.Command
import Mast.Lib.Message
import Mast.Remote
import Mast.Remote.Server
import Mast.Terminal.Modes

/-!
# Responses on the wire

`handlers.rs` and `server.rs`: the responses of all handlers, and the bytes that `respond` makes
of them. The type of an asset and the values of headers come from elsewhere; whatever they are,
a reader finds the fields that were put there, and the body, and no others.

Results:
1. `readReply_written`, `readReply_part`: a response of clean text is read back as it was written,
   and no part of it is taken for a response.
2. `sound_handle`: whatever a request is answered with is made of clean text.
-/

namespace Mast

/-! ## Making responses -/

/-- Without control characters. -/
def isClean (text : String) : Bool :=
  !(Utf8.bytes text).any fun b => b < 0x20 || b == 0x7f

def sanitizeMime (mime : String) : String :=
  let clean := String.ofList (trim mime.toList)
  if clean = "" || !isClean clean then "application/octet-stream" else clean

namespace Response

def ok (contentType : String) (body : List UInt8) : Response :=
  ⟨200, "OK", sanitizeMime contentType, [], body, false⟩

/-- A value with a control character is left out. -/
def withHeader (r : Response) (name value : String) : Response :=
  if isClean value then { r with headers := r.headers ++ [(name, value)] } else r

/-- The fields of the head. -/
def headFields (r : Response) : List (String × String) :=
  [("Content-Type", r.contentType), ("Content-Length", toString r.body.length),
    ("Cache-Control", "no-store"), ("X-Content-Type-Options", "nosniff")] ++
  (if "text/html".toList.isPrefixOf r.contentType.toList then
    [("Content-Security-Policy", "default-src 'self'; style-src 'self' 'unsafe-inline'; " ++
      "img-src 'self' data:; connect-src 'self'")]
  else []) ++
  r.headers ++ [("Connection", "close")]

def headLines (r : Response) : List String :=
  ("HTTP/1.1 " ++ toString r.status ++ " " ++ r.reason) ::
    r.headFields.map fun field => field.1 ++ ": " ++ field.2

/-- The bytes that `respond` writes. -/
def written (r : Response) : List UInt8 :=
  Message.write (ascii '\r') (ascii '\n') (r.headLines.map Utf8.bytes) r.body

end Response

/-! ## Handlers -/

structure StaticAsset where
  bytes : List UInt8
  mimeType : String

/-- What the handlers work on. `dispatcher` is `none` if its lock is poisoned; `encode` is the
encoder of snapshots. -/
structure RemoteDeps where
  token : String
  epoch : UInt64
  dispatcher : Option Dispatcher
  sessions : List RemoteSession
  assets : String → Option StaticAsset
  encode : AppState → Option (List UInt8)

namespace RemoteDeps

def unavailable : Response := .error 500 "Internal Server Error" "state unavailable"

def noLiveSession : Response := .error 409 "Conflict" "tab has no live session"

def sessionChanged : Response := .error 409 "Conflict" "session changed"

def state (deps : RemoteDeps) : Response :=
  match deps.dispatcher.bind fun d => deps.encode d.state with
  | some body => .ok "application/json" body
  | none => unavailable

/-- The session and the status of a tab; a viewer has none, and counts as ended. -/
def findTerminal (d : Dispatcher) (tab : Nat) : Option (Option SessionId × TerminalStatus) :=
  (d.state.tabs.find? fun t => t.id.val.toNat = tab).map fun t =>
    match t.kind with
    | .terminal session status _ => (session, status)
    | _ => (none, .exited none none)

/-- The live session of a tab. -/
def liveSession (deps : RemoteDeps) (tab : Nat) : Except Response RemoteSession :=
  match deps.dispatcher with
  | none => .error unavailable
  | some d =>
    match findTerminal d tab with
    | none => .error (.error 404 "Not Found" "unknown tab")
    | some (some id, .running) =>
      match deps.sessions.find? fun s => s.id = id with
      | some s => .ok s
      | none => .error noLiveSession
    | some _ => .error noLiveSession

/-- The answer from a session. The offset counts only in the session that is named. -/
def screenOf (epoch : UInt64) (s : RemoteSession) (since : Option Nat)
    (session : Option String) : Response :=
  let token := sessionToken epoch s.id
  let since := if session = some token then since.map UInt64.ofNat else none
  let screen := s.terminal.inner.screenSince s.cols s.rows since
  (((((Response.ok "application/octet-stream" screen.bytes).withHeader
    "X-Mast-End-Offset" (toString screen.endOffset)).withHeader
    "X-Mast-Reset" (if screen.reset then "1" else "0")).withHeader
    "X-Mast-Cols" (toString screen.cols)).withHeader
    "X-Mast-Rows" (toString screen.rows)).withHeader
    "X-Mast-Session" token

def screen (deps : RemoteDeps) (tab : Nat) (since : Option Nat) (session : Option String) :
    Response :=
  match deps.liveSession tab with
  | .ok s => screenOf deps.epoch s since session
  | .error response => response

/-- Without a session, or with another one, nothing is written. -/
def resolveInputSession (deps : RemoteDeps) (tab : Nat) (session : Option String) :
    Except Response Unit :=
  match session with
  | none => .error sessionChanged
  | some given =>
    match deps.liveSession tab with
    | .error response => .error response
    | .ok s => if given ≠ sessionToken deps.epoch s.id then .error sessionChanged else .ok ()

def staticAsset (deps : RemoteDeps) (key : String) : Response :=
  match deps.assets key with
  | some asset => .ok asset.mimeType asset.bytes
  | none => .error 404 "Not Found" "not found"

/-- `dispatch`, the input apart. -/
def dispatch (deps : RemoteDeps) : Route → Response
  | .state => deps.state
  | .screen tab since session => deps.screen tab since session
  | .static key => deps.staticAsset key
  | .input .. | .notFound | .badRequest => .notFound

/-- The server, with what its rate limiter and the PTY answer. -/
def server (deps : RemoteDeps) (admits stillAdmits blocks : Bool)
    (ptyWrites : List UInt8 → Bool) : ServerCtx where
  token := deps.token
  admits := admits
  stillAdmits := stillAdmits
  blocks := blocks
  resolveInputSession := deps.resolveInputSession
  ptyWrites := ptyWrites
  other := deps.dispatch

end RemoteDeps

/-! ## Reading responses -/

/-- What a client is given of a response. -/
structure HttpReply where
  status : Nat
  fields : List (List UInt8 × List UInt8)
  body : List UInt8
deriving DecidableEq, Repr

/-- Each byte as a character. -/
def latin1 (bytes : List UInt8) : String := String.ofList (bytes.map fun b => Char.ofNat b.toNat)

/-- The values of the fields of a name. -/
def getField (fields : List (List UInt8 × List UInt8)) (name : String) : Option String :=
  match fields.filter fun field => eqIgnoreAsciiCase (latin1 field.1) name with
  | [] => none
  | found => some (", ".intercalate (found.map fun field => latin1 field.2))

def isBlank (b : UInt8) : Bool := b == ascii ' ' || b == ascii '\t'

def readDecimal (digits : List UInt8) : Option Nat :=
  if digits.isEmpty || !digits.all isAsciiDigit then none else some (decimal digits)

/-- The three digits of a status line. -/
def readStatus (line : List UInt8) : Option Nat :=
  if (Utf8.bytes "HTTP/1.1 ").isPrefixOf line then
    let digits := (line.drop 9).takeWhile (· ≠ ascii ' ')
    if digits.length = 3 then readDecimal digits else none
  else none

/-- A response, if the body is there as far as the head says. -/
def readReply (bytes : List UInt8) : Option HttpReply :=
  match Message.readHead (ascii '\r') (ascii '\n') [] bytes with
  | some (statusLine :: lines, rest) => do
    let status ← readStatus statusLine
    let fields ← lines.mapM (Message.field (ascii ':') isBlank)
    let length ← (getField fields "Content-Length").bind fun raw => readDecimal (Utf8.bytes raw)
    if rest.length < length then none else some ⟨status, fields, rest.take length⟩
  | _ => none

/-! ## Sound responses -/

/-- Characters of one byte. -/
def IsAscii (text : String) : Prop := ∀ c ∈ text.toList, c.toNat < 0x80

instance (text : String) : Decidable (IsAscii text) :=
  List.decidableBAll (fun c : Char => c.toNat < 0x80) text.toList

/-- A header value without control characters and without blanks around it. -/
structure IsValue (value : String) : Prop where
  clean : isClean value = true
  stripped : Message.strip isBlank (Utf8.bytes value) = Utf8.bytes value

structure IsName (name : String) : Prop where
  clean : isClean name = true
  colon_free : ascii ':' ∉ Utf8.bytes name
  ascii : IsAscii name

instance (value : String) : Decidable (IsValue value) :=
  decidable_of_iff (isClean value = true ∧
    Message.strip isBlank (Utf8.bytes value) = Utf8.bytes value)
    ⟨fun h => ⟨h.1, h.2⟩, fun h => ⟨h.clean, h.stripped⟩⟩

instance (name : String) : Decidable (IsName name) :=
  decidable_of_iff (isClean name = true ∧ ascii ':' ∉ Utf8.bytes name ∧ IsAscii name)
    ⟨fun h => ⟨h.1, h.2.1, h.2.2⟩, fun h => ⟨h.clean, h.colon_free, h.ascii⟩⟩

/-- The headers that handlers add. -/
def addedNames : List String :=
  ["Retry-After", "X-Mast-End-Offset", "X-Mast-Reset", "X-Mast-Cols", "X-Mast-Rows",
    "X-Mast-Session"]

/-- A response of clean text. -/
structure Response.Sound (r : Response) : Prop where
  status : (toString r.status).length = 3
  reason : isClean r.reason = true
  contentType : IsValue r.contentType
  headers : ∀ field ∈ r.headers, field.1 ∈ addedNames ∧ IsValue field.2

namespace WireLemmas

open Response

/-! ### Text -/

theorem isClean_append (s t : String) : isClean (s ++ t) = (isClean s && isClean t) := by
  rw [isClean, Utf8.bytes_append, List.any_append, Bool.not_or]
  rfl

theorem isClean_iff {text : String} :
    isClean text = true ↔ ∀ b ∈ Utf8.bytes text, ¬ b < 0x20 ∧ b ≠ 0x7f := by
  simp [isClean]

theorem bytes_ascii {text : String} (h : IsAscii text) :
    Utf8.bytes text = text.toList.map ascii := by
  rw [Utf8.bytes, List.map_eq_flatMap]
  exact List.flatMap_congr fun c hc => Utf8.encodeChar_ascii (h c hc)

theorem latin1_bytes {text : String} (h : IsAscii text) :
    latin1 (Utf8.bytes text) = text := by
  rw [latin1, bytes_ascii h, List.map_map]
  have hid : ∀ c ∈ text.toList, ((fun b => Char.ofNat b.toNat) ∘ ascii) c = c := by
    intro c hc
    have hbyte : (ascii c).toNat = c.toNat :=
      UInt8.toNat_ofNat_of_lt' (Nat.lt_trans (h c hc) (by decide))
    rw [Function.comp_apply, hbyte, Char.ofNat_toNat]
  rw [List.map_congr_left hid, List.map_id'', String.ofList_toList]
  intro c
  rfl

/-- Characters that show, without the blank. -/
def IsGraphic (text : String) : Prop := ∀ c ∈ text.toList, 0x20 < c.toNat ∧ c.toNat < 0x7f

instance (text : String) : Decidable (IsGraphic text) :=
  List.decidableBAll (fun c : Char => 0x20 < c.toNat ∧ c.toNat < 0x7f) text.toList

theorem IsGraphic.isAscii {text : String} (h : IsGraphic text) : IsAscii text :=
  fun c hc => (h c hc).2.trans (by decide)

theorem IsGraphic.byte {text : String} (h : IsGraphic text) {b : UInt8}
    (hb : b ∈ Utf8.bytes text) : 0x20 < b.toNat ∧ b.toNat < 0x7f := by
  rw [bytes_ascii h.isAscii] at hb
  obtain ⟨c, hc, rfl⟩ := List.mem_map.mp hb
  have hbyte : (ascii c).toNat = c.toNat :=
    UInt8.toNat_ofNat_of_lt' (Nat.lt_trans (h.isAscii c hc) (by decide))
  rw [hbyte]
  exact h c hc

theorem isBlank_iff {b : UInt8} : isBlank b = true ↔ b.toNat = 0x20 ∨ b.toNat = 9 := by
  rw [isBlank, Bool.or_eq_true, beq_iff_eq, beq_iff_eq, ← UInt8.toNat_inj, ← UInt8.toNat_inj]
  rfl

theorem IsGraphic.isValue {text : String} (h : IsGraphic text) : IsValue text := by
  have hblank : ∀ b ∈ Utf8.bytes text, isBlank b = false := by
    intro b hb
    obtain ⟨hlow, -⟩ := h.byte hb
    refine Bool.eq_false_iff.mpr fun hblank => ?_
    rcases isBlank_iff.mp hblank with hb | hb
    · exact absurd hlow (hb ▸ Nat.lt_irrefl _)
    · exact absurd hlow (hb ▸ by decide)
  refine ⟨isClean_iff.mpr fun b hb => ⟨?_, ?_⟩, Message.strip_of_ends ?_ ?_⟩
  · obtain ⟨hlow, -⟩ := h.byte hb
    intro hlt
    exact absurd (UInt8.lt_iff_toNat_lt.mp hlt) (Nat.not_lt_of_lt hlow)
  · obtain ⟨-, hhigh⟩ := h.byte hb
    rintro rfl
    exact absurd hhigh (by decide)
  · intro b hb
    exact hblank b (List.mem_of_head? hb)
  · intro b hb
    exact hblank b (List.mem_of_getLast? hb)

/-! ### Numbers -/

theorem toList_toString (n : Nat) : (toString n).toList = Nat.toDigits 10 n := Nat.toList_repr

theorem isGraphic_toString (n : Nat) : IsGraphic (toString n) := by
  intro c hc
  rw [toList_toString] at hc
  obtain ⟨hlo, hhi⟩ := Char.isDigit_iff_toNat.mp
    (Nat.isDigit_of_mem_toDigits (by decide) (by decide) hc)
  exact ⟨Nat.lt_of_lt_of_le (by decide) hlo, Nat.lt_of_le_of_lt hhi (by decide)⟩

theorem bytes_toString (n : Nat) :
    Utf8.bytes (toString n) = (Nat.toDigits 10 n).map ascii := by
  rw [bytes_ascii (isGraphic_toString n).isAscii, toList_toString]

theorem all_digits (n : Nat) : (Utf8.bytes (toString n)).all isAsciiDigit = true := by
  rw [bytes_toString]
  refine List.all_eq_true.mpr fun b hb => ?_
  obtain ⟨c, hc, rfl⟩ := List.mem_map.mp hb
  exact ModesLemmas.isAsciiDigit_ascii (Nat.isDigit_of_mem_toDigits (by decide) (by decide) hc)

theorem readDecimal_toString (n : Nat) : readDecimal (Utf8.bytes (toString n)) = some n := by
  have hne : (Utf8.bytes (toString n)).isEmpty = false := by
    rw [bytes_toString, List.isEmpty_map, List.isEmpty_eq_false_iff]
    exact Nat.toDigits_ne_nil
  rw [readDecimal, hne, all_digits, bytes_toString, ModesLemmas.decimal_toDigits]
  rfl

/-! ### Types of contents -/

theorem head_flatMap {α β : Type} {f : α → List β} (hf : ∀ a, f a ≠ []) {l : List α} {b : β}
    (h : b ∈ (l.flatMap f).head?) : ∃ a ∈ l.head?, b ∈ f a := by
  cases l with
  | nil => cases h
  | cons a l =>
    refine ⟨a, rfl, ?_⟩
    rw [List.flatMap_cons, List.head?_append_of_ne_nil _ (hf a)] at h
    exact List.mem_of_head? h

theorem last_flatMap {α β : Type} {f : α → List β} (hf : ∀ a, f a ≠ []) {l : List α} {b : β}
    (h : b ∈ (l.flatMap f).getLast?) : ∃ a ∈ l.getLast?, b ∈ f a := by
  rcases List.eq_nil_or_concat' l with rfl | ⟨front, a, rfl⟩
  · cases h
  · refine ⟨a, List.getLast?_concat, ?_⟩
    rw [List.flatMap_append, List.flatMap_singleton, List.getLast?_append_of_ne_nil _ (hf a)] at h
    exact List.mem_of_getLast? h

theorem isWhiteSpace_of_blank {c : Char} {b : UInt8} (hb : b ∈ String.utf8EncodeChar c)
    (hblank : isBlank b = true) : Utf8.isWhiteSpace c = true := by
  rcases Nat.lt_or_ge c.toNat 0x80 with hlow | hhigh
  · rw [Utf8.encodeChar_ascii hlow, List.mem_singleton] at hb
    have hbyte : b.toNat = c.toNat := by
      rw [hb]
      exact UInt8.toNat_ofNat_of_lt' (Nat.lt_trans hlow (by decide))
    rcases isBlank_iff.mp hblank with h | h
    · simp [Utf8.isWhiteSpace, ← hbyte, h]
    · simp [Utf8.isWhiteSpace, ← hbyte, h]
  · have hbyte := Utf8.high_of_encodeChar hhigh b hb
    rcases isBlank_iff.mp hblank with h | h
    · exact absurd hbyte (h ▸ by decide)
    · exact absurd hbyte (h ▸ by decide)

theorem encodeChar_ne_nil (c : Char) : String.utf8EncodeChar c ≠ [] := by
  unfold String.utf8EncodeChar
  dsimp only
  repeat' split
  all_goals exact List.cons_ne_nil _ _

/-- Whatever the type of an asset is, it is written as a value. -/
theorem isValue_sanitizeMime (mime : String) : IsValue (sanitizeMime mime) := by
  unfold sanitizeMime
  dsimp only
  split
  · refine IsGraphic.isValue ?_
    decide
  next hclean =>
    rw [Bool.or_eq_true, not_or] at hclean
    have htrim : (String.ofList (trim mime.toList)).toList =
        Message.strip Utf8.isWhiteSpace mime.toList := String.toList_ofList
    refine ⟨by simpa using hclean.2, Message.strip_of_ends ?_ ?_⟩
    · intro b hb
      rw [Utf8.bytes, htrim] at hb
      obtain ⟨c, hc, hbc⟩ := head_flatMap encodeChar_ne_nil hb
      refine Bool.eq_false_iff.mpr fun hblank => ?_
      exact absurd (isWhiteSpace_of_blank hbc hblank)
        (Bool.eq_false_iff.mp (Message.head_strip hc))
    · intro b hb
      rw [Utf8.bytes, htrim] at hb
      obtain ⟨c, hc, hbc⟩ := last_flatMap encodeChar_ne_nil hb
      refine Bool.eq_false_iff.mpr fun hblank => ?_
      exact absurd (isWhiteSpace_of_blank hbc hblank)
        (Bool.eq_false_iff.mp (Message.last_strip hc))

/-! ### Responses that handlers make -/

theorem sound_ok (contentType : String) (body : List UInt8) : (ok contentType body).Sound where
  status := show (toString 200).length = 3 by decide
  reason := show isClean "OK" = true by decide
  contentType := isValue_sanitizeMime contentType
  headers := List.forall_mem_nil _

theorem sound_error {status : Nat} {reason : String} (hstatus : (toString status).length = 3)
    (hreason : isClean reason = true) (message : String) :
    (error status reason message).Sound where
  status := hstatus
  reason := hreason
  contentType := show IsValue "application/json" by decide
  headers := List.forall_mem_nil _

theorem sound_withHeader {r : Response} (h : r.Sound) {name value : String}
    (hname : name ∈ addedNames) (hvalue : IsValue value) : (r.withHeader name value).Sound := by
  unfold Response.withHeader
  split
  · refine { h with headers := fun field hfield => ?_ }
    rcases List.mem_append.mp hfield with hold | hnew
    · exact h.headers field hold
    · obtain rfl := List.mem_singleton.mp hnew
      exact ⟨hname, hvalue⟩
  · exact h

/-! ### Fields -/

theorem isName_of_added : ∀ name ∈ addedNames, IsName name := by decide

theorem isField_of_mem {r : Response} (h : r.Sound) {field : String × String}
    (hfield : field ∈ r.headFields) : IsName field.1 ∧ IsValue field.2 := by
  simp only [headFields, List.mem_append, List.mem_cons, List.not_mem_nil, or_false] at hfield
  rcases hfield with ((((rfl | rfl | rfl | rfl) | hpolicy) | hadded) | rfl)
  · exact ⟨show IsName "Content-Type" by decide, h.contentType⟩
  · exact ⟨show IsName "Content-Length" by decide, (isGraphic_toString _).isValue⟩
  · decide
  · decide
  · split at hpolicy
    · obtain rfl := List.mem_singleton.mp hpolicy
      decide
    · cases hpolicy
  · exact ⟨isName_of_added _ (h.headers _ hadded).1, (h.headers _ hadded).2⟩
  · decide

/-- A field as it is read. -/
def encoded (field : String × String) : List UInt8 × List UInt8 :=
  (Utf8.bytes field.1, Utf8.bytes field.2)

theorem field_encoded {field : String × String} (hname : IsName field.1)
    (hvalue : IsValue field.2) :
    Message.field (ascii ':') isBlank (Utf8.bytes (field.1 ++ ": " ++ field.2)) =
      some (encoded field) := by
  have hbytes : Utf8.bytes (field.1 ++ ": " ++ field.2) =
      Utf8.bytes field.1 ++ ascii ':' :: ascii ' ' :: Utf8.bytes field.2 := by
    rw [Utf8.bytes_append, Utf8.bytes_append, List.append_assoc]
    rfl
  rw [hbytes]
  exact Message.field_write hname.colon_free (by decide) hvalue.stripped

theorem mapM_field {fields : List (String × String)}
    (h : ∀ field ∈ fields, IsName field.1 ∧ IsValue field.2) :
    (fields.map fun field => Utf8.bytes (field.1 ++ ": " ++ field.2)).mapM
      (Message.field (ascii ':') isBlank) = some (fields.map encoded) := by
  induction fields with
  | nil => rfl
  | cons field fields ih =>
    obtain ⟨⟨hname, hvalue⟩, hfields⟩ := List.forall_mem_cons.mp h
    rw [List.map_cons, List.mapM_cons, field_encoded hname hvalue, ih hfields]
    rfl

/-- The values of a name, of the fields as they were written. -/
theorem getField_encoded {fields : List (String × String)}
    (h : ∀ field ∈ fields, IsName field.1) (name : String) :
    getField (fields.map encoded) name =
      match fields.filter fun field => eqIgnoreAsciiCase field.1 name with
      | [] => none
      | found => some (", ".intercalate (found.map fun field => latin1 (Utf8.bytes field.2))) := by
  have hfilter : (fields.map encoded).filter (fun field =>
        eqIgnoreAsciiCase (latin1 field.1) name) =
      (fields.filter fun field => eqIgnoreAsciiCase field.1 name).map encoded := by
    rw [List.filter_map]
    refine congrArg (List.map encoded) (List.filter_congr fun field hfield => ?_)
    rw [Function.comp_apply, encoded, latin1_bytes (h field hfield).ascii]
  rw [getField, hfilter]
  cases fields.filter fun field => eqIgnoreAsciiCase field.1 name with
  | nil => rfl
  | cons field found => simp [encoded, Function.comp_def]

/-- The fields of every head. -/
def headNames : List String :=
  ["Content-Type", "Content-Length", "Cache-Control", "X-Content-Type-Options",
    "Content-Security-Policy", "Connection"]

/-- The fields of a name that handlers add. -/
theorem filter_headFields (r : Response) {name : String}
    (h : ∀ own ∈ headNames, eqIgnoreAsciiCase own name = false) :
    r.headFields.filter (fun field => eqIgnoreAsciiCase field.1 name) =
      r.headers.filter fun field => eqIgnoreAsciiCase field.1 name := by
  simp only [headNames, List.forall_mem_cons] at h
  obtain ⟨htype, hlength, hcache, hoptions, hpolicy, hconnection, -⟩ := h
  rw [headFields]
  split
  · simp [htype, hlength, hcache, hoptions, hpolicy, hconnection]
  · simp [htype, hlength, hcache, hoptions, hconnection]

theorem filter_length {r : Response} (h : r.Sound) :
    r.headFields.filter (fun field => eqIgnoreAsciiCase field.1 "Content-Length") =
      [("Content-Length", toString r.body.length)] := by
  have hothers : ∀ name ∈ addedNames ++ ["Content-Type", "Cache-Control",
      "X-Content-Type-Options", "Content-Security-Policy", "Connection"],
      eqIgnoreAsciiCase name "Content-Length" = false := by decide
  obtain ⟨hnames, hown⟩ := List.forall_mem_append.mp hothers
  have hadded : r.headers.filter (fun field => eqIgnoreAsciiCase field.1 "Content-Length") =
      [] := by
    refine List.filter_eq_nil_iff.mpr fun field hfield => Bool.eq_false_iff.mp ?_
    exact hnames _ (h.headers field hfield).1
  have hself : eqIgnoreAsciiCase "Content-Length" "Content-Length" = true := by decide
  simp only [List.forall_mem_cons] at hown
  obtain ⟨htype, hcache, hoptions, hpolicy, hconnection, -⟩ := hown
  rw [headFields, List.filter_append, List.filter_append, List.filter_append, hadded]
  split
  · simp [htype, hself, hcache, hoptions, hpolicy, hconnection]
  · simp [htype, hself, hcache, hoptions, hconnection]

theorem getField_length {r : Response} (h : r.Sound) :
    getField (r.headFields.map encoded) "Content-Length" = some (toString r.body.length) := by
  rw [getField_encoded (fun field hfield => (isField_of_mem h hfield).1), filter_length h]
  dsimp only
  rw [List.map_singleton, latin1_bytes (isGraphic_toString _).isAscii, String.intercalate_singleton]

/-! ### Lines -/

theorem isLine_of_clean {text : String} (hclean : isClean text = true) (hne : text ≠ "") :
    Message.IsLine (ascii '\n') (Utf8.bytes text) where
  nonempty hnil := hne (Utf8.bytes_inj hnil)
  end_free hmem := (isClean_iff.mp hclean _ hmem).1 (by decide)

theorem isLine_field {field : String × String} (hname : IsName field.1)
    (hvalue : IsValue field.2) :
    Message.IsLine (ascii '\n') (Utf8.bytes (field.1 ++ ": " ++ field.2)) := by
  refine isLine_of_clean ?_ fun hnil => ?_
  · rw [isClean_append, isClean_append, hname.clean, hvalue.clean]
    decide
  · have htext := congrArg String.toList hnil
    rw [String.toList_append, String.toList_append] at htext
    simp at htext

theorem bytes_status (r : Response) :
    Utf8.bytes ("HTTP/1.1 " ++ toString r.status ++ " " ++ r.reason) =
      Utf8.bytes "HTTP/1.1 " ++
        (Utf8.bytes (toString r.status) ++ ascii ' ' :: Utf8.bytes r.reason) := by
  rw [Utf8.bytes_append, Utf8.bytes_append, Utf8.bytes_append, List.append_assoc,
    List.append_assoc]
  rfl

theorem readStatus_written {r : Response} (h : r.Sound) :
    readStatus (Utf8.bytes ("HTTP/1.1 " ++ toString r.status ++ " " ++ r.reason)) =
      some r.status := by
  have hprotocol : (Utf8.bytes "HTTP/1.1 ").length = 9 := by decide
  have hdigits : ∀ b ∈ Utf8.bytes (toString r.status), decide (b ≠ ascii ' ') = true := by
    intro b hb
    rw [decide_eq_true_eq]
    rintro rfl
    exact absurd ((isGraphic_toString _).byte hb).1 (by decide)
  have htake : ((Utf8.bytes (toString r.status) ++ ascii ' ' :: Utf8.bytes r.reason).takeWhile
      (· ≠ ascii ' ')) = Utf8.bytes (toString r.status) := by
    rw [List.takeWhile_append_of_pos hdigits]
    simp
  have hlength : (Utf8.bytes (toString r.status)).length = 3 := by
    rw [bytes_ascii (isGraphic_toString _).isAscii, List.length_map]
    exact h.status
  rw [bytes_status, readStatus, if_pos (List.isPrefixOf_iff_prefix.mpr (List.prefix_append _ _))]
  dsimp only
  rw [List.drop_left' hprotocol, htake, if_pos hlength, readDecimal_toString]

theorem isLine_of_mem {r : Response} (h : r.Sound) :
    ∀ line ∈ r.headLines.map Utf8.bytes, Message.IsLine (ascii '\n') line := by
  intro line hline
  obtain ⟨text, htext, rfl⟩ := List.mem_map.mp hline
  rcases List.mem_cons.mp htext with rfl | hfield
  · refine isLine_of_clean ?_ fun hnil => ?_
    · rw [isClean_append, isClean_append, isClean_append, h.reason,
        (isGraphic_toString _).isValue.clean]
      decide
    · have htext := congrArg String.toList hnil
      rw [String.toList_append, String.toList_append, String.toList_append] at htext
      simp at htext
  · obtain ⟨field, hmem, rfl⟩ := List.mem_map.mp hfield
    obtain ⟨hname, hvalue⟩ := isField_of_mem h hmem
    exact isLine_field hname hvalue

/-! ### Responses -/

theorem readHead_written {r : Response} (h : r.Sound) :
    Message.readHead (ascii '\r') (ascii '\n') [] r.written =
      some (r.headLines.map Utf8.bytes, r.body) :=
  Message.readHead_write (by decide) (isLine_of_mem h) r.body

/-- What is read of a head and some of the body. -/
theorem readReply_head {r : Response} (h : r.Sound) {bytes body : List UInt8}
    (hhead : Message.readHead (ascii '\r') (ascii '\n') [] bytes =
      some (r.headLines.map Utf8.bytes, body)) :
    readReply bytes = if body.length < r.body.length then none
      else some ⟨r.status, r.headFields.map encoded, body.take r.body.length⟩ := by
  have hfields : (r.headFields.map fun field => Utf8.bytes (field.1 ++ ": " ++ field.2)).mapM
      (Message.field (ascii ':') isBlank) = some (r.headFields.map encoded) :=
    mapM_field fun field hfield => isField_of_mem h hfield
  rw [readReply, hhead, headLines, List.map_cons, List.map_map]
  dsimp only
  rw [readStatus_written h]
  simp only [Option.bind_eq_bind, Option.bind_some, Function.comp_def, hfields,
    getField_length h, readDecimal_toString]

/-- What is written is read back. -/
theorem readReply_written {r : Response} (h : r.Sound) :
    readReply r.written = some ⟨r.status, r.headFields.map encoded, r.body⟩ := by
  rw [readReply_head h (readHead_written h), if_neg (Nat.lt_irrefl _), List.take_length]

/-- A part of what is written is not taken for a response. -/
theorem readReply_part {r : Response} (h : r.Sound) {part rest : List UInt8}
    (hpart : part ++ rest = r.written) (hrest : rest ≠ []) : readReply part = none := by
  have hwhole := readHead_written h
  rw [← hpart] at hwhole
  cases hcut : Message.readHead (ascii '\r') (ascii '\n') [] part with
  | none => rw [readReply, hcut]
  | some head =>
    obtain ⟨lines, body⟩ := head
    obtain ⟨rfl, hbody⟩ := Message.readHead_cut hwhole hcut
    have hshort : body.length < r.body.length := by
      rw [← hbody, List.length_append]
      exact Nat.lt_add_of_pos_right (List.length_pos_iff.mpr hrest)
    rw [readReply_head h hcut, if_pos hshort]

/-! ### The server -/

variable {deps : RemoteDeps}

theorem isGraphic_append {s t : String} (hs : IsGraphic s) (ht : IsGraphic t) :
    IsGraphic (s ++ t) := by
  intro c hc
  rw [String.toList_append] at hc
  rcases List.mem_append.mp hc with hc | hc
  · exact hs c hc
  · exact ht c hc

theorem isGraphic_token (epoch : UInt64) (id : SessionId) :
    IsGraphic (sessionToken epoch id) := by
  have hcolon : IsGraphic ":" := by decide
  exact isGraphic_append (isGraphic_append (isGraphic_toString epoch.toNat) hcolon)
    (isGraphic_toString id.toNat)

theorem sound_notFound : Response.notFound.Sound := sound_error (by decide) (by decide) _

theorem sound_tooManyRequests : tooManyRequests.Sound where
  status := show (toString 429).length = 3 by decide
  reason := show isClean "Too Many Requests" = true by decide
  contentType := show IsValue "application/json" by decide
  headers := by decide

theorem sound_screenOf (epoch : UInt64) (s : RemoteSession) (since : Option Nat)
    (session : Option String) : (RemoteDeps.screenOf epoch s since session).Sound := by
  have hreset : ∀ b : Bool, IsValue (if b then "1" else "0") := by decide
  unfold RemoteDeps.screenOf
  dsimp only
  refine sound_withHeader (sound_withHeader (sound_withHeader (sound_withHeader
    (sound_withHeader (sound_ok _ _) ?_ ?_) ?_ ?_) ?_ ?_) ?_ ?_) ?_ ?_
  all_goals first
    | exact (isGraphic_token _ _).isValue
    | exact (isGraphic_toString _).isValue
    | exact hreset _
    | decide

theorem sound_liveSession {tab : Nat} {r : Response} (h : deps.liveSession tab = .error r) :
    r.Sound := by
  unfold RemoteDeps.liveSession at h
  repeat' split at h
  all_goals cases h
  all_goals exact sound_error (by decide) (by decide) _

theorem sound_dispatch (deps : RemoteDeps) (route : Route) : (deps.dispatch route).Sound := by
  cases route with
  | state =>
    unfold RemoteDeps.dispatch RemoteDeps.state
    dsimp only
    split
    · exact sound_ok _ _
    · exact sound_error (by decide) (by decide) _
  | screen tab since session =>
    unfold RemoteDeps.dispatch RemoteDeps.screen
    dsimp only
    split
    · exact sound_screenOf _ _ _ _
    next h => exact sound_liveSession h
  | static key =>
    unfold RemoteDeps.dispatch RemoteDeps.staticAsset
    dsimp only
    split
    · exact sound_ok _ _
    · exact sound_error (by decide) (by decide) _
  | input | notFound | badRequest => exact sound_notFound

theorem sound_resolve {tab : Nat} {session : Option String} {r : Response}
    (h : deps.resolveInputSession tab session = .error r) : r.Sound := by
  unfold RemoteDeps.resolveInputSession at h
  split at h
  · cases h
    exact sound_error (by decide) (by decide) _
  · split at h
    next herror =>
      cases h
      exact sound_liveSession herror
    · split at h
      · cases h
        exact sound_error (by decide) (by decide) _
      · cases h

variable {admits stillAdmits blocks : Bool} {ptyWrites : List UInt8 → Bool}
  {src : Source UInt8} {head : Head} {headLen : Nat} {buf : List UInt8}

theorem sound_input (tab : Nat) (session : Option String) :
    ((deps.server admits stillAdmits blocks ptyWrites).input src head headLen buf tab
      session).1.Sound := by
  unfold ServerCtx.input
  repeat' split
  all_goals try exact sound_error (by decide) (by decide) _
  · rename_i hresolve
    exact sound_resolve hresolve
  · unfold ServerCtx.writeInput
    split
    · exact sound_ok "text/plain" []
    · exact sound_error (by decide) (by decide) _

theorem sound_drained {r : Response} (h : r.Sound) (drain : Bool) :
    (if drain = true then { r with drain := true } else r).Sound := by
  split
  · exact { h with }
  · exact h

theorem sound_respond {r : Response}
    (h : ((deps.server admits stillAdmits blocks ptyWrites).respond src head headLen
      buf).response = some r) : r.Sound := by
  unfold ServerCtx.respond at h
  dsimp only at h
  obtain rfl := Option.some_inj.mp h
  have hother : ∀ route, ((deps.server admits stillAdmits blocks ptyWrites).other route).Sound :=
    sound_dispatch deps
  refine sound_drained ?_ _
  cases route head.method head.path head.query with
  | notFound => exact sound_notFound
  | badRequest => exact sound_error (by decide) (by decide) _
  | input tab session =>
    dsimp only
    split
    · exact sound_tooManyRequests
    split
    · split
      · exact sound_tooManyRequests
      · exact sound_error (by decide) (by decide) _
    · exact sound_input tab session
  | state | screen | static =>
    dsimp only
    split
    · exact sound_tooManyRequests
    split
    · split
      · exact sound_tooManyRequests
      · exact sound_error (by decide) (by decide) _
    · dsimp only
      exact hother _

theorem sound_handle {h : Httparse} {r : Response}
    (hr : ((deps.server admits stillAdmits blocks ptyWrites).handle h src).response = some r) :
    r.Sound := by
  unfold ServerCtx.handle at hr
  split at hr
  · obtain rfl := Option.some_inj.mp hr
    exact sound_tooManyRequests
  split at hr
  · obtain rfl := Option.some_inj.mp hr
    exact sound_error (by decide) (by decide) _
  · obtain rfl := Option.some_inj.mp hr
    exact sound_error (by decide) (by decide) _
  · cases hr
  · exact sound_respond hr

end WireLemmas

end Mast
