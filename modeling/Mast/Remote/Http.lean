import Mast.Flow
import Mast.Lib.Source
import Mast.Osc

/-!
# Request heads

`http.rs`: the head of a request is read until the parser has it whole, and what the
server needs of it is taken out. The parser itself comes from elsewhere: `Httparse` is
what is known of it, that more bytes do not change a result it has given, and that a
complete head is complete without the bytes behind it.

Results:
1. `stable_judge`: what the bytes of a head amount to does not depend on the bytes
   behind it.
-/

namespace Mast

def maxHeadBytes : Nat := 8192

def maxBodyBytes : Nat := 65536

/-! ## Text -/

def trim (text : List Char) : List Char :=
  ((text.dropWhile Utf8.isWhiteSpace).reverse.dropWhile Utf8.isWhiteSpace).reverse

def eqIgnoreAsciiCase (a b : String) : Bool :=
  a.toList.map Char.toLower = b.toList.map Char.toLower

/-- `from_utf8`: decoding replaced nothing. -/
def fromUtf8 (value : List UInt8) : Option String :=
  let text := Utf8.fromUtf8Lossy value
  if Utf8.bytes text = value then some text else none

theorem fromUtf8_iff {value : List UInt8} {text : String} :
    fromUtf8 value = some text ↔ value = Utf8.bytes text := by
  unfold fromUtf8
  dsimp only
  constructor
  · intro h
    split at h
    · next hbytes =>
      rw [← Option.some.inj h, hbytes]
    · cases h
  · rintro rfl
    rw [Utf8.fromUtf8Lossy_bytes, if_pos rfl]

/-- Decimal digits only, and a number of the given width. -/
def parseDigits (max : Nat) (raw : List Char) : Option Nat :=
  let digits := Utf8.bytes (String.ofList raw)
  if digits.isEmpty || !digits.all isAsciiDigit then none
  else if decimal digits ≤ max then some (decimal digits) else none

/-! ## Heads -/

inductive HttpMethod
  | get
  | post
  | other
deriving DecidableEq, Repr

/-- What the server keeps of a head. -/
structure Head where
  method : HttpMethod
  path : String
  query : Option String
  authorization : Option String
  contentLength : Option Nat
  duplicateContentLength : Bool
  hasTransferEncoding : Bool
  hasExpect : Bool
deriving DecidableEq, Repr

inductive HeadError
  | tooLarge
  | malformed
  | eof
deriving DecidableEq, Repr

/-- A request as the parser fills it in. -/
structure HttpRequest where
  method : Option String
  path : Option String
  headers : List (String × List UInt8)
deriving DecidableEq, Repr

/-- One header. What is none of the four is not kept. -/
def headHeader (head : Head) (header : String × List UInt8) : Except HeadError Head :=
  if eqIgnoreAsciiCase header.1 "authorization" then
    -- the first value counts
    if head.authorization.isNone then .ok { head with authorization := fromUtf8 header.2 }
    else .ok head
  else if eqIgnoreAsciiCase header.1 "content-length" then
    match fromUtf8 header.2 with
    | none => .error .malformed
    | some raw =>
      match parseDigits usizeMax (trim raw.toList) with
      | none => .error .malformed
      | some value =>
        match head.contentLength with
        | none => .ok { head with contentLength := some value }
        | some prev =>
          if prev ≠ value then .ok { head with duplicateContentLength := true } else .ok head
  else if eqIgnoreAsciiCase header.1 "transfer-encoding" then
    .ok { head with hasTransferEncoding := true }
  else if eqIgnoreAsciiCase header.1 "expect" then .ok { head with hasExpect := true }
  else .ok head

def requestMethod : String → HttpMethod
  | "GET" => .get
  | "POST" => .post
  | _ => .other

/-- The path, and the query behind the first `?`. -/
def splitTarget (target : String) : String × Option String :=
  match splitOnce '?' target.toList with
  | some (path, query) => (String.ofList path, some (String.ofList query))
  | none => (target, none)

def headFrom (req : HttpRequest) : Except HeadError Head :=
  match req.method, req.path with
  | some method, some target =>
    req.headers.foldlM headHeader
      { method := requestMethod method
        path := (splitTarget target).1
        query := (splitTarget target).2
        authorization := none
        contentLength := none
        duplicateContentLength := false
        hasTransferEncoding := false
        hasExpect := false }
  | _, _ => .error .malformed

/-! ## The parser -/

inductive ParseResult
  | complete (req : HttpRequest) (len : Nat)
  | incomplete
  | tooManyHeaders
  | failed

/-- The parser of request heads, with 32 slots for headers (`MAX_HEADERS`). -/
structure Httparse where
  parse : List UInt8 → ParseResult
  /-- More bytes do not change a result. -/
  stable : ∀ buf more, parse buf ≠ .incomplete → parse (buf ++ more) = parse buf
  complete_le : ∀ buf req len, parse buf = .complete req len → len ≤ buf.length
  /-- A complete head is complete without the bytes behind it. -/
  complete_take : ∀ buf req len, parse buf = .complete req len →
    parse (buf.take len) = .complete req len

namespace Httparse

variable (h : Httparse)

/-- What the bytes so far amount to, the bound on their number apart. -/
def judge (buf : List UInt8) : Option (Except HeadError (Head × Nat)) :=
  match h.parse buf with
  | .complete req len => some ((headFrom req).map fun head => (head, len))
  | .incomplete => none
  | .tooManyHeaders => some (.error .tooLarge)
  | .failed => some (.error .malformed)

/-- What the loop of `read_head` returns with, if it does not read on. -/
def headDecision (buf : List UInt8) : Option (Except HeadError (Head × Nat)) :=
  match h.parse buf with
  | .complete req len => some ((headFrom req).map fun head => (head, len))
  | .incomplete => if maxHeadBytes ≤ buf.length then some (.error .tooLarge) else none
  | .tooManyHeaders => some (.error .tooLarge)
  | .failed => some (.error .malformed)

/-- `read_head`: the head and its length or the error, what was read, and the rest of the
source. A read takes at most 1024 bytes; an end of the source that comes first is `eof`. -/
def readHead (src : Source UInt8) :
    Except HeadError (Head × Nat) × List UInt8 × Source UInt8 :=
  match Source.readUntil 1024 (by decide) h.headDecision (· ++ ·) [] src with
  | (some outcome, buf, rest) => (outcome, buf, rest)
  | (none, buf, rest) => (.error .eof, buf, rest)

end Httparse

namespace HttpLemmas

variable {h : Httparse} {buf : List UInt8} {outcome : Except HeadError (Head × Nat)}

theorem headDecision_eq (h : Httparse) (buf : List UInt8) : h.headDecision buf =
    match h.judge buf with
    | some outcome => some outcome
    | none => if maxHeadBytes ≤ buf.length then some (.error .tooLarge) else none := by
  unfold Httparse.headDecision Httparse.judge
  cases h.parse buf <;> rfl

theorem judge_eq_none : h.judge buf = none ↔ h.parse buf = .incomplete := by
  unfold Httparse.judge
  cases h.parse buf <;> simp

theorem judge_congr {buf' : List UInt8} (heq : h.parse buf = h.parse buf') :
    h.judge buf = h.judge buf' := by
  unfold Httparse.judge
  rw [heq]

theorem stable_judge (h : Httparse) : Source.Stable h.judge := by
  intro buf more outcome hjudge
  have hcomplete : h.parse buf ≠ .incomplete := fun hnone => by
    rw [judge_eq_none.mpr hnone] at hjudge
    cases hjudge
  rw [judge_congr (h.stable buf more hcomplete), hjudge]

theorem map_eq_ok {α β ε : Type} {x : Except ε α} {f : α → β} {b : β} :
    x.map f = .ok b ↔ ∃ a, x = .ok a ∧ f a = b := by
  cases x <;> simp [Except.map]

/-- A head that is accepted is a complete one. -/
theorem judge_eq_ok {head : Head} {len : Nat} : h.judge buf = some (.ok (head, len)) ↔
    ∃ req, h.parse buf = .complete req len ∧ headFrom req = .ok head := by
  unfold Httparse.judge
  cases h.parse buf with
  | incomplete | tooManyHeaders | failed => simp
  | complete req n =>
    rw [Option.some_inj, map_eq_ok]
    constructor
    · rintro ⟨head', hhead, heq⟩
      obtain ⟨rfl, rfl⟩ := Prod.mk.inj heq
      exact ⟨req, rfl, hhead⟩
    · rintro ⟨req', heq, hhead⟩
      obtain ⟨rfl, rfl⟩ := ParseResult.complete.inj heq
      exact ⟨head, hhead, rfl⟩

/-- The point at which a complete head is decided is its end. -/
theorem end_of_decided {s : List UInt8} {n : Nat} {head : Head} {len : Nat}
    (hd : Source.DecidedAt h.judge s n (.ok (head, len))) : len = n := by
  obtain ⟨req, hparse, -⟩ := judge_eq_ok.mp hd.decided
  have hle := h.complete_le _ _ _ hparse
  rw [List.length_take, Nat.min_eq_left hd.le_length] at hle
  refine Nat.le_antisymm hle (Nat.le_of_not_lt fun hlt => ?_)
  have htake := h.complete_take _ _ _ hparse
  rw [List.take_take, Nat.min_eq_left hle] at htake
  have hnone := judge_eq_none.mp (hd.open_before len hlt)
  rw [htake] at hnone
  cases hnone

theorem headHeader_error {head : Head} {header : String × List UInt8} {e : HeadError}
    (he : headHeader head header = .error e) : e = .malformed := by
  unfold headHeader at he
  repeat' split at he
  all_goals first | exact (Except.error.inj he).symm | cases he

theorem foldlM_headHeader_error {headers : List (String × List UInt8)} {head : Head}
    {e : HeadError} (he : headers.foldlM headHeader head = .error e) : e = .malformed := by
  induction headers generalizing head with
  | nil => cases he
  | cons header headers ih =>
    rw [List.foldlM_cons] at he
    cases hhead : headHeader head header with
    | error e' =>
      rw [hhead] at he
      obtain rfl : e' = e := Except.error.inj he
      exact headHeader_error hhead
    | ok head' =>
      rw [hhead] at he
      exact ih he

/-- A head that the parser took is refused as malformed only. -/
theorem headFrom_error {req : HttpRequest} {e : HeadError} (he : headFrom req = .error e) :
    e = .malformed := by
  unfold headFrom at he
  split at he
  next => exact foldlM_headHeader_error he
  next => exact (Except.error.inj he).symm

theorem judge_eq_error {e : HeadError} (hjudge : h.judge buf = some (.error e)) :
    e = .malformed ∨ h.parse buf = .tooManyHeaders := by
  unfold Httparse.judge at hjudge
  cases hparse : h.parse buf with
  | tooManyHeaders => exact .inr rfl
  | incomplete =>
    rw [hparse] at hjudge
    cases hjudge
  | failed =>
    rw [hparse] at hjudge
    exact .inl (Except.error.inj (Option.some_inj.mp hjudge)).symm
  | complete req len =>
    rw [hparse] at hjudge
    have hmap : (headFrom req).map (fun head => (head, len)) = .error e :=
      Option.some_inj.mp hjudge
    cases hhead : headFrom req with
    | ok head =>
      rw [hhead] at hmap
      cases hmap
    | error e' =>
      rw [hhead] at hmap
      obtain rfl : e' = e := Except.error.inj hmap
      exact .inl (headFrom_error hhead)

end HttpLemmas

end Mast
