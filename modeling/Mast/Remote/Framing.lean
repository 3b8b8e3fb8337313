import Mast.Remote.Server

/-!
# Requests and the reads they arrive in

The socket cuts a request into reads as it likes. The head is read until it is whole,
and what was read too much belongs to the body. The bound on the head is checked only
while the head is not whole, and one read can go over it: a head that ends at most 1023
bytes above the bound is refused or accepted, as the reads fall.

Results:
1. `readHead_cases`: what reading a head can give.
2. `split_free_iff`: the outcome of a request does not depend on the reads if and only if
   its head is not decided in those 1023 bytes.
3. `not_split_free`: a head of 8323 bytes, of which the reads decide.
-/

namespace Mast

/-- The parser has its first result at this point of the stream. -/
structure Httparse.ResultAt (h : Httparse) (s : List UInt8) (n : Nat) : Prop where
  le_length : n ≤ s.length
  result : h.parse (s.take n) ≠ .incomplete
  incomplete_before : ∀ m < n, h.parse (s.take m) = .incomplete

/-- The stream starts with a complete head that is accepted and within the bound. -/
structure StartsWithHead (h : Httparse) (s : List UInt8) (head : Head) (len : Nat) : Prop where
  within : len ≤ maxHeadBytes
  le_length : len ≤ s.length
  accepted : ∃ req, h.parse (s.take len) = .complete req len ∧ headFrom req = .ok head

/-- The outcome of a request is a matter of its bytes. -/
structure SplitFree (h : Httparse) (s : List UInt8) : Prop where
  head : ∀ src : Source UInt8, src.delivered = s → ∀ head len,
    (h.readHead src).1 = .ok (head, len) ↔ StartsWithHead h s head len
  outcome : ∀ (ctx : ServerCtx) (src src' : Source UInt8), src.delivered = s →
    src'.delivered = s → ctx.handle h src = ctx.handle h src'
  /-- All of the announced input is written, or nothing. -/
  input : ∀ (ctx : ServerCtx) (src : Source UInt8), src.delivered = s → ∀ body,
    (ctx.handle h src).written = some body → ∃ head len tab session length,
      StartsWithHead h s head len ∧
      route head.method head.path head.query = .input tab session ∧
      head.contentLength = some length ∧ body = (s.drop len).take length ∧
      body.length = length

/-- A server that admits every request, and has nothing to serve. -/
def openCtx : ServerCtx where
  token := ""
  admits := true
  stillAdmits := true
  blocks := false
  resolveInputSession _ _ := .ok ()
  ptyWrites _ := true
  other _ := .notFound

namespace FramingLemmas

open HttpLemmas ServerLemmas Source

variable {h : Httparse} {s : List UInt8} {src src' : Source UInt8} {n : Nat}
  {outcome : Except HeadError (Head × Nat)}

/-! ## The head -/

/-- What reading a head can give: the verdict on what was read, which is at most one read
more than the bound, or that it is too large, or that it ended. -/
theorem readHead_cases (h : Httparse) (hs : src.delivered = s) : ∃ m rest, m ≤ s.length ∧
    rest.delivered = s.drop m ∧
    ((∃ outcome, m ≤ maxHeadBytes + 1023 ∧ h.judge (s.take m) = some outcome ∧
        h.readHead src = (outcome, s.take m, rest)) ∨
      (h.judge (s.take m) = none ∧ maxHeadBytes ≤ m ∧
        h.readHead src = (.error .tooLarge, s.take m, rest)) ∨
      (h.judge s = none ∧ s.length < maxHeadBytes ∧
        (h.readHead src).1 = .error .eof)) := by
  -- The loop goes on only while there is no verdict and the bound is not reached.
  have hopen : ∀ buf, h.headDecision buf = none → h.judge buf = none ∧
      buf.length < maxHeadBytes := by
    intro buf hbuf
    rw [headDecision_eq] at hbuf
    cases hjudge : h.judge buf with
    | some outcome =>
      rw [hjudge] at hbuf
      cases hbuf
    | none =>
      rw [hjudge] at hbuf
      refine ⟨rfl, Nat.lt_of_not_le fun hle => ?_⟩
      dsimp only at hbuf
      rw [if_pos hle] at hbuf
      cases hbuf
  -- One more read then adds at most 1023 bytes above the bound.
  obtain ⟨buf, more, rest, ⟨rfl, hlen⟩, hres⟩ := readUntil_rule (by decide : 0 < 1024)
    h.headDecision (· ++ ·) (fun buf got => buf = got ∧ got.length ≤ maxHeadBytes + 1023)
    (fun buf got piece hI hnone _ hle => by
      obtain ⟨rfl, -⟩ := hI
      have hlt := (hopen buf hnone).2
      refine ⟨rfl, ?_⟩
      rw [List.length_append]
      omega)
    (show ([] : List UInt8) = [] ∧ ([] : List UInt8).length ≤ _ from ⟨rfl, Nat.zero_le _⟩) src
  unfold Httparse.readHead
  obtain ⟨outcome, hdecide, hdel, heq⟩ | ⟨hnone, hdel, heq⟩ := hres
  · rw [hs] at hdel
    have htake : s.take buf.length = buf := by rw [hdel, List.take_left']; rfl
    refine ⟨buf.length, rest, by rw [hdel]; simp, by rw [hdel, List.drop_left']; rfl, ?_⟩
    rw [htake, heq]
    rw [headDecision_eq] at hdecide
    cases hjudge : h.judge buf with
    | some outcome' =>
      rw [hjudge] at hdecide
      obtain rfl := Option.some_inj.mp hdecide
      exact .inl ⟨_, hlen, rfl, rfl⟩
    | none =>
      rw [hjudge] at hdecide
      dsimp only at hdecide
      split at hdecide
      next hle =>
        obtain rfl := Option.some_inj.mp hdecide
        exact .inr (.inl ⟨rfl, hle, rfl⟩)
      next => cases hdecide
  · rw [hs] at hdel
    subst hdel
    obtain ⟨hjudge, hlt⟩ := hopen _ hnone
    refine ⟨s.length, [], Nat.le_refl _, by rw [List.drop_length]; rfl,
      .inr (.inr ⟨hjudge, hlt, ?_⟩)⟩
    rw [heq]

theorem decidedAt_of_resultAt (hn : h.ResultAt s n) :
    ∃ outcome, DecidedAt h.judge s n outcome := by
  obtain ⟨outcome, ho⟩ := Option.ne_none_iff_exists'.mp fun hnone =>
    hn.result (judge_eq_none.mp hnone)
  exact ⟨outcome, hn.le_length, ho, fun m hm => judge_eq_none.mpr (hn.incomplete_before m hm)⟩

theorem resultAt_of_decidedAt (hd : DecidedAt h.judge s n outcome) : h.ResultAt s n where
  le_length := hd.le_length
  result hnone := by
    have hjudge := judge_eq_none.mpr hnone
    rw [hd.decided] at hjudge
    cases hjudge
  incomplete_before m hm := judge_eq_none.mp (hd.open_before m hm)

/-- A head that is decided within the bound is what it is for every reader. -/
theorem readHead_early (hs : src.delivered = s) (hd : DecidedAt h.judge s n outcome)
    (hn : n ≤ maxHeadBytes) : (h.readHead src).1 = outcome := by
  obtain ⟨m, rest, hm, -, hres⟩ := readHead_cases h hs
  obtain ⟨o, -, ho, heq⟩ | ⟨hnone, hle, -⟩ | ⟨hnone, -, -⟩ := hres
  · obtain ⟨n', -, hd'⟩ := exists_decidedAt (stable_judge h) hm ho
    rw [heq]
    exact (hd'.unique hd).2
  · rw [hd.take_of_le (stable_judge h) (hn.trans hle)] at hnone
    cases hnone
  · have hall := hd.take_of_le (stable_judge h) hd.le_length
    rw [List.take_length, hnone] at hall
    cases hall

/-- A head that is not decided within one read of the bound is refused, or it ended. -/
theorem readHead_open (hs : src.delivered = s)
    (hopen : ∀ m ≤ maxHeadBytes + 1023, h.judge (s.take m) = none) :
    (h.readHead src).1 = .error (if maxHeadBytes ≤ s.length then .tooLarge else .eof) := by
  obtain ⟨m, rest, hm, -, hres⟩ := readHead_cases h hs
  obtain ⟨o, hle, ho, -⟩ | ⟨-, hle, heq⟩ | ⟨-, hlt, heq⟩ := hres
  · rw [hopen m hle] at ho
    cases ho
  · rw [heq, if_pos (hle.trans hm)]
  · rw [heq, if_neg (Nat.not_le_of_lt hlt)]

/-- A head that is refused for its headers is refused as too large by every reader. -/
theorem readHead_tooLarge (hs : src.delivered = s)
    (hd : DecidedAt h.judge s n (.error .tooLarge)) : (h.readHead src).1 = .error .tooLarge := by
  obtain ⟨m, rest, hm, -, hres⟩ := readHead_cases h hs
  obtain ⟨o, -, ho, heq⟩ | ⟨-, -, heq⟩ | ⟨hnone, -, -⟩ := hres
  · obtain ⟨n', -, hd'⟩ := exists_decidedAt (stable_judge h) hm ho
    rw [heq]
    exact (hd'.unique hd).2
  · rw [heq]
  · have hall := hd.take_of_le (stable_judge h) hd.le_length
    rw [List.take_length, hnone] at hall
    cases hall

theorem headDecision_open (hd : DecidedAt h.judge s n outcome) {m : Nat} (hm : m < n)
    (hbound : m < maxHeadBytes) : h.headDecision (s.take m) = none := by
  have hlt : ¬ maxHeadBytes ≤ (s.take m).length := by
    rw [List.length_take]
    omega
  rw [headDecision_eq, hd.open_before m hm]
  exact if_neg hlt

/-- Reads can step over the bound to where the head is decided. -/
theorem exists_readHead_over (hd : DecidedAt h.judge s n outcome) (hlow : maxHeadBytes < n)
    (hhigh : n ≤ maxHeadBytes + 1023) :
    ∃ src : Source UInt8, src.delivered = s ∧ (h.readHead src).1 = outcome := by
  have hlen := hd.le_length
  unfold maxHeadBytes at hlow hhigh
  have hpiece : (s.drop 8191).take 1024 ≠ [] := by
    refine List.ne_nil_of_length_pos ?_
    rw [List.length_take, List.length_drop]
    omega
  -- 8191 bytes one by one, and then as many as one read takes.
  refine ⟨(s.take 8191).map (fun b => .data [b]) ++
    [.data ((s.drop 8191).take 1024), .data (s.drop 9215)], ?_, ?_⟩
  · have hrest : delivered [.data ((s.drop 8191).take 1024), .data (s.drop 9215)] =
        s.drop 8191 := by
      refine (if_neg hpiece).trans ?_
      rw [delivered_data, show 9215 = 8191 + 1024 from rfl, ← List.drop_drop,
        List.take_append_drop]
    rw [delivered_singly, hrest, List.take_append_drop]
  · have hopen : ∀ m < (s.take 8191).length,
        h.headDecision ([] ++ (s.take 8191).take m) = none := by
      intro m hm
      rw [List.length_take] at hm
      rw [List.nil_append, List.take_take, Nat.min_eq_left (by omega)]
      exact headDecision_open hd (by omega) (by unfold maxHeadBytes; omega)
    have hread : read 1024 [.data ((s.drop 8191).take 1024), .data (s.drop 9215)] =
        (.data ((s.drop 8191).take 1024), [.data (s.drop 9215)]) :=
      if_pos (List.length_take_le 1024 _)
    have hdecided : h.headDecision (s.take 8191 ++ (s.drop 8191).take 1024) = some outcome := by
      rw [← List.take_add, headDecision_eq, hd.take_of_le (stable_judge h) hhigh]
    unfold Httparse.readHead
    rw [readUntil_singly _ _ _ hopen, List.nil_append,
      readUntil_data (headDecision_open hd (by omega) (by decide)) hread hpiece,
      readUntil_decided hdecided]

/-- Reads can stop at the bound. -/
theorem exists_readHead_refused (hd : DecidedAt h.judge s n outcome) (hlow : maxHeadBytes < n) :
    ∃ src : Source UInt8, src.delivered = s ∧ (h.readHead src).1 = .error .tooLarge := by
  have hlen := hd.le_length
  refine ⟨(s.take maxHeadBytes).map (fun b => .data [b]) ++ [.data (s.drop maxHeadBytes)], ?_, ?_⟩
  · rw [delivered_singly, delivered_data, List.take_append_drop]
  · have hopen : ∀ m < (s.take maxHeadBytes).length,
        h.headDecision ([] ++ (s.take maxHeadBytes).take m) = none := by
      intro m hm
      rw [List.length_take] at hm
      rw [List.nil_append, List.take_take, Nat.min_eq_left (by omega)]
      exact headDecision_open hd (by omega) (by omega)
    have hfull : maxHeadBytes ≤ (s.take maxHeadBytes).length := by
      rw [List.length_take]
      omega
    have hdecided : h.headDecision (s.take maxHeadBytes) = some (.error .tooLarge) := by
      rw [headDecision_eq, hd.open_before _ hlow]
      exact if_pos hfull
    unfold Httparse.readHead
    rw [readUntil_singly _ _ _ hopen, List.nil_append, readUntil_decided hdecided]

/-! ## The request -/

/-- Only the bytes behind the head matter, not where they wait. -/
theorem respond_congr {ctx : ServerCtx} {head : Head} {len : Nat} {buf buf' : List UInt8}
    (hbytes : buf.drop len ++ src.delivered = buf'.drop len ++ src'.delivered) :
    ctx.respond src head len buf = ctx.respond src' head len buf' := by
  have hbody : ∀ length, readBody src buf len length = readBody src' buf' len length := by
    intro length
    rw [readBody_eq, readBody_eq, hbytes]
  unfold ServerCtx.respond ServerCtx.input
  simp only [hbody]

/-- The bytes behind an accepted head. -/
theorem behind_head {r : Except HeadError (Head × Nat)} {buf : List UInt8} {rest : Source UInt8}
    (hs : src.delivered = s) (heq : h.readHead src = (r, buf, rest)) {head : Head} {len : Nat}
    (hr : r = .ok (head, len)) : buf.drop len ++ rest.delivered = s.drop len := by
  obtain ⟨m, rest', hm, hdel, hres⟩ := readHead_cases h hs
  obtain ⟨o, -, ho, heq'⟩ | ⟨-, -, heq'⟩ | ⟨-, -, heq'⟩ := hres
  · rw [heq] at heq'
    obtain ⟨rfl, hrest⟩ := Prod.mk.inj heq'
    obtain ⟨rfl, rfl⟩ := Prod.mk.inj hrest
    rw [hr] at ho
    obtain ⟨req, hparse, -⟩ := judge_eq_ok.mp ho
    rw [hdel, ← List.drop_append_of_le_length (h.complete_le _ _ _ hparse),
      List.take_append_drop]
  · rw [heq, hr] at heq'
    cases heq'
  · rw [heq, hr] at heq'
    cases heq'

/-- The response to a request depends on the verdict on its head and on its bytes. -/
theorem handle_congr (ctx : ServerCtx) (hs : src.delivered = s) (hs' : src'.delivered = s)
    (heq : (h.readHead src).1 = (h.readHead src').1) : ctx.handle h src = ctx.handle h src' := by
  unfold ServerCtx.handle
  cases ctx.admits with
  | false => rfl
  | true =>
    cases hr : h.readHead src with
    | mk r tail =>
      cases hr' : h.readHead src' with
      | mk r' tail' =>
        obtain ⟨buf, rest⟩ := tail
        obtain ⟨buf', rest'⟩ := tail'
        rw [hr, hr'] at heq
        obtain rfl : r = r' := heq
        cases r with
        | error e => cases e <;> rfl
        | ok found =>
          obtain ⟨head, len⟩ := found
          refine respond_congr ?_
          rw [behind_head hs hr rfl, behind_head hs' hr' rfl]

theorem handle_tooLarge {ctx : ServerCtx} (hadmits : ctx.admits = true)
    (hr : (h.readHead src).1 = .error .tooLarge) : ctx.handle h src =
      ⟨some (.error 431 "Request Header Fields Too Large" "request head too large"), none⟩ := by
  unfold ServerCtx.handle
  rw [hadmits]
  cases hread : h.readHead src with
  | mk r tail =>
    rw [hread] at hr
    obtain rfl : r = .error .tooLarge := hr
    rfl

theorem handle_malformed {ctx : ServerCtx} (hadmits : ctx.admits = true)
    (hr : (h.readHead src).1 = .error .malformed) : ctx.handle h src =
      ⟨some (.error 400 "Bad Request" "bad request"), none⟩ := by
  unfold ServerCtx.handle
  rw [hadmits]
  cases hread : h.readHead src with
  | mk r tail =>
    rw [hread] at hr
    obtain rfl : r = .error .malformed := hr
    rfl

/-- There is nobody to answer. -/
theorem handle_eof {ctx : ServerCtx} (hadmits : ctx.admits = true)
    (hr : (h.readHead src).1 = .error .eof) : ctx.handle h src = ⟨none, none⟩ := by
  unfold ServerCtx.handle
  rw [hadmits]
  cases hread : h.readHead src with
  | mk r tail =>
    rw [hread] at hr
    obtain rfl : r = .error .eof := hr
    rfl

/-- What is written is the body of an input request. -/
theorem written_input {ctx : ServerCtx} {head : Head} {len : Nat} {buf body : List UInt8}
    {tab : Nat} {session : Option String}
    (hw : (ctx.input src head len buf tab session).2 = some body) :
    ∃ length, head.contentLength = some length ∧ readBody src buf len length = some body := by
  unfold ServerCtx.input at hw
  repeat' split at hw
  all_goals first
    | cases hw; done
    | exact ⟨_, ‹_›, by simp_all⟩

/-- Only a request for input writes. -/
theorem written_respond {ctx : ServerCtx} {head : Head} {len : Nat} {buf body : List UInt8}
    (hw : (ctx.respond src head len buf).written = some body) : ∃ tab session length,
      route head.method head.path head.query = .input tab session ∧
      head.contentLength = some length ∧ readBody src buf len length = some body := by
  unfold ServerCtx.respond at hw
  cases htarget : route head.method head.path head.query with
  | notFound | badRequest =>
    rw [htarget] at hw
    cases hw
  | state | screen | static =>
    rw [htarget] at hw
    dsimp only at hw
    repeat' split at hw
    all_goals cases hw
  | input tab session =>
    rw [htarget] at hw
    dsimp only at hw
    split at hw
    next => cases hw
    next =>
      split at hw
      next =>
        split at hw
        next => cases hw
        next => cases hw
      next =>
        obtain ⟨length, hlength, hbody⟩ := written_input hw
        exact ⟨tab, session, length, rfl, hlength, hbody⟩

theorem written_handle {ctx : ServerCtx} {body : List UInt8} (hs : src.delivered = s)
    (hw : (ctx.handle h src).written = some body) : ∃ head len tab session length,
      (h.readHead src).1 = .ok (head, len) ∧
      route head.method head.path head.query = .input tab session ∧
      head.contentLength = some length ∧ body = (s.drop len).take length ∧
      body.length = length := by
  unfold ServerCtx.handle at hw
  split at hw
  next => cases hw
  next =>
    cases hread : h.readHead src with
    | mk r tail =>
      obtain ⟨buf, rest⟩ := tail
      rw [hread] at hw
      cases r with
      | error e => cases e <;> cases hw
      | ok found =>
        obtain ⟨head, len⟩ := found
        obtain ⟨tab, session, length, hroute, hlength, hbody⟩ := written_respond hw
        rw [readBody_eq, behind_head hs hread rfl] at hbody
        dsimp only at hbody
        split at hbody
        next hle =>
          obtain rfl := Option.some_inj.mp hbody
          refine ⟨head, len, tab, session, length, rfl, hroute, hlength, rfl, ?_⟩
          rw [List.length_take, Nat.min_eq_left hle]
        next => cases hbody

/-- A head that is accepted at its end is decided there. -/
theorem startsWithHead_iff {head : Head} {len : Nat} : StartsWithHead h s head len ↔
    len ≤ maxHeadBytes ∧ DecidedAt h.judge s len (.ok (head, len)) := by
  constructor
  · intro hstart
    obtain ⟨n, hn, hd⟩ := exists_decidedAt (stable_judge h) hstart.le_length
      (judge_eq_ok.mpr hstart.accepted)
    obtain rfl := end_of_decided hd
    exact ⟨hstart.within, hd⟩
  · rintro ⟨hwithin, hd⟩
    exact ⟨hwithin, hd.le_length, judge_eq_ok.mp hd.decided⟩

/-- The parser has no result on the way to the bound and one read more. -/
theorem open_of_not_resultAt (hn : ∀ n, h.ResultAt s n → maxHeadBytes + 1023 < n) :
    ∀ m ≤ maxHeadBytes + 1023, h.judge (s.take m) = none := by
  intro m hm
  refine Option.eq_none_iff_forall_not_mem.mpr fun o ho => ?_
  have htake : s.take m = s.take (min m s.length) := by
    rcases Nat.le_total m s.length with hle | hle
    · rw [Nat.min_eq_left hle]
    · rw [Nat.min_eq_right hle, List.take_length, List.take_of_length_le hle]
  rw [htake] at ho
  obtain ⟨n, hle, hd⟩ := exists_decidedAt (stable_judge h) (Nat.min_le_right m s.length) ho
  have hover := hn n (resultAt_of_decidedAt hd)
  omega

/-- The verdict on a head whose reads do not matter. -/
theorem readHead_verdict (hfree : ∀ n, h.ResultAt s n → n ≤ maxHeadBytes ∨
      maxHeadBytes + 1023 < n ∨ h.parse (s.take n) = .tooManyHeaders) :
    ∃ verdict, (∀ src : Source UInt8, src.delivered = s → (h.readHead src).1 = verdict) ∧
      ∀ head len, verdict = .ok (head, len) ↔ StartsWithHead h s head len := by
  by_cases hresult : ∃ n, h.ResultAt s n
  · obtain ⟨n, hn⟩ := hresult
    obtain ⟨outcome, hd⟩ := decidedAt_of_resultAt hn
    have hstarts : ∀ head len, StartsWithHead h s head len →
        len = n ∧ outcome = .ok (head, len) := by
      intro head len hstart
      obtain ⟨-, hd'⟩ := startsWithHead_iff.mp hstart
      obtain ⟨hlen, ho⟩ := hd'.unique hd
      exact ⟨hlen, ho.symm⟩
    rcases hfree n hn with hle | hlt | hmany
    · refine ⟨outcome, fun src hs => readHead_early hs hd hle, fun head len => ⟨?_, ?_⟩⟩
      · rintro rfl
        obtain rfl := end_of_decided hd
        exact startsWithHead_iff.mpr ⟨hle, hd⟩
      · exact fun hstart => (hstarts head len hstart).2
    · refine ⟨_, fun src hs => readHead_open hs (open_of_not_resultAt fun m hm => ?_),
        fun head len => iff_of_false (by simp) fun hstart => ?_⟩
      · obtain ⟨o, hm⟩ := decidedAt_of_resultAt hm
        rw [(hm.unique hd).1]
        exact hlt
      · have hwithin := hstart.within
        rw [(hstarts head len hstart).1] at hwithin
        omega
    · have hlarge : h.judge (s.take n) = some (.error .tooLarge) := by
        unfold Httparse.judge
        rw [hmany]
      rw [hd.decided] at hlarge
      obtain rfl := Option.some_inj.mp hlarge
      refine ⟨_, fun src hs => readHead_tooLarge hs hd, fun head len =>
        iff_of_false (by simp) fun hstart => ?_⟩
      cases (hstarts head len hstart).2
  · refine ⟨_, fun src hs => readHead_open hs
      (open_of_not_resultAt fun n hn => absurd ⟨n, hn⟩ hresult), fun head len =>
        iff_of_false (by simp) fun hstart => hresult ⟨len, ?_⟩⟩
    exact resultAt_of_decidedAt (startsWithHead_iff.mp hstart).2

end FramingLemmas

open FramingLemmas in
/-- The outcome of a request is a matter of its bytes if and only if its head is not
decided above the bound and within one read of it, other than by too many headers. -/
theorem split_free_iff (h : Httparse) (s : List UInt8) : SplitFree h s ↔
    ∀ n, h.ResultAt s n → n ≤ maxHeadBytes ∨ maxHeadBytes + 1023 < n ∨
      h.parse (s.take n) = .tooManyHeaders := by
  constructor
  · intro hsplit n hn
    by_contra hnot
    obtain ⟨hlow, hnot⟩ := not_or.mp hnot
    obtain ⟨hhigh, hmany⟩ := not_or.mp hnot
    obtain ⟨outcome, hd⟩ := decidedAt_of_resultAt hn
    obtain ⟨src, hs, hr⟩ := exists_readHead_over hd (Nat.lt_of_not_le hlow)
      (Nat.le_of_not_lt hhigh)
    obtain ⟨src', hs', hr'⟩ := exists_readHead_refused hd (Nat.lt_of_not_le hlow)
    cases outcome with
    | ok found =>
      obtain ⟨head, len⟩ := found
      have hwithin := ((hsplit.head src hs head len).mp hr).within
      rw [HttpLemmas.end_of_decided hd] at hwithin
      exact hlow hwithin
    | error e =>
      obtain rfl := (HttpLemmas.judge_eq_error hd.decided).resolve_right hmany
      have hsame := hsplit.outcome openCtx src src' hs hs'
      rw [handle_malformed rfl hr, handle_tooLarge rfl hr'] at hsame
      have hstatus := congrArg (fun o => o.response.map Response.status) hsame
      cases hstatus
  · intro hfree
    obtain ⟨verdict, hverdict, hok⟩ := readHead_verdict hfree
    refine ⟨fun src hs head len => ?_, fun ctx src src' hs hs' => ?_, fun ctx src hs body hw => ?_⟩
    · rw [hverdict src hs]
      exact hok head len
    · exact handle_congr ctx hs hs' ((hverdict src hs).trans (hverdict src' hs').symm)
    · obtain ⟨head, len, tab, session, length, hr, hrest⟩ := written_handle hs hw
      exact ⟨head, len, tab, session, length, (hok head len).mp ((hverdict src hs).symm.trans hr),
        hrest⟩

/-- A parser that knows one head. -/
def oneHead (bytes : List UInt8) (req : HttpRequest) : Httparse where
  parse buf := if bytes <+: buf then .complete req bytes.length else .incomplete
  stable buf more hresult := by
    split at hresult
    next hbegins => rw [if_pos hbegins, if_pos (hbegins.trans (List.prefix_append buf more))]
    next => exact absurd rfl hresult
  complete_le buf req' len hparse := by
    split at hparse
    next hbegins =>
      obtain ⟨-, rfl⟩ := ParseResult.complete.inj hparse
      exact hbegins.length_le
    next => cases hparse
  complete_take buf req' len hparse := by
    split at hparse
    next hbegins =>
      obtain ⟨rfl, rfl⟩ := ParseResult.complete.inj hparse
      exact if_pos (List.prefix_take_iff.mpr ⟨hbegins, Nat.le_refl _⟩)
    next => cases hparse

def inputHead : List UInt8 :=
  Utf8.bytes "POST /api/tabs/1/input HTTP/1.1\r\nContent-Length: 5\r\n\r\n"

def inputRequest : HttpRequest :=
  ⟨some "POST", some "/api/tabs/1/input", [("Content-Length", Utf8.bytes "5")]⟩

theorem split_free_input :
    SplitFree (oneHead inputHead inputRequest) (inputHead ++ Utf8.bytes "hello") :=
  (split_free_iff _ _).mpr fun _ hn => .inl (hn.le_length.trans (by decide))

/-! ## A head above the bound -/

theorem decidedAt_oneHead {bytes : List UInt8} {req : HttpRequest} {head : Head}
    (hhead : headFrom req = .ok head) : Source.DecidedAt (oneHead bytes req).judge bytes
      bytes.length (.ok (head, bytes.length)) where
  le_length := Nat.le_refl _
  decided := by
    refine HttpLemmas.judge_eq_ok.mpr ⟨req, ?_, hhead⟩
    rw [List.take_length]
    exact if_pos (List.prefix_refl bytes)
  open_before m hm := by
    refine HttpLemmas.judge_eq_none.mpr (if_neg fun hbegins => ?_)
    have hle := hbegins.length_le
    rw [List.length_take] at hle
    omega

def longValue : List UInt8 := List.replicate 8300 (ascii 'a')

/-- `GET / HTTP/1.1` with one header of 8300 bytes. -/
def longHead : List UInt8 :=
  Utf8.bytes "GET / HTTP/1.1\r\nX: " ++ longValue ++ Utf8.bytes "\r\n\r\n"

def longRequest : HttpRequest := ⟨some "GET", some "/", [("X", longValue)]⟩

theorem length_longHead : longHead.length = 8323 := by
  unfold longHead longValue
  rw [List.length_append, List.length_append, List.length_replicate]
  rfl

/-- Cut into single bytes up to one before the bound it is accepted, up to the bound
refused. -/
theorem not_split_free : ¬ SplitFree (oneHead longHead longRequest) longHead := by
  intro hsplit
  have hhead : headFrom longRequest = .ok ⟨.get, "/", none, none, none, false, false, false⟩ := rfl
  have hd : Source.DecidedAt _ longHead _ _ := decidedAt_oneHead hhead
  obtain ⟨src, hs, hr⟩ := FramingLemmas.exists_readHead_over hd
    (by rw [length_longHead]; decide) (by rw [length_longHead]; decide)
  have hwithin := ((hsplit.head src hs _ _).mp hr).within
  rw [length_longHead] at hwithin
  exact absurd hwithin (by decide)

end Mast
