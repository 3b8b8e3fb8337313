import Mast.Lib.Machine
import Mast.Remote.RateLimit
import Mast.Remote.Server

/-!
# The brake of the server

`server.rs` around the limiter: every connection has its own thread, and the thread takes
the lock of the limiter for each check and each record, not in between. So requests that
overlap can all pass a check before the failure of one of them is recorded.

`FailureLedger` pairs the evaluated failures of an address with the recorded ones: each was
recorded no earlier than it was evaluated, and the ones that are not recorded yet belong
to open connections.

Results:
1. `ledger_step`: every step keeps the ledger.
2. `bounded_step`: the failures of a window, with the connections that may still add one,
   are at most ten more than the connections that can be open.
3. `brake_holds`: the limiter and the bound.
-/

universe u

namespace Mast

open SlidingWindow

/-- `MAX_CONNECTIONS`. -/
def maxConnections : Nat := 32

/-- Where the thread of a connection is. -/
inductive ConnStage
  | accepted
  | reading
  | routed (head : Head)
  /-- The check behind the head passed. -/
  | checked (head : Head) (since : Nat)
  /-- The request is not authorized, and that is not recorded yet. -/
  | failed (since : Nat)
  | answering
deriving DecidableEq, Repr

structure Conn (Ip : Type u) where
  ip : Ip
  stage : ConnStage
deriving DecidableEq, Repr

/-- The threads and their limiter. `calls` are the calls of the limiter and `evaluated`
the failures in the order of their evaluation, the newest first. -/
structure RemoteThreads (Ip : Type u) [LinearOrder Ip] where
  rate : RateLimiter Ip
  conns : List (Conn Ip)
  calls : List (RateCall Ip)
  evaluated : List (Ip × Nat)

/-- A step of the thread of the connection at a position. -/
inductive ConnAction (Ip : Type u)
  | accept (ip : Ip)
  | check (i now : Nat)
  | readHead (i : Nat) (head : Except HeadError Head)
  | authorize (i now : Nat)
  | record (i now : Nat)
  | close (i : Nat)

/-- The last moment that the thread read. -/
def ConnStage.since : ConnStage → Nat
  | .checked _ since | .failed since => since
  | .accepted | .reading | .routed _ | .answering => 0

/-- Where a head leads: unknown paths are answered before the second check. -/
def ConnStage.ofHead : Except HeadError Head → ConnStage
  | .error _ => .answering
  | .ok head =>
    match route head.method head.path head.query with
    | .notFound | .badRequest => .answering
    | _ => .routed head

def refuses (token : String) (head : Head) : Bool :=
  needsAuth (route head.method head.path head.query) && !authorized head token

namespace RemoteThreads

variable {Ip : Type u} [LinearOrder Ip]

def init (cap : Nat) : RemoteThreads Ip := ⟨.new cap, [], [], []⟩

/-- The thread of a connection moves on. -/
def move (s : RemoteThreads Ip) (i : Nat) (ip : Ip) (stage : ConnStage) : RemoteThreads Ip :=
  { s with conns := s.conns.set i ⟨ip, stage⟩ }

/-- A call of the limiter, under its lock. -/
def call (s : RemoteThreads Ip) (c : RateCall Ip) : RemoteThreads Ip :=
  { s with rate := (s.rate.call c).1, calls := c :: s.calls }

/-- The request of an address turned out not to be authorized. -/
def evaluate (s : RemoteThreads Ip) (ip : Ip) (now : Nat) : RemoteThreads Ip :=
  { s with evaluated := (ip, now) :: s.evaluated }

/-- What the limiter answers. -/
def admitted (s : RemoteThreads Ip) (ip : Ip) (now : Nat) : Bool := (s.rate.check ip now).2

def step (C : Nat) (token : String) (s : RemoteThreads Ip) : ConnAction Ip → RemoteThreads Ip
  | .accept ip =>
    if s.conns.length < C then { s with conns := ⟨ip, .accepted⟩ :: s.conns } else s
  | .check i now =>
    match s.conns[i]? with
    | some ⟨ip, .accepted⟩ =>
      (s.call (.check ip now)).move i ip (if s.admitted ip now then .reading else .answering)
    | some ⟨ip, .routed head⟩ =>
      (s.call (.check ip now)).move i ip
        (if s.admitted ip now then .checked head now else .answering)
    | _ => s
  | .readHead i head =>
    match s.conns[i]? with
    | some ⟨ip, .reading⟩ => s.move i ip (.ofHead head)
    | _ => s
  | .authorize i now =>
    match s.conns[i]? with
    | some ⟨ip, .checked head _⟩ =>
      if refuses token head then
        (s.move i ip (.failed now)).evaluate ip now
      else s.move i ip .answering
    | _ => s
  | .record i now =>
    match s.conns[i]? with
    | some ⟨ip, .failed _⟩ => (s.call (.recordFailure ip now)).move i ip .answering
    | _ => s
  | .close i =>
    match s.conns[i]? with
    -- nothing ends the thread between the evaluation and the record
    | some ⟨_, .failed _⟩ | none => s
    | some _ => { s with conns := s.conns.eraseIdx i }

/-- The open connections of an address. -/
def openOf (s : RemoteThreads Ip) (ip : Ip) : Nat := s.conns.countP fun c => c.ip = ip

def since (s : RemoteThreads Ip) (i : Nat) : Nat := (s.conns[i]?.map fun c => c.stage.since).getD 0

/-- The moments at which a failure of the address was evaluated. -/
def evaluatedOf (s : RemoteThreads Ip) (ip : Ip) : List Nat :=
  s.evaluated.filterMap fun e => if e.1 = ip then some e.2 else none

/-- Time does not run backwards in the order of the lock, nor in a thread, and an address
that is `alone` opens one connection at a time. -/
def admits (alone : Ip → Prop) (s : RemoteThreads Ip) : ConnAction Ip → Prop
  | .accept ip => alone ip → s.openOf ip = 0
  | .check i now | .record i now => (∀ c ∈ s.calls, c.now ≤ now) ∧ s.since i ≤ now
  | .authorize i now => s.since i ≤ now
  | .readHead .. | .close _ => True

instance decidableAdmits (alone : Ip → Prop) [DecidablePred alone] (s : RemoteThreads Ip)
    (a : ConnAction Ip) : Decidable (admits alone s a) :=
  match a with
  | .accept ip => inferInstanceAs (Decidable (alone ip → s.openOf ip = 0))
  | .check i now | .record i now =>
    have := List.decidableBAll (fun c : RateCall Ip => c.now ≤ now) s.calls
    inferInstanceAs (Decidable ((∀ c ∈ s.calls, c.now ≤ now) ∧ s.since i ≤ now))
  | .authorize i now => inferInstanceAs (Decidable (s.since i ≤ now))
  | .readHead .. | .close _ => isTrue trivial

/-- The server with at most `C` connections. -/
def machine (C : Nat) (token : String) (alone : Ip → Prop) :
    Machine (RemoteThreads Ip) (ConnAction Ip) where
  step := step C token
  admits := admits alone

instance decidableMachineAdmits (C : Nat) (token : String) (alone : Ip → Prop)
    [DecidablePred alone] (s : RemoteThreads Ip) (a : ConnAction Ip) :
    Decidable ((machine C token alone).admits s a) := decidableAdmits alone s a

end RemoteThreads

/-! ## The ledger -/

/-- In the window that begins with `a`. -/
def inWindow (a e : Nat) : Bool := decide (a ≤ e) && decide (e < a + rateWindow)

namespace ConnStage

/-- The connection may still have a failure of the window recorded. -/
def mayFail (a : Nat) : ConnStage → Bool
  | .checked _ since => decide (since < a + rateWindow)
  | .failed since => inWindow a since
  | .accepted | .reading | .routed _ | .answering => false

/-- The connection has a failure of the window that is not recorded yet. -/
def unrecorded (a : Nat) : ConnStage → Bool
  | .failed since => inWindow a since
  | .accepted | .reading | .routed _ | .checked .. | .answering => false

end ConnStage

section FailureLedger

variable {Ip : Type u} [LinearOrder Ip]

def mayFailOf (s : RemoteThreads Ip) (ip : Ip) (a : Nat) : Nat :=
  s.conns.countP fun c => c.ip = ip && c.stage.mayFail a

def unrecordedOf (s : RemoteThreads Ip) (ip : Ip) (a : Nat) : Nat :=
  s.conns.countP fun c => c.ip = ip && c.stage.unrecorded a

/-- Each recorded failure of the address with the moment of its evaluation, the newest
record first. -/
structure FailureLedger (s : RemoteThreads Ip) (ip : Ip) (pairs : List (Nat × Nat)) : Prop where
  recorded : pairs.map Prod.snd = failuresOf ip s.calls
  later : ∀ x ∈ pairs, x.1 ≤ x.2
  evaluated : ∀ a, (s.evaluatedOf ip).countP (inWindow a) =
    unrecordedOf s ip a + pairs.countP fun x => inWindow a x.1

/-- The failures of a window, with those that open connections may add, are at most ten
more than `K`. -/
def WindowBounded (K : Nat) (s : RemoteThreads Ip) (ip : Ip) (pairs : List (Nat × Nat)) : Prop :=
  ∀ a, mayFailOf s ip a + (pairs.countP fun x => inWindow a x.1) ≤ maxFailures + K

/-- The limiter is what its calls made of it, and time did not run backwards. -/
structure InStep (cap : Nat) (s : RemoteThreads Ip) : Prop where
  rate : s.rate = (RateLimiter.new cap).after s.calls
  ordered : InOrder s.calls

end FailureLedger

namespace BrakeLemmas

/-! ## Counting -/

theorem countP_cons_toNat {α : Type u} (p : α → Bool) (c : α) (l : List α) :
    (c :: l).countP p = l.countP p + (p c).toNat := by
  rw [List.countP_cons]
  cases p c with
  | false => rfl
  | true => rfl

theorem countP_set_add {α : Type u} {l : List α} {i : Nat} {c c' : α} (p : α → Bool)
    (h : l[i]? = some c) :
    (l.set i c').countP p + (p c).toNat = l.countP p + (p c').toNat := by
  induction l generalizing i with
  | nil => cases h
  | cons d rest ih =>
    cases i with
    | zero =>
      obtain rfl : d = c := Option.some.inj h
      rw [List.set_cons_zero, countP_cons_toNat, countP_cons_toNat]
      omega
    | succ i =>
      rw [List.set_cons_succ, countP_cons_toNat, countP_cons_toNat]
      have := ih (i := i) h
      omega

theorem countP_eraseIdx_add {α : Type u} {l : List α} {i : Nat} {c : α} (p : α → Bool)
    (h : l[i]? = some c) : (l.eraseIdx i).countP p + (p c).toNat = l.countP p := by
  induction l generalizing i with
  | nil => cases h
  | cons d rest ih =>
    cases i with
    | zero =>
      obtain rfl : d = c := Option.some.inj h
      rw [List.eraseIdx_cons_zero, countP_cons_toNat]
    | succ i =>
      rw [List.eraseIdx_cons_succ, countP_cons_toNat, countP_cons_toNat]
      have := ih (i := i) h
      omega

/-! ## Steps -/

variable {Ip : Type u} [LinearOrder Ip] {C : Nat} {token : String} {alone : Ip → Prop}
  {s : RemoteThreads Ip} {a : ConnAction Ip} {ip : Ip}

/-- What a step does. -/
inductive Steps (C : Nat) (s : RemoteThreads Ip) (a : ConnAction Ip) : RemoteThreads Ip → Prop
  | stay : Steps C s a s
  | accept (ip : Ip) : a = .accept ip → s.conns.length < C →
      Steps C s a { s with conns := ⟨ip, .accepted⟩ :: s.conns }
  | move (i : Nat) (c : Conn Ip) (stage : ConnStage) : s.conns[i]? = some c →
      (∀ w, c.stage.unrecorded w = false) → (∀ w, stage.mayFail w = false) →
      Steps C s a (s.move i c.ip stage)
  | check (i now : Nat) (c : Conn Ip) (stage : ConnStage) : a = .check i now →
      s.conns[i]? = some c → (∀ w, c.stage.mayFail w = false) →
      ((∀ w, stage.mayFail w = false) ∨
        s.admitted c.ip now = true ∧ ∃ head, stage = .checked head now) →
      Steps C s a ((s.call (.check c.ip now)).move i c.ip stage)
  | fail (i now since : Nat) (ip : Ip) (head : Head) :
      s.conns[i]? = some ⟨ip, .checked head since⟩ → since ≤ now →
      Steps C s a ((s.move i ip (.failed now)).evaluate ip now)
  | record (i now since : Nat) (ip : Ip) : a = .record i now →
      s.conns[i]? = some ⟨ip, .failed since⟩ → since ≤ now →
      Steps C s a ((s.call (.recordFailure ip now)).move i ip .answering)
  | close (i : Nat) (c : Conn Ip) : s.conns[i]? = some c → (∀ w, c.stage.unrecorded w = false) →
      Steps C s a { s with conns := s.conns.eraseIdx i }

theorem ofHead_mayFail (head : Except HeadError Head) (w : Nat) :
    (ConnStage.ofHead head).mayFail w = false := by
  unfold ConnStage.ofHead
  split
  · rfl
  · split <;> rfl

theorem since_of_get {i : Nat} {c : Conn Ip} (h : s.conns[i]? = some c) :
    s.since i = c.stage.since := by
  unfold RemoteThreads.since
  rw [h]
  rfl

theorem step_cases (ha : RemoteThreads.admits alone s a) :
    Steps C s a (RemoteThreads.step C token s a) := by
  cases a with
  | accept ip =>
    unfold RemoteThreads.step
    dsimp only
    split
    · next hlt => exact .accept ip rfl hlt
    · exact .stay
  | check i now =>
    unfold RemoteThreads.step
    dsimp only
    split
    · next ip hget =>
      refine .check i now _ _ rfl hget (fun _ => rfl) (.inl fun _ => ?_)
      split <;> rfl
    · next ip head hget =>
      -- The check after the head lets a request on only if it is not blocked.
      refine .check i now _ _ rfl hget (fun _ => rfl) ?_
      split
      · next hok => exact .inr ⟨hok, head, rfl⟩
      · exact .inl fun _ => rfl
    · exact .stay
  | readHead i head =>
    unfold RemoteThreads.step
    dsimp only
    split
    · next ip hget => exact .move i _ _ hget (fun _ => rfl) (ofHead_mayFail head)
    · exact .stay
  | authorize i now =>
    unfold RemoteThreads.step
    dsimp only
    split
    · next ip head since hget =>
      split
      · exact .fail i now since ip head hget ((since_of_get hget).ge.trans ha)
      · exact .move i _ _ hget (fun _ => rfl) fun _ => rfl
    · exact .stay
  | record i now =>
    unfold RemoteThreads.step
    dsimp only
    split
    · next ip since hget =>
      exact .record i now since ip rfl hget ((since_of_get hget).ge.trans ha.2)
    · exact .stay
  | close i =>
    unfold RemoteThreads.step
    dsimp only
    split
    · exact .stay
    · exact .stay
    · next c hopen hget =>
      -- A connection with a failure that is not recorded yet does not close.
      refine .close i c hget fun w => ?_
      obtain ⟨ip, stage⟩ := c
      cases stage with
      | failed since => exact absurd rfl (hopen ip since)
      | _ => rfl

/-! ## The limiter in a run -/

variable {cap : Nat}

theorem inStep_call (h : InStep cap s) {c : RateCall Ip} (hle : ∀ c' ∈ s.calls, c'.now ≤ c.now) :
    InStep cap (s.call c) where
  rate := by
    show (s.rate.call c).1 = _
    rw [h.rate]
    rfl
  ordered := List.pairwise_cons.mpr ⟨hle, h.ordered⟩

theorem inStep_step {s' : RemoteThreads Ip} (h : InStep cap s)
    (ha : RemoteThreads.admits alone s a) (hs : Steps C s a s') : InStep cap s' := by
  cases hs with
  | stay => exact h
  | check i now c stage heq _ _ _ =>
    subst heq
    obtain ⟨hrate, hordered⟩ := inStep_call (c := .check c.ip now) h ha.1
    exact ⟨hrate, hordered⟩
  | record i now since ip heq _ _ =>
    subst heq
    obtain ⟨hrate, hordered⟩ := inStep_call (c := .recordFailure ip now) h ha.1
    exact ⟨hrate, hordered⟩
  | _ => exact ⟨h.rate, h.ordered⟩

/-- Failures recorded in the window of a check that passes. -/
theorem recorded_le (h : InStep cap s) (hroom : (failing s.calls).card ≤ cap) {now w : Nat}
    (hle : ∀ c ∈ s.calls, c.now ≤ now) (hok : s.admitted ip now = true) {pairs : List (Nat × Nat)}
    (hledger : FailureLedger s ip pairs) (hnow : now < w + rateWindow) :
    (pairs.countP fun x => inWindow w x.1) ≤ maxFailures := by
  by_contra hmany
  have hcount : (pairs.countP fun x => inWindow w x.1) ≤
      (failuresOf ip s.calls).countP fun f => decide (w ≤ f) && decide (f ≤ now) := by
    rw [← hledger.recorded, List.countP_map]
    refine List.countP_mono_left fun x hx hin => ?_
    have hrec : x.2 ∈ failuresOf ip s.calls := hledger.recorded ▸ List.mem_map_of_mem hx
    have := hledger.later x hx
    have := RateLimitLemmas.failures_le hle ip _ hrec
    simp only [inWindow, Bool.and_eq_true, decide_eq_true_eq, Function.comp_apply] at hin ⊢
    omega
  have hblocked : BlockedAt rateWindow maxFailures (failuresOf ip s.calls) now := by
    refine blockedAt_of_crowd (p := fun f => decide (w ≤ f) && decide (f ≤ now)) ?_ ?_ (by omega)
    · intro a b ha hb
      simp only [Bool.and_eq_true, decide_eq_true_eq] at ha hb
      omega
    · intro a ha
      simp only [Bool.and_eq_true, decide_eq_true_eq] at ha
      omega
  have hrefused := (RateLimitLemmas.check_refuses_iff h.ordered hroom hle ip).mpr hblocked
  rw [← h.rate] at hrefused
  exact Bool.false_ne_true (hrefused.symm.trans hok)

/-! ## The ledger in a run -/

theorem mayFailOf_move {i : Nat} {c : Conn Ip} (hget : s.conns[i]? = some c) (stage : ConnStage)
    (ip : Ip) (w : Nat) : mayFailOf (s.move i c.ip stage) ip w +
        (decide (c.ip = ip) && c.stage.mayFail w).toNat =
      mayFailOf s ip w + (decide (c.ip = ip) && stage.mayFail w).toNat :=
  countP_set_add (fun c : Conn Ip => c.ip = ip && c.stage.mayFail w) hget

theorem unrecordedOf_move {i : Nat} {c : Conn Ip} (hget : s.conns[i]? = some c)
    (stage : ConnStage) (ip : Ip) (w : Nat) : unrecordedOf (s.move i c.ip stage) ip w +
        (decide (c.ip = ip) && c.stage.unrecorded w).toNat =
      unrecordedOf s ip w + (decide (c.ip = ip) && stage.unrecorded w).toNat :=
  countP_set_add (fun c : Conn Ip => c.ip = ip && c.stage.unrecorded w) hget

theorem unrecorded_of_not_mayFail {stage : ConnStage} {w : Nat} (h : stage.mayFail w = false) :
    stage.unrecorded w = false := by
  cases stage with
  | failed since => exact h
  | _ => rfl

theorem mayFailOf_le (s : RemoteThreads Ip) (ip : Ip) (w : Nat) :
    mayFailOf s ip w ≤ s.openOf ip := by
  refine List.countP_mono_left fun c _ h => ?_
  exact (Bool.and_eq_true _ _ ▸ h).1

variable {K : Nat} {pairs : List (Nat × Nat)} {s' : RemoteThreads Ip}

/-- A thread moves between stages without an unrecorded failure. -/
theorem ledger_move {i : Nat} {c : Conn Ip} {stage : ConnStage} (hget : s.conns[i]? = some c)
    (hold : ∀ w, c.stage.unrecorded w = false) (hnew : ∀ w, stage.unrecorded w = false)
    (h : FailureLedger s ip pairs) : FailureLedger (s.move i c.ip stage) ip pairs where
  recorded := h.recorded
  later := h.later
  evaluated w := by
    have hcount := unrecordedOf_move hget stage ip w
    rw [hold w, hnew w, Bool.and_false, Bool.toNat_false, Nat.add_zero, Nat.add_zero] at hcount
    rw [hcount]
    exact h.evaluated w

/-- A thread that moves to no other failure of the window. -/
theorem bounded_move {i : Nat} {c : Conn Ip} {stage : ConnStage} (hget : s.conns[i]? = some c)
    (hnew : ∀ w, stage.mayFail w = true → c.stage.mayFail w = true)
    (h : WindowBounded K s ip pairs) :
    WindowBounded K (s.move i c.ip stage) ip pairs := by
  intro w
  have hcount := mayFailOf_move hget stage ip w
  have hle : (decide (c.ip = ip) && stage.mayFail w).toNat ≤
      (decide (c.ip = ip) && c.stage.mayFail w).toNat := by
    refine Bool.toNat_le_toNat fun hin => ?_
    rw [Bool.and_eq_true] at hin ⊢
    exact ⟨hin.1, hnew w hin.2⟩
  have := h w
  omega

/-- A check passes: the address may fail as often as it has open connections. -/
theorem bounded_check {now i : Nat} {c : Conn Ip} {head : Head} (hin : InStep cap s)
    (hroom : (failing s.calls).card ≤ cap) (hle : ∀ c ∈ s.calls, c.now ≤ now)
    (hget : s.conns[i]? = some c) (hok : s.admitted c.ip now = true) (hl : FailureLedger s ip pairs)
    (hopen : ((s.call (.check c.ip now)).move i c.ip (.checked head now)).openOf ip ≤ K)
    (h : WindowBounded K s ip pairs) :
    WindowBounded K ((s.call (.check c.ip now)).move i c.ip (.checked head now)) ip pairs := by
  intro w
  by_cases hmay : c.ip = ip ∧ now < w + rateWindow
  · obtain ⟨rfl, hnow⟩ := hmay
    have hmost := mayFailOf_le ((s.call (.check c.ip now)).move i c.ip (.checked head now)) c.ip w
    have hrecorded := recorded_le hin hroom hle hok hl hnow
    omega
  · have hcount : mayFailOf ((s.call (.check c.ip now)).move i c.ip (.checked head now)) ip w +
        (decide (c.ip = ip) && c.stage.mayFail w).toNat =
          mayFailOf s ip w + (decide (c.ip = ip) && (ConnStage.checked head now).mayFail w).toNat :=
      mayFailOf_move (s := s.call (.check c.ip now)) hget _ ip w
    have hnot : (decide (c.ip = ip) && (ConnStage.checked head now).mayFail w) = false := by
      simpa [ConnStage.mayFail] using hmay
    rw [hnot, Bool.toNat_false, Nat.add_zero] at hcount
    have := h w
    omega

theorem evaluatedOf_evaluate (s : RemoteThreads Ip) (ip' ip : Ip) (now : Nat) :
    (s.evaluate ip' now).evaluatedOf ip =
      if ip' = ip then now :: s.evaluatedOf ip else s.evaluatedOf ip := by
  unfold RemoteThreads.evaluatedOf RemoteThreads.evaluate
  by_cases heq : ip' = ip
  · simp [heq]
  · simp [heq]

/-- The evaluation of a failure. -/
theorem ledger_fail {i now since : Nat} {ip' : Ip} {head : Head}
    (hget : s.conns[i]? = some ⟨ip', .checked head since⟩) (h : FailureLedger s ip pairs) :
    FailureLedger ((s.move i ip' (.failed now)).evaluate ip' now) ip pairs where
  recorded := h.recorded
  later := h.later
  evaluated w := by
    have hcount := unrecordedOf_move hget (.failed now) ip w
    have heval := h.evaluated w
    rw [show (ConnStage.checked head since).unrecorded w = false from rfl, Bool.and_false,
      Bool.toNat_false, Nat.add_zero] at hcount
    rw [evaluatedOf_evaluate]
    show List.countP _ (if ip' = ip then now :: s.evaluatedOf ip else s.evaluatedOf ip) =
      unrecordedOf (s.move i ip' (.failed now)) ip w + _
    rw [hcount]
    split
    · next heq =>
      rw [countP_cons_toNat, heval, decide_eq_true heq, Bool.true_and]
      show _ + (inWindow w now).toNat = _ + (inWindow w now).toNat + _
      omega
    · next hne => rw [decide_eq_false hne, Bool.false_and, Bool.toNat_false, heval, Nat.add_zero]

theorem bounded_fail {i now since : Nat} {ip' : Ip} {head : Head}
    (hget : s.conns[i]? = some ⟨ip', .checked head since⟩) (hsince : since ≤ now)
    (h : WindowBounded K s ip pairs) :
    WindowBounded K ((s.move i ip' (.failed now)).evaluate ip' now) ip pairs := by
  have hmay : ∀ w, (ConnStage.failed now).mayFail w = true →
      (ConnStage.checked head since).mayFail w = true := by
    intro w hin
    simp only [ConnStage.mayFail, inWindow, Bool.and_eq_true, decide_eq_true_eq] at hin ⊢
    omega
  exact bounded_move hget hmay h

/-- What the record adds to the pairs. -/
def recordPair (ip ip' : Ip) (since now : Nat) (pairs : List (Nat × Nat)) :
    List (Nat × Nat) :=
  if ip' = ip then (since, now) :: pairs else pairs

theorem countP_recordPair (ip ip' : Ip) (since now w : Nat) (pairs : List (Nat × Nat)) :
    ((recordPair ip ip' since now pairs).countP fun x => inWindow w x.1) =
      (pairs.countP fun x => inWindow w x.1) +
        (decide (ip' = ip) && inWindow w since).toNat := by
  unfold recordPair
  split
  · next heq => rw [countP_cons_toNat, decide_eq_true heq, Bool.true_and]
  · next hne => rw [decide_eq_false hne, Bool.false_and, Bool.toNat_false, Nat.add_zero]

theorem ledger_record {i now since : Nat} {ip' : Ip}
    (hget : s.conns[i]? = some ⟨ip', .failed since⟩) (hsince : since ≤ now)
    (h : FailureLedger s ip pairs) :
    FailureLedger ((s.call (.recordFailure ip' now)).move i ip' .answering) ip
      (recordPair ip ip' since now pairs) where
  recorded := by
    show _ = failuresOf ip (.recordFailure ip' now :: s.calls)
    unfold recordPair
    split
    · next heq => rw [heq, RateLimitLemmas.failuresOf_self, List.map_cons, h.recorded]
    · next hne => rw [RateLimitLemmas.failuresOf_ne _ _ hne, h.recorded]
  later := by
    unfold recordPair
    split
    · exact List.forall_mem_cons.mpr ⟨hsince, h.later⟩
    · exact h.later
  evaluated w := by
    have hcount : unrecordedOf ((s.call (.recordFailure ip' now)).move i ip' .answering) ip w +
        (decide (ip' = ip) && inWindow w since).toNat = unrecordedOf s ip w +
          (decide (ip' = ip) && false).toNat :=
      unrecordedOf_move (s := s.call (.recordFailure ip' now)) hget .answering ip w
    have heval := h.evaluated w
    rw [Bool.and_false, Bool.toNat_false, Nat.add_zero] at hcount
    rw [countP_recordPair]
    show List.countP _ (s.evaluatedOf ip) = _
    omega

theorem bounded_record {i now since : Nat} {ip' : Ip}
    (hget : s.conns[i]? = some ⟨ip', .failed since⟩) (h : WindowBounded K s ip pairs) :
    WindowBounded K ((s.call (.recordFailure ip' now)).move i ip' .answering) ip
      (recordPair ip ip' since now pairs) := by
  intro w
  have hcount : mayFailOf ((s.call (.recordFailure ip' now)).move i ip' .answering) ip w +
      (decide (ip' = ip) && inWindow w since).toNat = mayFailOf s ip w +
        (decide (ip' = ip) && false).toNat :=
    mayFailOf_move (s := s.call (.recordFailure ip' now)) hget .answering ip w
  have hbound := h w
  rw [Bool.and_false, Bool.toNat_false, Nat.add_zero] at hcount
  rw [countP_recordPair]
  omega

/-- A connection ends that has nothing to record. -/
theorem ledger_close {i : Nat} {c : Conn Ip} (hget : s.conns[i]? = some c)
    (hold : ∀ w, c.stage.unrecorded w = false) (h : FailureLedger s ip pairs) :
    FailureLedger { s with conns := s.conns.eraseIdx i } ip pairs where
  recorded := h.recorded
  later := h.later
  evaluated w := by
    have hcount := countP_eraseIdx_add (fun c : Conn Ip => c.ip = ip && c.stage.unrecorded w) hget
    rw [hold w, Bool.and_false, Bool.toNat_false, Nat.add_zero] at hcount
    show List.countP _ (s.evaluatedOf ip) = List.countP _ (s.conns.eraseIdx i) + _
    rw [hcount]
    exact h.evaluated w

theorem bounded_close (i : Nat) (h : WindowBounded K s ip pairs) :
    WindowBounded K { s with conns := s.conns.eraseIdx i } ip pairs := by
  intro w
  refine Nat.le_trans (Nat.add_le_add_right ?_ _) (h w)
  exact List.Sublist.countP_le (List.eraseIdx_sublist s.conns i)

/-- A connection is accepted. -/
theorem ledger_accept (ip' : Ip) (h : FailureLedger s ip pairs) :
    FailureLedger { s with conns := ⟨ip', .accepted⟩ :: s.conns } ip pairs where
  recorded := h.recorded
  later := h.later
  evaluated w := by
    show List.countP _ (s.evaluatedOf ip) = List.countP _ (_ :: s.conns) + _
    rw [countP_cons_toNat, show (ConnStage.accepted).unrecorded w = false from rfl, Bool.and_false]
    exact h.evaluated w

theorem bounded_accept (ip' : Ip) (h : WindowBounded K s ip pairs) :
    WindowBounded K { s with conns := ⟨ip', .accepted⟩ :: s.conns } ip pairs := by
  intro w
  show List.countP _ (_ :: s.conns) + _ ≤ _
  rw [countP_cons_toNat, show (ConnStage.accepted).mayFail w = false from rfl, Bool.and_false]
  exact h w

/-- Every step keeps the ledger and the bound, when the address has at most `K` open
connections. -/
theorem ledger_step (ha : RemoteThreads.admits alone s a) (hs : Steps C s a s')
    (hin : InStep cap s) (hroom : (failing s.calls).card ≤ cap) (hopen : s'.openOf ip ≤ K)
    (hl : FailureLedger s ip pairs) (hb : WindowBounded K s ip pairs) :
    ∃ pairs, FailureLedger s' ip pairs ∧ WindowBounded K s' ip pairs := by
  cases hs with
  | stay => exact ⟨pairs, hl, hb⟩
  | accept ip' _ _ => exact ⟨pairs, ledger_accept ip' hl, bounded_accept ip' hb⟩
  | move i c stage hget hold hnew =>
    refine ⟨pairs, ledger_move hget hold (fun w => unrecorded_of_not_mayFail (hnew w)) hl,
      bounded_move hget (fun w h => ?_) hb⟩
    rw [hnew w] at h
    cases h
  | check i now c stage heq hget hold hnew =>
    subst heq
    -- the call changes nothing that is counted
    have hl' : FailureLedger (s.call (.check c.ip now)) ip pairs :=
      ⟨hl.recorded, hl.later, hl.evaluated⟩
    have hunrecorded := fun w => unrecorded_of_not_mayFail (hold w)
    rcases hnew with hnew | ⟨hok, head, rfl⟩
    · refine ⟨pairs, ledger_move hget hunrecorded
        (fun w => unrecorded_of_not_mayFail (hnew w)) hl', bounded_move hget (fun w h => ?_) hb⟩
      rw [hnew w] at h
      cases h
    · exact ⟨pairs, ledger_move hget hunrecorded (fun w => rfl) hl',
        bounded_check hin hroom ha.1 hget hok hl hopen hb⟩
  | fail i now since ip' head hget hsince =>
    exact ⟨pairs, ledger_fail hget hl, bounded_fail hget hsince hb⟩
  | record i now since ip' _ hget hsince =>
    exact ⟨_, ledger_record hget hsince hl, bounded_record hget hb⟩
  | close i c hget hold => exact ⟨pairs, ledger_close hget hold hl, bounded_close i hb⟩

/-! ## Runs -/

theorem failing_step (hs : Steps C s a s') : failing s.calls ⊆ failing s'.calls := by
  cases hs with
  | check i now c stage _ _ _ _ => exact RateLimitLemmas.failing_subset _ _
  | record i now since ip' _ _ _ => exact RateLimitLemmas.failing_subset _ _
  | _ => exact Finset.Subset.refl _

theorem inStep_reach (h : (RemoteThreads.machine C token alone).Reach (· = .init cap) s) :
    InStep cap s := by
  refine Machine.Reach.invariant (fun s hs => ?_) (fun s a _ hin ha => ?_) h
  · subst hs
    exact ⟨rfl, List.Pairwise.nil⟩
  · exact inStep_step hin ha (step_cases ha)

/-- The server never has more than `C` connections. -/
theorem conns_le (h : (RemoteThreads.machine C token alone).Reach (· = .init cap) s) :
    s.conns.length ≤ C := by
  refine Machine.Reach.invariant (I := fun s : RemoteThreads Ip => s.conns.length ≤ C)
    (fun s hs => ?_) (fun s a _ hlen ha => ?_) h
  · subst hs
    exact Nat.zero_le C
  · have hs : Steps C s a ((RemoteThreads.machine C token alone).step s a) := step_cases ha
    generalize (RemoteThreads.machine C token alone).step s a = s' at hs ⊢
    cases hs with
    | stay => exact hlen
    | accept ip _ hlt => exact hlt
    | close i c _ _ => exact (List.eraseIdx_sublist s.conns i).length_le.trans hlen
    | _ => exact (List.length_set).trans_le hlen

theorem openOf_le (s : RemoteThreads Ip) (ip : Ip) : s.openOf ip ≤ s.conns.length :=
  List.countP_le_length

theorem openOf_move {i : Nat} {c : Conn Ip} (hget : s.conns[i]? = some c) (stage : ConnStage)
    (ip : Ip) : (s.move i c.ip stage).openOf ip = s.openOf ip := by
  have h : (s.move i c.ip stage).openOf ip + (decide (c.ip = ip)).toNat =
      s.openOf ip + (decide (c.ip = ip)).toNat :=
    countP_set_add (fun c : Conn Ip => decide (c.ip = ip)) hget
  exact Nat.add_right_cancel h

/-- An address that is alone never has two connections. -/
theorem alone_le (hip : alone ip)
    (h : (RemoteThreads.machine C token alone).Reach (· = .init cap) s) : s.openOf ip ≤ 1 := by
  refine Machine.Reach.invariant (I := fun s : RemoteThreads Ip => s.openOf ip ≤ 1)
    (fun s hs => ?_) (fun s a _ hone ha => ?_) h
  · subst hs
    exact Nat.zero_le 1
  · have hs : Steps C s a ((RemoteThreads.machine C token alone).step s a) := step_cases ha
    generalize (RemoteThreads.machine C token alone).step s a = s' at hs ⊢
    cases hs with
    | stay => exact hone
    | accept ip' heq _ =>
      subst heq
      show List.countP _ (_ :: s.conns) ≤ 1
      rw [countP_cons_toNat]
      by_cases hsame : ip' = ip
      · have hzero : s.openOf ip = 0 := hsame ▸ ha (hsame ▸ hip)
        show s.openOf ip + _ ≤ 1
        rw [hzero, Nat.zero_add]
        exact Bool.toNat_le _
      · rw [decide_eq_false hsame, Bool.toNat_false]
        exact hone
    | move i c stage hget _ _ => exact (openOf_move hget stage ip).trans_le hone
    | check i now c stage _ hget _ _ =>
      exact (openOf_move (s := s.call (.check c.ip now)) hget stage ip).trans_le hone
    | fail i now since ip' head hget _ => exact (openOf_move hget (.failed now) ip).trans_le hone
    | record i now since ip' _ hget _ =>
      exact (openOf_move (s := s.call (.recordFailure ip' now)) hget .answering ip).trans_le hone
    | close i c _ _ =>
      exact (List.Sublist.countP_le (List.eraseIdx_sublist s.conns i)).trans hone

/-- The evaluated failures of a window, in a run in which the address never has more than
`K` connections. -/
theorem evaluated_le
    (hopen : ∀ s, (RemoteThreads.machine C token alone).Reach (· = .init cap) s → s.openOf ip ≤ K)
    (h : (RemoteThreads.machine C token alone).Reach (· = .init cap) s)
    (hroom : (failing s.calls).card ≤ cap) (w : Nat) :
    (s.evaluatedOf ip).countP (inWindow w) ≤ maxFailures + K := by
  have hledger : (failing s.calls).card ≤ cap →
      ∃ pairs, FailureLedger s ip pairs ∧ WindowBounded K s ip pairs := by
    refine Machine.Reach.invariant (I := fun s : RemoteThreads Ip => (failing s.calls).card ≤ cap →
      ∃ pairs, FailureLedger s ip pairs ∧ WindowBounded K s ip pairs) (fun s hs _ => ?_)
      (fun s a hr ih ha hroom => ?_) h
    · subst hs
      exact ⟨[], ⟨rfl, List.forall_mem_nil _, fun _ => rfl⟩, fun _ => Nat.zero_le _⟩
    · have hs : Steps C s a (RemoteThreads.step C token s a) := step_cases ha
      have hroom' := (Finset.card_le_card (failing_step hs)).trans hroom
      obtain ⟨pairs, hl, hb⟩ := ih hroom'
      exact ledger_step ha hs (inStep_reach hr) hroom' (hopen _ (.step hr ha)) hl hb
  obtain ⟨pairs, hl, hb⟩ := hledger hroom
  have hmay : unrecordedOf s ip w ≤ mayFailOf s ip w := by
    refine List.countP_mono_left fun c _ hc => ?_
    rw [Bool.and_eq_true] at hc ⊢
    refine ⟨hc.1, ?_⟩
    by_contra hnot
    rw [unrecorded_of_not_mayFail (Bool.eq_false_iff.mpr hnot)] at hc
    exact Bool.false_ne_true hc.2
  rw [hl.evaluated w]
  exact (Nat.add_le_add_right hmay _).trans (hb w)

end BrakeLemmas

/-! ## The brake -/

/-- With fewer than `cap` other addresses that fail, a check refuses exactly while some
failure of the address, not longer than a window ago, was at least the eleventh in the
window that ends with it, and what the address is told depends on its own calls only. In
every run of the server the failures of an address that are evaluated in one window are
at most ten more than the connections, and at most eleven if its requests never overlap. -/
theorem brake_holds {Ip : Type u} [LinearOrder Ip] (cap : Nat) (ip : Ip) :
    (∀ calls now, InOrder calls → (∀ c ∈ calls, c.now ≤ now) →
      ((failing calls).erase ip).card < cap →
      ((((RateLimiter.new cap).after calls).check ip now).2 = false ↔
        ∃ f older, f :: older <:+ failuresOf ip calls ∧ f ≤ now ∧ now < f + rateWindow ∧
          11 ≤ (f :: older).countP fun g => decide (f < g + rateWindow) && decide (g ≤ f))) ∧
    (∀ calls, InOrder calls → ((failing calls).erase ip).card < cap →
      (RateLimiter.new cap).answersOf ip calls =
        (RateLimiter.new cap).answersOf ip (calls.filter fun c => c.ip = ip)) ∧
    ∀ C token alone s, (RemoteThreads.machine C token alone).Reach (· = .init cap) s →
      ((failing s.calls).erase ip).card < cap → ∀ w,
        (s.evaluatedOf ip).countP (inWindow w) ≤ 10 + C ∧
        (alone ip → (s.evaluatedOf ip).countP (inWindow w) ≤ 11) := by
  refine ⟨fun calls now hordered hle hfew => ?_, fun calls hordered hfew => ?_,
    fun C token alone s h hfew w => ⟨?_, fun hip => ?_⟩⟩
  · rw [RateLimitLemmas.check_refuses_iff hordered (RateLimitLemmas.card_failing_le hfew) hle]
    exact RateLimitLemmas.blockedAt_iff hordered hle ip
  · exact RateLimitLemmas.answersOf_filter hordered (RateLimitLemmas.card_failing_le hfew) ip
  · exact BrakeLemmas.evaluated_le
      (fun s hr => (BrakeLemmas.openOf_le s ip).trans (BrakeLemmas.conns_le hr)) h
      (RateLimitLemmas.card_failing_le hfew) w
  · exact BrakeLemmas.evaluated_le (fun s hr => BrakeLemmas.alone_le hip hr) h
      (RateLimitLemmas.card_failing_le hfew) w

/-- Two requests that overlap, both without a token. -/
def twoOverlapping : List (ConnAction Nat) :=
  let head : Except HeadError Head :=
    .ok ⟨.get, "/api/state", none, none, none, false, false, false⟩
  [.accept 1, .check 0 0, .readHead 0 head, .accept 1, .check 0 5, .readHead 0 head, .check 0 8,
    .check 1 9, .authorize 0 10, .authorize 1 11, .record 1 12, .record 0 13, .close 0]

/-- Eleven failures in eleven nanoseconds refuse the next request, a lone request of another
address is not refused, and two overlapping requests fail twice. -/
theorem brake_holds_eleven :
    let calls := (List.range 11).reverse.map fun n => RateCall.recordFailure 1 n
    let s := (RemoteThreads.machine maxConnections "secret" (fun _ => False)).run (.init defaultCap)
      twoOverlapping
    (((RateLimiter.new defaultCap).after calls).check 1 30).2 = false ∧
      (RateLimiter.new defaultCap).answersOf 2 (.check 2 30 :: calls) = [true] ∧
      s.evaluatedOf 1 = [11, 10] ∧ (s.evaluatedOf 1).countP (inWindow 0) ≤ 10 + maxConnections := by
  intro calls s
  have hadmitted : (RemoteThreads.machine maxConnections "secret" (fun _ => False)).Admitted
      (.init defaultCap) twoOverlapping := by decide +kernel
  have hinit : (RemoteThreads.machine maxConnections "secret" (fun _ => False)).Reach
      (· = (.init defaultCap : RemoteThreads Nat)) (.init defaultCap) := .init rfl
  have hreach := hinit.of_trace twoOverlapping hadmitted
  have hfew : ((failing calls).erase 1).card < defaultCap := by decide +kernel
  refine ⟨((brake_holds defaultCap 1).1 calls 30 (by decide +kernel) (by decide) hfew).mpr ?_,
    ((brake_holds defaultCap 2).2.1 (.check 2 30 :: calls) (by decide +kernel)
      (by decide +kernel)).trans ?_,
    by decide +kernel, ((brake_holds defaultCap 1).2.2 _ _ _ s hreach (by decide +kernel) 0).1⟩
  · exact ⟨10, (List.range 10).reverse, by decide⟩
  · decide +kernel

end Mast
