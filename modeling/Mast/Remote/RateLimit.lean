import Mast.Lib.OrdMap
import Mast.Lib.SlidingWindow
import Mathlib.Data.Finset.Card
import Mathlib.Data.List.MinMax

/-!
# The brake on failed requests

`ratelimit.rs`: an address whose authentication failures are more than ten in a minute is
refused for a minute. Moments are nanoseconds. The limiter keeps an entry for each address
that failed, at most `cap` of them, and drops the one that was not seen for the longest
time to make room for another.

Results:
1. `entryOf_after`: as long as there is room, an entry is what the failures of its own
   address left.
2. `check_refuses_iff`: a check refuses while some failure blocks the address.
3. `answersOf_filter`: what an address is told depends on its own calls only.
-/

universe u

namespace Mast

open SlidingWindow

/-- `WINDOW`: the length of the window, and of a block. -/
def rateWindow : Nat := 60 * 1000000000

def maxFailures : Nat := 10

def defaultCap : Nat := 256

structure RateEntry where
  failures : List Nat
  blockedUntil : Option Nat
  lastSeen : Nat
deriving DecidableEq, Repr

structure RateLimiter (Ip : Type u) [LinearOrder Ip] where
  cap : Nat
  entries : OrdMap Ip RateEntry

namespace RateEntry

/-- A block that is over is taken away. -/
def check (e : RateEntry) (now : Nat) : RateEntry × Bool :=
  let e := { e with lastSeen := now }
  match e.blockedUntil with
  | some blockEnd => if now < blockEnd then (e, false) else ({ e with blockedUntil := none }, true)
  | none => (e, true)

/-- Failures outside the window are dropped, and the eleventh in it blocks. -/
def fail (e : RateEntry) (now : Nat) : RateEntry :=
  let failures := e.failures.filter (fun a => now - a < rateWindow) ++ [now]
  { failures
    blockedUntil :=
      if maxFailures < failures.length then some (now + rateWindow) else e.blockedUntil
    lastSeen := now }

end RateEntry

/-- A call of the limiter. -/
inductive RateCall (Ip : Type u)
  | check (ip : Ip) (now : Nat)
  | recordFailure (ip : Ip) (now : Nat)
deriving DecidableEq, Repr

namespace RateCall

variable {Ip : Type u}

def ip : RateCall Ip → Ip
  | check ip _ | recordFailure ip _ => ip

def now : RateCall Ip → Nat
  | check _ now | recordFailure _ now => now

/-- The moment of a failure of the address. -/
def failureOf [DecidableEq Ip] (ip : Ip) : RateCall Ip → Option Nat
  | check _ _ => none
  | recordFailure ip' now => if ip' = ip then some now else none

/-- The address that fails. -/
def failing : RateCall Ip → Option Ip
  | check _ _ => none
  | recordFailure ip _ => some ip

end RateCall

namespace RateLimiter

variable {Ip : Type u} [LinearOrder Ip]

def new (cap : Nat) : RateLimiter Ip := ⟨max cap 1, .empty⟩

/-- An unknown address gets no entry. -/
def check (l : RateLimiter Ip) (ip : Ip) (now : Nat) : RateLimiter Ip × Bool :=
  match l.entries.get? ip with
  | none => (l, true)
  | some e =>
    ({ l with entries := l.entries.insert ip (e.check now).1 }, (e.check now).2)

/-- The entry that was not seen for the longest time. -/
def victim (l : RateLimiter Ip) : Option Ip :=
  (l.entries.entries.argmin fun e => e.2.lastSeen).map Prod.fst

def makeRoom (l : RateLimiter Ip) : RateLimiter Ip :=
  if l.entries.size < l.cap then l
  else
    match l.victim with
    | none => l
    | some ip => { l with entries := l.entries.erase ip }

/-- The answer is whether this failure blocks. -/
def recordFailure (l : RateLimiter Ip) (ip : Ip) (now : Nat) : RateLimiter Ip × Bool :=
  let l := if l.entries.contains ip then l else l.makeRoom
  let e := ((l.entries.get? ip).getD ⟨[], none, now⟩).fail now
  ({ l with entries := l.entries.insert ip e }, decide (maxFailures < e.failures.length))

def call (l : RateLimiter Ip) : RateCall Ip → RateLimiter Ip × Bool
  | .check ip now => l.check ip now
  | .recordFailure ip now => l.recordFailure ip now

/-! ## Histories -/

/-- The limiter after some calls, the newest first. -/
def after (l : RateLimiter Ip) : List (RateCall Ip) → RateLimiter Ip
  | [] => l
  | c :: earlier => ((l.after earlier).call c).1

/-- What an address was told, the newest answer first. -/
def answersOf (l : RateLimiter Ip) (ip : Ip) : List (RateCall Ip) → List Bool
  | [] => []
  | c :: earlier =>
    if c.ip = ip then ((l.after earlier).call c).2 :: l.answersOf ip earlier
    else l.answersOf ip earlier

end RateLimiter

section Histories

variable {Ip : Type u} [LinearOrder Ip]

/-- The moments of the failures of an address. -/
def failuresOf (ip : Ip) (calls : List (RateCall Ip)) : List Nat :=
  calls.filterMap (RateCall.failureOf ip)

/-- The addresses that ever failed. -/
def failing (calls : List (RateCall Ip)) : Finset Ip := (calls.filterMap RateCall.failing).toFinset

/-- Time does not run backwards. -/
def InOrder (calls : List (RateCall Ip)) : Prop :=
  calls.Pairwise fun later earlier => earlier.now ≤ later.now

instance decidableInOrder (calls : List (RateCall Ip)) : Decidable (InOrder calls) :=
  inferInstanceAs (Decidable (List.Pairwise _ calls))

end Histories

/-! ## Entries -/

/-- What the failures of an address, the newest first, leave of it: the ones in the window
of the newest, and from `now` on the blocks they began. -/
def EntryOf (failures : List Nat) (now : Nat) : Option RateEntry → Prop
  | none => failures = []
  | some e => (∃ f older, failures = f :: older ∧
        e.failures = (within rateWindow f failures).reverse) ∧
      ∀ t, now ≤ t → (e.blockedUntil.any (t < ·) ↔ BlockedAt rateWindow maxFailures failures t)

namespace RateLimitLemmas

theorem rateWindow_pos : 0 < rateWindow := by decide

variable {failures : List Nat} {now : Nat}

theorem EntryOf.mono {o : Option RateEntry} {later : Nat} (hle : now ≤ later)
    (h : EntryOf failures now o) : EntryOf failures later o := by
  cases o with
  | none => exact h
  | some e => exact ⟨h.1, fun t ht => h.2 t (Nat.le_trans hle ht)⟩

/-- A check refuses while the entry is blocked. -/
theorem check_answer (e : RateEntry) (now : Nat) :
    (e.check now).2 = false ↔ e.blockedUntil.any (now < ·) := by
  unfold RateEntry.check
  dsimp only
  split
  · next blockEnd heq =>
    by_cases hlt : now < blockEnd
    · simp [heq, hlt]
    · simp [heq, hlt]
  · next heq => simp [heq]

/-- A check takes away only what is over. -/
theorem entryOf_check {o : Option RateEntry} (h : EntryOf failures now o) :
    EntryOf failures now (o.map fun e => (e.check now).1) := by
  cases o with
  | none => exact h
  | some e =>
    obtain ⟨hkept, hblock⟩ := h
    show EntryOf failures now (some (e.check now).1)
    unfold RateEntry.check
    dsimp only
    split
    · next blockEnd heq =>
      split
      · exact ⟨hkept, hblock⟩
      · next hover =>
        refine ⟨hkept, fun t ht => ?_⟩
        have hpast : ¬ t < blockEnd := fun hlt => hover (Nat.lt_of_le_of_lt ht hlt)
        rw [← hblock t ht, heq]
        simp [hpast]
    · exact ⟨hkept, hblock⟩

theorem fail_blockedUntil (e : RateEntry) (now : Nat) : (e.fail now).blockedUntil =
    if maxFailures < (e.fail now).failures.length then some (now + rateWindow)
    else e.blockedUntil := rfl

/-- The failures that a new one finds in its window. -/
theorem fail_failures {o : Option RateEntry} {before : Nat} (h : EntryOf failures before o)
    (hnow : ∀ f ∈ failures, f ≤ now) :
    (((o.getD ⟨[], none, now⟩).fail now).failures) =
      (within rateWindow now (now :: failures)).reverse := by
  have hfilter : ∀ l : List Nat,
      l.filter (fun a => now - a < rateWindow) = within rateWindow now l := fun l => by
    refine List.filter_congr fun a _ => ?_
    have := rateWindow_pos
    exact decide_eq_decide.mpr (by omega)
  rw [within_cons_self rateWindow_pos, List.reverse_cons]
  show _ ++ _ = _
  congr 1
  rw [hfilter]
  cases o with
  | none =>
    obtain rfl : failures = [] := h
    rfl
  | some e =>
    obtain ⟨⟨f, older, hfs, hkept⟩, -⟩ := h
    have hf : f ≤ now := hnow f (hfs ▸ List.mem_cons_self)
    show within rateWindow now e.failures = _
    rw [hkept, within, List.filter_reverse]
    exact congrArg List.reverse (within_within hf)

theorem entryOf_fail {o : Option RateEntry} {before : Nat} (h : EntryOf failures before o)
    (hle : before ≤ now) (hnow : ∀ f ∈ failures, f ≤ now) :
    EntryOf (now :: failures) now (some ((o.getD ⟨[], none, now⟩).fail now)) := by
  have hkept := fail_failures h hnow
  refine ⟨⟨now, failures, rfl, hkept⟩, fun t ht => ?_⟩
  rw [blockedAt_cons_iff]
  have hold : ((o.getD ⟨[], none, now⟩).blockedUntil.any (t < ·)) ↔
      BlockedAt rateWindow maxFailures failures t := by
    cases o with
    | none =>
      obtain rfl : failures = [] := h
      exact iff_of_false Bool.false_ne_true not_blockedAt_nil
    | some e => exact h.2 t (Nat.le_trans hle ht)
  have hlen : ((o.getD ⟨[], none, now⟩).fail now).failures.length =
      (within rateWindow now (now :: failures)).length := by rw [hkept, List.length_reverse]
  rw [← hlen, fail_blockedUntil]
  split
  · next hmany =>
    rw [Option.any_some, decide_eq_true_iff]
    constructor
    · intro hlt
      exact .inl ⟨hlt, hmany⟩
    · rintro (⟨hlt, -⟩ | hblocked)
      · exact hlt
      · exact hblocked.lt hnow
  · next hfew =>
    rw [hold]
    constructor
    · exact .inr
    · rintro (⟨-, hmany⟩ | hblocked)
      · exact absurd hmany hfew
      · exact hblocked

/-! ## Calls -/

section Calls

variable {Ip : Type u} [LinearOrder Ip] {l : RateLimiter Ip} {ip : Ip} {calls : List (RateCall Ip)}

theorem failuresOf_check (ip ip' : Ip) (now : Nat) (calls : List (RateCall Ip)) :
    failuresOf ip (.check ip' now :: calls) = failuresOf ip calls := rfl

theorem failuresOf_self (ip : Ip) (now : Nat) (calls : List (RateCall Ip)) :
    failuresOf ip (.recordFailure ip now :: calls) = now :: failuresOf ip calls :=
  List.filterMap_cons_some (if_pos rfl)

theorem failuresOf_ne {ip' : Ip} (now : Nat) (calls : List (RateCall Ip)) (h : ip' ≠ ip) :
    failuresOf ip (.recordFailure ip' now :: calls) = failuresOf ip calls :=
  List.filterMap_cons_none (if_neg h)

theorem mem_failuresOf {f : Nat} : f ∈ failuresOf ip calls ↔ .recordFailure ip f ∈ calls := by
  unfold failuresOf
  rw [List.mem_filterMap]
  constructor
  · rintro ⟨c, hc, heq⟩
    cases c with
    | check ip' now => cases heq
    | recordFailure ip' now =>
      obtain ⟨rfl, h⟩ := Option.ite_none_right_eq_some.mp heq
      obtain rfl := Option.some.inj h
      exact hc
  · intro hc
    exact ⟨_, hc, if_pos rfl⟩

theorem mem_failing : ip ∈ failing calls ↔ ∃ f, f ∈ failuresOf ip calls := by
  unfold failing
  rw [List.mem_toFinset, List.mem_filterMap]
  constructor
  · rintro ⟨c, hc, heq⟩
    cases c with
    | check ip' now => cases heq
    | recordFailure ip' now =>
      obtain rfl := Option.some.inj heq
      exact ⟨now, mem_failuresOf.mpr hc⟩
  · rintro ⟨f, hf⟩
    exact ⟨_, mem_failuresOf.mp hf, rfl⟩

theorem failing_subset (c : RateCall Ip) (calls : List (RateCall Ip)) :
    failing calls ⊆ failing (c :: calls) := by
  intro ip h
  obtain ⟨f, hf⟩ := mem_failing.mp h
  exact mem_failing.mpr ⟨f, mem_failuresOf.mpr (List.mem_cons_of_mem _ (mem_failuresOf.mp hf))⟩

/-- With fewer than `cap` others, there is room for all. -/
theorem card_failing_le {cap : Nat} (h : ((failing calls).erase ip).card < cap) :
    (failing calls).card ≤ cap := by
  have := Finset.pred_card_le_card_erase (s := failing calls) (a := ip)
  omega

/-! ## Entries of the limiter -/

@[simp] theorem makeRoom_cap (l : RateLimiter Ip) : l.makeRoom.cap = l.cap := by
  unfold RateLimiter.makeRoom
  split
  · rfl
  · split <;> rfl

@[simp] theorem call_cap (l : RateLimiter Ip) (c : RateCall Ip) : (l.call c).1.cap = l.cap := by
  cases c with
  | check ip now =>
    show (l.check ip now).1.cap = l.cap
    unfold RateLimiter.check
    split <;> rfl
  | recordFailure ip now =>
    show RateLimiter.cap (if l.entries.contains ip then l else l.makeRoom) = l.cap
    split
    · rfl
    · exact makeRoom_cap l

theorem after_cap (l : RateLimiter Ip) (calls : List (RateCall Ip)) :
    (l.after calls).cap = l.cap := by
  induction calls with
  | nil => rfl
  | cons c earlier ih => exact (call_cap _ c).trans ih

theorem get?_check (l : RateLimiter Ip) (ip ip' : Ip) (now : Nat) :
    (l.check ip' now).1.entries.get? ip =
      if ip = ip' then (l.entries.get? ip).map fun e => (e.check now).1
      else l.entries.get? ip := by
  unfold RateLimiter.check
  split
  · next hnone =>
    split
    · next heq => rw [heq, hnone, Option.map_none]
    · rfl
  · next e hsome =>
    show OrdMap.get? (l.entries.insert ip' _) ip = _
    rw [OrdMap.get?_insert]
    split
    · next heq => rw [heq, hsome, Option.map_some]
    · rfl

/-- An entry for a failure: nothing is dropped while there is room. -/
theorem recordFailure_of_room (hroom : l.entries.get? ip = none → l.entries.size < l.cap)
    (now : Nat) : l.recordFailure ip now =
      let e := ((l.entries.get? ip).getD ⟨[], none, now⟩).fail now
      ({ l with entries := l.entries.insert ip e },
        decide (maxFailures < e.failures.length)) := by
  have hkept : (if l.entries.contains ip then l else l.makeRoom) = l := by
    split
    · rfl
    · next hnot =>
      refine if_pos (hroom ?_)
      rw [← Option.not_isSome_iff_eq_none]
      exact hnot
  unfold RateLimiter.recordFailure
  rw [hkept]

theorem size_eq (m : OrdMap Ip RateEntry) : m.size = m.keys.toFinset.card := by
  rw [List.toFinset_card_of_nodup m.keys_nodup]
  exact (List.length_map _).symm

/-- A limiter whose entries belong to addresses that failed has room for one more. -/
theorem size_lt {cap : Nat} (hentries : ∀ ip, EntryOf (failuresOf ip calls) now (l.entries.get? ip))
    (hcap : l.cap = max cap 1) (hnone : l.entries.get? ip = none)
    (hroom : (failing (.recordFailure ip now :: calls)).card ≤ cap) : l.entries.size < l.cap := by
  have hsub : insert ip l.entries.keys.toFinset ⊆ failing (.recordFailure ip now :: calls) := by
    intro k hk
    rcases Finset.mem_insert.mp hk with rfl | hk
    · exact mem_failing.mpr ⟨now, by rw [failuresOf_self]; exact List.mem_cons_self⟩
    · obtain ⟨e, he⟩ := OrdMap.mem_keys.mp (List.mem_toFinset.mp hk)
      have hentry := hentries k
      rw [OrdMap.get?_eq_some_iff.mpr he] at hentry
      obtain ⟨⟨f, older, hfs, -⟩, -⟩ := hentry
      exact failing_subset _ _ (mem_failing.mpr ⟨f, hfs ▸ List.mem_cons_self⟩)
  have hnew : ip ∉ l.entries.keys.toFinset := fun hk =>
    OrdMap.get?_eq_none_iff.mp hnone (List.mem_toFinset.mp hk)
  have hcard := Finset.card_le_card hsub
  rw [Finset.card_insert_of_notMem hnew, ← size_eq] at hcard
  omega

end Calls

/-! ## Histories -/

section Histories

variable {Ip : Type u} [LinearOrder Ip] {cap : Nat} {calls : List (RateCall Ip)}

theorem failures_le (hle : ∀ c ∈ calls, c.now ≤ now) (ip : Ip) :
    ∀ f ∈ failuresOf ip calls, f ≤ now := fun _ hf => hle _ (mem_failuresOf.mp hf)

/-- As long as there is room for all that fail, an entry is what the failures of its own
address left. -/
theorem entryOf_after (hordered : InOrder calls) (hroom : (failing calls).card ≤ cap)
    (hle : ∀ c ∈ calls, c.now ≤ now) (ip : Ip) :
    EntryOf (failuresOf ip calls) now (((RateLimiter.new cap).after calls).entries.get? ip) := by
  induction calls generalizing now ip with
  | nil =>
    show EntryOf _ _ (OrdMap.get? OrdMap.empty ip)
    rw [OrdMap.get?_empty]
    rfl
  | cons c earlier ih =>
    obtain ⟨hbefore, hordered⟩ := List.pairwise_cons.mp hordered
    have hroom' := (Finset.card_le_card (failing_subset c earlier)).trans hroom
    have hentries := ih hordered hroom' hbefore
    have hnow := hle c List.mem_cons_self
    refine EntryOf.mono hnow ?_
    cases c with
    | check ip' at_ =>
      rw [failuresOf_check]
      show EntryOf _ _ ((RateLimiter.check _ ip' at_).1.entries.get? ip)
      rw [get?_check]
      split
      · exact entryOf_check (hentries ip)
      · exact hentries ip
    | recordFailure ip' at_ =>
      have hcap := after_cap (RateLimiter.new cap : RateLimiter Ip) earlier
      show EntryOf _ _ ((RateLimiter.recordFailure _ ip' at_).1.entries.get? ip)
      rw [recordFailure_of_room (fun hnone => size_lt hentries hcap hnone hroom)]
      show EntryOf _ _ (OrdMap.get? (OrdMap.insert _ ip' _) ip)
      rw [OrdMap.get?_insert]
      split
      · next heq =>
        subst heq
        rw [failuresOf_self]
        exact entryOf_fail (hentries ip) Nat.le.refl (failures_le hbefore ip)
      · next hne =>
        rw [failuresOf_ne _ _ (Ne.symm hne)]
        exact hentries ip

/-! ## Answers -/

/-- A check refuses while some failure blocks the address. -/
theorem check_refuses_iff (hordered : InOrder calls) (hroom : (failing calls).card ≤ cap)
    (hle : ∀ c ∈ calls, c.now ≤ now) (ip : Ip) :
    (((RateLimiter.new cap).after calls).check ip now).2 = false ↔
      BlockedAt rateWindow maxFailures (failuresOf ip calls) now := by
  have hentry := entryOf_after hordered hroom hle ip
  unfold RateLimiter.check
  split
  · next hnone =>
    rw [hnone] at hentry
    have hnil : failuresOf ip calls = [] := hentry
    rw [hnil]
    exact iff_of_false (fun h => nomatch h) not_blockedAt_nil
  · next e hsome =>
    rw [hsome] at hentry
    exact (check_answer e now).trans (hentry.2 now Nat.le.refl)

theorem failuresOf_sorted (hordered : InOrder calls) (ip : Ip) :
    (failuresOf ip calls).Pairwise fun later earlier => earlier ≤ later := by
  have hnow : ∀ (c : RateCall Ip) f, RateCall.failureOf ip c = some f → f = c.now := by
    intro c f heq
    cases c with
    | check ip' now => cases heq
    | recordFailure ip' now =>
      exact (Option.some.inj (Option.ite_none_right_eq_some.mp heq).2).symm
  refine List.Pairwise.filterMap _ (fun c c' hle f hf f' hf' => ?_) hordered
  rw [hnow c f hf, hnow c' f' hf']
  exact hle

/-- A block in terms of the windows that end with a failure. -/
theorem blockedAt_iff (hordered : InOrder calls) (hle : ∀ c ∈ calls, c.now ≤ now) (ip : Ip) :
    BlockedAt rateWindow maxFailures (failuresOf ip calls) now ↔
      ∃ f older, f :: older <:+ failuresOf ip calls ∧ f ≤ now ∧ now < f + rateWindow ∧
        11 ≤ (f :: older).countP fun g => decide (f < g + rateWindow) && decide (g ≤ f) := by
  have hcount : ∀ f older, f :: older <:+ failuresOf ip calls →
      ((f :: older).countP fun g => decide (f < g + rateWindow) && decide (g ≤ f)) =
        (within rateWindow f (f :: older)).length := by
    intro f older hsuffix
    have hsorted := (failuresOf_sorted hordered ip).sublist hsuffix.sublist
    rw [within, ← List.countP_eq_length_filter]
    refine List.countP_congr fun g hg => ?_
    have hg : g ≤ f := by
      rcases List.mem_cons.mp hg with rfl | hg
      · exact Nat.le_refl _
      · exact List.rel_of_pairwise_cons hsorted hg
    rw [decide_eq_true hg, Bool.and_true]
  constructor
  · rintro ⟨f, older, hsuffix, hnow, hmany⟩
    have hf : f ≤ now := failures_le hle ip f (hsuffix.subset List.mem_cons_self)
    exact ⟨f, older, hsuffix, hf, hnow, hcount f older hsuffix ▸ hmany⟩
  · rintro ⟨f, older, hsuffix, -, hnow, hmany⟩
    exact ⟨f, older, hsuffix, hnow, hcount f older hsuffix ▸ hmany⟩

/-- A failure is told that it blocks when it is the eleventh in its window. -/
theorem record_blocks_iff (hordered : InOrder calls) (hle : ∀ c ∈ calls, c.now ≤ now) {ip : Ip}
    (hroom : (failing (.recordFailure ip now :: calls)).card ≤ cap) :
    (((RateLimiter.new cap).after calls).recordFailure ip now).2 = true ↔
      maxFailures < (within rateWindow now (now :: failuresOf ip calls)).length := by
  have hroom' := (Finset.card_le_card (failing_subset (.recordFailure ip now) calls)).trans hroom
  have hentries := entryOf_after hordered hroom' hle
  rw [recordFailure_of_room fun hnone => size_lt hentries (after_cap _ _) hnone hroom,
    decide_eq_true_iff, fail_failures (hentries ip) (failures_le hle ip), List.length_reverse]

/-- Two histories with the same failures of an address give it the same answer. -/
theorem call_congr {calls' : List (RateCall Ip)} {c : RateCall Ip} (hordered : InOrder (c :: calls))
    (hordered' : InOrder (c :: calls')) (hroom : (failing (c :: calls)).card ≤ cap)
    (hroom' : (failing (c :: calls')).card ≤ cap)
    (hsame : failuresOf c.ip calls = failuresOf c.ip calls') :
    (((RateLimiter.new cap).after calls).call c).2 =
      (((RateLimiter.new cap).after calls').call c).2 := by
  obtain ⟨hle, hearlier⟩ := List.pairwise_cons.mp hordered
  obtain ⟨hle', hearlier'⟩ := List.pairwise_cons.mp hordered'
  have hless := (Finset.card_le_card (failing_subset c calls)).trans hroom
  have hless' := (Finset.card_le_card (failing_subset c calls')).trans hroom'
  cases c with
  | check ip now =>
    have hrefuses := check_refuses_iff hearlier hless hle ip
    have hrefuses' := check_refuses_iff hearlier' hless' hle' ip
    rw [show failuresOf ip calls = failuresOf ip calls' from hsame, ← hrefuses'] at hrefuses
    show (RateLimiter.check _ ip now).2 = (RateLimiter.check _ ip now).2
    rw [Bool.eq_false_iff, Bool.eq_false_iff, not_iff_not] at hrefuses
    exact Bool.eq_iff_iff.mpr hrefuses
  | recordFailure ip now =>
    have hblocks := record_blocks_iff hearlier hle hroom
    have hblocks' := record_blocks_iff hearlier' hle' hroom'
    rw [show failuresOf ip calls = failuresOf ip calls' from hsame, ← hblocks'] at hblocks
    exact Bool.eq_iff_iff.mpr hblocks

theorem failuresOf_filter (ip : Ip) (calls : List (RateCall Ip)) :
    failuresOf ip (calls.filter fun c => c.ip = ip) = failuresOf ip calls := by
  unfold failuresOf
  rw [List.filterMap_filter]
  refine List.filterMap_congr fun c _ => ?_
  split
  · rfl
  · next hne =>
    cases c with
    | check ip' now => rfl
    | recordFailure ip' now => exact (if_neg fun heq => hne (decide_eq_true heq)).symm

theorem card_failing_filter (ip : Ip) (calls : List (RateCall Ip)) :
    (failing (calls.filter fun c => c.ip = ip)).card ≤ (failing calls).card := by
  refine Finset.card_le_card fun ip' h => ?_
  obtain ⟨f, hf⟩ := mem_failing.mp h
  refine mem_failing.mpr ⟨f, mem_failuresOf.mpr ?_⟩
  exact List.mem_of_mem_filter (mem_failuresOf.mp hf)

/-- What an address is told depends on its own calls only. -/
theorem answersOf_filter (hordered : InOrder calls) (hroom : (failing calls).card ≤ cap) (ip : Ip) :
    (RateLimiter.new cap).answersOf ip calls =
      (RateLimiter.new cap).answersOf ip (calls.filter fun c => c.ip = ip) := by
  induction calls with
  | nil => rfl
  | cons c earlier ih =>
    have hroom' := (Finset.card_le_card (failing_subset c earlier)).trans hroom
    have ih := ih (List.pairwise_cons.mp hordered).2 hroom'
    have hfilter := (card_failing_filter ip (c :: earlier)).trans hroom
    have hsorted := List.Pairwise.filter (fun c => decide (c.ip = ip)) hordered
    rw [List.filter_cons] at hfilter hsorted ⊢
    by_cases heq : c.ip = ip
    · rw [if_pos (decide_eq_true heq)] at hfilter hsorted ⊢
      unfold RateLimiter.answersOf
      rw [if_pos heq, if_pos heq, ← ih]
      congr 1
      refine call_congr hordered hsorted hroom hfilter ?_
      rw [heq, failuresOf_filter]
    · rw [if_neg fun h => heq (of_decide_eq_true h)]
      show ite _ _ _ = _
      rw [if_neg heq, ih]

end Histories

end RateLimitLemmas

end Mast
