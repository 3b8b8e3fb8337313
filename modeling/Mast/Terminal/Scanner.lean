import Mast.Osc

/-!
# What the scanner recognises

From whatever state the stream left the scanner in, a complete sequence is
recognised for what it is: an escape byte starts afresh, and the bounds drop a
sequence as a whole.

Results:
1. `step_escape`, `feed_kept`: the two ways the scanner moves through a sequence.
2. `Bounded`, `bounded_of_reachable`: the buffer stays within its bound.
3. `scan_sequences`: the sequences and their events, from every reachable state.
-/

namespace Mast

/-- No byte of the payload ends or interrupts an OSC sequence. -/
def Unbroken (p : List UInt8) : Prop := ∀ b ∈ p, b ≠ bel ∧ b ≠ esc ∧ b ≠ can ∧ b ≠ sub

instance (p : List UInt8) : Decidable (Unbroken p) :=
  List.decidableBAll _ p

/-- Parameter and intermediate bytes of a CSI sequence. -/
def CsiBytes (q : List UInt8) : Prop := ∀ b ∈ q, 0x20 ≤ b ∧ b ≤ 0x3F

instance (q : List UInt8) : Decidable (CsiBytes q) := List.decidableBAll _ q

/-- `ESC ]` and a payload. -/
def oscOpen (p : List UInt8) : List UInt8 := esc :: ascii ']' :: p

/-- `ESC \`, the string terminator. -/
def stringTerminator : List UInt8 := [esc, ascii '\\']

/-- `ESC [`, parameter bytes and a final byte. -/
def csi (q : List UInt8) (f : UInt8) : List UInt8 := esc :: ascii '[' :: (q ++ [f])

namespace OscScanner

/-- The scanner after an escape byte. -/
def escaped (s : OscScanner) : OscScanner :=
  match s.state with
  | .ground | .esc => { s with state := .esc }
  | .collect => { s with state := .collectEsc }
  | .csi | .collectEsc => s.discardTo .esc

/-- The bound on the buffer. -/
def cap (s : OscScanner) : Nat :=
  match s.state with
  | .ground | .esc => 0
  | .csi => maxCsiBytes
  | .collect | .collectEsc => maxPayloadBytes

/-- The buffer is within its bound, and outside a sequence nothing is pending. -/
structure Bounded (s : OscScanner) : Prop where
  cap : s.buf.length ≤ s.cap
  overflow : s.state = .ground ∨ s.state = .esc → s.overflow = false

end OscScanner

namespace ScannerLemmas

open OscScanner Transducer

variable {s : OscScanner}

/-! ## Single bytes -/

/-- An escape byte is silent in every state. -/
theorem step_escape (s : OscScanner) : scanner.step s esc = (s.escaped, none) := by
  obtain ⟨state, buf, overflow⟩ := s
  cases state <;> rfl

/-- Behind an escape byte, `]` opens an OSC sequence in every state. -/
theorem step_escaped_osc (s : OscScanner) :
    scanner.step s.escaped (ascii ']') = (⟨.collect, [], false⟩, none) := by
  obtain ⟨state, buf, overflow⟩ := s
  cases state <;> rfl

/-- Behind an escape byte, `[` opens a CSI sequence in every state. -/
theorem step_escaped_csi (s : OscScanner) :
    scanner.step s.escaped (ascii '[') = (⟨.csi, [], false⟩, none) := by
  obtain ⟨state, buf, overflow⟩ := s
  cases state <;> rfl

/-- Behind an escape byte, `c` is a hard reset in every state. -/
theorem step_escaped_reset (s : OscScanner) :
    (scanner.step s.escaped (ascii 'c')).2 = some (.terminalReset false) := by
  obtain ⟨state, buf, overflow⟩ := s
  cases state <;> rfl

theorem step_collect {buf : List UInt8} {overflow : Bool} {b : UInt8}
    (h : b ≠ bel ∧ b ≠ esc ∧ b ≠ can ∧ b ≠ sub) : scanner.step ⟨.collect, buf, overflow⟩ b =
      (keep ⟨.collect, buf, overflow⟩ maxPayloadBytes b, none) := by
  obtain ⟨hbel, hesc, hcan, hsub⟩ := h
  simp [scanner, OscScanner.step, hbel, hesc, hcan, hsub]

theorem csi_byte_ne {b : UInt8} (h : 0x20 ≤ b) : b ≠ can ∧ b ≠ sub ∧ b ≠ esc := by
  refine ⟨?_, ?_, ?_⟩ <;> rintro rfl <;> exact absurd h (by decide)

theorem step_csi {buf : List UInt8} {overflow : Bool} {b : UInt8} (h : 0x20 ≤ b ∧ b ≤ 0x3F) :
    scanner.step ⟨.csi, buf, overflow⟩ b = (keep ⟨.csi, buf, overflow⟩ maxCsiBytes b, none) := by
  obtain ⟨hcan, hsub, hesc⟩ := csi_byte_ne h.1
  simp [scanner, OscScanner.step, hcan, hsub, hesc, h]

theorem step_csi_final {buf : List UInt8} {overflow : Bool} {f : UInt8}
    (hlo : 0x40 ≤ f) (hhi : f ≤ 0x7E) : scanner.step ⟨.csi, buf, overflow⟩ f =
      finishCsi ⟨.csi, buf, overflow⟩ f := by
  have hspace : (0x20 : UInt8) ≤ f := UInt8.le_trans (by decide) hlo
  obtain ⟨hcan, hsub, hesc⟩ := csi_byte_ne hspace
  have hparam : ¬ f ≤ 0x3F := fun h => absurd (UInt8.le_trans hlo h) (by decide)
  simp [scanner, OscScanner.step, hcan, hsub, hesc, hparam, hlo, hhi]

/-! ## Runs of kept bytes -/

/-- Bytes that are kept fill the buffer, unless they are too many. -/
theorem feed_kept (state : ScanState) (bound : Nat) {p : List UInt8}
    (hstep : ∀ b ∈ p, ∀ buf overflow, scanner.step ⟨state, buf, overflow⟩ b =
      (keep ⟨state, buf, overflow⟩ bound b, none)) (buf : List UInt8) (overflow : Bool)
    (hbuf : buf.length ≤ bound) :
    ∃ buf', scanner.feed ⟨state, buf, overflow⟩ p =
        (⟨state, buf', overflow || decide (bound < buf.length + p.length)⟩, []) ∧
      ((overflow || decide (bound < buf.length + p.length)) = false → buf' = buf ++ p) := by
  induction p generalizing buf overflow with
  | nil =>
    refine ⟨buf, ?_, fun _ => (List.append_nil buf).symm⟩
    have hfits : decide (bound < buf.length + ([] : List UInt8).length) = false :=
      decide_eq_false (Nat.not_lt.mpr hbuf)
    rw [hfits, Bool.or_false]
    rfl
  | cons b p ih =>
    have hrest : ∀ c ∈ p, ∀ buf overflow, scanner.step ⟨state, buf, overflow⟩ c =
        (keep ⟨state, buf, overflow⟩ bound c, none) :=
      fun c hc => hstep c (List.mem_cons_of_mem _ hc)
    have hhead : scanner.step ⟨state, buf, overflow⟩ b =
        (keep ⟨state, buf, overflow⟩ bound b, none) :=
      hstep b List.mem_cons_self buf overflow
    rw [feed_cons_silent hhead, keep]
    split
    next hfull =>
      obtain ⟨buf', hfeed, _⟩ := ih hrest [] true (Nat.zero_le _)
      have hflag : (overflow || decide (bound < buf.length + (b :: p).length)) = true := by
        simp only [List.length_cons, Bool.or_eq_true, decide_eq_true_eq]
        exact .inr (by dsimp only at hfull; omega)
      refine ⟨buf', ?_, fun h => absurd (hflag.symm.trans h) (by decide)⟩
      rw [hflag]
      exact hfeed
    next hroom =>
      have hlength : (buf ++ [b]).length + p.length = buf.length + (b :: p).length := by
        simp only [List.length_append, List.length_cons, List.length_nil]
        omega
      obtain ⟨buf', hfeed, hbuf'⟩ := ih hrest (buf ++ [b]) overflow (by
        simp only [List.length_append, List.length_cons, List.length_nil]
        dsimp only at hroom
        omega)
      rw [hlength] at hfeed hbuf'
      exact ⟨buf', hfeed, fun h => (hbuf' h).trans (List.append_assoc _ _ _)⟩

/-- The state inside an OSC sequence, and its payload if it is not too long. -/
theorem feed_oscOpen {p : List UInt8} (hp : Unbroken p) (s : OscScanner) :
    ∃ buf, scanner.feed s (oscOpen p) =
        (⟨.collect, buf, decide (maxPayloadBytes < p.length)⟩, []) ∧
      (p.length ≤ maxPayloadBytes → buf = p) := by
  obtain ⟨buf, hfeed, hbuf⟩ := feed_kept .collect maxPayloadBytes
    (fun b hb buf overflow => step_collect (hp b hb)) [] false (Nat.zero_le _)
  simp only [List.length_nil, Nat.zero_add, Bool.false_or, List.nil_append] at hfeed hbuf
  refine ⟨buf, ?_, fun h => hbuf (decide_eq_false (by omega))⟩
  rw [oscOpen, feed_cons_silent (step_escape s), feed_cons_silent (step_escaped_osc s), hfeed]

/-! ## Complete sequences -/

theorem step_bel (buf : List UInt8) (overflow : Bool) : scanner.step ⟨.collect, buf, overflow⟩ bel =
    (new, if overflow then none else parsePayload buf) := rfl

/-- The payload as an event, unless it is too long. -/
def payloadEvent (p : List UInt8) : Option OscEvent :=
  if p.length ≤ maxPayloadBytes then parsePayload p else none

/-- The parameters as an event, unless they are too long. -/
def csiEvent (q : List UInt8) (f : UInt8) : Option OscEvent :=
  if q.length ≤ maxCsiBytes then parseCsi q f else none

/-- A bounded run of kept bytes, seen by what ends the sequence. -/
theorem ite_kept {bound : Nat} {p buf : List UInt8} (h : p.length ≤ bound → buf = p)
    (parse : List UInt8 → Option OscEvent) :
    (if decide (bound < p.length) then none else parse buf) =
      if p.length ≤ bound then parse p else none := by
  by_cases hfits : p.length ≤ bound
  · rw [if_pos hfits, h hfits, if_neg (by simpa using hfits)]
  · rw [if_neg hfits, if_pos (by simpa using hfits)]

theorem feed_osc_bel {p : List UInt8} (hp : Unbroken p) (s : OscScanner) :
    s.feed (oscOpen p ++ [bel]) = (new, (payloadEvent p).toList) := by
  obtain ⟨buf, hfeed, hbuf⟩ := feed_oscOpen hp s
  rw [OscScanner.feed, feed_silent hfeed, feed_singleton, step_bel, ite_kept hbuf, payloadEvent]

theorem feed_osc_st {p : List UInt8} (hp : Unbroken p) (s : OscScanner) :
    s.feed (oscOpen p ++ stringTerminator) = (new, (payloadEvent p).toList) := by
  obtain ⟨buf, hfeed, hbuf⟩ := feed_oscOpen hp s
  have hfinish : scanner.step ⟨.collectEsc, buf, decide (maxPayloadBytes < p.length)⟩ (ascii '\\') =
      (new, if decide (maxPayloadBytes < p.length) then none else parsePayload buf) := rfl
  rw [OscScanner.feed, feed_silent hfeed, stringTerminator, feed_cons_silent (step_escape _),
    feed_singleton, escaped, hfinish, ite_kept hbuf, payloadEvent]

theorem feed_csi {q : List UInt8} {f : UInt8} (hq : CsiBytes q) (hlo : 0x40 ≤ f) (hhi : f ≤ 0x7E)
    (s : OscScanner) : s.feed (csi q f) = (new, (csiEvent q f).toList) := by
  obtain ⟨buf, hfeed, hbuf⟩ := feed_kept .csi maxCsiBytes
    (fun b hb buf overflow => step_csi (hq b hb)) [] false (Nat.zero_le _)
  simp only [List.length_nil, Nat.zero_add, Bool.false_or, List.nil_append] at hfeed hbuf
  have hfinal : scanner.step ⟨.csi, buf, decide (maxCsiBytes < q.length)⟩ f =
      (new, if decide (maxCsiBytes < q.length) then none else parseCsi buf f) :=
    step_csi_final hlo hhi
  rw [OscScanner.feed, csi, feed_cons_silent (step_escape s),
    feed_cons_silent (step_escaped_csi s), feed_silent hfeed, feed_singleton, hfinal,
    ite_kept (fun h => hbuf (decide_eq_false (by omega))) (parseCsi · f), csiEvent]

theorem feed_hardReset (s : OscScanner) :
    (s.feed [esc, ascii 'c']).2 = [.terminalReset false] := by
  rw [OscScanner.feed, feed_cons_silent (step_escape s), feed_singleton]
  rw [step_escaped_reset]
  rfl

/-! ## Interrupted sequences -/

/-- A control byte that cancels an OSC sequence leaves nothing of it. -/
theorem feed_cancelled {p : List UInt8} (hp : Unbroken p) {b : UInt8} (hb : b = can ∨ b = sub)
    (s : OscScanner) : s.feed (oscOpen p ++ [b]) = (new, []) := by
  obtain ⟨buf, hfeed, _⟩ := feed_oscOpen hp s
  rw [OscScanner.feed, feed_silent hfeed, feed_singleton]
  rcases hb with rfl | rfl <;> rfl

/-- Another escape sequence that interrupts an OSC sequence is read as if nothing
had come before it. -/
theorem feed_interrupted {p : List UInt8} (hp : Unbroken p) {b : UInt8} (hb : b ≠ ascii '\\')
    (rest : List UInt8) (s : OscScanner) :
    s.feed (oscOpen p ++ esc :: b :: rest) = new.feed (esc :: b :: rest) := by
  obtain ⟨buf, hfeed, _⟩ := feed_oscOpen hp s
  rw [OscScanner.feed, OscScanner.feed, feed_silent hfeed, feed_cons_silent (step_escape _),
    feed_cons_silent (step_escape new)]
  have hstep : scanner.step (escaped ⟨.collect, buf, decide (maxPayloadBytes < p.length)⟩) b =
      scanner.step new.escaped b := by
    simp [scanner, OscScanner.step, hb, escaped, new, beginCollect, beginCsi, discardTo]
  rw [feed_cons, feed_cons, hstep]

/-! ## The bound on the buffer -/

theorem length_keep (bound : Nat) (b : UInt8) :
    (s.keep bound b).buf.length ≤ bound := by
  unfold keep
  split
  · exact Nat.zero_le _
  · rw [List.length_append]
    exact Nat.lt_of_not_le ‹_›

theorem state_keep (bound : Nat) (b : UInt8) : (s.keep bound b).state = s.state := by
  unfold keep
  split <;> rfl

theorem bounded_empty (state : ScanState) : Bounded ⟨state, [], false⟩ :=
  ⟨Nat.zero_le _, fun _ => rfl⟩

theorem bounded_keep {bound : Nat} (hcap : s.cap = bound)
    (hinside : s.state ≠ .ground ∧ s.state ≠ .esc) (b : UInt8) : (s.keep bound b).Bounded where
  cap := by
    have hstate : (s.keep bound b).cap = s.cap := by rw [OscScanner.cap, state_keep, OscScanner.cap]
    rw [hstate, hcap]
    exact length_keep bound b
  overflow hstate := by
    rw [state_keep] at hstate
    exact absurd hstate (not_or.mpr hinside)

/-- Every byte keeps the bound. -/
theorem bounded_step (s : OscScanner) (b : UInt8) (h : s.Bounded) :
    (scanner.step s b).1.Bounded := by
  obtain ⟨state, buf, overflow⟩ := s
  obtain ⟨hcap, hover⟩ := h
  cases state with
  | ground | esc =>
    -- outside a sequence the buffer is empty and nothing overflowed
    obtain rfl : buf = [] := List.eq_nil_of_length_eq_zero (Nat.le_zero.mp hcap)
    obtain rfl : overflow = false := hover (by simp)
    simp only [scanner, OscScanner.step]
    repeat' split
    all_goals exact bounded_empty _
  | csi =>
    simp only [scanner, OscScanner.step]
    repeat' split
    · exact bounded_empty _
    · exact bounded_empty _
    · exact bounded_keep (s := ⟨.csi, buf, overflow⟩) rfl (by simp) b
    · exact bounded_empty _
    · exact ⟨hcap, hover⟩
  | collect =>
    simp only [scanner, OscScanner.step]
    repeat' split
    · exact bounded_empty _
    · exact ⟨hcap, by simp⟩
    · exact bounded_empty _
    · exact bounded_keep (s := ⟨.collect, buf, overflow⟩) rfl (by simp) b
  | collectEsc =>
    simp only [scanner, OscScanner.step]
    repeat' split
    all_goals exact bounded_empty _

theorem bounded_of_reachable (h : s.Reachable) : s.Bounded :=
  Reachable.invariant (bounded_empty .ground) bounded_step h

end ScannerLemmas

open ScannerLemmas in
/-- From every reachable state, a complete sequence gives its event and nothing
else; an OSC sequence that is cancelled or interrupted gives none, and what
interrupts it is read as from the start. How the stream is cut does not matter, and
the buffer stays within its bound. -/
theorem scan_sequences {s : OscScanner} (h : s.Reachable) :
    (∀ p, Unbroken p →
      let events := (if p.length ≤ 65536 then parsePayload p else none).toList
      s.feed (oscOpen p ++ [bel]) = (.new, events) ∧
      s.feed (oscOpen p ++ stringTerminator) = (.new, events)) ∧
    (∀ q f, CsiBytes q → 0x40 ≤ f → f ≤ 0x7E →
      s.feed (csi q f) = (.new, (if q.length ≤ 128 then parseCsi q f else none).toList)) ∧
    (s.feed [esc, ascii 'c']).2 = [.terminalReset false] ∧
    (∀ p, Unbroken p →
      s.feed (oscOpen p ++ [can]) = (.new, []) ∧ s.feed (oscOpen p ++ [sub]) = (.new, []) ∧
      ∀ b, b ≠ ascii '\\' → ∀ rest,
        s.feed (oscOpen p ++ esc :: b :: rest) = OscScanner.new.feed (esc :: b :: rest)) ∧
    (∀ chunks : List (List UInt8), s.feedAll chunks = s.feed chunks.flatten) ∧
    s.buf.length ≤ s.cap := by
  refine ⟨fun p hp => ⟨feed_osc_bel hp s, feed_osc_st hp s⟩,
    fun q f hq hlo hhi => feed_csi hq hlo hhi s, feed_hardReset s, fun p hp => ?_,
    fun chunks => Transducer.feedAll_eq chunks, (bounded_of_reachable h).cap⟩
  refine ⟨feed_cancelled hp (.inl rfl) s, feed_cancelled hp (.inr rfl) s, fun b hb rest => ?_⟩
  exact feed_interrupted hp hb rest s

/-- A scanner in the middle of an overlong CSI sequence. -/
def overlongCsi : OscScanner :=
  (OscScanner.new.feed (esc :: ascii '[' :: List.replicate 130 (ascii '1'))).1

/-- In the middle of an overlong CSI sequence, a title is recognised. -/
theorem scan_sequences_overlong :
    overlongCsi.feed (oscOpen [ascii '0', ascii ';', ascii 'a'] ++ [bel]) =
      (.new, [.osc0Title "a"]) := by
  have hreachable : overlongCsi.Reachable := ⟨_, rfl⟩
  have hosc := ((scan_sequences hreachable).1 [ascii '0', ascii ';', ascii 'a'] (by decide)).1
  exact hosc.trans (by decide)

end Mast
