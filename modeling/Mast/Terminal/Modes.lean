import Mathlib.Data.Finset.Card
import Mast.Terminal.Stream

/-!
# Modes of a fresh terminal

A fresh terminal is given the tracked modes and then the end of the stream, which may
begin in the middle of a sequence. It ends in the modes of the session all the same:
its scanner falls into step with the session's at the first escape byte, so it sees
the last of the session's mode events, and these change nothing in a terminal that
has the modes already.

Results:
1. `effects_spec`: what a list of events does to one mode, as long as the bound on
   tracked modes is not reached.
2. `exists_front`: a fresh scanner sees the last of the mode events.
3. `feed_preamble`: the preamble as events.
4. `modes_restored`: a fresh terminal ends in the modes of the session.
-/

namespace Mast

/-- The tracked modes among those an event sets or resets. -/
def OscEvent.trackedModes : OscEvent → List UInt16
  | .decPrivateMode modes _ => modes.filter fun mode => mode ∉ untrackedDecModes
  | _ => []

/-- The distinct tracked modes that a list of events sets or resets. -/
def touchedModes (events : List OscEvent) : Finset UInt16 :=
  (events.flatMap OscEvent.trackedModes).toFinset

/-- What an event does to one mode: nothing, or it gives it a new value. -/
def OscEvent.effect (mode : UInt16) : OscEvent → Option (Option Bool)
  | .decPrivateMode modes set =>
    if mode ∈ modes ∧ mode ∉ untrackedDecModes then some (some set) else none
  | .terminalReset true => if mode ∈ softResetDecModes then some none else none
  | .terminalReset false => some none
  | _ => none

/-- What a list of events does to one mode: the last effect counts. -/
def effects (mode : UInt16) : List OscEvent → Option (Option Bool)
  | [] => none
  | e :: rest => (effects mode rest).or (e.effect mode)

namespace ModesLemmas

open ScannerLemmas StreamLemmas OscScanner Transducer

variable {modes : DecModes} {tracked : Finset UInt16}

/-! ## Events on one mode -/

/-- All keys are among the given modes. -/
def Within (tracked : Finset UInt16) (modes : DecModes) : Prop :=
  ∀ mode ∈ modes.keys, mode ∈ tracked

theorem within_empty : Within tracked .empty := fun _ h => by cases h

/-- A new mode among at most 64 is below the bound. -/
theorem size_lt (h : Within tracked modes) (hcard : tracked.card ≤ maxTrackedDecModes)
    {mode : UInt16} (hmode : mode ∈ tracked) (hnew : mode ∉ modes.keys) :
    modes.size < maxTrackedDecModes := by
  have hsub : insert mode modes.keys.toFinset ⊆ tracked := by
    intro m hm
    rcases Finset.mem_insert.mp hm with rfl | hkey
    · exact hmode
    · exact h m (List.mem_toFinset.mp hkey)
  have hle := Finset.card_le_card hsub
  rw [Finset.card_insert_of_notMem (by simpa using hnew),
    List.toFinset_card_of_nodup modes.keys_nodup] at hle
  have hsize : modes.keys.length = modes.size := List.length_map _
  omega

theorem applyMode_eq (h : Within tracked modes) (hcard : tracked.card ≤ maxTrackedDecModes)
    {mode : UInt16} (hmode : mode ∉ untrackedDecModes → mode ∈ tracked) (set : Bool) :
    applyMode set modes mode =
      if mode ∈ untrackedDecModes then modes else modes.insert mode set := by
  unfold applyMode
  split
  next => rfl
  next htracked =>
    rw [if_neg]
    intro hfull
    obtain ⟨hnew, hsize⟩ := Bool.and_eq_true_iff.mp hfull
    have hkey : mode ∉ modes.keys := fun hkey => by
      simp [OrdMap.contains_iff.mpr hkey] at hnew
    exact absurd (of_decide_eq_true hsize) (Nat.not_le.mpr (size_lt h hcard (hmode htracked) hkey))

/-- The touched modes of one event, one after the other. -/
theorem foldl_applyMode (hcard : tracked.card ≤ maxTrackedDecModes) (set : Bool)
    (touched : List UInt16) (htouched : ∀ mode ∈ touched, mode ∉ untrackedDecModes → mode ∈ tracked)
    (h : Within tracked modes) :
    Within tracked (touched.foldl (applyMode set) modes) ∧
      ∀ mode, (touched.foldl (applyMode set) modes).get? mode =
        if mode ∈ touched ∧ mode ∉ untrackedDecModes then some set else modes.get? mode := by
  induction touched generalizing modes with
  | nil => exact ⟨h, fun mode => by simp⟩
  | cons first rest ih =>
    have hfirst := applyMode_eq h hcard (htouched first List.mem_cons_self) set
    have hrest := fun mode hm => htouched mode (List.mem_cons_of_mem _ hm)
    rw [List.foldl_cons, hfirst]
    split
    next huntracked =>
      refine (ih hrest h).imp_right fun hget mode => ?_
      rw [hget mode]
      by_cases heq : mode = first
      · simp [heq, huntracked]
      · simp [heq]
    next htracked =>
      have hwithin : Within tracked (modes.insert first set) := by
        intro mode hmode
        rcases OrdMap.mem_insert_keys.mp hmode with rfl | hold
        · exact htouched _ List.mem_cons_self htracked
        · exact h mode hold
      refine (ih hrest hwithin).imp_right fun hget mode => ?_
      rw [hget mode, OrdMap.get?_insert]
      by_cases heq : mode = first
      · simp [heq, htracked]
      · simp [heq]

/-- One event changes each mode by its effect. -/
theorem applyModeEvent_spec (hcard : tracked.card ≤ maxTrackedDecModes) {e : OscEvent}
    (he : ∀ mode ∈ e.trackedModes, mode ∈ tracked) (h : Within tracked modes) :
    Within tracked (applyModeEvent modes e) ∧
      ∀ mode, (applyModeEvent modes e).get? mode = (e.effect mode).getD (modes.get? mode) := by
  cases e with
  | decPrivateMode touched set =>
    have htouched : ∀ mode ∈ touched, mode ∉ untrackedDecModes → mode ∈ tracked := by
      intro mode hmode htracked
      exact he mode (List.mem_filter.mpr ⟨hmode, decide_eq_true htracked⟩)
    refine (foldl_applyMode hcard set touched htouched h).imp_right fun hget mode => ?_
    rw [applyModeEvent, hget mode, OscEvent.effect]
    split <;> rfl
  | terminalReset soft =>
    cases soft with
    | true =>
      refine ⟨fun mode hmode => ?_, fun mode => ?_⟩
      · obtain ⟨v, hv⟩ := OrdMap.mem_keys.mp hmode
        exact h mode (OrdMap.mem_keys.mpr ⟨v, (List.mem_filter.mp hv).1⟩)
      · rw [applyModeEvent, OrdMap.get?_retain, OscEvent.effect]
        by_cases hsoft : mode ∈ softResetDecModes <;> simp [hsoft]
    | false => exact ⟨within_empty, fun mode => rfl⟩
  | _ => exact ⟨h, fun mode => rfl⟩

/-- A list of events changes each mode by the last effect on it. -/
theorem effects_spec (hcard : tracked.card ≤ maxTrackedDecModes) {events : List OscEvent}
    (he : touchedModes events ⊆ tracked) (h : Within tracked modes) :
    Within tracked (events.foldl applyModeEvent modes) ∧
      ∀ mode, (events.foldl applyModeEvent modes).get? mode =
        (effects mode events).getD (modes.get? mode) := by
  induction events generalizing modes with
  | nil => exact ⟨h, fun mode => rfl⟩
  | cons e rest ih =>
    have hhead : ∀ mode ∈ e.trackedModes, mode ∈ tracked := fun mode hmode =>
      he (List.mem_toFinset.mpr (List.mem_flatMap.mpr ⟨e, List.mem_cons_self, hmode⟩))
    have htail : touchedModes rest ⊆ tracked := fun mode hmode => by
      obtain ⟨e', he', hm⟩ := List.mem_flatMap.mp (List.mem_toFinset.mp hmode)
      exact he (List.mem_toFinset.mpr
        (List.mem_flatMap.mpr ⟨e', List.mem_cons_of_mem _ he', hm⟩))
    obtain ⟨hwithin, hget⟩ := applyModeEvent_spec hcard hhead h
    refine (ih htail hwithin).imp_right fun hrest mode => ?_
    rw [List.foldl_cons, hrest mode, hget mode, effects]
    cases effects mode rest <;> rfl

/-- Doing the same again changes nothing. -/
theorem foldl_idempotent (hcard : tracked.card ≤ maxTrackedDecModes) {events : List OscEvent}
    (he : touchedModes events ⊆ tracked) (h : Within tracked modes) :
    events.foldl applyModeEvent (events.foldl applyModeEvent modes) =
      events.foldl applyModeEvent modes := by
  obtain ⟨hwithin, hget⟩ := effects_spec hcard he h
  refine OrdMap.ext_get? fun mode => ?_
  rw [(effects_spec hcard he hwithin).2 mode, hget mode]
  cases effects mode events <;> rfl

/-! ## A fresh scanner in the middle of the stream -/

/-- A payload is never a mode event. -/
theorem not_mode_parsePayload (payload : List UInt8) :
    (parsePayload payload).toList.filter isModeEvent = [] := by
  have h777 (rest : List Char) : (parse777 rest).toList.filter isModeEvent = [] := by
    unfold parse777
    dsimp only
    repeat' split
    · rfl
    · cases ((splitn 3 ';' rest).map String.ofList)[1]? <;>
        cases ((splitn 3 ';' rest).map String.ofList)[2]? <;> rfl
    · cases ((splitn 3 ';' rest).map String.ofList)[1]? <;>
        cases ((splitn 3 ';' rest).map String.ofList)[2]? <;> rfl
    · rfl
    · rfl
  unfold parsePayload
  dsimp only
  repeat' split
  all_goals first | rfl | exact h777 _

/-- Behind an escape byte every scanner goes on like a fresh one: only inside an OSC
sequence something is pending, and what completes it is not a mode event. -/
theorem step_escaped_agrees {s : OscScanner} (h : s.Bounded) (b : UInt8) :
    (scanner.step s.escaped b).1 = (scanner.step new.escaped b).1 ∧
      (scanner.step s.escaped b).2.toList.filter isModeEvent =
        (scanner.step new.escaped b).2.toList.filter isModeEvent := by
  obtain ⟨state, buf, overflow⟩ := s
  cases state with
  | ground | esc =>
    obtain rfl : buf = [] := List.eq_nil_of_length_eq_zero (Nat.le_zero.mp h.cap)
    obtain rfl : overflow = false := h.overflow (by simp)
    exact ⟨rfl, rfl⟩
  | csi | collectEsc => exact ⟨rfl, rfl⟩
  | collect =>
    by_cases hst : b = ascii '\\'
    · subst hst
      refine ⟨rfl, ?_⟩
      show (if overflow then none else parsePayload buf).toList.filter isModeEvent = []
      split
      · rfl
      · exact not_mode_parsePayload buf
    · simp only [scanner, OscScanner.step, escaped, new, hst, if_false]
      refine ⟨?_, ?_⟩ <;> (repeat' split) <;> rfl

theorem filter_feed_cons (s : OscScanner) (b : UInt8) (rest : List UInt8) :
    (s.feed (b :: rest)).2.filter isModeEvent =
      (scanner.step s b).2.toList.filter isModeEvent ++
        ((scanner.step s b).1.feed rest).2.filter isModeEvent := by
  rw [OscScanner.feed, feed_cons, List.filter_append, OscScanner.feed]

/-- A fresh scanner sees the last of the mode events that a scanner in the middle of
the stream sees. -/
theorem exists_front {s : OscScanner} (h : s.Bounded) (input : List UInt8) :
    ∃ front, (s.feed input).2.filter isModeEvent =
      front ++ (new.feed input).2.filter isModeEvent := by
  induction input generalizing s with
  | nil => exact ⟨[], rfl⟩
  | cons b rest ih =>
    by_cases hesc : b = esc
    · subst hesc
      refine ⟨[], ?_⟩
      rw [List.nil_append, filter_feed_cons, filter_feed_cons, step_escape, step_escape]
      -- the two scanners differ for one more byte at most
      cases rest with
      | nil => rfl
      | cons c rest =>
        obtain ⟨hstate, hout⟩ := step_escaped_agrees h c
        rw [filter_feed_cons, filter_feed_cons, hstate, hout]
    · obtain ⟨front, hfront⟩ := ih (bounded_step s b h)
      have hsilent : scanner.step new b = (new, none) := by
        simp [scanner, OscScanner.step, new, hesc]
      refine ⟨(scanner.step s b).2.toList.filter isModeEvent ++ front, ?_⟩
      rw [filter_feed_cons, filter_feed_cons, hsilent, hfront, List.append_assoc]
      rfl

/-! ## The preamble -/

theorem isAsciiDigit_ascii {c : Char} (h : c.isDigit) : isAsciiDigit (ascii c) = true := by
  obtain ⟨hlo, hhi⟩ := Char.isDigit_iff_toNat.mp h
  have hlo' : 48 ≤ c.toNat := hlo
  have hhi' : c.toNat ≤ 57 := hhi
  have hc : (ascii c).toNat = c.toNat :=
    UInt8.toNat_ofNat_of_lt' (Nat.lt_of_le_of_lt hhi' (by decide))
  rw [isAsciiDigit, decide_eq_true_eq, UInt8.le_iff_toNat_le, UInt8.le_iff_toNat_le, hc]
  exact ⟨hlo, hhi⟩

theorem decimal_append (digits : List UInt8) (b : UInt8) :
    decimal (digits ++ [b]) = 10 * decimal digits + (b.toNat - (ascii '0').toNat) := by
  rw [decimal, List.foldl_append, decimal]
  rfl

theorem decimal_toDigits (n : Nat) : decimal ((Nat.toDigits 10 n).map ascii) = n := by
  have hdigits : ∀ d < 10, (ascii d.digitChar).toNat - (ascii '0').toNat = d := by decide
  induction n using Nat.strongRecOn with
  | ind n ih =>
    rcases Nat.lt_or_ge n 10 with hlt | hge
    · rw [Nat.toDigits_of_lt_base hlt, List.map_singleton]
      have hnil := decimal_append [] (ascii n.digitChar)
      rw [List.nil_append] at hnil
      rw [hnil, hdigits n hlt]
      show 10 * 0 + n = n
      omega
    · rw [Nat.toDigits_of_base_le (by decide) hge, List.map_append, List.map_singleton,
        decimal_append, ih (n / 10) (by omega), hdigits _ (Nat.mod_lt _ (by decide))]
      omega

theorem isAsciiDigit_of_mem {mode : UInt16} {b : UInt8} (hb : b ∈ modeDigits mode) :
    isAsciiDigit b = true := by
  obtain ⟨c, hc, rfl⟩ := List.mem_map.mp hb
  exact isAsciiDigit_ascii (Nat.isDigit_of_mem_toDigits (by decide) (by decide) hc)

theorem parseMode_modeDigits (mode : UInt16) : parseMode (modeDigits mode) = some mode := by
  have hne : (modeDigits mode).isEmpty = false := by
    simp [modeDigits]
  have hall : (modeDigits mode).all isAsciiDigit = true :=
    List.all_eq_true.mpr fun b hb => isAsciiDigit_of_mem hb
  have hdecimal : decimal (modeDigits mode) = mode.toNat := decimal_toDigits _
  rw [parseMode, hne, hall, hdecimal, if_neg (by decide), if_pos mode.toNat_lt, UInt16.ofNat_toNat]

/-- A mode sequence is recognised by every scanner. -/
theorem feed_modeSequence (mode : UInt16) (set : Bool) (s : OscScanner) :
    s.feed (modeSequence mode set) = (new, [.decPrivateMode [mode] set]) := by
  have hbytes : CsiBytes (ascii '?' :: modeDigits mode) := by
    intro b hb
    rcases List.mem_cons.mp hb with rfl | hdigit
    · decide
    · obtain ⟨hlo, hhi⟩ := of_decide_eq_true (isAsciiDigit_of_mem hdigit)
      exact ⟨UInt8.le_trans (by decide) hlo, UInt8.le_trans hhi (by decide)⟩
  have hlength : (ascii '?' :: modeDigits mode).length ≤ maxCsiBytes := by
    have hdigits : (Nat.toDigits 10 mode.toNat).length ≤ 5 :=
      (Nat.length_toDigits_le_iff (by decide) (by decide)).mpr
        (Nat.lt_of_lt_of_le mode.toNat_lt (by decide))
    rw [List.length_cons, modeDigits, List.length_map]
    exact (Nat.succ_le_succ hdigits).trans (by decide)
  have hsplit : (modeDigits mode).splitOn (ascii ';') = [modeDigits mode] := by
    refine List.splitOn_eq_singleton fun hmem => ?_
    exact absurd (isAsciiDigit_of_mem hmem) (by decide)
  have hparse (f : UInt8) (hf : f = ascii 'h' ∨ f = ascii 'l') :
      parseCsi (ascii '?' :: modeDigits mode) f =
        some (.decPrivateMode [mode] (f = ascii 'h')) := by
    have hne : modeDigits mode ≠ [] := by simp [modeDigits]
    simp [parseCsi, hf, hne, hsplit, parseMode_modeDigits]
  have hsequence (f : UInt8) (hf : f = ascii 'h' ∨ f = ascii 'l') :
      s.feed (csi (ascii '?' :: modeDigits mode) f) =
        (new, [.decPrivateMode [mode] (f = ascii 'h')]) := by
    have hrange : 0x40 ≤ f ∧ f ≤ 0x7E := by
      rcases hf with rfl | rfl <;> decide
    rw [feed_csi hbytes hrange.1 hrange.2, csiEvent, if_pos hlength, hparse f hf]
    rfl
  cases set with
  | true => exact hsequence (ascii 'h') (.inl rfl)
  | false => exact hsequence (ascii 'l') (.inr rfl)

/-- The preamble as events. -/
theorem feed_preamble (modes : DecModes) : new.feed (decModePreamble modes) =
    (new, modes.entries.map fun e => .decPrivateMode [e.1] e.2) := by
  unfold decModePreamble
  induction modes.entries with
  | nil => rfl
  | cons e rest ih =>
    have hfirst := feed_modeSequence e.1 e.2 new
    rw [OscScanner.feed] at hfirst ih
    rw [List.flatMap_cons, OscScanner.feed, feed_append, hfirst, ih]
    rfl

/-- Tracked modes that are set in ascending order, behind those that are set. -/
theorem foldl_entries (rest : List (UInt16 × Bool)) (modes : DecModes)
    (hsorted : (modes.entries ++ rest).Pairwise fun a b => a.1 < b.1)
    (htracked : ∀ e ∈ rest, e.1 ∉ untrackedDecModes)
    (hcard : modes.size + rest.length ≤ maxTrackedDecModes) :
    ((rest.map fun e => .decPrivateMode [e.1] e.2).foldl applyModeEvent modes).entries =
      modes.entries ++ rest := by
  induction rest generalizing modes with
  | nil => exact (List.append_nil _).symm
  | cons e rest ih =>
    have hlast : ∀ e' ∈ modes.entries, e'.1 < e.1 := fun e' he' =>
      (List.pairwise_append.mp hsorted).2.2 e' he' e List.mem_cons_self
    have hinsert := OrdMap.insert_last e.2 hlast
    have hsize : (modes.insert e.1 e.2).size = modes.size + 1 := by
      rw [OrdMap.size, hinsert, List.length_append, OrdMap.size]
      rfl
    have happly : applyModeEvent modes (.decPrivateMode [e.1] e.2) = modes.insert e.1 e.2 := by
      rw [List.length_cons] at hcard
      have hroom : ¬ maxTrackedDecModes ≤ modes.size := by omega
      simp [applyModeEvent, applyMode, htracked e List.mem_cons_self, hroom]
    have hassoc : modes.entries ++ e :: rest = (modes.insert e.1 e.2).entries ++ rest := by
      rw [hinsert, List.append_assoc]
      rfl
    rw [List.map_cons, List.foldl_cons, happly, hassoc]
    refine ih _ (hassoc ▸ hsorted) (fun e' he' => htracked e' (List.mem_cons_of_mem _ he')) ?_
    rw [hsize]
    rw [List.length_cons] at hcard
    omega

/-- The preamble puts a fresh terminal into the modes. -/
theorem modesAfter_preamble (hcard : modes.size ≤ maxTrackedDecModes)
    (htracked : ∀ mode ∈ modes.keys, mode ∉ untrackedDecModes) :
    modesAfter (modes.entries.map fun e => .decPrivateMode [e.1] e.2) = modes := by
  have hfilter : (modes.entries.map fun e => OscEvent.decPrivateMode [e.1] e.2).filter
      isModeEvent = modes.entries.map fun e => .decPrivateMode [e.1] e.2 := by
    refine List.filter_eq_self.mpr fun e he => ?_
    obtain ⟨_, _, rfl⟩ := List.mem_map.mp he
    rfl
  rw [modesAfter, hfilter]
  refine OrdMap.ext (foldl_entries modes.entries .empty modes.sorted (fun e he => ?_) ?_)
  · exact htracked e.1 (List.mem_map_of_mem he)
  · show 0 + modes.entries.length ≤ maxTrackedDecModes
    rw [Nat.zero_add]
    exact hcard

/-! ## What the session tracks -/

/-- A mode that is not tracked has no entry. -/
theorem tracked_of_mem {events : List OscEvent} {modes : DecModes}
    (h : ∀ mode ∈ modes.keys, mode ∉ untrackedDecModes) :
    ∀ mode ∈ (events.foldl applyModeEvent modes).keys, mode ∉ untrackedDecModes := by
  induction events generalizing modes with
  | nil => exact h
  | cons e rest ih =>
    refine ih ?_
    cases e with
    | decPrivateMode touched set =>
      simp only [applyModeEvent]
      clear ih
      induction touched generalizing modes with
      | nil => exact h
      | cons first touched ih =>
        refine ih ?_
        unfold applyMode
        split
        next => exact h
        next htracked =>
          split
          next => exact h
          next =>
            intro mode hmode
            rcases OrdMap.mem_insert_keys.mp hmode with rfl | hold
            · exact htracked
            · exact h mode hold
    | terminalReset soft =>
      cases soft with
      | true =>
        intro mode hmode
        obtain ⟨v, hv⟩ := OrdMap.mem_keys.mp hmode
        exact h mode (OrdMap.mem_keys.mpr ⟨v, (List.mem_filter.mp hv).1⟩)
      | false => exact fun mode hmode => by cases hmode
    | _ => exact h

theorem touchedModes_mono {first second : List OscEvent} (h : ∀ e ∈ first, e ∈ second) :
    touchedModes first ⊆ touchedModes second := by
  intro mode hmode
  obtain ⟨e, he, hm⟩ := List.mem_flatMap.mp (List.mem_toFinset.mp hmode)
  exact List.mem_toFinset.mpr (List.mem_flatMap.mpr ⟨e, h e he, hm⟩)

/-- A fresh terminal that is given the modes and the end of the stream ends in the
modes. -/
theorem modes_of_suffix {stream snapshot : List UInt8} (hsuffix : snapshot <:+ stream)
    (hcard : (touchedModes (new.feed stream).2).card ≤ maxTrackedDecModes) :
    modesAfter (new.feed (decModePreamble (modesAfter (new.feed stream).2) ++ snapshot)).2 =
      modesAfter (new.feed stream).2 := by
  obtain ⟨before, rfl⟩ := hsuffix
  have hbounded : (new.feed before).1.Bounded := bounded_of_reachable ⟨before, rfl⟩
  obtain ⟨front, hfront⟩ := exists_front hbounded snapshot
  have hfilter : ((new.feed (before ++ snapshot)).2).filter isModeEvent =
      ((new.feed before).2.filter isModeEvent ++ front) ++
        (new.feed snapshot).2.filter isModeEvent := by
    rw [feed_append_snd, List.filter_append, hfront, List.append_assoc]
  have hsub (events : List OscEvent)
      (h : ∀ e ∈ events, e ∈ ((new.feed (before ++ snapshot)).2).filter isModeEvent) :
      touchedModes events ⊆ touchedModes (new.feed (before ++ snapshot)).2 :=
    touchedModes_mono fun e he => (List.mem_filter.mp (h e he)).1
  have hempty : Within (touchedModes (new.feed (before ++ snapshot)).2) .empty := within_empty
  have hfirst := effects_spec hcard (hsub _ fun e he => hfilter ▸ List.mem_append_left _ he) hempty
  have hlast := hsub ((new.feed snapshot).2.filter isModeEvent)
    fun e he => hfilter ▸ List.mem_append_right _ he
  have hmodes : modesAfter (new.feed (before ++ snapshot)).2 =
      ((new.feed snapshot).2.filter isModeEvent).foldl applyModeEvent
        (((new.feed before).2.filter isModeEvent ++ front).foldl applyModeEvent .empty) := by
    rw [modesAfter, hfilter, List.foldl_append]
  have hall := (effects_spec hcard (hsub _ fun e he => he) within_empty).1
  have hkeys : (modesAfter (new.feed (before ++ snapshot)).2).size ≤ maxTrackedDecModes := by
    have hsubset : (modesAfter (new.feed (before ++ snapshot)).2).keys.toFinset ⊆ _ :=
      fun mode hmode => hall mode (List.mem_toFinset.mp hmode)
    have hle := Finset.card_le_card hsubset
    rw [List.toFinset_card_of_nodup (OrdMap.keys_nodup _), OrdMap.keys, List.length_map] at hle
    exact hle.trans hcard
  have htracked : ∀ mode ∈ (modesAfter (new.feed (before ++ snapshot)).2).keys,
      mode ∉ untrackedDecModes := tracked_of_mem fun mode hmode => by cases hmode
  -- the preamble gives the modes back, and the last events repeat themselves
  rw [feed_append_snd, feed_preamble, modesAfter_append, modesAfter_preamble hkeys htracked,
    hmodes]
  exact foldl_idempotent hcard hlast hfirst.1

end ModesLemmas

open ModesLemmas StreamLemmas in
/-- In every run in which at most 64 tracked modes are touched: what a reconnecting view
is given, and what a remote client is given to start over, puts a fresh terminal into
the modes of the session. -/
theorem modes_restored {t : Terminal} (h : Terminal.machine.Reach Terminal.Start t)
    (hcard : (touchedModes (OscScanner.new.feed t.stream).2).card ≤ 64) :
    modesAfter (OscScanner.new.feed t.inner.reattach.2.2).2 = t.inner.decModes ∧
    ∀ cols rows since, (t.inner.screenSince cols rows since).reset = true →
      modesAfter (OscScanner.new.feed (t.inner.screenSince cols rows since).bytes).2 =
        t.inner.decModes := by
  have hstream := streamInv_of_reach h
  have hscreen : modesAfter (OscScanner.new.feed t.inner.screenBytes).2 = t.inner.decModes := by
    rw [Inner.screenBytes, hstream.modes]
    exact modes_of_suffix (StreamInv.snapshot hstream) hcard
  refine ⟨hscreen, fun cols rows since hreset => ?_⟩
  unfold Inner.screenSince at hreset ⊢
  split at hreset
  · split at hreset
    · cases hreset
    · split at hreset
      · cases hreset
      next hpast hgap => rw [if_neg hpast, if_neg hgap]; exact hscreen
  · exact hscreen

/-- The sequence that shows the cursor comes in two chunks, and the first is evicted. -/
def cutSequence : List Terminal.Action :=
  [.check, .read [esc, ascii '[', ascii '?'], .account, .output false, .rollback, .check,
    .read [ascii '2', ascii '5', ascii 'h'], .account]

/-- What is left of the sequence is text, and the preamble shows the cursor. -/
theorem modes_restored_cut :
    modesAfter (OscScanner.new.feed (Terminal.machine.run
      (.new (.new 4 8 4 (by decide))) cutSequence).inner.reattach.2.2).2 = .singleton 25 true := by
  have hstart : Terminal.machine.Reach Terminal.Start (.new (.new 4 8 4 (by decide))) :=
    .init ⟨4, 8, 4, by decide, rfl⟩
  have hread (chunk : List UInt8) (h : chunk ≠ []) (t : Terminal) :
      Terminal.machine.admits t (.read chunk) := h
  have hrun := hstart.of_trace cutSequence
    ⟨trivial, hread _ (by decide) _, fun _ _ h => by cases h; decide, trivial, trivial, trivial,
      hread _ (by decide) _, fun _ _ h => by cases h; decide, trivial⟩
  exact (modes_restored hrun (by decide)).1.trans (by decide)

end Mast
