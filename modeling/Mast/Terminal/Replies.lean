import Mast.Lib.LittleEndian
import Mast.Lib.Paired
import Mast.Terminal.Acks

/-!
# Who answers a terminal query

A program asks its terminal (where the cursor is, which colours it has) in its output, and every
terminal that parses the query answers it. `commands.rs` and `view.ts` see to it that one does:
the answer of `attach_terminal` says whether the session was attached before, and a view that is
not the first lets nothing through until its replay is parsed.

The two halves of `attach_terminal` run on the main thread, as `detach_terminal` does; the threads
of the session go on between them. Frames and answers cross as bytes (`frame.ts`).

Results:
1. `parseFrame_encode`, `parseAttachBody_encode`: what crosses is read back.
2. `OrderInv`: views are attached and answered one after the other.
3. `replied_once`: what the views let through are pieces of the stream one behind the other.
-/

namespace Mast

/-! ## Bytes -/

def frameHeaderBytes : Nat := 8

def attachHeaderBytes : Nat := 9

/-- A chunk as `on_output` sends it. -/
def Frame.encode (f : Frame) : List UInt8 :=
  LittleEndian.encode frameHeaderBytes f.offset.toNat ++ f.bytes

/-- Too short a frame, or an offset that is not exact, is refused. -/
def parseFrame (data : List UInt8) : Option Frame :=
  if data.length < frameHeaderBytes then none
  else
    let raw := LittleEndian.decode (data.take frameHeaderBytes)
    if maxSafeInteger < raw then none
    else some ⟨UInt64.ofNat raw, data.drop frameHeaderBytes⟩

structure AttachBody where
  endOffset : UInt64
  firstAttach : Bool
  replay : List UInt8
deriving DecidableEq, Repr

/-- The answer of `attach_terminal`. -/
def AttachBody.encode (b : AttachBody) : List UInt8 :=
  LittleEndian.encode frameHeaderBytes b.endOffset.toNat ++
    (if b.firstAttach then 1 else 0) :: b.replay

def parseAttachBody (data : List UInt8) : Option AttachBody :=
  if data.length < attachHeaderBytes then none
  else
    let raw := LittleEndian.decode (data.take frameHeaderBytes)
    if maxSafeInteger < raw then none
    else some ⟨UInt64.ofNat raw, data[frameHeaderBytes]? ≠ some 0, data.drop attachHeaderBytes⟩

/-! ## Views -/

/-- What a view lets through. `firstAttach` is what its answer says; `parsed` counts the writes
that its terminal has parsed; `replies`, the writes that were parsed while responses went
through, is only spoken about. -/
structure ReplyView where
  firstAttach : Bool
  replayDone : Bool
  parsed : Nat
  disposed : Bool
  replies : List (List UInt8)

def ReplyView.attached (firstAttach : Bool) : ReplyView := ⟨firstAttach, false, 0, false, []⟩

/-- The replay, if it is not empty: it is written as one. -/
def View.replay (v : View) : List (List UInt8) :=
  match v.gate.endOffset, v.answer with
  | some _, some (_, bytes) => if bytes = [] then [] else [bytes]
  | _, _ => []

/-- What the view writes to its terminal. -/
def View.writes (v : View) : List (List UInt8) := v.replay ++ v.delivered.filter (· ≠ [])

/-- `onChunk` -/
def View.onChunk (v : View) (data : List UInt8) : View :=
  match parseFrame data with
  | some frame =>
    let pushed := v.gate.push frame
    { v with arrived := v.arrived + 1, received := v.received ++ [frame] }.apply pushed.1 pushed.2
  | none => { v with arrived := v.arrived + 1 }

namespace ReplyView

/-- The answer arrived. -/
def opened (rv : ReplyView) (body : AttachBody) : ReplyView :=
  { rv with replayDone := body.firstAttach || decide (body.replay = []) }

/-- A write is parsed. Its callback comes behind the responses to it. -/
def parse (rv : ReplyView) (isReplay : Bool) (bytes : List UInt8) : ReplyView :=
  { rv with
    parsed := rv.parsed + 1
    replies := if rv.replayDone then rv.replies ++ [bytes] else rv.replies
    replayDone := rv.replayDone || isReplay }

end ReplyView

/-! ## The terminal with its views -/

/-- `attachedOnce` is the flag of the sink, `attaching` the view between the halves of
`attach_terminal`. -/
structure Replying where
  terminal : Terminal
  attachedOnce : Bool
  attaching : Option Nat
  views : List ReplyView

/-- The steps of the session, and those of other calls. -/
def Terminal.Action.ofBackend : Terminal.Action → Bool
  | .attach | .reattach _ | .detach | .arrive _ | .respond _ => false
  | _ => true

namespace Replying

inductive Step
  | session (a : Terminal.Action)
  | detach
  | attach
  | reattach
  | arrive (view : Nat)
  | respond (view : Nat)
  | parsed (view : Nat)
  | dispose (view : Nat)
deriving DecidableEq

def attach (s : Replying) : Replying where
  terminal := s.terminal.step .attach
  attachedOnce := true
  attaching := some s.terminal.views.length
  views := s.views ++ [.attached !s.attachedOnce]

def reattach (s : Replying) : Replying :=
  match s.attaching with
  | some view => { s with terminal := s.terminal.step (.reattach view), attaching := none }
  | none => s

/-- The next frame of the channel, unless the view is disposed of. -/
def arrive (s : Replying) (view : Nat) : Replying :=
  match s.terminal.views[view]?, s.views[view]? with
  | some v, some rv =>
    match v.channel[v.arrived]? with
    | some frame =>
      if rv.disposed then s
      else
        { s with
          terminal :=
            { s.terminal with views := s.terminal.views.modify view (·.onChunk frame.encode) } }
    | none => s
  | _, _ => s

/-- The answer, once, unless the view is disposed of. -/
def respond (s : Replying) (view : Nat) : Replying :=
  match s.terminal.views[view]?, s.views[view]? with
  | some v, some rv =>
    match v.answer with
    | some (endOffset, bytes) =>
      if rv.disposed || v.gate.endOffset.isSome then s
      else
        match parseAttachBody (AttachBody.encode ⟨endOffset, rv.firstAttach, bytes⟩) with
        | some body =>
          { s with
            terminal := s.terminal.step (.respond view)
            views := s.views.modify view (·.opened body) }
        | none => s
    | none => s
  | _, _ => s

/-- The next write is parsed, unless the terminal is disposed of. -/
def parsed (s : Replying) (view : Nat) : Replying :=
  match s.terminal.views[view]?, s.views[view]? with
  | some v, some rv =>
    match v.writes[rv.parsed]? with
    | some bytes =>
      if rv.disposed then s
      else { s with views := s.views.modify view (·.parse (rv.parsed < v.replay.length) bytes) }
    | none => s
  | _, _ => s

def step (s : Replying) : Step → Replying
  | .session a => { s with terminal := s.terminal.step a }
  | .detach => { s with terminal := s.terminal.step .detach }
  | .attach => s.attach
  | .reattach => s.reattach
  | .arrive view => s.arrive view
  | .respond view => s.respond view
  | .parsed view => s.parsed view
  | .dispose view => { s with views := s.views.modify view fun rv => { rv with disposed := true } }

/-- `attach_terminal` and `detach_terminal` wait for each other. -/
def machine : Machine Replying Step where
  step := step
  admits s
    | .session a => a.ofBackend = true ∧ Terminal.machine.admits s.terminal a
    | .attach | .detach => s.attaching = none
    | _ => True

def Start (s : Replying) : Prop :=
  ∃ t, Terminal.Start t ∧ s = ⟨t, false, none, []⟩

end Replying

/-! ## Order -/

/-- The first view was attached and answered before the second one. -/
structure View.Before (v v' : View) : Prop where
  channel : v.start + v.channel.length ≤ v'.start
  answer : ∀ endOffset bytes endOffset' bytes', v.answer = some (endOffset, bytes) →
    v'.answer = some (endOffset', bytes') → endOffset ≤ endOffset'

/-- Views are attached and answered one after the other; the one in the slot is the last, and so
is the one that is not answered yet. -/
structure Replying.OrderInv (s : Replying) : Prop where
  first : ∀ (i : Nat) (rv : ReplyView), s.views[i]? = some rv → rv.firstAttach = decide (i = 0)
  attached : s.attachedOnce = decide (s.views ≠ [])
  slot : ∀ i, s.terminal.slot = some i → i + 1 = s.terminal.views.length
  attaching : ∀ i, s.attaching = some i → i + 1 = s.terminal.views.length
  answered : ∀ (i : Nat) (v : View), s.terminal.views[i]? = some v → v.answer = none →
    s.attaching = some i
  before : ∀ (i j : Nat) (v v' : View), i < j → s.terminal.views[i]? = some v →
    s.terminal.views[j]? = some v' → v.Before v'

/-- What a view lets through is what was parsed, without the replay if it is not the first. -/
structure Lets (v : View) (rv : ReplyView) : Prop where
  parsed_le : rv.parsed ≤ v.writes.length
  done : v.gate.endOffset ≠ none →
    rv.replayDone = (rv.firstAttach || decide (v.replay.length ≤ rv.parsed))
  replies : rv.replies =
    (v.writes.take rv.parsed).drop (if rv.firstAttach then 0 else v.replay.length)

/-- Where the snapshot of a view ends; the end of the stream, as long as there is none. -/
def Replying.snapshotEnd (s : Replying) (v : View) : Nat :=
  v.answer.elim s.terminal.stream.length fun answer => answer.1.toNat

/-- What a view lets through is a piece of the stream, behind the modes if it is the first view.
Nothing but the replay of a later view is withheld. -/
structure Replying.Replied (s : Replying) (i : Nat) (v : View) (rv : ReplyView)
    (span : Nat × Nat) : Prop where
  le : span.1 ≤ span.2
  le_stream : span.2 ≤ s.terminal.stream.length
  origin : i ≠ 0 → span.1 = s.snapshotEnd v
  piece : ∃ modes, rv.replies.flatten = (if i = 0 then decModePreamble modes else []) ++
    (s.terminal.stream.drop span.1).take (span.2 - span.1)
  complete : rv.parsed = v.writes.length →
    v.terminal = (if i = 0 then [] else v.replay.flatten) ++ rv.replies.flatten

namespace RepliesLemmas

open Terminal Pieces

variable {v v' : View} {rv : ReplyView} {t : Terminal} {s : Replying} {a : Terminal.Action}

/-! ### Bytes -/

theorem decode_offset (offset : UInt64) (rest : List UInt8) :
    LittleEndian.decode ((LittleEndian.encode frameHeaderBytes offset.toNat ++ rest).take
      frameHeaderBytes) = offset.toNat := by
  have hfits : offset.toNat < 256 ^ frameHeaderBytes := offset.toNat_lt
  rw [List.take_left' (LittleEndian.length_encode _ _), LittleEndian.decode_encode hfits]

/-- A frame is read back, if its offset is exact. -/
theorem parseFrame_encode (f : Frame) :
    parseFrame f.encode = if f.offset.toNat ≤ maxSafeInteger then some f else none := by
  have hlength : ¬ f.encode.length < frameHeaderBytes := by
    rw [Frame.encode, List.length_append, LittleEndian.length_encode]
    exact Nat.not_lt_of_le (Nat.le_add_right _ _)
  rw [parseFrame, if_neg hlength, Frame.encode, decode_offset]
  dsimp only
  rw [List.drop_left' (LittleEndian.length_encode _ _), UInt64.ofNat_toNat]
  by_cases hsafe : f.offset.toNat ≤ maxSafeInteger
  · rw [if_pos hsafe, if_neg (Nat.not_lt_of_le hsafe)]
  · rw [if_neg hsafe, if_pos (Nat.lt_of_not_le hsafe)]

/-- An answer is read back, if its offset is exact. -/
theorem parseAttachBody_encode (b : AttachBody) : parseAttachBody b.encode =
    if b.endOffset.toNat ≤ maxSafeInteger then some b else none := by
  have hlength : ¬ b.encode.length < attachHeaderBytes := by
    rw [AttachBody.encode, List.length_append, LittleEndian.length_encode, List.length_cons]
    exact Nat.not_lt_of_le (by unfold attachHeaderBytes frameHeaderBytes; omega)
  have hflag : decide (b.encode[frameHeaderBytes]? ≠ some 0) = b.firstAttach := by
    rw [AttachBody.encode, List.getElem?_append_right (by rw [LittleEndian.length_encode]),
      LittleEndian.length_encode, Nat.sub_self, List.getElem?_cons_zero]
    cases b.firstAttach <;> decide
  have hreplay : b.encode.drop attachHeaderBytes = b.replay := by
    rw [AttachBody.encode, List.append_cons]
    exact List.drop_left' (by rw [List.length_append, LittleEndian.length_encode]; rfl)
  rw [parseAttachBody, if_neg hlength]
  dsimp only
  rw [hreplay, hflag, AttachBody.encode, decode_offset, UInt64.ofNat_toNat]
  by_cases hsafe : b.endOffset.toNat ≤ maxSafeInteger
  · rw [if_pos hsafe, if_neg (Nat.not_lt_of_le hsafe)]
  · rw [if_neg hsafe, if_pos (Nat.lt_of_not_le hsafe)]

/-- A frame that crosses as bytes arrives as itself. -/
theorem onChunk_encode {frame : Frame} (h : v.channel[v.arrived]? = some frame) :
    v.onChunk frame.encode = v.arrive := by
  rw [View.onChunk, parseFrame_encode, View.arrive, h]
  dsimp only
  by_cases hsafe : frame.offset.toNat ≤ maxSafeInteger
  · rw [if_pos hsafe, if_pos hsafe]
  · rw [if_neg hsafe, if_neg hsafe]

/-! ### What a step does to the terminal -/

/-- A view is edited at a place where another edit does the same. -/
theorem modify_congr {α : Type} {l : List α} {i : Nat} {f g : α → α}
    (h : ∀ a, l[i]? = some a → f a = g a) : l.modify i f = l.modify i g := by
  apply List.ext_getElem?
  intro j
  rw [List.getElem?_modify, List.getElem?_modify]
  cases ha : l[j]? with
  | none => rfl
  | some a =>
    by_cases hij : i = j
    · subst hij
      simp only [Option.map_eq_map, Option.map_some, if_true, h a ha]
    · simp only [Option.map_eq_map, Option.map_some, if_neg hij]

/-- A frame arrives, or nothing happens. -/
theorem arrive_cases (s : Replying) (view : Nat) : s.arrive view = s ∨
    s.arrive view = { s with terminal := s.terminal.step (.arrive view) } := by
  unfold Replying.arrive
  split
  next v rv hv hrv =>
    split
    next frame hframe =>
      split
      · exact .inl rfl
      · refine .inr ?_
        have hmodify : s.terminal.views.modify view (·.onChunk frame.encode) =
            s.terminal.views.modify view View.arrive := by
          refine modify_congr fun a ha => ?_
          obtain rfl : v = a := Option.some_inj.mp (hv.symm.trans ha)
          exact onChunk_encode hframe
        rw [hmodify]
        rfl
    · exact .inl rfl
  · exact .inl rfl

/-- The answer arrives, or nothing happens. -/
theorem respond_cases (s : Replying) (view : Nat) : s.respond view = s ∨
    ∃ v rv endOffset bytes, s.terminal.views[view]? = some v ∧ s.views[view]? = some rv ∧
      v.answer = some (endOffset, bytes) ∧ v.gate.endOffset = none ∧
      endOffset.toNat ≤ maxSafeInteger ∧
      s.respond view = { s with
        terminal := s.terminal.step (.respond view)
        views := s.views.modify view (·.opened ⟨endOffset, rv.firstAttach, bytes⟩) } := by
  unfold Replying.respond
  split
  next v rv hv hrv =>
    split
    next endOffset bytes hanswer =>
      split
      · exact .inl rfl
      next hopen =>
        rw [parseAttachBody_encode]
        split
        next body hbody =>
          by_cases hsafe : endOffset.toNat ≤ maxSafeInteger
          · rw [if_pos hsafe] at hbody
            obtain rfl := Option.some_inj.mp hbody
            have hclosed : v.gate.endOffset = none := by
              rw [Bool.or_eq_true, not_or] at hopen
              exact Option.not_isSome_iff_eq_none.mp hopen.2
            exact .inr ⟨v, rv, endOffset, bytes, hv, hrv, hanswer, hclosed, hsafe, rfl⟩
          · rw [if_neg hsafe] at hbody
            cases hbody
        · exact .inl rfl
    · exact .inl rfl
  · exact .inl rfl

/-- The run of the terminal alone. -/
theorem reach_terminal (h : Replying.machine.Reach Replying.Start s) :
    Terminal.machine.Reach Terminal.Start s.terminal := by
  refine Machine.Reach.invariant (I := fun s => Terminal.machine.Reach Terminal.Start s.terminal)
    (fun s hs => ?_) (fun s a _ hreach ha => ?_) h
  · obtain ⟨t, ht, rfl⟩ := hs
    exact .init ht
  cases a with
  | session a => exact .step hreach ha.2
  | detach => exact .step (M := Terminal.machine) hreach trivial
  | attach => exact .step (M := Terminal.machine) hreach trivial
  | reattach =>
    show Terminal.machine.Reach Terminal.Start s.reattach.terminal
    unfold Replying.reattach
    split
    · exact .step (M := Terminal.machine) hreach trivial
    · exact hreach
  | arrive view =>
    show Terminal.machine.Reach Terminal.Start (s.arrive view).terminal
    rcases arrive_cases s view with heq | heq
    · rw [heq]
      exact hreach
    · rw [heq]
      exact .step (M := Terminal.machine) hreach trivial
  | respond view =>
    show Terminal.machine.Reach Terminal.Start (s.respond view).terminal
    rcases respond_cases s view with heq | ⟨_, _, _, _, -, -, -, -, -, heq⟩
    · rw [heq]
      exact hreach
    · rw [heq]
      exact .step (M := Terminal.machine) hreach trivial
  | parsed view =>
    show Terminal.machine.Reach Terminal.Start (s.parsed view).terminal
    unfold Replying.parsed
    repeat' split
    all_goals exact hreach
  | dispose view => exact hreach

/-- The session puts frames on the channel in the slot, or empties the slot. -/
theorem views_backend (t : Terminal) (ha : a.ofBackend = true) :
    ((t.step a).slot = t.slot ∨ (t.step a).slot = none) ∧
    ((t.step a).views = t.views ∨ ∃ view frame, t.slot = some view ∧
      (t.step a).views = t.views.modify view fun v =>
        { v with channel := v.channel ++ [frame] }) := by
  cases a with
  | attach | reattach _ | detach | arrive _ | respond _ => cases ha
  | output sends =>
    unfold Terminal.step Terminal.output
    dsimp only
    split
    next offset chunk _ =>
      split
      next view hslot =>
        split
        · exact ⟨.inl rfl, .inr ⟨view, ⟨offset, chunk⟩, hslot, rfl⟩⟩
        · exact ⟨.inr rfl, .inl rfl⟩
      next => exact ⟨.inl rfl, .inl rfl⟩
    next => exact ⟨.inl rfl, .inl rfl⟩
  | check | read _ | interrupted | readEnd | account | rollback | wake | kill =>
    unfold Terminal.step
    dsimp only [Terminal.check, Terminal.read, Terminal.interrupted, Terminal.readEnd,
      Terminal.account, Terminal.rollback, Terminal.wake, Terminal.kill]
    repeat' split
    all_goals exact ⟨.inl rfl, .inl rfl⟩
  | notify =>
    unfold Terminal.step Terminal.notify Terminal.wake
    dsimp only
    split <;> exact ⟨.inl rfl, .inl rfl⟩
  | ack n =>
    obtain ⟨hviews, hslot, -⟩ := AckLemmas.views_ack t n
    exact ⟨.inl hslot, .inl hviews⟩
  | resetFlow | exit | takeRecord => exact ⟨.inl rfl, .inl rfl⟩

/-- What arrives leaves alone where the view began and how it was answered. -/
theorem arrive_keeps (v : View) : v.arrive.start = v.start ∧ v.arrive.answer = v.answer ∧
    v.arrive.gate.endOffset = v.gate.endOffset := by
  unfold View.arrive
  split
  · dsimp only
    split
    · refine ⟨rfl, rfl, ?_⟩
      show (v.gate.push _).1.endOffset = v.gate.endOffset
      unfold AttachGate.push
      split <;> rfl
    · exact ⟨rfl, rfl, rfl⟩
  · exact ⟨rfl, rfl, rfl⟩

theorem respond_keeps (v : View) : v.respond.start = v.start ∧ v.respond.answer = v.answer := by
  unfold View.respond
  repeat' split
  all_goals exact ⟨rfl, rfl⟩

/-- A view is answered once, and that is all that happens to it. -/
theorem answered_keeps (v : View) (endOffset : UInt64) (bytes : List UInt8) :
    (v.answered endOffset bytes).start = v.start ∧
      (v.answered endOffset bytes).gate = v.gate ∧
      (v.answered endOffset bytes).answer = v.answer.or (some (endOffset, bytes)) := by
  unfold View.answered
  split
  next hnone => exact ⟨rfl, rfl, by rw [hnone, Option.none_or]⟩
  next hsome => exact ⟨rfl, rfl, by rw [hsome, Option.some_or]⟩

/-! ### Order -/

/-- The views are where they were, and what may have changed is the channel in the slot. -/
def Edited (t t' : Terminal) : Prop :=
  t'.views.length = t.views.length ∧ (t'.slot = t.slot ∨ t'.slot = none) ∧
    ∀ (i : Nat) (v' : View), t'.views[i]? = some v' → ∃ v, t.views[i]? = some v ∧
      v'.start = v.start ∧ v'.answer = v.answer ∧ (v'.channel = v.channel ∨ t.slot = some i)

theorem edited_of_views {t' : Terminal} (hviews : t'.views = t.views)
    (hslot : t'.slot = t.slot ∨ t'.slot = none) : Edited t t' := by
  refine ⟨congrArg List.length hviews, hslot, fun i v' hv' => ?_⟩
  exact ⟨v', hviews ▸ hv', rfl, rfl, .inl rfl⟩

theorem edited_of_modify {t' : Terminal} {view : Nat} {f : View → View}
    (hviews : t'.views = t.views.modify view f) (hslot : t'.slot = t.slot)
    (hf : ∀ v, (f v).start = v.start ∧ (f v).answer = v.answer ∧
      ((f v).channel = v.channel ∨ t.slot = some view)) : Edited t t' := by
  refine ⟨by rw [hviews, List.length_modify], .inl hslot, fun i v' hv' => ?_⟩
  rw [hviews, List.getElem?_modify] at hv'
  obtain ⟨v, hv, rfl⟩ := Option.map_eq_some_iff.mp hv'
  refine ⟨v, hv, ?_⟩
  split
  next heq =>
    subst heq
    exact hf v
  next => exact ⟨rfl, rfl, .inl rfl⟩

theorem edited_backend (t : Terminal) (ha : a.ofBackend = true) : Edited t (t.step a) := by
  obtain ⟨hslot, hviews | ⟨view, frame, hcurrent, hviews⟩⟩ := views_backend t ha
  · exact edited_of_views hviews hslot
  · refine ⟨by rw [hviews, List.length_modify], hslot, fun i v' hv' => ?_⟩
    rw [hviews, List.getElem?_modify] at hv'
    obtain ⟨v, hv, rfl⟩ := Option.map_eq_some_iff.mp hv'
    refine ⟨v, hv, ?_⟩
    split
    next heq => exact ⟨rfl, rfl, .inr (heq ▸ hcurrent)⟩
    next => exact ⟨rfl, rfl, .inl rfl⟩

theorem edited_arrive (t : Terminal) (view : Nat) : Edited t (t.step (.arrive view)) :=
  edited_of_modify rfl rfl fun v =>
    ⟨(arrive_keeps v).1, (arrive_keeps v).2.1, .inl (AckLemmas.channel_arrive v)⟩

theorem edited_respond (t : Terminal) (view : Nat) : Edited t (t.step (.respond view)) :=
  edited_of_modify rfl rfl fun v =>
    ⟨(respond_keeps v).1, (respond_keeps v).2, .inl (AckLemmas.channel_respond v)⟩

theorem OrderInv.edit {s' : Replying} (h : s.OrderInv) (hterminal : Edited s.terminal s'.terminal)
    (hfirst : s'.views.map ReplyView.firstAttach = s.views.map ReplyView.firstAttach)
    (honce : s'.attachedOnce = s.attachedOnce) (hattaching : s'.attaching = s.attaching) :
    s'.OrderInv := by
  obtain ⟨hlength, hslot, hviews⟩ := hterminal
  refine ⟨fun i rv hrv => ?_, ?_, fun i hi => ?_, fun i hi => ?_, fun i v' hv' hnone => ?_,
    fun i j v v' hij hv hv' => ?_⟩
  · have hflag : (s.views.map ReplyView.firstAttach)[i]? = some rv.firstAttach := by
      rw [← hfirst, List.getElem?_map, hrv, Option.map_some]
    rw [List.getElem?_map] at hflag
    obtain ⟨old, hold, hsame⟩ := Option.map_eq_some_iff.mp hflag
    rw [← hsame]
    exact h.first i old hold
  · have hnil : s'.views = [] ↔ s.views = [] := by
      rw [← List.map_eq_nil_iff (f := ReplyView.firstAttach), hfirst, List.map_eq_nil_iff]
    rw [honce, h.attached]
    exact decide_eq_decide.mpr (not_congr hnil.symm)
  · rw [hlength]
    rcases hslot with hsame | hnone
    · exact h.slot i (hsame ▸ hi)
    · rw [hnone] at hi
      cases hi
  · rw [hlength]
    exact h.attaching i (hattaching ▸ hi)
  · obtain ⟨v, hv, -, hanswer, -⟩ := hviews i v' hv'
    rw [hattaching]
    exact h.answered i v hv (hanswer ▸ hnone)
  · obtain ⟨w, hw, hstart, hanswer, hchannel⟩ := hviews i v hv
    obtain ⟨w', hw', hstart', hanswer', -⟩ := hviews j v' hv'
    have hbefore := h.before i j w w' hij hw hw'
    have hlast : s.terminal.slot ≠ some i := by
      intro hcurrent
      have hi := h.slot i hcurrent
      have hj := (List.getElem?_eq_some_iff.mp hw').1
      omega
    refine ⟨?_, ?_⟩
    · rw [hstart, hchannel.resolve_right hlast, hstart']
      exact hbefore.channel
    · rw [hanswer, hanswer']
      exact hbefore.answer

/-- What is behind a list that got one element more. -/
theorem concat_cases {α : Type} {l : List α} {a b : α} {i : Nat} (h : (l ++ [a])[i]? = some b) :
    l[i]? = some b ∨ i = l.length ∧ b = a := by
  rw [List.getElem?_append] at h
  split at h
  next => exact .inl h
  next hge =>
    obtain ⟨hi, rfl⟩ := List.getElem?_eq_some_iff.mp h
    have hzero : i - l.length = 0 := Nat.lt_one_iff.mp hi
    refine .inr ⟨Nat.le_antisymm (Nat.le_of_sub_eq_zero hzero) (Nat.le_of_not_lt hge), ?_⟩
    exact List.getElem_singleton hi

/-- A new view begins where the channels of the others end. -/
theorem OrderInv.attach (hviews : s.terminal.ViewsInv) (h : s.OrderInv)
    (hidle : s.attaching = none) : s.attach.OrderInv := by
  have hlast : s.terminal.views.length + 1 =
      (s.terminal.views ++ [View.attached s.terminal.cursor]).length := by
    rw [List.length_append]
    rfl
  refine ⟨fun i rv hrv => ?_, ?_, fun i hi => ?_, fun i hi => ?_, fun i v hv hnone => ?_,
    fun i j v v' hij hv hv' => ?_⟩
  · rcases concat_cases hrv with hold | ⟨hi, hnew⟩
    · exact h.first i rv hold
    · rw [hnew, hi, ReplyView.attached, h.attached]
      simp [List.length_eq_zero_iff]
  · exact (decide_eq_true (List.append_ne_nil_of_right_ne_nil _ (List.cons_ne_nil _ _))).symm
  · rw [← Option.some_inj.mp hi]
    exact hlast
  · rw [← Option.some_inj.mp hi]
    exact hlast
  · rcases concat_cases hv with hold | ⟨hi, -⟩
    · have hattaching := h.answered i v hold hnone
      rw [hidle] at hattaching
      cases hattaching
    · exact congrArg some hi.symm
  · rcases concat_cases hv' with hold' | ⟨hj, hnew⟩
    · have hlt := hij.trans (List.getElem?_eq_some_iff.mp hold').1
      rcases concat_cases hv with hold | ⟨hi, -⟩
      · exact h.before i j v v' hij hold hold'
      · exact absurd hi (Nat.ne_of_lt hlt)
    · rcases concat_cases hv with hold | ⟨hi, -⟩
      · subst hnew
        exact ⟨(hviews.views i v hold).sent_le, fun _ _ _ _ _ heq => by cases heq⟩
      · exact absurd (hi.trans hj.symm) (Nat.ne_of_lt hij)

/-- The answer covers what was accounted, and no earlier answer covers more. -/
theorem OrderInv.reattach (hstream : s.terminal.StreamInv) (hviews : s.terminal.ViewsInv)
    (h : s.OrderInv) : s.reattach.OrderInv := by
  unfold Replying.reattach
  split
  next view hview =>
    -- the view between the halves is the last one
    have hlast := h.attaching view hview
    have hlength : (s.terminal.step (.reattach view)).views.length = s.terminal.views.length :=
      List.length_modify _ _ _
    have hold : ∀ (i : Nat) (v' : View), (s.terminal.step (.reattach view)).views[i]? = some v' →
        ∃ v, s.terminal.views[i]? = some v ∧ v' = if view = i then
          v.answered s.terminal.inner.bytesOut s.terminal.inner.screenBytes else v := by
      intro i v' hv'
      obtain ⟨v, hv, rfl⟩ := Option.map_eq_some_iff.mp ((List.getElem?_modify ..).symm.trans hv')
      exact ⟨v, hv, rfl⟩
    refine ⟨h.first, h.attached, fun i hi => hlength ▸ h.slot i hi, fun i hi => (by cases hi),
      fun i v' hv' hnone => ?_, fun i j w w' hij hw hw' => ?_⟩
    · obtain ⟨v, hv, rfl⟩ := hold i v' hv'
      split at hnone
      · rw [(answered_keeps v _ _).2.2] at hnone
        cases hanswer : v.answer <;> rw [hanswer] at hnone <;> cases hnone
      next hne => exact absurd (Option.some_inj.mp (hview.symm.trans (h.answered i v hv hnone))) hne
    · obtain ⟨v, hv, rfl⟩ := hold i w hw
      obtain ⟨v', hv', rfl⟩ := hold j w' hw'
      have hbefore := h.before i j v v' hij hv hv'
      have hj := (List.getElem?_eq_some_iff.mp hv').1
      rw [if_neg (by omega : ¬ view = i)]
      split
      · refine ⟨(answered_keeps v' _ _).1 ▸ hbefore.channel, ?_⟩
        intro endOffset bytes endOffset' bytes' hanswer hanswer'
        rw [(answered_keeps v' _ _).2.2] at hanswer'
        cases hnew : v'.answer with
        | some old =>
          rw [hnew, Option.some_or] at hanswer'
          exact hbefore.answer _ _ _ _ hanswer (hnew.trans hanswer')
        | none =>
          rw [hnew, Option.none_or] at hanswer'
          cases hanswer'
          obtain ⟨m, -, -, -, -, hoffset, -⟩ := (hviews.views i v hv).answer _ _ hanswer
          rw [UInt64.le_iff_toNat_le, hoffset, hstream.bytesOut]
          exact offsetAt_le _ _
      next => exact hbefore
  next => exact h

/-- The flags of the views are not touched by an edit that keeps each of them. -/
theorem map_modify_first {view : Nat} {f : ReplyView → ReplyView}
    (hf : ∀ rv, (f rv).firstAttach = rv.firstAttach) (views : List ReplyView) :
    (views.modify view f).map ReplyView.firstAttach = views.map ReplyView.firstAttach :=
  ListEdit.map_modify f _ fun rv _ => hf rv

theorem OrderInv.step (hreach : Replying.machine.Reach Replying.Start s) (h : s.OrderInv)
    {a : Replying.Step} (ha : Replying.machine.admits s a) : (s.step a).OrderInv := by
  have hterminal := reach_terminal hreach
  have hviews := AttachLemmas.viewsInv_of_reach hterminal
  cases a with
  | session a => exact OrderInv.edit h (edited_backend s.terminal ha.1) rfl rfl rfl
  | detach => exact OrderInv.edit h (edited_of_views rfl (.inr rfl)) rfl rfl rfl
  | attach => exact OrderInv.attach hviews h ha
  | reattach => exact OrderInv.reattach (StreamLemmas.streamInv_of_reach hterminal) hviews h
  | arrive view =>
    rw [Replying.step]
    rcases arrive_cases s view with heq | heq
    · rw [heq]
      exact h
    · rw [heq]
      exact OrderInv.edit h (edited_arrive _ _) rfl rfl rfl
  | respond view =>
    rw [Replying.step]
    rcases respond_cases s view with heq | ⟨_, _, _, _, -, -, -, -, -, heq⟩
    · rw [heq]
      exact h
    · rw [heq]
      refine OrderInv.edit h (edited_respond _ _) ?_ rfl rfl
      refine map_modify_first ?_ _
      exact fun _ => rfl
  | parsed view =>
    rw [Replying.step, Replying.parsed]
    repeat' split
    case isFalse =>
      refine OrderInv.edit h (edited_of_views rfl (.inl rfl)) ?_ rfl rfl
      refine map_modify_first ?_ _
      exact fun _ => rfl
    all_goals exact h
  | dispose view =>
    refine OrderInv.edit h (edited_of_views rfl (.inl rfl)) ?_ rfl rfl
    refine map_modify_first ?_ _
    exact fun _ => rfl

theorem orderInv_of_reach (h : Replying.machine.Reach Replying.Start s) : s.OrderInv := by
  refine Machine.Reach.invariant (I := Replying.OrderInv) (fun s hs => ?_)
    (fun s a hreach hinv ha => OrderInv.step hreach hinv ha) h
  obtain ⟨t, ⟨replayCap, highWater, lowWater, hmarks, rfl⟩, rfl⟩ := hs
  exact ⟨by simp, rfl, by simp [Terminal.new], by simp, by simp [Terminal.new],
    by simp [Terminal.new]⟩

/-! ### What a view lets through -/

/-- The replay is written as one. -/
theorem length_replay_le (v : View) : v.replay.length ≤ 1 := by
  unfold View.replay
  split
  · split
    · exact Nat.zero_le _
    · exact Nat.le_refl _
  · exact Nat.zero_le _

theorem replay_congr (hend : v'.gate.endOffset = v.gate.endOffset)
    (hanswer : v'.answer = v.answer) : v'.replay = v.replay := by
  rw [View.replay, hend, hanswer, View.replay]

theorem replay_closed (h : v.gate.endOffset = none) : v.replay = [] := by
  rw [View.replay, h]

/-- More is delivered behind a gate that stays as it is. -/
theorem Lets.extends (h : Lets v rv) (rest : List (List UInt8))
    (hend : v'.gate.endOffset = v.gate.endOffset) (hreplay : v'.replay = v.replay)
    (hdelivered : v'.delivered = v.delivered ++ rest) : Lets v' rv := by
  have hwrites : v'.writes = v.writes ++ rest.filter (· ≠ []) := by
    rw [View.writes, hreplay, hdelivered, List.filter_append, ← List.append_assoc, View.writes]
  refine ⟨?_, fun hopen => ?_, ?_⟩
  · rw [hwrites, List.length_append]
    exact h.parsed_le.trans (Nat.le_add_right _ _)
  · rw [hreplay]
    exact h.done (hend ▸ hopen)
  · rw [hwrites, hreplay, List.take_append_of_le_length h.parsed_le]
    exact h.replies

theorem Lets.arrive (h : Lets v rv) : Lets v.arrive rv := by
  obtain ⟨-, hanswer, hend⟩ := arrive_keeps v
  obtain ⟨⟨rest, hdelivered⟩, -⟩ := AckLemmas.extends_arrive v
  exact Lets.extends h rest hend (replay_congr hend hanswer) hdelivered

theorem Lets.answered (hgate : v.GateInv) (h : Lets v rv) (endOffset : UInt64)
    (bytes : List UInt8) : Lets (v.answered endOffset bytes) rv := by
  obtain ⟨-, hend, hanswer⟩ := answered_keeps v endOffset bytes
  obtain ⟨-, hdelivered, -⟩ := AckLemmas.answered_frame v endOffset bytes
  have hend := congrArg AttachGate.endOffset hend
  refine Lets.extends h [] hend ?_ (hdelivered.trans (List.append_nil _).symm)
  cases hopen : v.gate.endOffset with
  | none => rw [replay_closed hopen, replay_closed (hend.trans hopen)]
  | some e =>
    unfold View.GateInv at hgate
    rw [hopen] at hgate
    obtain ⟨-, -, answer, bytes', hsome, -⟩ := hgate
    exact replay_congr hend (by rw [hanswer, hsome, Option.some_or])

/-- The gate opens: nothing was written before. -/
theorem Lets.respond (hgate : v.GateInv) (h : Lets v rv) {endOffset : UInt64}
    {bytes : List UInt8} (hanswer : v.answer = some (endOffset, bytes))
    (hclosed : v.gate.endOffset = none) (hsafe : endOffset.toNat ≤ maxSafeInteger) :
    Lets v.respond (rv.opened ⟨endOffset, rv.firstAttach, bytes⟩) := by
  have hnone : v.writes = [] := by
    unfold View.GateInv at hgate
    rw [hclosed] at hgate
    rw [View.writes, replay_closed hclosed, hgate.2.2.1]
    rfl
  have hparsed : rv.parsed = 0 := by
    have hle := h.parsed_le
    rw [hnone] at hle
    exact Nat.le_zero.mp hle
  have hreplies : rv.replies = [] := by
    rw [h.replies, hnone, List.take_nil, List.drop_nil]
  have hopen : v.respond.gate.endOffset = some endOffset.toNat := by
    rw [View.respond, hanswer]
    dsimp only
    rw [if_pos hsafe, AttachGate.onSnapshot, hclosed]
    rfl
  have hreplay : v.respond.replay = if bytes = [] then [] else [bytes] := by
    rw [View.replay, hopen, (respond_keeps v).2, hanswer]
  refine ⟨?_, fun _ => ?_, ?_⟩
  · show rv.parsed ≤ _
    rw [hparsed]
    exact Nat.zero_le _
  · show (rv.firstAttach || decide (bytes = [])) = (rv.firstAttach || decide (_ ≤ rv.parsed))
    rw [hreplay, hparsed]
    split <;> simp [*]
  · show rv.replies = (_ : List (List UInt8)).drop _
    rw [hreplies]
    show [] = (v.respond.writes.take rv.parsed).drop _
    rw [hparsed, List.take_zero, List.drop_nil]

/-- A write is parsed: it is let through if the replay is, or is done. -/
theorem Lets.parse (hgate : v.GateInv) (h : Lets v rv) {bytes : List UInt8}
    (hbytes : v.writes[rv.parsed]? = some bytes) :
    Lets v (rv.parse (rv.parsed < v.replay.length) bytes) := by
  have hopen : v.gate.endOffset ≠ none := by
    intro hclosed
    unfold View.GateInv at hgate
    rw [hclosed] at hgate
    rw [View.writes, replay_closed hclosed, hgate.2.2.1] at hbytes
    cases hbytes
  have hlt := (List.getElem?_eq_some_iff.mp hbytes).1
  have hone := length_replay_le v
  have htake : v.writes.take (rv.parsed + 1) = v.writes.take rv.parsed ++ [bytes] := by
    rw [List.take_add_one, hbytes, Option.toList_some]
  have hlength : (v.writes.take rv.parsed).length = rv.parsed :=
    List.length_take_of_le h.parsed_le
  have hdone := h.done hopen
  refine ⟨hlt, fun _ => ?_, ?_⟩
  · show (rv.replayDone || decide (rv.parsed < v.replay.length)) =
      (rv.firstAttach || decide (v.replay.length ≤ rv.parsed + 1))
    have hall : v.replay.length ≤ rv.parsed + 1 := hone.trans (Nat.le_add_left _ _)
    rw [hdone, decide_eq_true hall, Bool.or_true]
    rcases Nat.lt_or_ge rv.parsed v.replay.length with hreplay | hbehind
    · rw [decide_eq_true hreplay, Bool.or_true]
    · rw [decide_eq_true hbehind, Bool.or_true, Bool.true_or]
  · show (if rv.replayDone then rv.replies ++ [bytes] else rv.replies) =
      (v.writes.take (rv.parsed + 1)).drop (if rv.firstAttach then 0 else v.replay.length)
    rw [hdone, h.replies, htake]
    cases rv.firstAttach with
    | true => rfl
    | false =>
      rw [Bool.false_or, if_neg Bool.false_ne_true]
      by_cases hbehind : v.replay.length ≤ rv.parsed
      · rw [decide_eq_true hbehind, if_pos rfl, List.drop_append_of_le_length]
        rw [hlength]
        exact hbehind
      · -- the replay itself is parsed, and is all that was written so far
        have hreplay := Nat.lt_of_not_le hbehind
        rw [decide_eq_false hbehind, if_neg Bool.false_ne_true]
        rw [List.drop_of_length_le (hlength.trans_le hreplay.le), List.drop_of_length_le]
        rw [List.length_append, hlength]
        exact hreplay

/-! ### Every view -/

/-- An edit of one view. -/
theorem forall_edit {views : List View} {rviews : List ReplyView} {view : Nat} {f : View → View}
    (h : List.Forall₂ Lets views rviews)
    (hf : ∀ v rv, views[view]? = some v → Lets v rv → Lets (f v) rv) :
    List.Forall₂ Lets (views.modify view f) rviews := by
  have hmodify := Paired.modify (i := view) (f := f) (g := id) h fun v rv hv _ hlets =>
    hf v rv hv hlets
  rwa [List.modify_id] at hmodify

theorem lets_step (hreach : Replying.machine.Reach Replying.Start s)
    (h : List.Forall₂ Lets s.terminal.views s.views) {a : Replying.Step}
    (ha : Replying.machine.admits s a) :
    List.Forall₂ Lets (s.step a).terminal.views (s.step a).views := by
  have hviews := AttachLemmas.viewsInv_of_reach (reach_terminal hreach)
  cases a with
  | session a =>
    obtain ⟨-, heq | ⟨view, frame, -, heq⟩⟩ := views_backend s.terminal ha.1
    · rw [Replying.step, heq]
      exact h
    · rw [Replying.step, heq]
      exact forall_edit h fun v rv _ hlets =>
        Lets.extends hlets [] rfl rfl (List.append_nil _).symm
  | detach => exact h
  | attach =>
    refine List.rel_append h (.cons ⟨Nat.zero_le _, fun hopen => ?_, List.drop_nil.symm⟩ .nil)
    exact absurd rfl hopen
  | reattach =>
    rw [Replying.step, Replying.reattach]
    split
    next view _ =>
      exact forall_edit h fun v rv hv hlets =>
        Lets.answered (hviews.views view v hv).gate hlets _ _
    next => exact h
  | arrive view =>
    rw [Replying.step]
    rcases arrive_cases s view with heq | heq
    · rw [heq]
      exact h
    · rw [heq]
      exact forall_edit h fun v rv _ hlets => Lets.arrive hlets
  | respond view =>
    rw [Replying.step]
    rcases respond_cases s view with
      heq | ⟨v, rv, endOffset, bytes, hv, hrv, hanswer, hclosed, hsafe, heq⟩
    · rw [heq]
      exact h
    · rw [heq]
      refine Paired.modify h fun v' rv' hv' hrv' hlets => ?_
      obtain rfl := Option.some_inj.mp (hv.symm.trans hv')
      obtain rfl := Option.some_inj.mp (hrv.symm.trans hrv')
      exact Lets.respond (hviews.views view v hv).gate hlets hanswer hclosed hsafe
  | parsed view =>
    rw [Replying.step, Replying.parsed]
    split
    next v rv hv hrv =>
      split
      next bytes hbytes =>
        split
        · exact h
        · have hmodify := Paired.modify (i := view) (f := id)
            (g := (·.parse (rv.parsed < v.replay.length) bytes)) h
            fun v' rv' hv' hrv' hlets => ?_
          · rwa [List.modify_id] at hmodify
          obtain rfl := Option.some_inj.mp (hv.symm.trans hv')
          obtain rfl := Option.some_inj.mp (hrv.symm.trans hrv')
          exact Lets.parse (hviews.views view v hv).gate hlets hbytes
      · exact h
    · exact h
  | dispose view =>
    have hmodify := Paired.modify (i := view) (f := id)
      (g := fun rv : ReplyView => { rv with disposed := true }) h fun v rv _ _ hlets =>
      (⟨hlets.parsed_le, hlets.done, hlets.replies⟩ : Lets v { rv with disposed := true })
    rwa [List.modify_id] at hmodify

theorem lets_of_reach (h : Replying.machine.Reach Replying.Start s) :
    List.Forall₂ Lets s.terminal.views s.views := by
  refine Machine.Reach.invariant (I := fun s => List.Forall₂ Lets s.terminal.views s.views)
    (fun s hs => ?_) (fun s a hreach hinv ha => lets_step hreach hinv ha) h
  obtain ⟨t, ⟨replayCap, highWater, lowWater, hmarks, rfl⟩, rfl⟩ := hs
  exact .nil

/-! ### Pieces of the stream -/

/-- What is delivered behind an open gate, and where its snapshot ends. -/
theorem delivered_run (hstream : t.StreamInv) {view endOffset : Nat} (h : t.ViewInv view v)
    (hopen : v.gate.endOffset = some endOffset) : ∃ m n modes snapshot answered,
      v.answer = some (answered, decModePreamble modes ++ snapshot) ∧ answered.toNat = endOffset ∧
      endOffset = offsetAt t.chunks m ∧ v.delivered = (t.chunks.drop m).take n ∧
      (n = 0 ∨ m + n ≤ v.start + v.channel.length) ∧ snapshot <:+ (t.chunks.take m).flatten := by
  have hgate := h.gate
  unfold View.GateInv at hgate
  rw [hopen] at hgate
  obtain ⟨-, hresult, answered, bytes, hanswer, hanswered, -⟩ := hgate
  obtain ⟨m, modes, snapshot, hstart, hm, hoffset, rfl, hsuffix⟩ := h.answer _ _ hanswer
  have hreceived : v.received.length ≤ v.channel.length := h.received_le.trans h.arrived_le
  have hbound : v.start + v.received.length ≤ t.chunks.length :=
    (Nat.add_le_add_left hreceived _).trans (h.sent_le.trans (AttachLemmas.cursor_le t))
  refine ⟨m, v.start + v.received.length - m, modes, snapshot, answered, hanswer, hanswered,
    hanswered.symm.trans hoffset, ?_, ?_, hsuffix⟩
  · rw [← AttachLemmas.deliver_eq hstream hstart hm hbound, ← (AttachLemmas.received_eq h).1,
      ← hoffset, hanswered, ← hresult]
  · rcases Nat.le_total (v.start + v.received.length) m with hnone | hsome
    · exact .inl (Nat.sub_eq_zero_of_le hnone)
    · refine .inr ?_
      rw [Nat.add_sub_cancel' hsome]
      exact Nat.add_le_add_left hreceived _

/-- No chunk is empty, so all that is delivered is written. -/
theorem writes_run (hstream : t.StreamInv) {m n : Nat}
    (hdelivered : v.delivered = (t.chunks.drop m).take n) : v.writes = v.replay ++ v.delivered := by
  have hall : v.delivered.filter (· ≠ []) = v.delivered := by
    refine List.filter_eq_self.mpr fun chunk hchunk => decide_eq_true (hstream.nonempty chunk ?_)
    rw [hdelivered] at hchunk
    exact List.mem_of_mem_drop (List.mem_of_mem_take hchunk)
  rw [View.writes, hall]

/-- The replay is the answer. -/
theorem flatten_replay {endOffset : Nat} {answered : UInt64} {bytes : List UInt8}
    (hopen : v.gate.endOffset = some endOffset) (hanswer : v.answer = some (answered, bytes)) :
    v.replay.flatten = bytes := by
  rw [View.replay, hopen, hanswer]
  dsimp only
  split
  next hnil => exact hnil.symm
  next => exact List.flatten_singleton

/-- The terminal shows what is written to it. -/
theorem flatten_writes (hstream : t.StreamInv) {view : Nat} (h : t.ViewInv view v) :
    v.writes.flatten = v.terminal := by
  have hgate := h.gate
  unfold View.GateInv at hgate
  cases hopen : v.gate.endOffset with
  | none =>
    rw [hopen] at hgate
    obtain ⟨-, hterminal, hdelivered, -⟩ := hgate
    rw [View.writes, replay_closed hopen, hdelivered, hterminal]
    rfl
  | some endOffset =>
    rw [hopen] at hgate
    obtain ⟨-, -, answered, bytes, hanswer, -, hterminal⟩ := hgate
    obtain ⟨m, n, -, -, -, -, -, -, hdelivered, -⟩ := delivered_run hstream h hopen
    rw [writes_run hstream hdelivered, List.flatten_append, flatten_replay hopen hanswer, hterminal]

/-- Writes behind the replay are a piece from the end of the snapshot on. -/
theorem piece_run {m n q bound : Nat}
    (hdelivered : v.delivered = (t.chunks.drop m).take n) (hn : n = 0 ∨ m + n ≤ bound) :
    ∃ hi, offsetAt t.chunks m ≤ hi ∧ hi ≤ t.stream.length ∧
      hi ≤ max (offsetAt t.chunks m) (offsetAt t.chunks bound) ∧
      (v.delivered.take q).flatten =
        (t.stream.drop (offsetAt t.chunks m)).take (hi - offsetAt t.chunks m) := by
  refine ⟨offsetAt t.chunks (m + min q n), offsetAt_mono (Nat.le_add_right _ _), offsetAt_le _ _,
    ?_, ?_⟩
  · rcases hn with rfl | hle
    · rw [Nat.min_zero]
      exact Nat.le_max_left _ _
    · have hmin : m + min q n ≤ bound := (Nat.add_le_add_left (Nat.min_le_right q n) m).trans hle
      exact (offsetAt_mono hmin).trans (Nat.le_max_right _ _)
  · rw [hdelivered, List.take_take]
    exact flatten_run t.chunks m (min q n)

/-- A snapshot together with what follows it. -/
theorem snapshot_run {m hi : Nat} {pre snapshot : List UInt8}
    (hpre : pre ++ snapshot = (t.chunks.take m).flatten) (hhi : offsetAt t.chunks m ≤ hi) :
    (t.stream.drop pre.length).take (hi - pre.length) =
      snapshot ++ (t.stream.drop (offsetAt t.chunks m)).take (hi - offsetAt t.chunks m) := by
  have hlength : offsetAt t.chunks m = pre.length + snapshot.length := by
    rw [offsetAt, ← hpre, List.length_append]
  have hstream : t.stream = pre ++ (snapshot ++ (t.chunks.drop m).flatten) := by
    rw [← List.append_assoc, hpre, ← List.flatten_append, List.take_append_drop, stream]
  have hcount : hi - pre.length = snapshot.length + (hi - offsetAt t.chunks m) := by
    rw [hlength] at hhi ⊢
    omega
  rw [hcount, List.take_add, hlength, ← List.drop_drop, hstream, List.drop_left, List.take_left,
    List.drop_left]

theorem snapshotEnd_le {i : Nat} (h : s.terminal.ViewInv i v) :
    s.snapshotEnd v ≤ s.terminal.stream.length := by
  unfold Replying.snapshotEnd
  cases hanswer : v.answer with
  | none => exact Nat.le_refl _
  | some answer =>
    obtain ⟨m, -, -, -, -, hoffset, -⟩ := h.answer _ _ hanswer
    exact hoffset.trans_le (offsetAt_le _ _)

/-- Before its gate opens a view lets nothing through. -/
theorem replied_closed {i : Nat} (h : s.terminal.ViewInv i v)
    (hlets : Lets v rv) (hclosed : v.gate.endOffset = none) :
    s.Replied i v rv (s.snapshotEnd v, s.snapshotEnd v) := by
  have hgate := h.gate
  unfold View.GateInv at hgate
  rw [hclosed] at hgate
  obtain ⟨-, hterminal, hdelivered, -⟩ := hgate
  have hreplay := replay_closed hclosed
  have hreplies : rv.replies = [] := by
    rw [hlets.replies, View.writes, hreplay, hdelivered]
    simp
  refine ⟨Nat.le_refl _, snapshotEnd_le h, fun _ => rfl, ⟨.empty, ?_⟩, fun _ => ?_⟩
  · rw [hreplies, Nat.sub_self, List.take_zero]
    split <;> rfl
  · rw [hterminal, hreplay, hreplies]
    split <;> rfl

/-- The first view: its replay counts. -/
theorem replied_first (hstream : s.terminal.StreamInv) (h : s.terminal.ViewInv 0 v)
    (hlets : Lets v rv) (hfirst : rv.firstAttach = true) {endOffset : Nat}
    (hopen : v.gate.endOffset = some endOffset) : ∃ span, s.Replied 0 v rv span ∧
      span.2 ≤ max (s.snapshotEnd v)
        (offsetAt s.terminal.chunks (v.start + v.channel.length)) := by
  obtain ⟨m, n, modes, snapshot, answered, hanswer, hanswered, hoffset, hdelivered, hn,
    pre, hpre⟩ := delivered_run hstream h hopen
  have hwrites := writes_run hstream hdelivered
  have hend : s.snapshotEnd v = offsetAt s.terminal.chunks m := by
    rw [Replying.snapshotEnd, hanswer, Option.elim_some, hanswered, hoffset]
  have hreplies : rv.replies = v.writes.take rv.parsed := by
    rw [hlets.replies, hfirst, if_pos rfl, List.drop_zero]
  have hcomplete : rv.parsed = v.writes.length → v.terminal = [] ++ rv.replies.flatten := by
    intro hall
    rw [hreplies, hall, List.take_length, flatten_writes hstream h, List.nil_append]
  rcases Nat.lt_or_ge rv.parsed v.replay.length with hearly | hlate
  · -- nothing is parsed yet
    have hzero : rv.parsed = 0 := Nat.lt_one_iff.mp (hearly.trans_le (length_replay_le v))
    rw [hzero, List.take_zero] at hreplies
    refine ⟨(s.snapshotEnd v, s.snapshotEnd v),
      ⟨Nat.le_refl _, hend ▸ offsetAt_le _ _, fun _ => rfl, ⟨.empty, ?_⟩, hcomplete⟩,
      Nat.le_max_left _ _⟩
    rw [hreplies, Nat.sub_self, List.take_zero]
    rfl
  · obtain ⟨hi, hle, hstream', hbound, hpiece⟩ :=
      piece_run (q := rv.parsed - v.replay.length) hdelivered hn
    have hlength : pre.length ≤ offsetAt s.terminal.chunks m := by
      rw [offsetAt, ← hpre, List.length_append]
      exact Nat.le_add_right _ _
    refine ⟨(pre.length, hi),
      ⟨hlength.trans hle, hstream', fun hne => absurd rfl hne, ⟨modes, ?_⟩, hcomplete⟩,
      hend ▸ hbound⟩
    rw [if_pos rfl, snapshot_run hpre hle, ← hpiece, hreplies, hwrites, List.take_append,
      List.take_of_length_le hlate, List.flatten_append, flatten_replay hopen hanswer,
      List.append_assoc]

/-- A later view: its replay does not. -/
theorem replied_later (hstream : s.terminal.StreamInv) {i : Nat} (h : s.terminal.ViewInv i v)
    (hlets : Lets v rv) (hi : i ≠ 0) (hlater : rv.firstAttach = false) {endOffset : Nat}
    (hopen : v.gate.endOffset = some endOffset) : ∃ span, s.Replied i v rv span ∧
      span.2 ≤ max (s.snapshotEnd v)
        (offsetAt s.terminal.chunks (v.start + v.channel.length)) := by
  obtain ⟨m, n, modes, snapshot, answered, hanswer, hanswered, hoffset, hdelivered, hn, -⟩ :=
    delivered_run hstream h hopen
  have hwrites := writes_run hstream hdelivered
  have hend : s.snapshotEnd v = offsetAt s.terminal.chunks m := by
    rw [Replying.snapshotEnd, hanswer, Option.elim_some, hanswered, hoffset]
  have hreplies : rv.replies = v.delivered.take (rv.parsed - v.replay.length) := by
    rw [hlets.replies, hlater, if_neg Bool.false_ne_true, List.drop_take, hwrites, List.drop_left]
  obtain ⟨hi', hle, hstream', hbound, hpiece⟩ :=
    piece_run (q := rv.parsed - v.replay.length) hdelivered hn
  refine ⟨(s.snapshotEnd v, hi'),
    ⟨hend ▸ hle, hstream', fun _ => rfl, ⟨.empty, ?_⟩, fun hall => ?_⟩, hend ▸ hbound⟩
  · rw [if_neg hi, List.nil_append, hreplies, hpiece, hend]
  · rw [if_neg hi, hreplies, hall, hwrites, List.length_append, Nat.add_sub_cancel_left,
      List.take_length, ← List.flatten_append, ← hwrites, flatten_writes hstream h]

/-- The views one by one. -/
theorem exists_replied (h : Replying.machine.Reach Replying.Start s) {i : Nat}
    (hv : s.terminal.views[i]? = some v) (hrv : s.views[i]? = some rv) :
    ∃ span, s.Replied i v rv span ∧ span.2 ≤ max (s.snapshotEnd v)
      (offsetAt s.terminal.chunks (v.start + v.channel.length)) := by
  have hterminal := reach_terminal h
  have hstream := StreamLemmas.streamInv_of_reach hterminal
  have hview := (AttachLemmas.viewsInv_of_reach hterminal).views i v hv
  have hlets := Paired.get (lets_of_reach h) hv hrv
  have hfirst := (orderInv_of_reach h).first i rv hrv
  cases hopen : v.gate.endOffset with
  | none => exact ⟨_, replied_closed hview hlets hopen, Nat.le_max_left _ _⟩
  | some endOffset =>
    by_cases hi : i = 0
    · subst hi
      exact replied_first hstream hview hlets hfirst hopen
    · exact replied_later hstream hview hlets hi (hfirst.trans (decide_eq_false hi)) hopen

/-- What an earlier view has seen is over when a later one begins. -/
theorem seen_before (h : Replying.machine.Reach Replying.Start s) {i j : Nat} (hij : i < j)
    (hv : s.terminal.views[i]? = some v) (hv' : s.terminal.views[j]? = some v') :
    max (s.snapshotEnd v) (offsetAt s.terminal.chunks (v.start + v.channel.length)) ≤
      s.snapshotEnd v' := by
  have hterminal := reach_terminal h
  have hviews := AttachLemmas.viewsInv_of_reach hterminal
  have horder := orderInv_of_reach h
  have hbefore := horder.before i j v v' hij hv hv'
  have hj := (List.getElem?_eq_some_iff.mp hv').1
  cases hanswer' : v'.answer with
  | none =>
    have hend' : s.snapshotEnd v' = s.terminal.stream.length := by
      rw [Replying.snapshotEnd, hanswer']
      rfl
    rw [hend']
    exact Nat.max_le.mpr ⟨snapshotEnd_le (hviews.views i v hv), offsetAt_le _ _⟩
  | some answer' =>
    obtain ⟨m, -, -, hstart, -, hoffset, -⟩ := (hviews.views j v' hv').answer _ _ hanswer'
    have hend' : s.snapshotEnd v' = answer'.1.toNat := by
      rw [Replying.snapshotEnd, hanswer']
      rfl
    refine Nat.max_le.mpr ⟨?_, ?_⟩
    · cases hanswer : v.answer with
      | none =>
        -- only the last view waits for its answer
        have hlast := horder.attaching i (horder.answered i v hv hanswer)
        omega
      | some answer =>
        have hle := hbefore.answer _ _ _ _ hanswer hanswer'
        rw [hend', Replying.snapshotEnd, hanswer]
        exact UInt64.le_iff_toNat_le.mp hle
    · rw [hend', hoffset]
      exact offsetAt_mono (hbefore.channel.trans hstart)

end RepliesLemmas

open RepliesLemmas Pieces in
/-- In every run: what the views of a terminal let through are pieces of the stream that lie one
behind the other, so no query is answered twice. -/
theorem replied_once {s : Replying} (h : Replying.machine.Reach Replying.Start s) :
    ∃ span : Nat → Nat × Nat,
      (∀ i j, i < j → j < s.views.length → (span i).2 ≤ (span j).1) ∧
      ∀ (i : Nat) (v : View) (rv : ReplyView), s.terminal.views[i]? = some v →
        s.views[i]? = some rv → s.Replied i v rv (span i) := by
  have hlength := (lets_of_reach h).length_eq
  have hview : ∀ i, i < s.views.length → ∃ v rv, s.terminal.views[i]? = some v ∧
      s.views[i]? = some rv := fun i hi =>
    ⟨_, _, List.getElem?_eq_getElem (hlength ▸ hi), List.getElem?_eq_getElem hi⟩
  have hspan : ∀ i, ∃ span : Nat × Nat, ∀ (v : View) (rv : ReplyView),
      s.terminal.views[i]? = some v → s.views[i]? = some rv → s.Replied i v rv span ∧
        span.2 ≤ max (s.snapshotEnd v)
          (offsetAt s.terminal.chunks (v.start + v.channel.length)) := by
    intro i
    by_cases hi : i < s.views.length
    · obtain ⟨v, rv, hv, hrv⟩ := hview i hi
      obtain ⟨span, hreplied⟩ := exists_replied h hv hrv
      refine ⟨span, fun v' rv' hv' hrv' => ?_⟩
      obtain rfl := Option.some_inj.mp (hv.symm.trans hv')
      obtain rfl := Option.some_inj.mp (hrv.symm.trans hrv')
      exact hreplied
    · refine ⟨(0, 0), fun v rv _ hrv => ?_⟩
      exact absurd (List.getElem?_eq_some_iff.mp hrv).1 hi
  choose span hspan using hspan
  refine ⟨span, fun i j hij hj => ?_, fun i v rv hv hrv => (hspan i v rv hv hrv).1⟩
  obtain ⟨v, rv, hv, hrv⟩ := hview i (hij.trans hj)
  obtain ⟨v', rv', hv', hrv'⟩ := hview j hj
  have horigin := (hspan j v' rv' hv' hrv').1.origin (Nat.ne_of_gt (Nat.zero_lt_of_lt hij))
  rw [horigin]
  exact (hspan i v rv hv hrv).2.trans (seen_before h hij hv hv')

/-- A shell asks before its first view is there, the answer of the view goes through, and a
second view is attached, behind which the shell asks again. -/
def asking : List Replying.Step :=
  [.session .check, .session (.read [65]), .session .account, .session (.output true),
    .session .rollback, .attach, .reattach, .respond 0, .parsed 0, .dispose 0, .detach, .attach,
    .reattach, .respond 1, .parsed 1, .session .check, .session (.read [66]), .session .account,
    .session (.output true), .arrive 1, .parsed 1]

theorem unaskedMarks_le : 4 ≤ 8 := by decide

def unasked : Replying := ⟨.new (.new 16 8 4 unaskedMarks_le), false, none, []⟩

/-- Each query is let through once, though the first one is in both replays. -/
theorem replied_once_asking :
    (Replying.machine.run unasked asking).views.map ReplyView.replies = [[[65]], [[66]]] ∧
      ∃ span : Nat → Nat × Nat, (span 0).2 ≤ (span 1).1 := by
  have hstart : Replying.machine.Reach Replying.Start unasked :=
    .init ⟨_, ⟨16, 8, 4, by decide, rfl⟩, rfl⟩
  have hread (chunk : List UInt8) (h : chunk ≠ []) (s : Replying) :
      Replying.machine.admits s (.session (.read chunk)) := ⟨rfl, h⟩
  have hrun := hstart.of_trace asking
    ⟨⟨rfl, trivial⟩, hread _ (by decide) _, ⟨rfl, fun _ _ h => by cases h; decide⟩, ⟨rfl, trivial⟩,
      ⟨rfl, trivial⟩, rfl, trivial, trivial, trivial, trivial, rfl, rfl, trivial, trivial, trivial,
      ⟨rfl, trivial⟩, hread _ (by decide) _, ⟨rfl, fun _ _ h => by cases h; decide⟩,
      ⟨rfl, trivial⟩, trivial, trivial, trivial⟩
  have hviews : (Replying.machine.run unasked asking).views.map ReplyView.replies =
      [[[65]], [[66]]] := by decide
  obtain ⟨span, hbefore, -⟩ := replied_once hrun
  refine ⟨hviews, span, hbefore 0 1 Nat.zero_lt_one ?_⟩
  have hlength := congrArg List.length hviews
  rw [List.length_map] at hlength
  exact hlength ▸ Nat.lt_succ_self 1

end Mast
