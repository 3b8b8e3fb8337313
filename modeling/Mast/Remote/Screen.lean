import Mast.Remote
import Mast.Terminal.Stream
import Std.Data.String.ToNat

/-!
# What a remote client shows

The server answers in the coordinates of a stream, from a buffer that holds its end.
A client goes on from where it is only in the session that it names, so what it shows
stays a piece of one stream, through evictions, respawns and restarts.

Results:
1. `sessionToken_inj`: a token names one session.
2. `screenSince_spec`: what a terminal answers, in the coordinates of its stream.
3. `remote_screen`: an answer without a reset is exactly what the client lacks, and
   the client shows a piece of the stream of one session, up to its offset.
-/

namespace Mast

namespace Remote

/-- The bytes are a piece of the stream of the session with this token, and it ends at
this offset. -/
def Holds (w : Remote) (token : String) (endOffset : Nat) (piece : List UInt8) : Prop :=
  ∃ s ∈ w.sessions, s.token = token ∧ ∃ before after,
    s.stream = before ++ piece ++ after ∧ (before ++ piece).length = endOffset

/-- The sessions are told apart by their epochs and ids, and a handler works on a
session of its own app. -/
structure SessionsInv (w : Remote) : Prop where
  reach : ∀ s ∈ w.sessions, Terminal.machine.Reach Terminal.Start s.terminal
  epoch : w.epoch ∈ w.epochs
  epochs : ∀ s ∈ w.sessions, s.epoch ∈ w.epochs
  ids : ∀ s ∈ w.sessions, s.epoch = w.epoch → s.id.toNat < w.nextId.toNat
  distinct : (w.sessions.map fun s => (s.epoch, s.id)).Nodup
  current : ∀ index, w.current = some index →
    ∃ s, w.sessions[index]? = some s ∧ s.epoch = w.epoch
  found : ∀ r index, w.request = some r → r.stage = .found index →
    ∃ s, w.sessions[index]? = some s ∧ s.epoch = w.epoch

/-- An answer under way: with a reset, a mode preamble and a piece of the stream, and
without one, the piece that begins where the query says. -/
def AnswerInv (w : Remote) (query : Option ScreenQuery) (screen : Screen) (token : String) :
    Prop :=
  (screen.reset = true → ∃ modes piece, screen.bytes = decModePreamble modes ++ piece ∧
    w.Holds token screen.endOffset.toNat piece) ∧
  (screen.reset = false → ∃ q, query = some q ∧ q.session = token ∧
    screen.endOffset.toNat = q.since + screen.bytes.length ∧
    w.Holds token screen.endOffset.toNat screen.bytes)

/-- A request of the current generation asks for what the client lacks. -/
structure RequestInv (w : Remote) (r : RemoteRequest) : Prop where
  generation : r.generation ≤ w.client.generation
  query : r.generation = w.client.generation → r.query = w.client.state.screenQuery
  since : ∀ q, r.query = some q → q.since ≤ maxSafeInteger
  answer : ∀ screen token, r.stage = .answered screen token → w.AnswerInv r.query screen token

/-- What the client has is nothing, or a mode preamble and a piece of the stream that it
follows. -/
structure ClientInv (w : Remote) : Prop where
  nothing : w.client.term = none → w.client.state = .initial
  shows : ∀ text, w.client.term = some text → w.client.state.phase = .ready ∧
    w.client.state.since ≤ maxSafeInteger ∧ ∃ token, w.client.state.session = some token ∧
      ∃ modes piece, text = decModePreamble modes ++ piece ∧
        w.Holds token w.client.state.since piece

structure ScreenInv (w : Remote) : Prop where
  sessions : w.SessionsInv
  request : ∀ r, w.request = some r → w.RequestInv r
  client : w.ClientInv

/-- No session is forgotten, and streams only grow. -/
def Grows (w w' : Remote) : Prop :=
  ∀ (index : Nat) (s : RemoteSession), w.sessions[index]? = some s →
    ∃ s', w'.sessions[index]? = some s' ∧ s'.epoch = s.epoch ∧ s'.id = s.id ∧
      s.stream <+: s'.stream

end Remote

namespace RemoteLemmas

open Remote

variable {w w' : Remote}

/-! ## Tokens -/

theorem append_cons_inj {α : Type} {c : α} {xs ys xs' ys' : List α} (h : c ∉ xs) (h' : c ∉ xs')
    (heq : xs ++ c :: ys = xs' ++ c :: ys') : xs = xs' ∧ ys = ys' := by
  induction xs generalizing xs' with
  | nil =>
    cases xs' with
    | nil => exact ⟨rfl, (List.cons.inj heq).2⟩
    | cons x' rest' => exact absurd ((List.cons.inj heq).1 ▸ List.mem_cons_self) h'
  | cons x rest ih =>
    cases xs' with
    | nil => exact absurd ((List.cons.inj heq).1 ▸ List.mem_cons_self) h
    | cons x' rest' =>
      obtain ⟨rfl, htail⟩ := List.cons.inj heq
      obtain ⟨rfl, rfl⟩ := ih (fun hc => h (List.mem_cons_of_mem _ hc))
        (fun hc => h' (List.mem_cons_of_mem _ hc)) htail
      exact ⟨rfl, rfl⟩

/-- A token names one epoch and one id: a number has no colon. -/
theorem sessionToken_inj {epoch epoch' : UInt64} {id id' : SessionId}
    (h : sessionToken epoch id = sessionToken epoch' id') : epoch = epoch' ∧ id = id' := by
  have hcolon (n : Nat) : ':' ∉ n.repr.toList := by
    rw [Nat.toList_repr]
    intro hmem
    exact absurd (Nat.isDigit_of_mem_toDigits (by decide) (by decide) hmem) (by decide)
  have hlist : epoch.toNat.repr.toList ++ ':' :: id.toNat.repr.toList =
      epoch'.toNat.repr.toList ++ ':' :: id'.toNat.repr.toList := by
    have heq := congrArg String.toList h
    simp only [sessionToken, String.toList_append] at heq
    simpa [toString] using heq
  obtain ⟨hepoch, hid⟩ := append_cons_inj (hcolon _) (hcolon _) hlist
  exact ⟨UInt64.toNat_inj.mp (Nat.repr_injective (String.toList_inj.mp hepoch)),
    UInt32.toNat_inj.mp (Nat.repr_injective (String.toList_inj.mp hid))⟩

/-- Two sessions with one token are one session. -/
theorem SessionsInv.eq_of_token (h : w.SessionsInv) {i j : Nat} {s s' : RemoteSession}
    (hs : w.sessions[i]? = some s) (hs' : w.sessions[j]? = some s') (heq : s.token = s'.token) :
    i = j := by
  obtain ⟨hepoch, hid⟩ := sessionToken_inj heq
  obtain ⟨hi, -⟩ := List.getElem?_eq_some_iff.mp hs
  refine (List.getElem?_inj (by rwa [List.length_map]) h.distinct).mp ?_
  rw [List.getElem?_map, List.getElem?_map, hs, hs', Option.map_some, Option.map_some, hepoch, hid]

theorem SessionsInv.eq_of_mem (h : w.SessionsInv) {s s' : RemoteSession} (hs : s ∈ w.sessions)
    (hs' : s' ∈ w.sessions) (heq : s.token = s'.token) : s = s' := by
  obtain ⟨i, hi⟩ := List.getElem?_of_mem hs
  obtain ⟨j, hj⟩ := List.getElem?_of_mem hs'
  obtain rfl := SessionsInv.eq_of_token h hi hj heq
  exact Option.some_inj.mp (hi.symm.trans hj)

/-! ## What a terminal answers -/

/-- In the coordinates of the stream: without a reset, the bytes from the given offset
to the end, and with one, a mode preamble and a snapshot that ends the stream. -/
theorem screenSince_spec {t : Terminal} (h : t.StreamInv) (cols rows : UInt16)
    (since : Option UInt64) :
    (t.inner.screenSince cols rows since).endOffset.toNat = t.stream.length ∧
    ((t.inner.screenSince cols rows since).reset = true →
      (t.inner.screenSince cols rows since).bytes =
        decModePreamble t.inner.decModes ++ t.inner.replay.snapshot) ∧
    ((t.inner.screenSince cols rows since).reset = false →
      ∃ offset, since = some offset ∧ offset.toNat ≤ t.stream.length ∧
        (t.inner.screenSince cols rows since).bytes = t.stream.drop offset.toNat) := by
  obtain ⟨evicted, hevicted⟩ := h.retained
  have hlength : evicted.length + t.inner.replay.bytes.length = t.stream.length := by
    rw [← hevicted, List.length_append]
  have hstart : t.inner.retainedStart = evicted.length := by
    rw [Inner.retainedStart, h.bytesOut, ReplayLemmas.len_eq]
    omega
  unfold Inner.screenSince
  split
  next offset =>
    split
    next heq =>
      subst heq
      exact ⟨h.bytesOut, by simp, fun _ => ⟨_, rfl, h.bytesOut.le, by
        rw [h.bytesOut, List.drop_length]⟩⟩
    next =>
      split
      next hretained =>
        have hlt : offset.toNat < t.stream.length :=
          h.bytesOut ▸ UInt64.lt_iff_toNat_lt.mp hretained.2
        have hle : evicted.length ≤ offset.toNat := hstart ▸ hretained.1
        refine ⟨h.bytesOut, by simp, fun _ => ⟨_, rfl, hlt.le, ?_⟩⟩
        show t.inner.replay.bytesFrom (offset.toNat - t.inner.retainedStart) =
          t.stream.drop offset.toNat
        rw [ReplayLemmas.bytesFrom_eq, hstart, ← hevicted, List.drop_append,
          List.drop_eq_nil_of_le hle, List.nil_append]
      next => exact ⟨h.bytesOut, fun _ => rfl, by simp⟩
  next => exact ⟨h.bytesOut, fun _ => rfl, by simp⟩

/-! ## Sessions are kept, and their streams grow -/

theorem stream_step (t : Terminal) (a : Terminal.Action) : t.stream <+: (t.step a).stream := by
  have hwake (t : Terminal) : t.wake.chunks = t.chunks := by
    unfold Terminal.wake
    split <;> rfl
  have hsame {t' : Terminal} (h : t'.chunks = t.chunks) : t.stream <+: t'.stream := by
    rw [Terminal.stream, Terminal.stream, h]
  cases a with
  | account =>
    simp only [Terminal.step, Terminal.account]
    split
    · split
      · rw [Terminal.stream, Terminal.stream, List.flatten_append]
        exact List.prefix_append _ _
      · exact hsame rfl
    · exact hsame rfl
  | ack n =>
    simp only [Terminal.step, Terminal.ack]
    split
    · exact hsame (hwake _)
    · exact hsame rfl
  | wake | notify => exact hsame (hwake _)
  | check | read _ | interrupted | readEnd | rollback | kill =>
    simp only [Terminal.step, Terminal.check, Terminal.read, Terminal.interrupted,
      Terminal.readEnd, Terminal.rollback, Terminal.kill]
    split <;> exact hsame rfl
  | output sends =>
    simp only [Terminal.step, Terminal.output]
    repeat' split
    all_goals exact hsame rfl
  | resetFlow | exit | takeRecord | attach | detach | reattach _ | arrive _ | respond _ =>
    exact hsame rfl

theorem grows_of_eq (h : w'.sessions = w.sessions) : w.Grows w' :=
  fun _ s hs => ⟨s, h ▸ hs, rfl, rfl, List.prefix_rfl⟩

theorem grows_modify {f : RemoteSession → RemoteSession} {index : Nat}
    (h : w'.sessions = w.sessions.modify index f)
    (hf : ∀ s, (f s).epoch = s.epoch ∧ (f s).id = s.id ∧ s.stream <+: (f s).stream) :
    w.Grows w' := by
  intro i s hs
  obtain ⟨hepoch, hid, hstream⟩ := hf s
  have hat : w'.sessions[i]? = some (if index = i then f s else s) := by
    rw [h, List.getElem?_modify, hs]
    rfl
  by_cases heq : index = i
  · exact ⟨f s, by rw [hat, if_pos heq], hepoch, hid, hstream⟩
  · exact ⟨s, by rw [hat, if_neg heq], rfl, rfl, List.prefix_rfl⟩

theorem grows_step (w : Remote) (a : Action) : w.Grows (w.step a) := by
  cases a with
  | session index a => exact grows_modify rfl fun s => ⟨rfl, rfl, stream_step s.terminal a⟩
  | resize index cols rows => exact grows_modify rfl fun s => ⟨rfl, rfl, List.prefix_rfl⟩
  | respawn inner cols rows =>
    intro i s hs
    obtain ⟨hi, -⟩ := List.getElem?_eq_some_iff.mp hs
    exact ⟨s, (List.getElem?_append_left hi).trans hs, rfl, rfl, List.prefix_rfl⟩
  | otherId | close | restart _ | fail _ | startOver => exact grows_of_eq rfl
  | poll | lookup | answer | receive =>
    refine grows_of_eq ?_
    simp only [Remote.step, Remote.poll, Remote.lookup, Remote.answer, Remote.receive]
    repeat' split
    all_goals rfl

theorem Holds.mono {token : String} {endOffset : Nat} {piece : List UInt8}
    (h : w.Holds token endOffset piece) (hgrows : w.Grows w') :
    w'.Holds token endOffset piece := by
  obtain ⟨s, hs, rfl, before, after, hstream, hlength⟩ := h
  obtain ⟨i, hi⟩ := List.getElem?_of_mem hs
  obtain ⟨s', hs', hepoch, hid, more, hmore⟩ := hgrows i s hi
  refine ⟨s', List.mem_of_getElem? hs', by rw [RemoteSession.token, hepoch, hid]; rfl, before,
    after ++ more, ?_, hlength⟩
  rw [← hmore, hstream, List.append_assoc]

/-- What a session holds goes on with what it holds from there. -/
theorem Holds.append (h : w.SessionsInv) {token : String} {since : Nat} {piece more : List UInt8}
    (hpiece : w.Holds token since piece) (hmore : w.Holds token (since + more.length) more) :
    w.Holds token (since + more.length) (piece ++ more) := by
  obtain ⟨s, hs, htoken, before, after, hstream, hlength⟩ := hpiece
  obtain ⟨s', hs', htoken', before', after', hstream', hlength'⟩ := hmore
  obtain rfl := SessionsInv.eq_of_mem h hs hs' (htoken.trans htoken'.symm)
  have hbefore : before' = before ++ piece := by
    have heq : before' ++ (more ++ after') = before ++ piece ++ after := by
      rw [← hstream, hstream', List.append_assoc]
    refine List.append_inj_left heq ?_
    rw [List.length_append] at hlength'
    omega
  refine ⟨s, hs, htoken, before, after', ?_, ?_⟩
  · rw [hstream', hbefore]
    simp only [List.append_assoc]
  · rw [← List.append_assoc, List.length_append, hlength]

/-! ## The invariant of the sessions -/

/-- A session that the handler or the tab points to stays one of this app. -/
theorem Grows.epoch (h : w.Grows w') (hepoch : w'.epoch = w.epoch) {index : Nat}
    (hs : ∃ s, w.sessions[index]? = some s ∧ s.epoch = w.epoch) :
    ∃ s, w'.sessions[index]? = some s ∧ s.epoch = w'.epoch := by
  obtain ⟨s, hs, heq⟩ := hs
  obtain ⟨s', hs', hsame, -, -⟩ := h index s hs
  exact ⟨s', hs', by rw [hsame, heq, hepoch]⟩

/-- A step that starts no session. -/
theorem SessionsInv.frame (h : w.SessionsInv) (hsessions : w'.sessions = w.sessions)
    (hepoch : w'.epoch = w.epoch) (hepochs : w'.epochs = w.epochs)
    (hnext : w.nextId.toNat ≤ w'.nextId.toNat)
    (hcurrent : w'.current = w.current ∨ w'.current = none)
    (hfound : ∀ r index, w'.request = some r → r.stage = .found index →
      (∃ r', w.request = some r' ∧ r'.stage = .found index) ∨ w.current = some index) :
    w'.SessionsInv where
  reach := hsessions ▸ h.reach
  epoch := hepoch ▸ hepochs ▸ h.epoch
  epochs := hsessions ▸ hepochs ▸ h.epochs
  ids s hs heq := (h.ids s (hsessions ▸ hs) (heq.trans hepoch)).trans_le hnext
  distinct := hsessions ▸ h.distinct
  current index heq := by
    rcases hcurrent with hsame | hnone
    · exact Grows.epoch (grows_of_eq hsessions) hepoch (h.current index (hsame ▸ heq))
    · exact absurd (hnone.symm.trans heq) (by simp)
  found r index hr hstage := by
    refine Grows.epoch (grows_of_eq hsessions) hepoch ?_
    rcases hfound r index hr hstage with ⟨r', hr', hstage'⟩ | hcurrent
    · exact h.found r' index hr' hstage'
    · exact h.current index hcurrent

/-- One session takes a step of its own. -/
theorem SessionsInv.modify (h : w.SessionsInv) (index : Nat) {f : RemoteSession → RemoteSession}
    (hkey : ∀ s, (f s).epoch = s.epoch ∧ (f s).id = s.id ∧ s.stream <+: (f s).stream)
    (hreach : ∀ s, w.sessions[index]? = some s →
      Terminal.machine.Reach Terminal.Start (f s).terminal) :
    SessionsInv { w with sessions := w.sessions.modify index f } := by
  have hgrows : w.Grows { w with sessions := w.sessions.modify index f } := grows_modify rfl hkey
  have hmem : ∀ s' ∈ w.sessions.modify index f, ∃ s ∈ w.sessions, s'.epoch = s.epoch ∧
      s'.id = s.id ∧ (s' = s ∨ Terminal.machine.Reach Terminal.Start s'.terminal) := by
    intro s' hs'
    obtain ⟨i, hi⟩ := List.getElem?_of_mem hs'
    rw [List.getElem?_modify] at hi
    obtain ⟨s, hs, rfl⟩ := Option.map_eq_some_iff.mp hi
    refine ⟨s, List.mem_of_getElem? hs, ?_⟩
    by_cases heq : index = i
    · simp only [if_pos heq]
      exact ⟨(hkey s).1, (hkey s).2.1, .inr (hreach s (heq ▸ hs))⟩
    · simp [if_neg heq]
  refine
    { reach := fun s' hs' => ?_
      epoch := h.epoch
      epochs := fun s' hs' => ?_
      ids := fun s' hs' heq => ?_
      distinct := ?_
      current := fun i heq => Grows.epoch hgrows rfl (h.current i heq)
      found := fun r i hr hstage => Grows.epoch hgrows rfl (h.found r i hr hstage) }
  · obtain ⟨s, hs, -, -, rfl | hr⟩ := hmem s' hs'
    · exact h.reach s' hs
    · exact hr
  · obtain ⟨s, hs, hepoch, -, -⟩ := hmem s' hs'
    exact hepoch ▸ h.epochs s hs
  · obtain ⟨s, hs, hepoch, hid, -⟩ := hmem s' hs'
    exact hid ▸ h.ids s hs (hepoch ▸ heq)
  · have hkeys : (w.sessions.modify index f).map (fun s => (s.epoch, s.id)) =
        w.sessions.map fun s => (s.epoch, s.id) := by
      refine List.ext_getElem? fun i => ?_
      rw [List.getElem?_map, List.getElem?_map, List.getElem?_modify]
      cases w.sessions[i]? with
      | none => rfl
      | some s =>
        by_cases heq : index = i
        · simp [heq, (hkey s).1, (hkey s).2.1]
        · simp [heq]
    exact hkeys ▸ h.distinct

/-- The id of a new session is not in use in this app. -/
theorem SessionsInv.respawn (h : w.SessionsInv) {inner : Inner} {cols rows : UInt16}
    (hstart : Terminal.Start (.new inner)) (hfits : w.nextId.toNat + 1 < 2 ^ 32) :
    (w.respawn inner cols rows).SessionsInv := by
  have hgrows : w.Grows (w.respawn inner cols rows) := grows_step w (.respawn inner cols rows)
  have hnext : (w.respawn inner cols rows).nextId.toNat = w.nextId.toNat + 1 := by
    show (w.nextId + 1).toNat = w.nextId.toNat + 1
    rw [UInt32.toNat_add, UInt32.toNat_one, Nat.mod_eq_of_lt hfits]
  have hmem {s : RemoteSession} (hs : s ∈ (w.respawn inner cols rows).sessions) :
      s ∈ w.sessions ∨ s = ⟨w.epoch, w.nextId, cols, rows, .new inner⟩ := by
    simpa [Remote.respawn] using hs
  refine
    { reach := fun s hs => ?_
      epoch := h.epoch
      epochs := fun s hs => ?_
      ids := fun s hs heq => ?_
      distinct := ?_
      current := fun index heq => ?_
      found := fun r i hr hstage => Grows.epoch hgrows rfl (h.found r i hr hstage) }
  · rcases hmem hs with hold | rfl
    · exact h.reach s hold
    · exact .init hstart
  · rcases hmem hs with hold | rfl
    · exact h.epochs s hold
    · exact h.epoch
  · rw [hnext]
    rcases hmem hs with hold | rfl
    · exact (h.ids s hold heq).trans (Nat.lt_succ_self _)
    · exact Nat.lt_succ_self _
  · show ((w.sessions ++ [_]).map _).Nodup
    rw [List.map_append, List.map_singleton]
    refine List.nodup_append.mpr ⟨h.distinct, List.nodup_singleton _, fun key hkey key' hkey' => ?_⟩
    obtain ⟨s, hs, rfl⟩ := List.mem_map.mp hkey
    obtain rfl := List.mem_singleton.mp hkey'
    intro heq
    obtain ⟨hepoch, hid⟩ := Prod.mk.inj heq
    exact absurd (h.ids s hs hepoch) (by rw [hid]; exact Nat.lt_irrefl _)
  · obtain rfl : w.sessions.length = index := Option.some_inj.mp heq
    exact ⟨_, List.getElem?_concat_length, rfl⟩

/-- Ids begin anew in a new epoch. -/
theorem SessionsInv.restart (h : w.SessionsInv) {epoch : UInt64} (hnew : epoch ∉ w.epochs) :
    (w.restart epoch).SessionsInv where
  reach := h.reach
  epoch := List.mem_cons_self
  epochs s hs := List.mem_cons_of_mem _ (h.epochs s hs)
  ids s hs heq := by
    have hepoch : s.epoch = epoch := heq
    exact absurd (hepoch ▸ h.epochs s hs) hnew
  distinct := h.distinct
  current index heq := by cases heq
  found r index hr hstage := by
    obtain ⟨old, -, rfl⟩ := Option.map_eq_some_iff.mp hr
    cases hold : old.stage <;> simp [hold] at hstage

theorem SessionsInv.step (h : w.SessionsInv) {a : Action} (ha : w.admits a) :
    (w.step a).SessionsInv := by
  cases a with
  | session index a =>
    exact SessionsInv.modify h index (fun s => ⟨rfl, rfl, stream_step s.terminal a⟩)
      fun s hs => .step (h.reach s (List.mem_of_getElem? hs)) (ha s hs)
  | resize index cols rows =>
    exact SessionsInv.modify h index (fun s => ⟨rfl, rfl, List.prefix_rfl⟩)
      fun s hs => h.reach s (List.mem_of_getElem? hs)
  | otherId =>
    refine SessionsInv.frame h rfl rfl rfl ?_ (.inl rfl) fun r index hr hstage =>
      .inl ⟨r, hr, hstage⟩
    show w.nextId.toNat ≤ (w.nextId + 1).toNat
    rw [UInt32.toNat_add, UInt32.toNat_one, Nat.mod_eq_of_lt ha]
    exact Nat.le_succ _
  | respawn inner cols rows => exact SessionsInv.respawn h ha.1 ha.2
  | close =>
    exact SessionsInv.frame h rfl rfl rfl (Nat.le_refl _) (.inr rfl) fun r index hr hstage =>
      .inl ⟨r, hr, hstage⟩
  | restart epoch => exact SessionsInv.restart h ha
  | poll =>
    simp only [Remote.step, Remote.poll]
    split
    · refine SessionsInv.frame h rfl rfl rfl (Nat.le_refl _) (.inl rfl) fun r index hr hstage => ?_
      obtain rfl := Option.some_inj.mp hr
      cases hstage
    · exact h
  | lookup =>
    simp only [Remote.step, Remote.lookup]
    split
    · split
      next found hcurrent =>
        refine SessionsInv.frame h rfl rfl rfl (Nat.le_refl _) (.inl rfl) ?_
        intro r index hr hstage
        obtain rfl := Option.some_inj.mp hr
        -- The session that a lookup finds is the current one.
        obtain rfl : found = index := by simpa using hstage
        exact .inr hcurrent
      next =>
        refine SessionsInv.frame h rfl rfl rfl (Nat.le_refl _) (.inl rfl) ?_
        intro r index hr hstage
        obtain rfl := Option.some_inj.mp hr
        cases hstage
    · exact h
  | answer =>
    simp only [Remote.step, Remote.answer]
    repeat' split
    · refine SessionsInv.frame h rfl rfl rfl (Nat.le_refl _) (.inl rfl) fun r index hr hstage => ?_
      obtain rfl := Option.some_inj.mp hr
      cases hstage
    · exact h
    · exact h
  | fail gone =>
    refine SessionsInv.frame h rfl rfl rfl (Nat.le_refl _) (.inl rfl) fun r index hr hstage => ?_
    obtain ⟨old, -, rfl⟩ := Option.map_eq_some_iff.mp hr
    cases hstage
  | receive =>
    simp only [Remote.step, Remote.receive]
    split
    · exact SessionsInv.frame h rfl rfl rfl (Nat.le_refl _) (.inl rfl) (by simp)
    · exact SessionsInv.frame h rfl rfl rfl (Nat.le_refl _) (.inl rfl) (by simp)
    · exact h
  | startOver =>
    exact SessionsInv.frame h rfl rfl rfl (Nat.le_refl _) (.inl rfl) fun r index hr hstage =>
      .inl ⟨r, hr, hstage⟩

/-! ## The handler and the client -/

theorem AnswerInv.mono {query : Option ScreenQuery} {screen : Screen} {token : String}
    (h : w.AnswerInv query screen token) (hgrows : w.Grows w') :
    w'.AnswerInv query screen token := by
  refine ⟨fun hreset => ?_, fun hdelta => ?_⟩
  · obtain ⟨modes, piece, hbytes, hholds⟩ := h.1 hreset
    exact ⟨modes, piece, hbytes, Holds.mono hholds hgrows⟩
  · obtain ⟨q, hquery, htoken, hend, hholds⟩ := h.2 hdelta
    exact ⟨q, hquery, htoken, hend, Holds.mono hholds hgrows⟩

/-- The handler takes the offset of a query only with its own token. -/
theorem screenHandler_eq (epoch : UInt64) (s : RemoteSession) (query : Option ScreenQuery) :
    ∃ since, (screenHandler epoch s query).1 = s.terminal.inner.screenSince s.cols s.rows since ∧
      ∀ offset, since = some offset →
        ∃ q, query = some q ∧ q.session = sessionToken epoch s.id ∧
          offset = UInt64.ofNat q.since := by
  refine ⟨_, rfl, fun offset hoffset => ?_⟩
  split at hoffset
  next q =>
    split at hoffset
    next hsession => exact ⟨q, rfl, hsession, (Option.some_inj.mp hoffset).symm⟩
    next => cases hoffset
  next => cases hoffset

/-- What the handler answers from a session of this app. -/
theorem answerInv_screenHandler (h : w.SessionsInv) {s : RemoteSession} (hs : s ∈ w.sessions)
    (hepoch : s.epoch = w.epoch) {query : Option ScreenQuery}
    (hsince : ∀ q, query = some q → q.since ≤ maxSafeInteger) :
    w.AnswerInv query (screenHandler w.epoch s query).1 (screenHandler w.epoch s query).2 := by
  have hstream := StreamLemmas.streamInv_of_reach (h.reach s hs)
  have htoken : s.token = (screenHandler w.epoch s query).2 := by
    rw [RemoteSession.token, hepoch]
    rfl
  obtain ⟨since, hscreen, hquery⟩ := screenHandler_eq w.epoch s query
  obtain ⟨hend, hreset, hdelta⟩ := screenSince_spec hstream s.cols s.rows since
  rw [← hscreen] at hend hreset hdelta
  refine ⟨fun hr => ?_, fun hd => ?_⟩
  · obtain ⟨before, hbefore⟩ := StreamLemmas.StreamInv.snapshot hstream
    refine ⟨_, _, hreset hr, s, hs, htoken, before, [], ?_, ?_⟩
    · rw [List.append_nil]
      exact hbefore.symm
    · rw [hbefore]
      exact hend.symm
  · obtain ⟨offset, hoffset, hle, hbytes⟩ := hdelta hd
    obtain ⟨q, rfl, hsession, rfl⟩ := hquery offset hoffset
    have hback : (UInt64.ofNat q.since).toNat = q.since :=
      UInt64.toNat_ofNat_of_lt' ((hsince q rfl).trans_lt (by decide))
    rw [hback] at hle hbytes
    have hle : q.since ≤ s.stream.length := hle
    have hsplit : s.stream.take q.since ++ (screenHandler w.epoch s (some q)).1.bytes =
        s.stream := by
      rw [hbytes]
      exact List.take_append_drop _ _
    have hlength := congrArg List.length hsplit
    rw [List.length_append, List.length_take, Nat.min_eq_left hle] at hlength
    refine ⟨q, rfl, hsession, ?_, s, hs, htoken, s.stream.take q.since, [], ?_, ?_⟩
    · exact hend.trans hlength.symm
    · rw [List.append_nil, hsplit]
    · rw [hsplit]
      exact hend.symm

theorem parseScreenMeta_eq {screen : Screen} {token : String} {got : ScreenMeta}
    (h : parseScreenMeta screen token = some got) :
    got.endOffset = screen.endOffset.toNat ∧ got.endOffset ≤ maxSafeInteger ∧
      got.reset = screen.reset ∧ got.session = token := by
  have hcount {n m : Nat} (hm : parseCount n = some m) : m = n ∧ m ≤ maxSafeInteger := by
    unfold parseCount at hm
    split at hm
    next hle =>
      cases hm
      exact ⟨rfl, hle⟩
    next => cases hm
  simp only [parseScreenMeta, Option.bind_eq_bind, Option.bind_eq_some_iff] at h
  obtain ⟨endOffset, hend, cols, -, rows, -, heq⟩ := h
  cases heq
  exact ⟨(hcount hend).1, (hcount hend).2, rfl, rfl⟩

/-- What a client does with an answer: it has nothing and waits on, it draws anew, it
drops what it has, or it appends. -/
theorem apply_cases (c : RemoteClient) (got : ScreenMeta) (bytes : List UInt8) :
    (c.state.phase = .full ∧ got.reset = false ∧ c.apply got bytes = c) ∨
    (c.state.phase = .full ∧ got.reset = true ∧ (c.apply got bytes).term = some bytes ∧
      (c.apply got bytes).state = ⟨.ready, got.endOffset, some got.session, got.cols, got.rows⟩) ∨
    ((c.apply got bytes).term = none ∧ (c.apply got bytes).state = .initial) ∨
    (c.state.phase = .ready ∧ got.reset = false ∧ c.state.session = some got.session ∧
      (c.apply got bytes).term = c.term.map (· ++ bytes) ∧
      (c.apply got bytes).state = { c.state with since := got.endOffset }) := by
  cases hphase : c.state.phase with
  | full =>
    cases hreset : got.reset with
    | false =>
      refine .inl ⟨rfl, rfl, ?_⟩
      simp [RemoteClient.apply, ViewState.nextRequest, hphase, hreset]
    | true =>
      refine .inr (.inl ⟨rfl, rfl, ?_, ?_⟩)
      · simp [RemoteClient.apply, RemoteClient.createTerminal, hphase, hreset]
      · simp [RemoteClient.apply, ViewState.nextRequest, hphase, hreset]
  | ready =>
    cases hrecreate : c.state.needsRecreate got with
    | true =>
      refine .inr (.inr (.inl ⟨?_, ?_⟩))
      · simp [RemoteClient.apply, RemoteClient.destroyTerminal, hphase, hrecreate]
      · simp [RemoteClient.apply, ViewState.nextRequest, hphase, hrecreate]
    | false =>
      have hgot : got.reset = false ∧ some got.session = c.state.session := by
        simp only [ViewState.needsRecreate, Bool.or_eq_false_iff, decide_eq_false_iff_not,
          not_not] at hrecreate
        exact ⟨hrecreate.1.1.1, hrecreate.2⟩
      refine .inr (.inr (.inr ⟨rfl, hgot.1, hgot.2.symm, ?_, ?_⟩))
      · cases bytes with
        | nil => simp [RemoteClient.apply, hphase, hrecreate]
        | cons b rest => simp [RemoteClient.apply, RemoteClient.write, hphase, hrecreate]
      · simp [RemoteClient.apply, ViewState.nextRequest, hphase, hrecreate]

/-- An answer that is appended begins where the client is. -/
theorem holds_delta {query : Option ScreenQuery} {screen : Screen} {token : String}
    (hanswer : w.AnswerInv query screen token) (hquery : query = w.client.state.screenQuery)
    (hdelta : screen.reset = false) :
    screen.endOffset.toNat = w.client.state.since + screen.bytes.length ∧
      w.Holds token (w.client.state.since + screen.bytes.length) screen.bytes := by
  obtain ⟨q, hq, -, hend, hholds⟩ := hanswer.2 hdelta
  have hsince : q.since = w.client.state.since := by
    rw [hquery, ViewState.screenQuery] at hq
    split at hq
    · exact Option.some_inj.mp hq ▸ rfl
    · cases hq
  rw [hend, hsince] at hholds
  exact ⟨hsince ▸ hend, hholds⟩

theorem ClientInv.mono (h : w.ClientInv) (hgrows : w.Grows w') (hclient : w'.client = w.client) :
    w'.ClientInv where
  nothing := hclient ▸ h.nothing
  shows text htext := by
    obtain ⟨hphase, hsince, token, hsession, modes, piece, rfl, hholds⟩ :=
      h.shows text (hclient ▸ htext)
    rw [hclient]
    exact ⟨hphase, hsince, token, hsession, modes, piece, rfl, Holds.mono hholds hgrows⟩

/-- The client applies an answer to the request that it made. -/
theorem ClientInv.apply (hs : w.SessionsInv) (h : w.ClientInv) {query : Option ScreenQuery}
    {screen : Screen} {token : String} {got : ScreenMeta}
    (hanswer : w.AnswerInv query screen token) (hquery : query = w.client.state.screenQuery)
    (hgot : parseScreenMeta screen token = some got) :
    ClientInv { w with client := w.client.apply got screen.bytes, request := none } := by
  obtain ⟨hend, hsafe, hreset, hsession⟩ := parseScreenMeta_eq hgot
  have hgrows (c : RemoteClient) : w.Grows { w with client := c, request := none } :=
    grows_of_eq rfl
  rcases apply_cases w.client got screen.bytes with
    ⟨-, -, hsame⟩ | ⟨-, hr, hterm, hstate⟩ | ⟨hterm, hstate⟩ |
      ⟨hphase, hr, hsame, hterm, hstate⟩
  · exact ClientInv.mono h (hgrows _) hsame
  · refine ⟨fun hnone => by simp [hterm] at hnone, fun text htext => ?_⟩
    obtain rfl : screen.bytes = text := Option.some_inj.mp (hterm.symm.trans htext)
    obtain ⟨modes, piece, hbytes, hholds⟩ := hanswer.1 (hreset ▸ hr)
    dsimp only
    rw [hstate]
    exact ⟨rfl, hsafe, got.session, rfl, modes, piece, hbytes,
      Holds.mono (by rw [hsession, hend]; exact hholds) (hgrows _)⟩
  · exact ⟨fun _ => hstate, fun text htext => by simp [hterm] at htext⟩
  · refine ⟨fun hnone => ?_, fun text htext => ?_⟩
    · rw [hterm, Option.map_eq_none_iff] at hnone
      rw [h.nothing hnone] at hphase
      cases hphase
    · dsimp only at htext
      rw [hterm] at htext
      obtain ⟨old, hold, rfl⟩ := Option.map_eq_some_iff.mp htext
      obtain ⟨-, -, token', hold', modes, piece, rfl, hholds⟩ := h.shows old hold
      obtain rfl : token' = token :=
        Option.some_inj.mp (hold'.symm.trans (hsame.trans (hsession ▸ rfl)))
      obtain ⟨hnext, hmore⟩ := holds_delta hanswer hquery (hreset ▸ hr)
      dsimp only
      rw [hstate]
      refine ⟨hphase, hsafe, token', hold', modes, piece ++ screen.bytes, List.append_assoc .., ?_⟩
      refine Holds.mono ?_ (hgrows _)
      show w.Holds token' got.endOffset (piece ++ screen.bytes)
      rw [hend, hnext]
      exact Holds.append hs hholds hmore

/-! ## The invariant -/

theorem RequestInv.mono {r : RemoteRequest} (h : w.RequestInv r) (hgrows : w.Grows w')
    (hclient : w'.client = w.client) : w'.RequestInv r where
  generation := hclient ▸ h.generation
  query := hclient ▸ h.query
  since := h.since
  answer screen token hstage := AnswerInv.mono (h.answer screen token hstage) hgrows

/-- A request goes on. -/
theorem RequestInv.moveTo {r : RemoteRequest} (h : w.RequestInv r) (stage : RequestStage)
    (hanswer : ∀ screen token, stage = .answered screen token →
      w.AnswerInv r.query screen token) : w.RequestInv { r with stage } where
  generation := h.generation
  query := h.query
  since := h.since
  answer := hanswer

/-- A step that neither the request nor the client takes part in. -/
theorem ScreenInv.frame (h : w.ScreenInv) (hsessions : w'.SessionsInv) (hgrows : w.Grows w')
    (hrequest : w'.request = w.request) (hclient : w'.client = w.client) : w'.ScreenInv where
  sessions := hsessions
  request r hr := RequestInv.mono (h.request r (hrequest ▸ hr)) hgrows hclient
  client := ClientInv.mono h.client hgrows hclient

/-- A step of the request. -/
theorem ScreenInv.withRequest (h : w.ScreenInv) {request : Option RemoteRequest}
    (hsessions : SessionsInv { w with request }) (hrequest : ∀ r, request = some r →
      w.RequestInv r) : ScreenInv { w with request } where
  sessions := hsessions
  request r hr := RequestInv.mono (hrequest r hr) (grows_of_eq rfl) rfl
  client := ClientInv.mono h.client (grows_of_eq rfl) rfl

/-- Only a client that has a screen asks for what follows. -/
theorem ClientInv.since (h : w.ClientInv) {q : ScreenQuery}
    (hq : w.client.state.screenQuery = some q) : q.since ≤ maxSafeInteger := by
  cases hterm : w.client.term with
  | none =>
    rw [h.nothing hterm] at hq
    cases hq
  | some text =>
    obtain ⟨-, hsafe, -⟩ := h.shows text hterm
    rw [ViewState.screenQuery] at hq
    split at hq
    · exact Option.some_inj.mp hq ▸ hsafe
    · cases hq

/-- The client starts over, and what it asked for is of an older generation. -/
theorem ClientInv.resetToFull (h : w.ClientInv) (request : Option RemoteRequest) :
    ClientInv { w with client := w.client.resetToFull, request } := by
  cases hterm : w.client.term with
  | none =>
    have hsame : w.client.resetToFull = w.client := by
      rw [RemoteClient.resetToFull, hterm]
    exact ClientInv.mono h (grows_of_eq rfl) hsame
  | some text =>
    refine ⟨fun _ => ?_, fun text' htext => ?_⟩
    · simp [RemoteClient.resetToFull, hterm]
    · simp [RemoteClient.resetToFull, RemoteClient.destroyTerminal, hterm] at htext

theorem ScreenInv.startOver (h : w.ScreenInv) :
    ScreenInv { w with client := w.client.resetToFull } where
  sessions := SessionsInv.frame h.sessions rfl rfl rfl (Nat.le_refl _) (.inl rfl)
    fun r index hr hstage => .inl ⟨r, hr, hstage⟩
  request r hr := by
    have hold := h.request r hr
    cases hterm : w.client.term with
    | none =>
      have hsame : w.client.resetToFull = w.client := by
        rw [RemoteClient.resetToFull, hterm]
      exact RequestInv.mono hold (grows_of_eq rfl) hsame
    | some text =>
      have hgeneration : w.client.resetToFull.generation = w.client.generation + 1 := by
        simp [RemoteClient.resetToFull, RemoteClient.destroyTerminal, hterm]
      exact
        { generation := hgeneration ▸ hold.generation.trans (Nat.le_succ _)
          query := fun heq => absurd (heq.symm.trans_le hold.generation)
            (by show ¬ w.client.resetToFull.generation ≤ _; omega)
          since := hold.since
          answer := fun screen token hstage =>
            AnswerInv.mono (hold.answer screen token hstage) (grows_of_eq rfl) }
  client := ClientInv.mono (ClientInv.resetToFull h.client w.request) (grows_of_eq rfl) rfl

theorem ScreenInv.receive (h : w.ScreenInv) : w.receive.ScreenInv := by
  have hsessions : SessionsInv { w with request := none } :=
    SessionsInv.frame h.sessions rfl rfl rfl (Nat.le_refl _) (.inl rfl) (by simp)
  have hdone (c : RemoteClient) (hc : ClientInv { w with client := c, request := none }) :
      ScreenInv { w with client := c, request := none } :=
    ⟨SessionsInv.frame hsessions rfl rfl rfl (Nat.le_refl _) (.inl rfl) (by simp), by simp, hc⟩
  have hsame : ClientInv { w with request := none } :=
    ClientInv.mono h.client (grows_of_eq rfl) rfl
  unfold Remote.receive
  split
  next generation query screen token hr =>
    refine hdone _ ?_
    split
    next hcurrent =>
      have hrequest := h.request _ hr
      split
      next got hgot =>
        exact ClientInv.apply h.sessions h.client (hrequest.answer screen token rfl)
          (hrequest.query hcurrent) hgot
      next => exact hsame
    next => exact hsame
  next generation query gone hr =>
    refine hdone _ ?_
    split
    next => exact ClientInv.resetToFull h.client none
    next => exact hsame
  next => exact h

theorem ScreenInv.step (h : w.ScreenInv) {a : Action} (ha : w.admits a) : (w.step a).ScreenInv := by
  have hsessions := SessionsInv.step h.sessions ha
  have hgrows := grows_step w a
  cases a with
  | session _ _ | resize _ _ _ | otherId | respawn _ _ _ | close =>
    exact ScreenInv.frame h hsessions hgrows rfl rfl
  | restart epoch =>
    -- A restart fails the request, and the client keeps what it shows.
    refine ⟨hsessions, fun r hr => ?_, ClientInv.mono h.client hgrows rfl⟩
    obtain ⟨old, hold, rfl⟩ := Option.map_eq_some_iff.mp hr
    have hinv := RequestInv.mono (h.request old hold) hgrows rfl
    split
    · exact RequestInv.moveTo hinv _ (by simp)
    · exact hinv
  | poll =>
    simp only [Remote.step, Remote.poll] at hsessions ⊢
    split at hsessions
    · refine ScreenInv.withRequest h hsessions fun r hr => ?_
      obtain rfl := Option.some_inj.mp hr
      exact ⟨Nat.le_refl _, fun _ => rfl, fun q hq => ClientInv.since h.client hq, by simp⟩
    · exact h
  | lookup =>
    simp only [Remote.step, Remote.lookup] at hsessions ⊢
    split at hsessions
    next hr =>
      split at hsessions
      · refine ScreenInv.withRequest h hsessions fun r hr' => ?_
        obtain rfl := Option.some_inj.mp hr'
        exact RequestInv.moveTo (h.request _ hr) _ (by simp)
      · refine ScreenInv.withRequest h hsessions fun r hr' => ?_
        obtain rfl := Option.some_inj.mp hr'
        exact RequestInv.moveTo (h.request _ hr) _ (by simp)
    · exact h
  | answer =>
    simp only [Remote.step, Remote.answer] at hsessions ⊢
    split at hsessions
    next generation query index hr =>
      split at hsessions
      next s hs =>
        refine ScreenInv.withRequest h hsessions fun r hr' => ?_
        obtain rfl := Option.some_inj.mp hr'
        obtain ⟨s', hs', hepoch⟩ := h.sessions.found _ index hr rfl
        obtain rfl : s' = s := Option.some_inj.mp (hs'.symm.trans hs)
        -- The session was found before, and is answered from what it has by now.
        have hinv := h.request _ hr
        refine RequestInv.moveTo hinv _ fun screen token heq => ?_
        cases heq
        exact answerInv_screenHandler h.sessions (List.mem_of_getElem? hs) hepoch hinv.since
      · exact h
    · exact h
  | fail gone =>
    refine ScreenInv.withRequest h hsessions fun r hr => ?_
    obtain ⟨old, hold, rfl⟩ := Option.map_eq_some_iff.mp hr
    exact RequestInv.moveTo (h.request old hold) _ (by simp)
  | receive => exact ScreenInv.receive h
  | startOver => exact ScreenInv.startOver h

theorem screenInv_of_reach (h : machine.Reach Start w) : w.ScreenInv := by
  refine Machine.Reach.invariant (I := ScreenInv) ?_ (fun w a _ hinv ha => ScreenInv.step hinv ha) h
  rintro w ⟨epoch, rfl⟩
  refine ⟨?_, by simp, ⟨fun _ => rfl, by simp [RemoteClient.new]⟩⟩
  exact
    { reach := by simp
      epoch := List.mem_singleton_self _
      epochs := by simp
      ids := by simp
      distinct := List.nodup_nil
      current := by simp
      found := by simp }

/-- A client that keeps its screen appends to it, in the session that it follows. -/
theorem ScreenInv.appends (h : w.ScreenInv) (a : Action) {text text' : List UInt8}
    (htext : w.client.term = some text) (htext' : (w.step a).client.term = some text') :
    ∃ token delta, text' = text ++ delta ∧ w.client.state.session = some token ∧
      (w.step a).client.state.session = some token ∧
      (w.step a).client.state.since = w.client.state.since + delta.length ∧
      w.Holds token (w.client.state.since + delta.length) delta := by
  obtain ⟨hphase, -, token, hsession, modes, piece, -, hholds⟩ := h.client.shows text htext
  -- A client that is left alone appends nothing.
  have hkept (hclient : (w.step a).client = w.client) :
      ∃ token delta, text' = text ++ delta ∧ w.client.state.session = some token ∧
        (w.step a).client.state.session = some token ∧
        (w.step a).client.state.since = w.client.state.since + delta.length ∧
        w.Holds token (w.client.state.since + delta.length) delta := by
    rw [hclient] at htext' ⊢
    obtain rfl : text = text' := Option.some_inj.mp (htext.symm.trans htext')
    obtain ⟨s, hs, htoken, before, after, hstream, hlength⟩ := hholds
    refine ⟨token, [], (List.append_nil _).symm, hsession, hsession, rfl, s, hs, htoken,
      before ++ piece, after, ?_, ?_⟩
    · rw [List.append_nil, hstream]
    · rw [List.append_nil, hlength]
      rfl
  cases a with
  | session _ _ | resize _ _ _ | otherId | respawn _ _ _ | close | restart _ | fail _ =>
    exact hkept rfl
  | poll | lookup | answer =>
    refine hkept ?_
    simp only [Remote.step, Remote.poll, Remote.lookup, Remote.answer]
    repeat' split
    all_goals rfl
  | startOver => simp [Remote.step, RemoteClient.resetToFull, RemoteClient.destroyTerminal,
      htext] at htext'
  | receive =>
    cases hr : w.request with
    | none => exact hkept (by simp [Remote.step, Remote.receive, hr])
    | some r =>
      obtain ⟨generation, query, stage⟩ := r
      cases stage with
      | sent | found _ => exact hkept (by simp [Remote.step, Remote.receive, hr])
      | failed gone =>
        by_cases hstart : (generation = w.client.generation && gone) = true
        · simp [Remote.step, Remote.receive, hr, hstart, RemoteClient.resetToFull, htext,
            RemoteClient.destroyTerminal] at htext'
        · exact hkept (by simp [Remote.step, Remote.receive, hr, hstart])
      | answered screen token' =>
        by_cases hcurrent : generation = w.client.generation
        · cases hgot : parseScreenMeta screen token' with
          | none => exact hkept (by simp [Remote.step, Remote.receive, hr, hgot])
          | some got =>
            have hclient : (w.step .receive).client = w.client.apply got screen.bytes := by
              simp [Remote.step, Remote.receive, hr, hgot, hcurrent]
            have hinv := h.request _ hr
            obtain ⟨hend, -, hreset, hnamed⟩ := parseScreenMeta_eq hgot
            -- An answer that starts over or that does not fit leaves no screen.
            rcases apply_cases w.client got screen.bytes with
              ⟨hfull, -⟩ | ⟨hfull, -⟩ | ⟨hterm, -⟩ | ⟨-, hr, hsame, hterm, hstate⟩
            · rw [hphase] at hfull
              cases hfull
            · rw [hphase] at hfull
              cases hfull
            · rw [hclient, hterm] at htext'
              cases htext'
            · rw [hclient, hterm, htext] at htext'
              obtain ⟨hnext, hmore⟩ := holds_delta (hinv.answer _ _ rfl) (hinv.query hcurrent)
                (hreset ▸ hr)
              rw [hclient, hstate]
              exact ⟨token', screen.bytes, (Option.some_inj.mp htext').symm, hnamed ▸ hsame,
                hnamed ▸ hsame, hend.trans hnext, hmore⟩
        · exact hkept (by simp [Remote.step, Remote.receive, hr, hcurrent])

end RemoteLemmas

open RemoteLemmas in
/-- In every run, a token names one session. An answer without a reset is the piece of
the stream of that session that begins where the query says and ends at the end offset.
What the client shows is a mode preamble and a piece of the stream of the session that it
follows, up to its offset, and whatever it appends goes on there in the same stream. -/
theorem remote_screen {w : Remote} (h : Remote.machine.Reach Remote.Start w) :
    (∀ (i j : Nat) (s s' : RemoteSession), w.sessions[i]? = some s → w.sessions[j]? = some s' →
      s.token = s'.token → i = j) ∧
    (∀ r screen token, w.request = some r → r.stage = .answered screen token →
      screen.reset = false →
      ∃ q, r.query = some q ∧ q.session = token ∧
        screen.endOffset.toNat = q.since + screen.bytes.length ∧
        ∃ s ∈ w.sessions, s.token = token ∧ ∃ before after,
          s.stream = before ++ screen.bytes ++ after ∧ before.length = q.since) ∧
    (∀ text, w.client.term = some text →
      ∃ s ∈ w.sessions, w.client.state.session = some s.token ∧
        ∃ modes before piece after, text = decModePreamble modes ++ piece ∧
          s.stream = before ++ piece ++ after ∧
          (before ++ piece).length = w.client.state.since) ∧
    ∀ a, Remote.machine.admits w a → ∀ text text', w.client.term = some text →
      (w.step a).client.term = some text' →
      ∃ s ∈ w.sessions, w.client.state.session = some s.token ∧
        (w.step a).client.state.session = some s.token ∧
        ∃ before delta after, text' = text ++ delta ∧ s.stream = before ++ delta ++ after ∧
          before.length = w.client.state.since ∧
          (w.step a).client.state.since = w.client.state.since + delta.length := by
  have hinv := screenInv_of_reach h
  refine ⟨fun i j s s' hs hs' heq => SessionsInv.eq_of_token hinv.sessions hs hs' heq,
    fun r screen token hr hstage hdelta => ?_, fun text htext => ?_,
    fun a _ text text' htext htext' => ?_⟩
  · obtain ⟨q, hquery, htoken, hend, s, hs, hs', before, after, hstream, hlength⟩ :=
      ((hinv.request r hr).answer screen token hstage).2 hdelta
    refine ⟨q, hquery, htoken, hend, s, hs, hs', before, after, hstream, ?_⟩
    rw [List.length_append] at hlength
    omega
  · obtain ⟨-, -, token, hsession, modes, piece, heq, s, hs, rfl, before, after, hstream,
      hlength⟩ := hinv.client.shows text htext
    exact ⟨s, hs, hsession, modes, before, piece, after, heq, hstream, hlength⟩
  · obtain ⟨token, delta, heq, hsession, hsession', hsince, s, hs, rfl, before, after, hstream,
      hlength⟩ := ScreenInv.appends hinv a htext htext'
    refine ⟨s, hs, hsession, hsession', before, delta, after, heq, hstream, ?_, hsince⟩
    rw [List.length_append] at hlength
    omega

/-- The tab gets a session, a client draws its screen, more output follows, and the
client polls again. -/
def followed : List Remote.Action :=
  [.respawn (.new 16 8 4 (by decide)) 80 24, .session 0 .check, .session 0 (.read [65]),
    .session 0 .account, .poll, .lookup, .answer, .receive, .session 0 (.output false),
    .session 0 .rollback, .session 0 .check, .session 0 (.read [66]), .session 0 .account, .poll,
    .lookup, .answer]

/-- The second answer is on its way to the client. -/
def following : Remote := Remote.machine.run ⟨7, [7], 1, [], none, .new, none⟩ followed

/-- It is appended, where the client is. -/
theorem remote_screen_following :
    following.client.term = some [65] ∧ (following.step .receive).client.term = some [65, 66] ∧
      ∃ s ∈ following.sessions, following.client.state.session = some s.token ∧
        ∃ before delta after, ([65, 66] : List UInt8) = [65] ++ delta ∧
          s.stream = before ++ delta ++ after ∧ before.length = 1 := by
  have hstart : Remote.machine.Reach Remote.Start ⟨7, [7], 1, [], none, .new, none⟩ :=
    .init ⟨7, rfl⟩
  have hread (chunk : List UInt8) (h : chunk ≠ []) (w : Remote) :
      Remote.machine.admits w (.session 0 (.read chunk)) := fun _ _ => h
  have hrun : Remote.machine.Reach Remote.Start following := hstart.of_trace followed
    ⟨⟨⟨16, 8, 4, by decide, rfl⟩, by decide⟩, fun _ _ => trivial, hread _ (by decide) _,
      fun _ hs _ _ hscanned => by cases hs; cases hscanned; decide, trivial, trivial, trivial,
      trivial, fun _ _ => trivial, fun _ _ => trivial, fun _ _ => trivial, hread _ (by decide) _,
      fun _ hs _ _ hscanned => by cases hs; cases hscanned; decide, trivial, trivial, trivial,
      trivial⟩
  have hbefore : following.client.term = some [65] := by decide +kernel
  have hafter : (following.step .receive).client.term = some [65, 66] := by decide +kernel
  have hsince : following.client.state.since = 1 := by decide +kernel
  obtain ⟨s, hs, hsession, -, before, delta, after, heq, hstream, hlength, -⟩ :=
    (remote_screen hrun).2.2.2 .receive trivial _ _ hbefore hafter
  exact ⟨hbefore, hafter, s, hs, hsession, before, delta, after, heq, hstream, hsince ▸ hlength⟩

end Mast
