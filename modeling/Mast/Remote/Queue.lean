import Mast.Remote.Input
import Mast.Remote.Screen
import Mathlib.Data.List.Chain

/-!
# What the input queue keeps

Items are posted in the order in which they were queued, one at a time, and what waits behind a
failure is dropped. This holds in every run, whatever the shell of the tab does.

Results:
1. `client_step`: when the session of a view changes.
2. `remote_of_reach`: the server and the polls under a phone are those of `Remote`.
3. `lined_of_reach`: the line of a queue, in every run.
-/

namespace Mast

/-- The item is sent some time after the one before it. -/
def InputItem.Delayed (item : InputItem) : Prop := 0 < item.delayBeforeMs.getD 0

/-- An item with a delay belongs to the action of the one before it. -/
def InputItem.Follows (a b : InputItem) : Prop :=
  b.Delayed → a.number + 1 = b.number ∧ a.shown = b.shown

/-- A POST moves on. -/
structure InputPost.Moves (post post' : InputPost) : Prop where
  item : post'.item = post.item
  token : post'.token = post.token
  settled : post.settled = true → post'.settled = true
  written : post.stage = .written → post'.stage = .written

namespace Phone

/-- The items in order: those that were posted, and those that were not. -/
def line (p : Phone) : List InputItem := p.posts.map InputPost.item ++ p.waiting

/-- Every POST moves on, or stays where it is. -/
structure Moved (posts posts' : List InputPost) : Prop where
  length : posts'.length = posts.length
  moves : ∀ (i : Nat) (post' : InputPost), posts'[i]? = some post' →
    ∃ post, posts[i]? = some post ∧ post.Moves post'

/-- The last item that was posted was written. -/
def LastWritten (p : Phone) : Prop := ∃ post, p.posts.getLast? = some post ∧ post.stage = .written

/-- The posted items and some more, in order. -/
structure PostsInOrder (p : Phone) (more : List InputItem) : Prop where
  sorted : (p.posts.map InputPost.item ++ more).Pairwise fun a b => a.number < b.number
  follows : (p.posts.map InputPost.item ++ more).IsChain InputItem.Follows
  kept : ∀ n, n < p.count ↔
    (∃ item ∈ p.posts.map InputPost.item ++ more, item.number = n) ∨ n ∈ p.dropped
  dropped : ∀ n ∈ p.dropped, ∀ item ∈ p.posts.map InputPost.item ++ more, item.number ≠ n
  acked : ∀ (i : Nat) (post : InputPost), p.posts[i]? = some post → post.item.Delayed →
    ∃ j before, i = j + 1 ∧ p.posts[j]? = some before ∧ before.stage = .written

/-- Only the last POST may be one that is not settled, and the queue waits for it. -/
structure Engaged (p : Phone) : Prop where
  waits : ∀ (i : Nat) (post : InputPost), p.posts[i]? = some post → post.settled = false →
    ∃ item, p.pump = .sending item (some i)
  last : ∀ item i, p.pump = .sending item (some i) → i + 1 = p.posts.length
  rest : p.pump = .rest → p.items = []
  delaying : ∀ item, p.pump = .delaying item → p.LastWritten

structure Lined (p : Phone) : Prop where
  order : p.PostsInOrder p.waiting
  engaged : p.Engaged

/-- The controls are on, or will be, while there is a terminal. -/
def Ready (p : Phone) : Prop :=
  p.inputReady = true ∨ p.drawing = some p.remote.client.generation →
    p.remote.client.term.isSome = true

/-- What the queue does not touch. -/
def view (p : Phone) : Remote × Bool × Option Nat := (p.remote, p.inputReady, p.drawing)

/-- Nothing is on its way. -/
def Settled (p : Phone) : Prop := ∀ post ∈ p.posts, post.settled = true

end Phone

namespace InputLemmas

open Phone RemoteLemmas

variable {p p' : Phone} {w : Remote} {item : InputItem} {more : List InputItem} {i : Nat}

/-! ## The view -/

theorem resetToFull_cases (c : RemoteClient) : c.resetToFull = c ∨
    c.resetToFull.generation ≠ c.generation ∧ c.resetToFull.state.session = none := by
  unfold RemoteClient.resetToFull
  split
  · exact .inr ⟨Nat.succ_ne_self _, rfl⟩
  · exact .inl rfl

theorem apply_session (c : RemoteClient) (got : ScreenMeta) (bytes : List UInt8) :
    ((c.apply got bytes).generation = c.generation ∧
      (c.apply got bytes).state.session = c.state.session ∧
      (c.apply got bytes).term.isSome = c.term.isSome) ∨
    (c.apply got bytes).generation ≠ c.generation ∧
      ((c.apply got bytes).state.session = none ∨ c.state.phase = .full ∧ got.reset = true ∧
        (c.apply got bytes).state.session = some got.session) := by
  rw [RemoteClient.apply, ViewState.nextRequest]
  cases hphase : c.state.phase with
  | full =>
    cases hreset : got.reset with
    | true => exact .inr ⟨Nat.succ_ne_self _, .inr ⟨rfl, rfl, rfl⟩⟩
    | false => exact .inl ⟨rfl, rfl, rfl⟩
  | ready =>
    cases c.state.needsRecreate got with
    | true => exact .inr ⟨Nat.succ_ne_self _, .inl rfl⟩
    | false =>
      refine .inl ?_
      by_cases hbytes : bytes.length > 0
      · simp [hbytes, RemoteClient.write]
      · simp [hbytes]

/-- The session of a view changes with its terminal: it is given up, or a snapshot brings one. -/
theorem client_step (w : Remote) (a : Remote.Action) :
    ((w.step a).client.generation = w.client.generation ∧
      (w.step a).client.state.session = w.client.state.session ∧
      (w.step a).client.term.isSome = w.client.term.isSome) ∨
    (w.step a).client.generation ≠ w.client.generation ∧
      ((w.step a).client.state.session = none ∨ ∃ query screen token got, a = .receive ∧
        w.request = some ⟨w.client.generation, query, .answered screen token⟩ ∧
        parseScreenMeta screen token = some got ∧ w.client.state.phase = .full ∧
        got.reset = true ∧ (w.step a).client.state.session = some got.session) := by
  have hsame {w' : Remote} (h : w'.client = w.client) :
      w'.client.generation = w.client.generation ∧
      w'.client.state.session = w.client.state.session ∧
      w'.client.term.isSome = w.client.term.isSome := by
    rw [h]
    exact ⟨rfl, rfl, rfl⟩
  cases a with
  | startOver =>
    rcases resetToFull_cases w.client with heq | ⟨hne, hnone⟩
    · exact .inl (hsame heq)
    · exact .inr ⟨hne, .inl hnone⟩
  | receive =>
    rw [Remote.step, Remote.receive]
    split
    next generation query screen token hr =>
      split
      next hcurrent =>
        -- An answer that is applied brings a session only to a view that asked for all.
        subst hcurrent
        split
        next got hgot =>
          rcases apply_session w.client got screen.bytes with hsame | ⟨hne, hnone | hfull⟩
          · exact .inl hsame
          · exact .inr ⟨hne, .inl hnone⟩
          · exact .inr ⟨hne, .inr ⟨query, screen, token, got, rfl, hr, hgot, hfull⟩⟩
        next => exact .inl (hsame rfl)
      next => exact .inl (hsame rfl)
    next generation query gone hr =>
      split
      next =>
        rcases resetToFull_cases w.client with heq | ⟨hne, hnone⟩
        · exact .inl (hsame heq)
        · exact .inr ⟨hne, .inl hnone⟩
      next => exact .inl (hsame rfl)
    next => exact .inl (hsame rfl)
  | session _ _ | resize _ _ _ | otherId | respawn _ _ _ | close | restart _ | fail _ =>
    exact .inl (hsame rfl)
  | poll | lookup | answer =>
    refine .inl (hsame ?_)
    simp only [Remote.step, Remote.poll, Remote.lookup, Remote.answer]
    repeat' split
    all_goals rfl

/-! ## What the queue does not touch -/

theorem view_sendOne (p : Phone) (item : InputItem) : (p.sendOne item).view = p.view := by
  unfold sendOne
  split <;> rfl

theorem view_next (p : Phone) : p.next.view = p.view := by
  unfold next
  split
  · rfl
  · dsimp only
    split
    · rfl
    · exact view_sendOne _ _

theorem view_push (p : Phone) (items : List InputItem) : (p.push items).view = p.view := by
  unfold push
  dsimp only
  split
  · exact view_next _
  · rfl

theorem view_markSettled (p : Phone) : p.markSettled.view = p.view := by
  unfold markSettled
  split <;> rfl

theorem view_dropRest (p : Phone) : p.dropRest.view = p.view := view_markSettled p

theorem view_enqueue (p : Phone) (data : List String) : (p.enqueue data).view = p.view := by
  unfold enqueue
  split
  · rfl
  · exact view_push _ _

theorem view_timer (p : Phone) : p.timer.view = p.view := by
  unfold timer
  split
  · exact view_sendOne _ _
  · rfl

theorem view_settle (p : Phone) : p.settle.view = p.view := by
  unfold settle
  repeat' split
  · exact (view_next _).trans (view_markSettled p)
  all_goals rfl

theorem view_write (p : Phone) (i : Nat) (ok : Bool) : (p.write i ok).view = p.view := by
  unfold write
  repeat' split
  all_goals rfl

theorem remote_of_view {p p' : Phone} (h : p'.view = p.view) : p'.remote = p.remote :=
  congrArg Prod.fst h

theorem view_remoteStep (p : Phone) (a : Remote.Action) :
    (p.remoteStep a).view = (p.withRemote (p.remote.step a)).view := by
  cases a <;> rfl

theorem remote_withRemote (p : Phone) (w : Remote) : (p.withRemote w).remote = w := by
  unfold withRemote
  split <;> rfl

/-- The server and the polls go on, or nothing happens to them. -/
theorem remote_step (p : Phone) {a : Action} (ha : p.admits a) :
    (p.step a).remote = p.remote ∨
      ∃ b, Remote.machine.admits p.remote b ∧ (p.step a).remote = p.remote.step b := by
  cases a with
  | remote a =>
    exact .inr ⟨a, ha, (remote_of_view (view_remoteStep p a)).trans (remote_withRemote _ _)⟩
  | fail conflict =>
    rw [step, fail]
    split
    · split
      · refine .inr ⟨.startOver, trivial, (remote_withRemote _ _).trans ?_⟩
        rw [remote_of_view (view_dropRest p)]
      · exact .inl (remote_of_view (view_dropRest p))
    · exact .inl rfl
  | drawn => exact .inl rfl
  | enqueue data => exact .inl (remote_of_view (view_enqueue p data))
  | timer => exact .inl (remote_of_view (view_timer p))
  | resolve i => exact .inl rfl
  | write i ok => exact .inl (remote_of_view (view_write p i ok))
  | settle => exact .inl (remote_of_view (view_settle p))

/-- The server and the polls under a phone are those of `Remote`. -/
theorem remote_of_reach (h : Phone.machine.Reach Phone.Start p) :
    Remote.machine.Reach Remote.Start p.remote := by
  refine h.invariant (I := fun p => Remote.machine.Reach Remote.Start p.remote) ?_ ?_
  · rintro _ ⟨w, hw, rfl⟩
    exact .init hw
  · intro p a _ hreach ha
    rcases remote_step p ha with hsame | ⟨b, hb, hstep⟩
    · exact hsame ▸ hreach
    · exact hstep ▸ .step hreach hb

/-! ## When the controls are on -/

theorem ready_of_view (h : p.Ready) (hview : p'.view = p.view) : p'.Ready := by
  obtain ⟨hremote, hrest⟩ := Prod.mk.inj hview
  obtain ⟨hready, hdrawing⟩ := Prod.mk.inj hrest
  unfold Ready
  rw [hremote, hready, hdrawing]
  exact h

theorem ready_withRemote (h : p.Ready) (a : Remote.Action) :
    (p.withRemote (p.remote.step a)).Ready := by
  unfold withRemote
  rcases client_step p.remote a with ⟨hgeneration, -, hterm⟩ | ⟨hgeneration, -⟩
  · rw [if_pos hgeneration]
    intro hready
    show (p.remote.step a).client.term.isSome = true
    rw [hterm]
    exact h (hgeneration ▸ hready)
  · rw [if_neg hgeneration]
    rintro (hready | hdrawing)
    · exact absurd hready (by simp)
    · by_contra hterm
      simp [hterm] at hdrawing

theorem ready_step (h : p.Ready) (a : Action) : (p.step a).Ready := by
  cases a with
  | remote a => exact ready_of_view (ready_withRemote h a) (view_remoteStep p a)
  | fail conflict =>
    rw [step, fail]
    split
    · have hdropped := ready_of_view h (view_dropRest p)
      split
      · exact ready_withRemote hdropped .startOver
      · exact hdropped
    · exact h
  | drawn =>
    rintro (hready | hdrawing)
    · have hor : p.inputReady = true ∨ p.drawing = some p.remote.client.generation := by
        simpa [step, drawn] using hready
      exact h hor
    · exact absurd hdrawing (by simp [step, drawn])
  | enqueue data => exact ready_of_view h (view_enqueue p data)
  | timer => exact ready_of_view h (view_timer p)
  | resolve i => exact ready_of_view h rfl
  | write i ok => exact ready_of_view h (view_write p i ok)
  | settle => exact ready_of_view h (view_settle p)

theorem ready_of_reach (h : Phone.machine.Reach Phone.Start p) : p.Ready := by
  refine h.invariant (I := Ready) ?_ fun _ a _ hready _ => ready_step hready a
  rintro _ ⟨w, -, rfl⟩
  rintro (hready | hdrawing)
  · cases hready
  · cases hdrawing

/-! ## The items of an action -/

theorem length_itemsOf (p : Phone) (data : List String) :
    (p.itemsOf data).length = data.length := List.length_mapIdx

theorem getElem_itemsOf {data : List String} (h : i < (p.itemsOf data).length) :
    (p.itemsOf data)[i].number = p.count + i ∧ (p.itemsOf data)[i].shown = p.session ∧
      (i = 0 → ¬ (p.itemsOf data)[i].Delayed) := by
  have heq : (p.itemsOf data)[i] = ⟨data.get ⟨i, length_itemsOf p data ▸ h⟩,
      if i = 0 then none else some enterDelayMs, p.count + i, p.session⟩ := List.getElem_mapIdx ..
  rw [heq]
  refine ⟨rfl, rfl, fun hi => ?_⟩
  simp [InputItem.Delayed, hi]

theorem mem_itemsOf {data : List String} (h : item ∈ p.itemsOf data) :
    p.count ≤ item.number ∧ item.number < p.count + data.length ∧ item.shown = p.session := by
  obtain ⟨i, hi, rfl⟩ := List.getElem_of_mem h
  obtain ⟨hnumber, hshown, -⟩ := getElem_itemsOf hi
  rw [length_itemsOf] at hi
  exact ⟨by omega, by omega, hshown⟩

theorem exists_itemsOf {data : List String} {n : Nat} (h : p.count ≤ n)
    (hn : n < p.count + data.length) : ∃ item ∈ p.itemsOf data, item.number = n := by
  have hi : n - p.count < (p.itemsOf data).length := by
    rw [length_itemsOf]
    omega
  exact ⟨_, List.getElem_mem hi, by rw [(getElem_itemsOf hi).1]; omega⟩

theorem pairwise_itemsOf (p : Phone) (data : List String) :
    (p.itemsOf data).Pairwise fun a b => a.number < b.number := by
  refine List.pairwise_iff_getElem.mpr fun i j hi hj hlt => ?_
  rw [(getElem_itemsOf hi).1, (getElem_itemsOf hj).1]
  omega

theorem isChain_itemsOf (p : Phone) (data : List String) :
    (p.itemsOf data).IsChain InputItem.Follows := by
  refine List.isChain_iff_getElem.mpr fun i hi _ => ?_
  obtain ⟨hnumber, hshown, -⟩ := getElem_itemsOf (Nat.lt_of_succ_lt hi)
  obtain ⟨hnumber', hshown', -⟩ := getElem_itemsOf hi
  exact ⟨by omega, hshown.trans hshown'.symm⟩

theorem not_delayed_head {data : List String} (h : (p.itemsOf data).head? = some item) :
    ¬ item.Delayed := by
  rw [List.head?_eq_getElem?] at h
  obtain ⟨hi, rfl⟩ := List.getElem?_eq_some_iff.mp h
  exact (getElem_itemsOf hi).2.2 rfl

/-! ## POSTs move on -/

theorem InputPost.moves_refl (post : InputPost) : post.Moves post := ⟨rfl, rfl, id, id⟩

theorem moves_breakOff (post : InputPost) : post.Moves (breakOff post) := by
  unfold breakOff
  split
  next hfound => exact ⟨rfl, rfl, id, fun hwritten => by cases hfound.symm.trans hwritten⟩
  next => exact InputPost.moves_refl post

theorem moves_resolvePost (w : Remote) (post : InputPost) : post.Moves (resolvePost w post) := by
  unfold resolvePost
  split
  next hsent => exact ⟨rfl, rfl, id, fun hwritten => by cases hsent.symm.trans hwritten⟩
  next => exact InputPost.moves_refl post

theorem moved_refl (posts : List InputPost) : Moved posts posts :=
  ⟨rfl, fun _ post' h => ⟨post', h, InputPost.moves_refl post'⟩⟩

theorem moved_map {posts : List InputPost} {f : InputPost → InputPost}
    (h : ∀ post : InputPost, post.Moves (f post)) : Moved posts (posts.map f) := by
  refine ⟨List.length_map .., fun i post' hpost => ?_⟩
  rw [List.getElem?_map] at hpost
  obtain ⟨post, hat, rfl⟩ := Option.map_eq_some_iff.mp hpost
  exact ⟨post, hat, h post⟩

theorem moved_modify {posts : List InputPost} {i : Nat} {f : InputPost → InputPost}
    (h : ∀ post, posts[i]? = some post → post.Moves (f post)) : Moved posts (posts.modify i f) := by
  refine ⟨List.length_modify .., fun j post' hpost => ?_⟩
  rw [List.getElem?_modify] at hpost
  obtain ⟨post, hat, rfl⟩ := Option.map_eq_some_iff.mp hpost
  refine ⟨post, hat, ?_⟩
  by_cases heq : i = j
  · simp only [if_pos heq]
    exact h post (heq ▸ hat)
  · simp only [if_neg heq]
    exact InputPost.moves_refl post

theorem Moved.items {posts posts' : List InputPost} (h : Moved posts posts') :
    posts'.map InputPost.item = posts.map InputPost.item := by
  refine List.ext_getElem? fun i => ?_
  rw [List.getElem?_map, List.getElem?_map]
  cases hat : posts'[i]? with
  | some post' =>
    obtain ⟨post, hpost, hmoves⟩ := h.moves i post' hat
    rw [hpost, Option.map_some, Option.map_some, hmoves.item]
  | none =>
    rw [List.getElem?_eq_none_iff, h.length] at hat
    rw [List.getElem?_eq_none hat]

theorem Moved.forth {posts posts' : List InputPost} (h : Moved posts posts') {post : InputPost}
    (hpost : posts[i]? = some post) : ∃ post', posts'[i]? = some post' ∧ post.Moves post' := by
  obtain ⟨hlt, -⟩ := List.getElem?_eq_some_iff.mp hpost
  obtain ⟨post', hpost'⟩ : ∃ post', posts'[i]? = some post' :=
    ⟨_, List.getElem?_eq_getElem (h.length ▸ hlt)⟩
  obtain ⟨old, hold, hmoves⟩ := h.moves i post' hpost'
  obtain rfl := Option.some_inj.mp (hpost.symm.trans hold)
  exact ⟨post', hpost', hmoves⟩

/-- An item with a delay follows the one that was posted before it. -/
theorem PostsInOrder.follows_post (h : p.PostsInOrder more) {post before : InputPost}
    (hpost : p.posts[i + 1]? = some post) (hbefore : p.posts[i]? = some before) :
    before.item.Follows post.item := by
  obtain ⟨hi, rfl⟩ := List.getElem?_eq_some_iff.mp hpost
  obtain ⟨-, rfl⟩ := List.getElem?_eq_some_iff.mp hbefore
  have hchain := List.isChain_iff_getElem.mp h.follows.left_of_append i
    (by rwa [List.length_map])
  rwa [List.getElem_map, List.getElem_map] at hchain

theorem Moved.lastWritten (h : Moved p.posts p'.posts) (hlast : p.LastWritten) :
    p'.LastWritten := by
  obtain ⟨post, hpost, hwritten⟩ := hlast
  rw [List.getLast?_eq_getElem?] at hpost
  obtain ⟨post', hpost', hmoves⟩ := Moved.forth h hpost
  exact ⟨post', by rw [List.getLast?_eq_getElem?, h.length, hpost'], hmoves.written hwritten⟩

theorem PostsInOrder.moved (h : p.PostsInOrder more) (hmoved : Moved p.posts p'.posts)
    (hcount : p'.count = p.count) (hdropped : p'.dropped = p.dropped) : p'.PostsInOrder more where
  sorted := Moved.items hmoved ▸ h.sorted
  follows := Moved.items hmoved ▸ h.follows
  kept := by
    rw [Moved.items hmoved, hcount, hdropped]
    exact h.kept
  dropped := by
    rw [Moved.items hmoved, hdropped]
    exact h.dropped
  acked i post hpost hdelayed := by
    obtain ⟨old, hold, hmoves⟩ := hmoved.moves i post hpost
    obtain ⟨j, before, hj, hbefore, hwritten⟩ := h.acked i old hold (hmoves.item ▸ hdelayed)
    obtain ⟨before', hbefore', hmoves'⟩ := Moved.forth hmoved hbefore
    exact ⟨j, before', hj, hbefore', hmoves'.written hwritten⟩

/-- A step of POSTs on their way, or of the view. -/
theorem Lined.moved (h : p.Lined) (hmoved : Moved p.posts p'.posts) (hitems : p'.items = p.items)
    (hpump : p'.pump = p.pump) (hcount : p'.count = p.count) (hdropped : p'.dropped = p.dropped) :
    p'.Lined where
  order := by
    have hwaiting : p'.waiting = p.waiting := by
      unfold waiting
      rw [hitems, hpump]
    exact hwaiting ▸ PostsInOrder.moved h.order hmoved hcount hdropped
  engaged :=
    { waits := fun i post' hpost' hnot => by
        obtain ⟨post, hpost, hmoves⟩ := hmoved.moves i post' hpost'
        refine hpump ▸ h.engaged.waits i post hpost (Bool.eq_false_iff.mpr fun hsettled => ?_)
        exact absurd (hmoves.settled hsettled) (by simp [hnot])
      last := fun item i hsending => hmoved.length ▸ h.engaged.last item i (hpump ▸ hsending)
      rest := fun hrest => hitems ▸ h.engaged.rest (hpump ▸ hrest)
      delaying := fun item hdelaying =>
        Moved.lastWritten hmoved (h.engaged.delaying item (hpump ▸ hdelaying)) }

/-! ## The queue -/

/-- The next item is posted; one with a delay is, behind the item before it. -/
theorem PostsInOrder.post (h : p.PostsInOrder (item :: more)) (hitem : item.Delayed → p.LastWritten)
    {token : String} (hposts : p'.posts = p.posts ++ [⟨item, token, .sent, false⟩])
    (hcount : p'.count = p.count) (hdropped : p'.dropped = p.dropped) : p'.PostsInOrder more := by
  have hline :
      p'.posts.map InputPost.item ++ more = p.posts.map InputPost.item ++ item :: more := by
    rw [hposts, List.map_append, List.map_singleton, List.append_assoc, List.singleton_append]
  refine ⟨hline ▸ h.sorted, hline ▸ h.follows, ?_, ?_, fun i post hpost hdelayed => ?_⟩
  · rw [hline, hcount, hdropped]
    exact h.kept
  · rw [hline, hdropped]
    exact h.dropped
  · rw [hposts] at hpost ⊢
    rcases Nat.lt_or_ge i p.posts.length with hlt | hge
    · rw [List.getElem?_append_left hlt] at hpost
      obtain ⟨j, before, rfl, hbefore, hwritten⟩ := h.acked i post hpost hdelayed
      exact ⟨j, before, rfl, by rwa [List.getElem?_append_left (Nat.lt_of_succ_lt hlt)], hwritten⟩
    · obtain ⟨hi, -⟩ := List.getElem?_eq_some_iff.mp hpost
      rw [List.length_append, List.length_singleton] at hi
      obtain rfl : i = p.posts.length := by omega
      rw [List.getElem?_concat_length] at hpost
      obtain rfl := Option.some_inj.mp hpost
      obtain ⟨last, hlast, hwritten⟩ := hitem hdelayed
      rw [List.getLast?_eq_getElem?] at hlast
      obtain ⟨hlt, -⟩ := List.getElem?_eq_some_iff.mp hlast
      exact ⟨p.posts.length - 1, last, by omega, by rwa [List.getElem?_append_left hlt], hwritten⟩

/-- The items of an action are queued. -/
theorem PostsInOrder.append (h : p.PostsInOrder more) (data : List String)
    (hposts : p'.posts = p.posts)
    (hcount : p'.count = p.count + data.length) (hdropped : p'.dropped = p.dropped) :
    p'.PostsInOrder (more ++ p.itemsOf data) := by
  -- Numbers are given in order, so the new ones are above all others.
  have hbelow {a : InputItem} (ha : a ∈ p.posts.map InputPost.item ++ more) : a.number < p.count :=
    (h.kept a.number).mpr (.inl ⟨a, ha, rfl⟩)
  refine ⟨?_, ?_, fun n => ?_, fun n hn a ha => ?_, hposts ▸ h.acked⟩
  · rw [hposts, ← List.append_assoc]
    exact List.pairwise_append.mpr ⟨h.sorted, pairwise_itemsOf p data,
      fun a ha b hb => (hbelow ha).trans_le (mem_itemsOf hb).1⟩
  · rw [hposts, ← List.append_assoc]
    refine h.follows.append (isChain_itemsOf p data) fun a _ b hb hdelayed => ?_
    exact absurd hdelayed (not_delayed_head hb)
  · rw [hposts, hcount, hdropped, ← List.append_assoc]
    constructor
    · intro hn
      by_cases hold : n < p.count
      · rcases (h.kept n).mp hold with ⟨a, ha, heq⟩ | hdropped
        · exact .inl ⟨a, List.mem_append_left _ ha, heq⟩
        · exact .inr hdropped
      · obtain ⟨a, ha, heq⟩ := exists_itemsOf (Nat.le_of_not_lt hold) hn
        exact .inl ⟨a, List.mem_append_right _ ha, heq⟩
    · rintro (⟨a, ha, rfl⟩ | hn)
      · rcases List.mem_append.mp ha with hold | hnew
        · exact (hbelow hold).trans_le (Nat.le_add_right _ _)
        · exact (mem_itemsOf hnew).2.1
      · exact ((h.kept n).mpr (.inr hn)).trans_le (Nat.le_add_right _ _)
  · rw [hdropped] at hn
    rw [hposts, ← List.append_assoc] at ha
    rcases List.mem_append.mp ha with hold | hnew
    · exact h.dropped n hn a hold
    · have hlt : n < p.count := (h.kept n).mpr (.inr hn)
      have hle := (mem_itemsOf hnew).1
      omega

/-- What was not posted is dropped. -/
theorem PostsInOrder.drop (h : p.PostsInOrder more) (hmoved : Moved p.posts p'.posts)
    (hcount : p'.count = p.count)
    (hdropped : p'.dropped = p.dropped ++ more.map InputItem.number) : p'.PostsInOrder [] := by
  have hsorted := List.pairwise_append.mp h.sorted
  refine ⟨?_, ?_, fun n => ?_, fun n hn a ha => ?_, ?_⟩
  · rw [List.append_nil, Moved.items hmoved]
    exact hsorted.1
  · rw [List.append_nil, Moved.items hmoved]
    exact h.follows.left_of_append
  · rw [List.append_nil, Moved.items hmoved, hcount, hdropped, h.kept n, List.mem_append,
      List.mem_map]
    constructor
    · rintro (⟨a, ha, rfl⟩ | hn)
      · rcases List.mem_append.mp ha with hposted | hmore
        · exact .inl ⟨a, hposted, rfl⟩
        · exact .inr (.inr ⟨a, hmore, rfl⟩)
      · exact .inr (.inl hn)
    · rintro (⟨a, ha, rfl⟩ | hn | ⟨a, ha, rfl⟩)
      · exact .inl ⟨a, List.mem_append_left _ ha, rfl⟩
      · exact .inr hn
      · exact .inl ⟨a, List.mem_append_right _ ha, rfl⟩
  · rw [List.append_nil, Moved.items hmoved] at ha
    rw [hdropped] at hn
    rcases List.mem_append.mp hn with hold | hnew
    · exact h.dropped n hold a (List.mem_append_left _ ha)
    · obtain ⟨b, hb, rfl⟩ := List.mem_map.mp hnew
      exact Nat.ne_of_lt (hsorted.2.2 a ha b hb)
  · have hposts : PostsInOrder { p with posts := p'.posts } more :=
      PostsInOrder.moved h hmoved rfl rfl
    exact hposts.acked

theorem lined_sendOne (horder : p.PostsInOrder (item :: p.items)) (hsettled : p.Settled)
    (hitem : item.Delayed → p.LastWritten) : (p.sendOne item).Lined := by
  unfold sendOne
  split
  · refine ⟨PostsInOrder.moved horder (moved_refl _) rfl rfl, ?_⟩
    refine ⟨fun i post hpost hnot => ?_, nofun, nofun, nofun⟩
    exact absurd (hsettled post (List.mem_of_getElem? hpost)) (by simp [hnot])
  · refine ⟨PostsInOrder.post horder hitem rfl rfl rfl, fun i post hpost hnot => ?_, ?_, nofun,
      nofun⟩
    · rcases Nat.lt_or_ge i p.posts.length with hlt | hge
      · rw [List.getElem?_append_left hlt] at hpost
        exact absurd (hsettled post (List.mem_of_getElem? hpost)) (by simp [hnot])
      · obtain ⟨hi, -⟩ := List.getElem?_eq_some_iff.mp hpost
        rw [List.length_append, List.length_singleton] at hi
        obtain rfl : i = p.posts.length := by omega
        exact ⟨item, rfl⟩
    · rintro _ _ ⟨⟩
      show _ = (p.posts ++ [_]).length
      rw [List.length_append, List.length_singleton]

/-- The loop goes on: an item with a delay is behind one that was written. -/
theorem lined_next (horder : p.PostsInOrder p.items) (hsettled : p.Settled)
    (hhead : ∀ item, p.items.head? = some item → item.Delayed → p.LastWritten) :
    p.next.Lined := by
  have hno (i : Nat) (post : InputPost) (hpost : p.posts[i]? = some post)
      (hnot : post.settled = false) : False :=
    absurd (hsettled post (List.mem_of_getElem? hpost)) (by simp [hnot])
  unfold next
  split
  next hnil =>
    refine ⟨PostsInOrder.moved horder (moved_refl _) rfl rfl, ?_⟩
    exact ⟨fun i post hpost hnot => (hno i post hpost hnot).elim, nofun, fun _ => hnil, nofun⟩
  next item rest hcons =>
    rw [hcons] at horder hhead
    have hrest : PostsInOrder { p with items := rest } (item :: rest) :=
      PostsInOrder.moved horder (moved_refl _) rfl rfl
    dsimp only
    split
    next hdelayed =>
      refine ⟨PostsInOrder.moved hrest (moved_refl _) rfl rfl, ?_⟩
      refine ⟨fun i post hpost hnot => (hno i post hpost hnot).elim, nofun, nofun, fun _ _ => ?_⟩
      exact hhead item rfl hdelayed
    next hnot => exact lined_sendOne hrest hsettled fun hdelayed => absurd hdelayed hnot

theorem moved_markSettled (p : Phone) : Moved p.posts p.markSettled.posts := by
  unfold markSettled
  split
  · exact moved_modify fun post _ => ⟨rfl, rfl, fun _ => rfl, id⟩
  · exact moved_refl _

theorem settled_of_pump (h : p.Engaged) (hpump : ∀ item i, p.pump ≠ .sending item (some i)) :
    p.Settled := by
  intro post hpost
  by_contra hnot
  obtain ⟨i, hi⟩ := List.getElem?_of_mem hpost
  obtain ⟨item, hsending⟩ := h.waits i post hi (Bool.eq_false_iff.mpr hnot)
  exact hpump item i hsending

/-- The POST that the queue waited for was the last one that was not settled. -/
theorem settled_markSettled (h : p.Engaged) : p.markSettled.Settled := by
  intro post hpost
  by_contra hnot
  obtain ⟨i, hi⟩ := List.getElem?_of_mem hpost
  obtain ⟨old, hold, hmoves⟩ := (moved_markSettled p).moves i post hi
  have holdNot : old.settled = false := Bool.eq_false_iff.mpr fun hsettled =>
    hnot (hmoves.settled hsettled)
  obtain ⟨item', hsending⟩ := h.waits i old hold holdNot
  rw [markSettled, hsending] at hi
  dsimp only at hi
  rw [List.getElem?_modify_eq, hold] at hi
  exact hnot (Option.some_inj.mp hi ▸ rfl)

theorem waiting_append (p : Phone) (count : Nat) (items : List InputItem) :
    waiting { p with count, items := p.items ++ items } = p.waiting ++ items := by
  unfold waiting
  cases p.pump with
  | sending item post => cases post <;> rfl
  | rest | delaying _ => rfl

theorem lined_enqueue (h : p.Lined) (data : List String) : (p.enqueue data).Lined := by
  unfold enqueue push
  split
  · exact h
  dsimp only
  split
  next hrest =>
    have hwaiting : p.waiting = p.items := by
      rw [waiting, hrest]
    have hsettled : p.Settled := settled_of_pump h.engaged fun _ _ => hrest ▸ nofun
    refine lined_next (hwaiting ▸ PostsInOrder.append h.order data rfl rfl rfl) hsettled
      fun item hhead hdelayed => ?_
    rw [h.engaged.rest hrest] at hhead
    exact absurd hdelayed (not_delayed_head hhead)
  next hbusy =>
    refine ⟨?_, h.engaged.waits, h.engaged.last, fun hrest => absurd hrest hbusy,
      h.engaged.delaying⟩
    rw [waiting_append]
    exact PostsInOrder.append h.order data rfl rfl rfl

theorem lined_timer (h : p.Lined) : p.timer.Lined := by
  unfold timer
  split
  next item hdelaying =>
    have hwaiting : p.waiting = item :: p.items := by
      rw [waiting, hdelaying]
    exact lined_sendOne (hwaiting ▸ h.order)
      (settled_of_pump h.engaged fun _ _ => hdelaying ▸ nofun)
      fun _ => h.engaged.delaying item hdelaying
  next => exact h

/-- The queue goes on behind a POST that was written. -/
theorem lined_settle (h : p.Lined) : p.settle.Lined := by
  unfold settle
  split
  next item i hsending =>
    split
    next post hpost =>
      split
      next hwritten =>
        have hwaiting : p.waiting = p.items := by
          rw [waiting, hsending]
        have hlast : p.LastWritten := by
          refine ⟨post, ?_, hwritten⟩
          rw [List.getLast?_eq_getElem?, ← h.engaged.last item i hsending, Nat.add_sub_cancel,
            hpost]
        have hitems : p.markSettled.items = p.items := by
          rw [markSettled, hsending]
        refine lined_next ?_ (settled_markSettled h.engaged) fun _ _ _ =>
          Moved.lastWritten (moved_markSettled p) hlast
        rw [hitems, ← hwaiting]
        refine PostsInOrder.moved h.order (moved_markSettled p) ?_ ?_ <;> rw [markSettled, hsending]
      next => exact h
    next => exact h
  next => exact h

theorem lined_dropRest (h : p.Lined) : p.dropRest.Lined := by
  have hcount : p.markSettled.count = p.count := by
    unfold markSettled
    split <;> rfl
  refine ⟨PostsInOrder.drop h.order (moved_markSettled p) hcount rfl,
    fun i post hpost hnot => ?_, nofun, fun _ => rfl, nofun⟩
  exact absurd (settled_markSettled h.engaged post (List.mem_of_getElem? hpost)) (by simp [hnot])

/-- The queue of a view is not touched by its terminal. -/
theorem lined_withRemote (h : p.Lined) (w : Remote) : (p.withRemote w).Lined := by
  refine Lined.moved h ?_ ?_ ?_ ?_ ?_ <;> unfold withRemote
  · split <;> exact moved_refl _
  all_goals split <;> rfl

theorem lined_step (h : p.Lined) (a : Action) : (p.step a).Lined := by
  cases a with
  | remote a =>
    rw [step]
    unfold remoteStep
    dsimp only
    split
    · exact Lined.moved (lined_withRemote h _) (moved_map moves_breakOff) rfl rfl rfl rfl
    · exact lined_withRemote h _
  | drawn => exact Lined.moved h (moved_refl _) rfl rfl rfl rfl
  | enqueue data => exact lined_enqueue h data
  | timer => exact lined_timer h
  | resolve i =>
    exact Lined.moved h (moved_modify fun post _ => moves_resolvePost p.remote post) rfl rfl rfl rfl
  | write i ok =>
    rw [step]
    unfold write
    split
    next => exact h
    next post hpost =>
      split
      next index hfound =>
        refine Lined.moved h (moved_modify fun post' hpost' => ?_) rfl rfl rfl rfl
        obtain rfl := Option.some_inj.mp (hpost.symm.trans hpost')
        exact ⟨rfl, rfl, id, fun hwritten => by cases hfound.symm.trans hwritten⟩
      next => exact h
  | settle => exact lined_settle h
  | fail conflict =>
    rw [step]
    unfold fail
    split
    · split
      · exact lined_withRemote (lined_dropRest h) _
      · exact lined_dropRest h
    · exact h

theorem dropped_sendOne (p : Phone) (item : InputItem) :
    (p.sendOne item).dropped = p.dropped := by
  unfold sendOne
  split <;> rfl

theorem dropped_next (p : Phone) : p.next.dropped = p.dropped := by
  unfold next
  split
  · rfl
  · dsimp only
    split
    · rfl
    · exact dropped_sendOne _ _

theorem dropped_markSettled (p : Phone) : p.markSettled.dropped = p.dropped := by
  unfold markSettled
  split <;> rfl

theorem dropped_withRemote (p : Phone) (w : Remote) : (p.withRemote w).dropped = p.dropped := by
  unfold withRemote
  split <;> rfl

/-- What is dropped stays so. -/
theorem dropped_step {n : Nat} (h : n ∈ p.dropped) (a : Action) : n ∈ (p.step a).dropped := by
  -- Only `dropRest` changes what is dropped, and it adds to it.
  have hsame {p' : Phone} (heq : p'.dropped = p.dropped) : n ∈ p'.dropped := heq ▸ h
  cases a with
  | remote a =>
    rw [step]
    unfold remoteStep
    dsimp only
    split <;> exact hsame (dropped_withRemote _ _)
  | drawn | resolve _ => exact h
  | enqueue data =>
    rw [step]
    unfold enqueue push
    split
    · exact h
    · dsimp only
      split
      · exact hsame (dropped_next _)
      · exact h
  | timer =>
    rw [step]
    unfold timer
    split
    · exact hsame (dropped_sendOne _ _)
    · exact h
  | write i ok =>
    rw [step]
    unfold write
    repeat' split
    all_goals exact h
  | settle =>
    rw [step]
    unfold settle
    repeat' split
    · exact hsame ((dropped_next _).trans (dropped_markSettled p))
    all_goals exact h
  | fail conflict =>
    have hdropped : n ∈ p.dropRest.dropped := List.mem_append_left _ h
    rw [step]
    unfold fail
    split
    · split
      · exact (dropped_withRemote _ _).symm ▸ hdropped
      · exact hdropped
    · exact h

/-- What waits behind an item that fails is dropped. -/
theorem dropped_fail {at' : Option Nat} (hsending : p.pump = .sending item at')
    (conflict : Bool) {behind : InputItem} (h : behind ∈ p.items) :
    behind.number ∈ (p.step (.fail conflict)).dropped := by
  have hwaiting : behind ∈ p.waiting := by
    rw [waiting, hsending]
    cases at' with
    | none => exact List.mem_cons_of_mem _ h
    | some i => exact h
  have hdropped : behind.number ∈ p.dropRest.dropped :=
    List.mem_append_right _ (List.mem_map_of_mem hwaiting)
  rw [step, fail, hsending]
  dsimp only
  split
  · exact (dropped_withRemote _ _).symm ▸ hdropped
  · exact hdropped

theorem lined_of_reach (h : Phone.machine.Reach Phone.Start p) : p.Lined := by
  refine h.invariant (I := Lined) ?_ fun _ a _ hlined _ => lined_step hlined a
  rintro _ ⟨w, -, rfl⟩
  refine ⟨⟨.nil, .nil, fun n => ?_, nofun, fun i _ hpost => ?_⟩, fun i _ hpost => ?_, nofun,
    fun _ => rfl, nofun⟩
  · simp [waiting]
  all_goals exact absurd (hpost.symm.trans List.getElem?_nil) (by simp)

end InputLemmas

end Mast
