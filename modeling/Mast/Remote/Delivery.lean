import Mast.Remote.Queue

/-!
# Where input from the phone goes

A POST is written only to the session that it names. The token of a POST is the one of the view
at the time of the POST, so an item may follow the view to another shell. Where no session
overtakes an item, it goes to the session that was shown when it was queued, or nowhere.

Results:
1. `served_of_reach`: what is written, and to which session, in every run.
2. `steady_of_reach`: the tokens of POSTs, where no session overtakes an item.
3. `input_delivered`: both, and the order of the items.
-/

namespace Mast

namespace Phone

/-- The server writes what is posted to the sessions that are named. -/
structure Served (p : Phone) : Prop where
  known : ∀ post ∈ p.posts, ∃ s ∈ p.remote.sessions, s.token = post.token
  found : ∀ post ∈ p.posts, ∀ index, post.stage = .found index →
    ∃ s, p.remote.sessions[index]? = some s ∧ s.token = post.token
  written : ∀ e ∈ p.written, ∃ post ∈ p.posts, post.item = e.2 ∧
    ∃ s, p.remote.sessions[e.1]? = some s ∧ s.token = post.token
  reached : ∀ post ∈ p.posts, post.stage = .written → ∃ index, (index, post.item) ∈ p.written

/-- Items are posted, and will be, with the session that was shown. -/
structure Steady (p : Phone) : Prop where
  named : ∀ post ∈ p.posts, post.item.shown = some post.token
  shown : ∀ item ∈ p.pending, ∀ token, p.session = some token → item.shown = some token

/-- POSTs stay what they are, and some get to another stage. -/
structure Restaged (posts posts' : List InputPost) (J : InputPost → PostStage → Prop) : Prop where
  was : ∀ post' ∈ posts', ∃ post ∈ posts, post'.item = post.item ∧ post'.token = post.token ∧
    (post'.stage = post.stage ∨ J post post'.stage)
  kept : ∀ post ∈ posts, ∃ post' ∈ posts', post'.item = post.item ∧ post'.token = post.token

/-- The queue takes a step of its own, and posts an item at most, with the token of the view. -/
structure Sends (p p' : Phone) (C : InputItem → Prop) : Prop where
  remote : p'.remote = p.remote
  written : p'.written = p.written
  posts : ∀ post' ∈ p'.posts, (∃ post ∈ p.posts, post'.item = post.item ∧
      post'.token = post.token ∧ post'.stage = post.stage) ∨
    C post'.item ∧ p.session = some post'.token ∧ post'.stage = .sent
  kept : ∀ post ∈ p.posts, ∃ post' ∈ p'.posts, post'.item = post.item ∧ post'.token = post.token
  pending : ∀ item ∈ p'.pending, C item

end Phone

namespace InputLemmas

open Phone RemoteLemmas

variable {p p' : Phone} {w w' : Remote} {item : InputItem} {i : Nat} {C : InputItem → Prop}

/-! ## A step of the queue -/

theorem sendOne_cases (p : Phone) (item : InputItem) :
    p.session = none ∧ p.sendOne item = { p with pump := .sending item none } ∨
    ∃ token, p.session = some token ∧ p.sendOne item = { p with
      posts := p.posts ++ [⟨item, token, .sent, false⟩]
      pump := .sending item (some p.posts.length) } := by
  unfold sendOne
  split
  next hnone => exact .inl ⟨hnone, rfl⟩
  next token hsome => exact .inr ⟨token, hsome, rfl⟩

theorem mem_pending_iff : item ∈ p.pending ↔ p.doomed = false ∧ item ∈ p.waiting := by
  unfold pending
  split <;> simp [*]

theorem mem_pending (h : item ∈ p.pending) : item ∈ p.waiting := (mem_pending_iff.mp h).2

theorem sends_sendOne (p : Phone) (item : InputItem) :
    p.Sends (p.sendOne item) (· ∈ item :: p.items) := by
  rcases sendOne_cases p item with ⟨-, heq⟩ | ⟨token, htoken, heq⟩ <;> rw [heq]
  · exact ⟨rfl, rfl, fun post h => .inl ⟨post, h, rfl, rfl, rfl⟩, fun post h => ⟨post, h, rfl, rfl⟩,
      fun _ h => mem_pending h⟩
  · refine ⟨rfl, rfl, fun post h => ?_, fun post h => ⟨post, List.mem_append_left _ h, rfl, rfl⟩,
      fun _ h => List.mem_cons_of_mem _ (mem_pending h)⟩
    rcases List.mem_append.mp h with hold | hnew
    · exact .inl ⟨post, hold, rfl, rfl, rfl⟩
    · obtain rfl := List.mem_singleton.mp hnew
      exact .inr ⟨List.mem_cons_self, htoken, rfl⟩

theorem sends_next (p : Phone) : p.Sends p.next (· ∈ p.items) := by
  have hrefl (p' : Phone) (hremote : p'.remote = p.remote) (hwritten : p'.written = p.written)
      (hposts : p'.posts = p.posts) (hpending : ∀ item ∈ p'.waiting, item ∈ p.items) :
      p.Sends p' (· ∈ p.items) :=
    ⟨hremote, hwritten, fun post h => .inl ⟨post, hposts ▸ h, rfl, rfl, rfl⟩,
      fun post h => ⟨post, hposts ▸ h, rfl, rfl⟩, fun item h => hpending item (mem_pending h)⟩
  unfold next
  split
  next hnil => exact hrefl _ rfl rfl rfl fun _ h => h
  next item rest hcons =>
    dsimp only
    split
    · refine hrefl _ rfl rfl rfl fun _ h => ?_
      rw [hcons]
      exact h
    · have hsends := sends_sendOne { p with items := rest } item
      rw [hcons]
      exact ⟨hsends.remote, hsends.written, hsends.posts, hsends.kept, hsends.pending⟩

theorem Sends.imp {C' : InputItem → Prop} (h : p.Sends p' C) (himp : ∀ item, C item → C' item) :
    p.Sends p' C' :=
  ⟨h.remote, h.written, fun post hpost => (h.posts post hpost).imp id (And.imp_left (himp _)),
    h.kept, fun item hitem => himp item (h.pending item hitem)⟩

theorem restaged_modify {posts : List InputPost} {J : InputPost → PostStage → Prop}
    {f : InputPost → InputPost}
    (hf : ∀ post, (f post).item = post.item ∧ (f post).token = post.token)
    (hstage : ∀ post, posts[i]? = some post →
      (f post).stage = post.stage ∨ J post (f post).stage) :
    Restaged posts (posts.modify i f) J := by
  refine ⟨fun post' hpost' => ?_, fun post hpost => ?_⟩
  · obtain ⟨j, hj⟩ := List.getElem?_of_mem hpost'
    rw [List.getElem?_modify] at hj
    obtain ⟨post, hpost, rfl⟩ := Option.map_eq_some_iff.mp hj
    refine ⟨post, List.mem_of_getElem? hpost, ?_⟩
    split
    next heq => exact ⟨(hf post).1, (hf post).2, hstage post (heq ▸ hpost)⟩
    next => exact ⟨rfl, rfl, .inl rfl⟩
  · obtain ⟨j, hj⟩ := List.getElem?_of_mem hpost
    have hat : (posts.modify i f)[j]? = some (if i = j then f post else post) := by
      rw [List.getElem?_modify, hj]
      split <;> rfl
    refine ⟨_, List.mem_of_getElem? hat, ?_⟩
    split
    · exact hf post
    · exact ⟨rfl, rfl⟩

theorem restaged_map {posts : List InputPost} {J : InputPost → PostStage → Prop}
    {f : InputPost → InputPost}
    (hf : ∀ post, (f post).item = post.item ∧ (f post).token = post.token)
    (hstage : ∀ post, (f post).stage = post.stage ∨ J post (f post).stage) :
    Restaged posts (posts.map f) J := by
  refine ⟨fun post' hpost' => ?_, fun post hpost => ⟨_, List.mem_map_of_mem hpost, hf post⟩⟩
  obtain ⟨post, hpost, rfl⟩ := List.mem_map.mp hpost'
  exact ⟨post, hpost, (hf post).1, (hf post).2, hstage post⟩

theorem restaged_markSettled (p : Phone) :
    Restaged p.posts p.markSettled.posts fun _ _ => False := by
  unfold markSettled
  split
  · exact restaged_modify (fun _ => ⟨rfl, rfl⟩) fun _ _ => .inl rfl
  · exact ⟨fun post h => ⟨post, h, rfl, rfl, .inl rfl⟩, fun post h => ⟨post, h, rfl, rfl⟩⟩

theorem Sends.of_markSettled (h : p.markSettled.Sends p' C) : p.Sends p' C := by
  have hview := remote_of_view (view_markSettled p)
  have hsession : p.markSettled.session = p.session := by rw [session, session, hview]
  have hwritten : p.markSettled.written = p.written := by
    unfold markSettled
    split <;> rfl
  refine ⟨h.remote.trans hview, h.written.trans hwritten, fun post' hpost' => ?_,
    fun post hpost => ?_, h.pending⟩
  · have hmarked := restaged_markSettled p
    rcases h.posts post' hpost' with ⟨mid, hmid, hitem, htoken, hstage⟩ | hnew
    · obtain ⟨post, hpost, hitem', htoken', hstage' | hnever⟩ := hmarked.was mid hmid
      · exact .inl ⟨post, hpost, hitem.trans hitem', htoken.trans htoken', hstage.trans hstage'⟩
      · exact hnever.elim
    · exact .inr (hsession ▸ hnew)
  · obtain ⟨mid, hmid, hitem, htoken⟩ := (restaged_markSettled p).kept post hpost
    obtain ⟨post', hpost', hitem', htoken'⟩ := h.kept mid hmid
    exact ⟨post', hpost', hitem'.trans hitem, htoken'.trans htoken⟩

theorem sends_refl (p : Phone) : p.Sends p (· ∈ p.pending) :=
  ⟨rfl, rfl, fun post h => .inl ⟨post, h, rfl, rfl, rfl⟩, fun post h => ⟨post, h, rfl, rfl⟩,
    fun _ h => h⟩

theorem sends_enqueue (p : Phone) (data : List String) :
    p.Sends (p.enqueue data) fun item => item ∈ p.pending ∨ item.shown = p.session := by
  unfold enqueue push
  split
  · exact Sends.imp (sends_refl p) fun _ h => .inl h
  dsimp only
  split
  next hrest =>
    have hpending : p.pending = p.items := by
      rw [pending, doomed, waiting, hrest]
      rfl
    have hnext := sends_next { p with
      count := p.count + data.length
      items := p.items ++ p.itemsOf data }
    refine Sends.imp ⟨hnext.remote, hnext.written, hnext.posts, hnext.kept, hnext.pending⟩ ?_
    intro item hitem
    rcases List.mem_append.mp hitem with hold | hnew
    · exact .inl (hpending ▸ hold)
    · exact .inr (mem_itemsOf hnew).2.2
  next hbusy =>
    refine ⟨rfl, rfl, fun post h => .inl ⟨post, h, rfl, rfl, rfl⟩,
      fun post h => ⟨post, h, rfl, rfl⟩, fun item hitem => ?_⟩
    obtain ⟨hdoomed, hwaiting⟩ := mem_pending_iff.mp hitem
    rw [waiting_append] at hwaiting
    rcases List.mem_append.mp hwaiting with hold | hnew
    · exact .inl (mem_pending_iff.mpr ⟨hdoomed, hold⟩)
    · exact .inr (mem_itemsOf hnew).2.2

/-- An item behind a delay may be posted. -/
theorem sends_timer (p : Phone) : p.Sends p.timer (· ∈ p.pending) := by
  unfold timer
  split
  next item hdelaying =>
    have hpending : p.pending = item :: p.items := by
      rw [pending, doomed, waiting, hdelaying]
      rfl
    rw [hpending]
    exact sends_sendOne p item
  next => exact sends_refl p

/-- Behind a POST that was written, too. -/
theorem sends_settle (p : Phone) : p.Sends p.settle (· ∈ p.pending) := by
  unfold settle
  split
  next item i hsending =>
    split
    next post hpost =>
      split
      next hwritten =>
        have hdoomed : p.doomed = false := by
          rw [doomed, hsending]
          simp [hpost, dooms, hwritten]
        have hitems : p.markSettled.items = p.pending := by
          rw [pending, hdoomed, waiting, markSettled, hsending]
          rfl
        exact hitems ▸ Sends.of_markSettled (sends_next p.markSettled)
      next => exact sends_refl p
    next => exact sends_refl p
  next => exact sends_refl p

theorem sends_dropRest (p : Phone) : p.Sends p.dropRest (· ∈ p.pending) := by
  refine Sends.of_markSettled ⟨rfl, rfl, fun post h => .inl ⟨post, h, rfl, rfl, rfl⟩,
    fun post h => ⟨post, h, rfl, rfl⟩, fun item hitem => ?_⟩
  cases mem_pending hitem

/-! ## What the server writes -/

theorem Grows.token (h : w.Grows w') {index : Nat} {token : String}
    (hs : ∃ s, w.sessions[index]? = some s ∧ s.token = token) :
    ∃ s, w'.sessions[index]? = some s ∧ s.token = token := by
  obtain ⟨s, hs, rfl⟩ := hs
  obtain ⟨s', hs', hepoch, hid, -⟩ := h index s hs
  exact ⟨s', hs', by rw [RemoteSession.token, hepoch, hid]; rfl⟩

theorem Grows.known (h : w.Grows w') {token : String} (hs : ∃ s ∈ w.sessions, s.token = token) :
    ∃ s ∈ w'.sessions, s.token = token := by
  obtain ⟨s, hmem, htoken⟩ := hs
  obtain ⟨index, hindex⟩ := List.getElem?_of_mem hmem
  obtain ⟨s', hs', htoken'⟩ := Grows.token h ⟨s, hindex, htoken⟩
  exact ⟨s', List.mem_of_getElem? hs', htoken'⟩

/-- A view shows a session that there is. -/
theorem known_of_session (h : w.ScreenInv) {token : String}
    (hsession : w.client.state.session = some token) : ∃ s ∈ w.sessions, s.token = token := by
  cases hterm : w.client.term with
  | none =>
    rw [h.client.nothing hterm] at hsession
    cases hsession
  | some text =>
    obtain ⟨-, -, token', hsession', modes, piece, -, s, hs, htoken, -⟩ :=
      h.client.shows text hterm
    obtain rfl := Option.some_inj.mp (hsession.symm.trans hsession')
    exact ⟨s, hs, htoken⟩

theorem served_grows (h : p.Served) (hgrows : p.remote.Grows p'.remote)
    (hposts : p'.posts = p.posts) (hwritten : p'.written = p.written) : p'.Served where
  known post hpost := Grows.known hgrows (h.known post (hposts ▸ hpost))
  found post hpost index hfound := Grows.token hgrows (h.found post (hposts ▸ hpost) index hfound)
  written e he := by
    obtain ⟨post, hpost, hitem, hs⟩ := h.written e (hwritten ▸ he)
    exact ⟨post, hposts ▸ hpost, hitem, Grows.token hgrows hs⟩
  reached post hpost hstage := hwritten ▸ h.reached post (hposts ▸ hpost) hstage

theorem served_sends (h : p.Served) (hscreen : p.remote.ScreenInv) (hsends : p.Sends p' C) :
    p'.Served where
  known post' hpost' := by
    rw [hsends.remote]
    rcases hsends.posts post' hpost' with ⟨post, hpost, -, htoken, -⟩ | ⟨-, hsession, -⟩
    · exact htoken ▸ h.known post hpost
    · exact known_of_session hscreen hsession
  found post' hpost' index hfound := by
    rw [hsends.remote]
    rcases hsends.posts post' hpost' with ⟨post, hpost, -, htoken, hstage⟩ | ⟨-, -, hsent⟩
    · exact htoken ▸ h.found post hpost index (hstage ▸ hfound)
    · cases hsent.symm.trans hfound
  written e he := by
    obtain ⟨post, hpost, hitem, hs⟩ := h.written e (hsends.written ▸ he)
    obtain ⟨post', hpost', hitem', htoken⟩ := hsends.kept post hpost
    exact ⟨post', hpost', hitem'.trans hitem, by rwa [hsends.remote, htoken]⟩
  reached post' hpost' hstage' := by
    rw [hsends.written]
    rcases hsends.posts post' hpost' with ⟨post, hpost, hitem, -, hstage⟩ | ⟨-, -, hsent⟩
    · exact hitem ▸ h.reached post hpost (hstage ▸ hstage')
    · cases hsent.symm.trans hstage'

/-- A POST is found to be for the session that it names. -/
theorem resolveInputSession_found (h : w.SessionsInv) {token : String} {index : Nat}
    (hfound : resolveInputSession w token = .found index) :
    ∃ s, w.sessions[index]? = some s ∧ s.token = token := by
  unfold resolveInputSession at hfound
  split at hfound
  next => cases hfound
  next at' hcurrent =>
    obtain ⟨s, hs, hepoch⟩ := h.current at' hcurrent
    rw [hs] at hfound
    dsimp only at hfound
    split at hfound
    next htoken =>
      obtain rfl := PostStage.found.inj hfound
      exact ⟨s, hs, by rw [htoken, RemoteSession.token, hepoch]⟩
    next => cases hfound

theorem resolveInputSession_ne_written (w : Remote) (token : String) :
    resolveInputSession w token ≠ .written := by
  unfold resolveInputSession
  repeat' split
  all_goals nofun

/-- POSTs get on at the server, and one may be written. -/
theorem served_restaged (h : p.Served) {J : InputPost → PostStage → Prop}
    (hremote : p'.remote = p.remote) (hposts : Restaged p.posts p'.posts J)
    (hfound : ∀ post index, J post (.found index) →
      ∃ s, p.remote.sessions[index]? = some s ∧ s.token = post.token)
    (hreached : ∀ post, J post .written → ∃ index, (index, post.item) ∈ p'.written)
    (hmore : ∀ e ∈ p.written, e ∈ p'.written)
    (hwritten : ∀ e ∈ p'.written, e ∈ p.written ∨ ∃ post ∈ p.posts, post.item = e.2 ∧
      ∃ s, p.remote.sessions[e.1]? = some s ∧ s.token = post.token) : p'.Served where
  known post' hpost' := by
    obtain ⟨post, hpost, -, htoken, -⟩ := hposts.was post' hpost'
    rw [hremote, htoken]
    exact h.known post hpost
  found post' hpost' index hstage' := by
    obtain ⟨post, hpost, -, htoken, hstage⟩ := hposts.was post' hpost'
    rw [hremote, htoken]
    rcases hstage with hsame | hnew
    · exact h.found post hpost index (hsame ▸ hstage')
    · exact hfound post index (hstage' ▸ hnew)
  written e he := by
    have hold : ∃ post ∈ p.posts, post.item = e.2 ∧
        ∃ s, p.remote.sessions[e.1]? = some s ∧ s.token = post.token :=
      (hwritten e he).elim (h.written e) id
    obtain ⟨post, hpost, hitem, hs⟩ := hold
    obtain ⟨post', hpost', hitem', htoken⟩ := hposts.kept post hpost
    exact ⟨post', hpost', hitem'.trans hitem, by rwa [hremote, htoken]⟩
  reached post' hpost' hstage' := by
    obtain ⟨post, hpost, hitem, -, hstage⟩ := hposts.was post' hpost'
    rw [hitem]
    rcases hstage with hsame | hnew
    · obtain ⟨index, hindex⟩ := h.reached post hpost (hsame ▸ hstage')
      exact ⟨index, hmore _ hindex⟩
    · exact hreached post (hstage' ▸ hnew)

theorem served_withRemote (h : p.Served) (a : Remote.Action) :
    (p.withRemote (p.remote.step a)).Served := by
  refine served_grows h ?_ ?_ ?_
  · rw [remote_withRemote]
    exact grows_step p.remote a
  all_goals
    unfold withRemote
    split <;> rfl

theorem served_step (h : p.Served) (hscreen : p.remote.ScreenInv) (a : Action) :
    (p.step a).Served := by
  cases a with
  | remote a =>
    rw [step]
    unfold remoteStep
    dsimp only
    -- A restart of the app breaks the POSTs off that it works on.
    split
    · refine served_restaged (served_withRemote h _) (J := fun _ stage => stage = .broken) rfl
        (restaged_map (fun post => ?_) fun post => ?_) (fun _ _ heq => by cases heq)
        (fun _ heq => by cases heq) (fun _ he => he) fun _ he => .inl he
      · exact ⟨(moves_breakOff post).item, (moves_breakOff post).token⟩
      · unfold breakOff
        split
        · exact .inr rfl
        · exact .inl rfl
    · exact served_withRemote h _
  | drawn => exact served_grows h (grows_of_eq rfl) rfl rfl
  | enqueue data => exact served_sends h hscreen (sends_enqueue p data)
  | timer => exact served_sends h hscreen (sends_timer p)
  | resolve i =>
    refine served_restaged h rfl
      (J := fun post stage => stage = resolveInputSession p.remote post.token)
      (restaged_modify (fun post => ?_) fun post _ => ?_)
      (fun post index heq => resolveInputSession_found hscreen.sessions heq.symm)
      (fun post heq => ?_) (fun _ he => he) fun _ he => .inl he
    · exact ⟨(moves_resolvePost p.remote post).item, (moves_resolvePost p.remote post).token⟩
    · unfold resolvePost
      split
      · exact .inr rfl
      · exact .inl rfl
    · exact (resolveInputSession_ne_written _ _ heq.symm).elim
  | write i ok =>
    rw [step]
    unfold write
    split
    next => exact h
    next post hpost =>
      split
      next index hfound =>
        refine served_restaged h
          (J := fun post' stage => post' = post ∧ (stage = .written ∨ stage = .broken)) rfl
          (restaged_modify (fun post => ⟨rfl, rfl⟩) fun post' hpost' => .inr ⟨?_, ?_⟩) ?_ ?_
          (fun _ he => List.mem_append_left _ he) fun e he => ?_
        · exact Option.some_inj.mp (hpost'.symm.trans hpost)
        · cases ok
          · exact .inr rfl
          · exact .inl rfl
        · rintro _ index' ⟨-, hnever | hnever⟩ <;> cases hnever
        · rintro _ ⟨rfl, -⟩
          exact ⟨index, List.mem_append_right _ (List.mem_singleton_self _)⟩
        · -- What is written now goes to the session that the server found for it.
          rcases List.mem_append.mp he with hold | hnew
          · exact .inl hold
          · obtain rfl := List.mem_singleton.mp hnew
            have hmem := List.mem_of_getElem? hpost
            exact .inr ⟨post, hmem, rfl, h.found post hmem index hfound⟩
      next => exact h
  | settle => exact served_sends h hscreen (sends_settle p)
  | fail conflict =>
    rw [step]
    unfold fail
    split
    · have hdropped := served_sends h hscreen (sends_dropRest p)
      split
      · exact served_withRemote hdropped _
      · exact hdropped
    · exact h

/-! ## Where no session overtakes an item -/

/-- The tab has the session it had, or a new one. -/
theorem current_step (w : Remote) (a : Remote.Action) {index : Nat}
    (h : (w.step a).current = some index) :
    w.current = some index ∨ index = w.sessions.length := by
  cases a with
  | respawn inner cols rows => exact .inr (Option.some_inj.mp h).symm
  | close | restart _ => cases h
  | session _ _ | resize _ _ _ | otherId | fail _ | startOver => exact .inl h
  | poll | lookup | answer | receive =>
    refine .inl (h ▸ ?_)
    simp only [Remote.step, Remote.poll, Remote.lookup, Remote.answer, Remote.receive]
    repeat' split
    all_goals rfl

theorem resolveInputSession_refused (h : w.SessionsInv) {token : String} :
    resolveInputSession w token = .refused ↔
      ∀ index s, w.current = some index → w.sessions[index]? = some s → s.token ≠ token := by
  unfold resolveInputSession
  split
  next hnone => simp [hnone]
  next at' hcurrent =>
    obtain ⟨s, hs, hepoch⟩ := h.current at' hcurrent
    rw [hs]
    dsimp only
    split
    next heq => simp [hcurrent, hs, RemoteSession.token, hepoch, heq]
    next hne =>
      simp only [hcurrent, true_iff]
      rintro index s' ⟨⟩ hs' htoken
      obtain rfl := Option.some_inj.mp (hs.symm.trans hs')
      exact hne (by rw [← htoken, RemoteSession.token, hepoch])

/-- A session that the tab does not have it never has again. -/
theorem refused_step (h : w.SessionsInv) {a : Remote.Action} (ha : w.admits a) {token : String}
    (hknown : ∃ s ∈ w.sessions, s.token = token)
    (hrefused : resolveInputSession w token = .refused) :
    resolveInputSession (w.step a) token = .refused := by
  have hafter := SessionsInv.step h ha
  rw [resolveInputSession_refused hafter]
  rw [resolveInputSession_refused h] at hrefused
  intro index s' hcurrent hs' htoken
  obtain ⟨s, hmem, hknown⟩ := hknown
  obtain ⟨j, hj⟩ := List.getElem?_of_mem hmem
  obtain ⟨s'', hs'', htoken''⟩ := Grows.token (grows_step w a) ⟨s, hj, hknown⟩
  obtain rfl := SessionsInv.eq_of_token hafter hs' hs'' (htoken.trans htoken''.symm)
  rcases current_step w a hcurrent with hold | rfl
  · exact hrefused index s hold hj hknown
  · exact absurd hj (by simp)

theorem dooms_step (h : w.SessionsInv) {a : Remote.Action} (ha : w.admits a) {post : InputPost}
    (hknown : ∃ s ∈ w.sessions, s.token = post.token) (hdooms : dooms w post = true) :
    dooms (w.step a) post = true := by
  unfold dooms at hdooms ⊢
  split at hdooms
  · simp only [decide_eq_true_eq] at hdooms ⊢
    exact refused_step h ha hknown hdooms
  all_goals exact hdooms

/-- A queue that can only fail stays one. -/
theorem doomed_of_dooms (hpump : p'.pump = p.pump)
    (hposts : ∀ (i : Nat) (post : InputPost), p.posts[i]? = some post → dooms p.remote post = true →
      ∃ post', p'.posts[i]? = some post' ∧ dooms p'.remote post' = true)
    (h : p.doomed = true) : p'.doomed = true := by
  unfold doomed at h ⊢
  rw [hpump]
  split at h
  next => rfl
  next item i hsending =>
    cases hpost : p.posts[i]? with
    | none => simp [hpost] at h
    | some post =>
      obtain ⟨post', hpost', hdooms'⟩ := hposts i post hpost (by simpa [hpost] using h)
      rw [hpost']
      exact hdooms'
  next => cases h

theorem pending_of_doomed (hitems : p'.items = p.items) (hpump : p'.pump = p.pump)
    (hdoomed : p.doomed = true → p'.doomed = true) (h : item ∈ p'.pending) : item ∈ p.pending := by
  obtain ⟨hnot, hwaiting⟩ := mem_pending_iff.mp h
  refine mem_pending_iff.mpr ⟨Bool.eq_false_iff.mpr fun htrue => ?_, ?_⟩
  · exact absurd (hdoomed htrue) (by simp [hnot])
  · unfold waiting at hwaiting ⊢
    rwa [hitems, hpump] at hwaiting

theorem steady_sends (h : p.Steady)
    (hsends : p.Sends p' fun item => item ∈ p.pending ∨ item.shown = p.session) : p'.Steady where
  named post' hpost' := by
    rcases hsends.posts post' hpost' with ⟨post, hpost, hitem, htoken, -⟩ | ⟨hmay, hsession, -⟩
    · rw [hitem, htoken]
      exact h.named post hpost
    · rcases hmay with hpending | hshown
      · exact h.shown _ hpending _ hsession
      · exact hshown.trans hsession
  shown item hitem token htoken := by
    rw [session, hsends.remote] at htoken
    rcases hsends.pending item hitem with hpending | hshown
    · exact h.shown item hpending token htoken
    · exact hshown.trans htoken

/-- A step that posts nothing, and that no session overtakes. -/
theorem steady_frame (h : p.Steady)
    (hposts : ∀ post' ∈ p'.posts, ∃ post ∈ p.posts, post'.item = post.item ∧
      post'.token = post.token)
    (hpending : ∀ item ∈ p'.pending, item ∈ p.pending)
    (hsession : ∀ token, p'.session = some token → p.session = some token ∨
      ∀ item ∈ p.pending, item.shown = some token) : p'.Steady where
  named post' hpost' := by
    obtain ⟨post, hpost, hitem, htoken⟩ := hposts post' hpost'
    rw [hitem, htoken]
    exact h.named post hpost
  shown item hitem token htoken :=
    (hsession token htoken).elim (h.shown item (hpending item hitem) token)
      fun hall => hall item (hpending item hitem)

/-- POSTs get on at the server. -/
theorem steady_moved (h : p.Steady) (hremote : p'.remote = p.remote) (hitems : p'.items = p.items)
    (hpump : p'.pump = p.pump) (hposts : Moved p.posts p'.posts)
    (hdooms : ∀ (i : Nat) (post : InputPost), p.posts[i]? = some post →
      dooms p.remote post = true →
        ∃ post', p'.posts[i]? = some post' ∧ dooms p.remote post' = true) :
    p'.Steady := by
  refine steady_frame h (fun post' hpost' => ?_) (fun item => pending_of_doomed hitems hpump ?_)
    fun token htoken => .inl ?_
  · obtain ⟨i, hi⟩ := List.getElem?_of_mem hpost'
    obtain ⟨post, hpost, hmoves⟩ := hposts.moves i post' hi
    exact ⟨post, List.mem_of_getElem? hpost, hmoves.item, hmoves.token⟩
  · exact doomed_of_dooms hpump fun i post hpost h => hremote ▸ hdooms i post hpost h
  · rwa [session, hremote] at htoken

theorem dooms_breakOff {post : InputPost} (h : dooms w post = true) :
    dooms w (breakOff post) = true := by
  unfold breakOff
  split
  · rfl
  · exact h

theorem dooms_resolvePost {post : InputPost} (h : dooms w post = true) :
    dooms w (resolvePost w post) = true := by
  unfold resolvePost
  split
  next hsent =>
    rw [dooms, hsent] at h
    have hrefused : resolveInputSession w post.token = .refused := of_decide_eq_true h
    rw [dooms, hrefused]
  next => exact h

theorem steady_withRemote (h : p.Steady) (hserved : p.Served) (hsessions : p.remote.SessionsInv)
    {a : Remote.Action} (ha : p.remote.admits a)
    (hsession : ∀ token, (p.remote.step a).client.state.session = some token →
      p.session = some token ∨ ∀ item ∈ p.pending, item.shown = some token) :
    (p.withRemote (p.remote.step a)).Steady := by
  have hposts : (p.withRemote (p.remote.step a)).posts = p.posts := by
    unfold withRemote
    split <;> rfl
  have hqueue : (p.withRemote (p.remote.step a)).items = p.items ∧
      (p.withRemote (p.remote.step a)).pump = p.pump := by
    unfold withRemote
    split <;> exact ⟨rfl, rfl⟩
  refine steady_frame h (fun post hpost => ⟨post, hposts ▸ hpost, rfl, rfl⟩) (fun item hitem => ?_)
    fun token htoken => hsession token ?_
  · refine pending_of_doomed hqueue.1 hqueue.2 (doomed_of_dooms hqueue.2 ?_) hitem
    intro i post hpost hdooms
    refine ⟨post, hposts ▸ hpost, ?_⟩
    rw [remote_withRemote]
    exact dooms_step hsessions ha (hserved.known post (List.mem_of_getElem? hpost)) hdooms
  · rwa [session, remote_withRemote] at htoken

/-- The session of a view changes to one that overtakes no item. -/
theorem session_step {a : Remote.Action} (hnot : ¬ p.Overtakes (.remote a)) {token : String}
    (htoken : (p.remote.step a).client.state.session = some token) :
    p.session = some token ∨ ∀ item ∈ p.pending, item.shown = some token := by
  rcases client_step p.remote a with ⟨-, hsame, -⟩ | ⟨-, hnone | hreceive⟩
  · exact .inl (hsame.symm.trans htoken)
  · cases hnone.symm.trans htoken
  · obtain ⟨query, screen, token', got, rfl, hr, hgot, hphase, hreset, hsession⟩ := hreceive
    obtain rfl := Option.some_inj.mp (hsession.symm.trans htoken)
    refine .inr fun item hitem => ?_
    by_contra hne
    exact hnot ⟨query, screen, token', got, hr, hgot, hphase, hreset, item, hitem, hne⟩

theorem steady_step (h : p.Steady) (hserved : p.Served) (hscreen : p.remote.ScreenInv)
    {a : Action} (ha : p.admits a) (hnot : ¬ p.Overtakes a) : (p.step a).Steady := by
  cases a with
  | remote a =>
    have hview := steady_withRemote h hserved hscreen.sessions ha fun token => session_step hnot
    rw [step]
    unfold remoteStep
    dsimp only
    split
    · refine steady_moved hview rfl rfl rfl (moved_map moves_breakOff) fun i post hpost hdooms => ?_
      exact ⟨_, by rw [List.getElem?_map, hpost]; rfl, dooms_breakOff hdooms⟩
    · exact hview
  | drawn =>
    exact steady_frame h (fun post hpost => ⟨post, hpost, rfl, rfl⟩) (fun _ hitem => hitem)
      fun _ => .inl
  | enqueue data => exact steady_sends h (sends_enqueue p data)
  | timer => exact steady_sends h (Sends.imp (sends_timer p) fun _ => .inl)
  | resolve i =>
    refine steady_moved h rfl rfl rfl (moved_modify fun post _ => moves_resolvePost p.remote post)
      fun j post hpost hdooms => ?_
    rw [step]
    unfold resolve
    dsimp only
    rw [List.getElem?_modify, hpost]
    refine ⟨_, rfl, ?_⟩
    split
    · exact dooms_resolvePost hdooms
    · exact hdooms
  | write i ok =>
    rw [step]
    unfold write
    split
    next => exact h
    next post hpost =>
      split
      next index hfound =>
        refine steady_moved h rfl rfl rfl (moved_modify fun post' hpost' => ?_)
          fun j post' hpost' hdooms => ?_
        · obtain rfl := Option.some_inj.mp (hpost.symm.trans hpost')
          exact ⟨rfl, rfl, id, fun hwritten => by cases hfound.symm.trans hwritten⟩
        · -- The POST that is written was found, so the doomed one is another.
          have hne : i ≠ j := by
            rintro rfl
            obtain rfl := Option.some_inj.mp (hpost.symm.trans hpost')
            rw [dooms, hfound] at hdooms
            cases hdooms
          refine ⟨post', ?_, hdooms⟩
          show (p.posts.modify i _)[j]? = some post'
          rw [List.getElem?_modify, hpost']
          simp [hne]
      next => exact h
  | settle => exact steady_sends h (Sends.imp (sends_settle p) fun _ => .inl)
  | fail conflict =>
    rw [step]
    unfold fail
    split
    · have hdropped : p.dropRest.Steady :=
        steady_sends h (Sends.imp (sends_dropRest p) fun _ => .inl)
      split
      · have hremote : p.dropRest.remote = p.remote := remote_of_view (view_dropRest p)
        exact steady_withRemote hdropped (served_sends hserved hscreen (sends_dropRest p))
          (hremote ▸ hscreen.sessions) (a := .startOver) trivial fun token => session_step id
      · exact hdropped
    · exact h

theorem reach_of_steady (h : Phone.steadyMachine.Reach Phone.Start p) :
    Phone.machine.Reach Phone.Start p := by
  refine h.invariant (I := Phone.machine.Reach Phone.Start) (fun _ => .init) ?_
  intro p a _ hreach ha
  exact hreach.step ha.1

theorem served_of_reach (h : Phone.machine.Reach Phone.Start p) : p.Served := by
  refine h.invariant (I := Served) ?_ fun p a hreach hserved _ =>
    served_step hserved (screenInv_of_reach (remote_of_reach hreach)) a
  rintro _ ⟨w, -, rfl⟩
  exact ⟨nofun, nofun, nofun, nofun⟩

theorem steady_of_reach (h : Phone.steadyMachine.Reach Phone.Start p) : p.Steady := by
  refine h.invariant (I := Steady) ?_ fun p a hreach hsteady ha => ?_
  · rintro _ ⟨w, -, rfl⟩
    exact ⟨nofun, fun _ h => absurd (mem_pending h) (by simp [waiting])⟩
  · have hreach := reach_of_steady hreach
    exact steady_step hsteady (served_of_reach hreach)
      (screenInv_of_reach (remote_of_reach hreach)) ha.1 ha.2

end InputLemmas

/-- Input goes where it belongs: items are posted in order, one at a time, with the token of the
session that was shown when they were queued, and written to that session; an item with a delay
is written behind the one before it, and what was dropped is not posted. -/
structure Phone.Delivered (p : Phone) : Prop where
  shown : p.inputReady = true → p.session.isSome = true
  named : ∀ post ∈ p.posts, post.item.shown = some post.token
  written : ∀ e ∈ p.written, ∃ s, p.remote.sessions[e.1]? = some s ∧ e.2.shown = some s.token
  kept : ∀ n < p.count, (∃ post ∈ p.posts, post.item.number = n) ∨
    (∃ item ∈ p.waiting, item.number = n) ∨ n ∈ p.dropped
  ordered : p.posts.Pairwise fun a b => a.item.number < b.item.number
  one : ∀ post ∈ p.posts.dropLast, post.settled = true
  dropped : ∀ n ∈ p.dropped, ∀ post ∈ p.posts, post.item.number ≠ n
  behind : ∀ e ∈ p.written, e.2.Delayed →
    ∃ item, (e.1, item) ∈ p.written ∧ item.number + 1 = e.2.number

namespace InputLemmas

theorem delivered_of_reach {p : Phone} (h : Phone.steadyMachine.Reach Phone.Start p) :
    p.Delivered := by
  have hreach := reach_of_steady h
  have hlined := lined_of_reach hreach
  have hserved := served_of_reach hreach
  have hsteady := steady_of_reach h
  have hscreen := RemoteLemmas.screenInv_of_reach (remote_of_reach hreach)
  -- A post has the token of the view when it was queued, and the server obeys it.
  have hwritten (e : Nat × InputItem) (he : e ∈ p.written) :
      ∃ s, p.remote.sessions[e.1]? = some s ∧ e.2.shown = some s.token := by
    obtain ⟨post, hpost, hitem, s, hs, htoken⟩ := hserved.written e he
    exact ⟨s, hs, by rw [← hitem, hsteady.named post hpost, htoken]⟩
  refine
    { shown := fun hready => ?_
      named := hsteady.named
      written := hwritten
      kept := fun n hn => ?_
      ordered := ?_
      one := fun post hpost => ?_
      dropped := fun n hn post hpost =>
        hlined.order.dropped n hn post.item (List.mem_append_left _ (List.mem_map_of_mem hpost))
      behind := fun e he hdelayed => ?_ }
  · have hterm := ready_of_reach hreach (.inl hready)
    obtain ⟨text, htext⟩ := Option.isSome_iff_exists.mp hterm
    obtain ⟨-, -, token, hsession, -⟩ := hscreen.client.shows text htext
    rw [Phone.session, hsession]
    rfl
  · rcases (hlined.order.kept n).mp hn with ⟨item, hitem, rfl⟩ | hdropped
    · rcases List.mem_append.mp hitem with hposted | hwaiting
      · obtain ⟨post, hpost, rfl⟩ := List.mem_map.mp hposted
        exact .inl ⟨post, hpost, rfl⟩
      · exact .inr (.inl ⟨item, hwaiting, rfl⟩)
    · exact .inr (.inr hdropped)
  · have hsorted := (List.pairwise_append.mp hlined.order.sorted).1
    rw [List.pairwise_map] at hsorted
    exact hsorted
  · obtain ⟨i, hi, rfl⟩ := List.getElem_of_mem hpost
    rw [List.length_dropLast] at hi
    rw [List.getElem_dropLast]
    -- An unsettled post is the one that is being sent, and that is the last one.
    by_contra hnot
    obtain ⟨item, hsending⟩ := hlined.engaged.waits i _ (List.getElem?_eq_getElem _)
      (Bool.eq_false_iff.mpr hnot)
    have hlast := hlined.engaged.last item i hsending
    omega
  · obtain ⟨post, hpost, hitem, s, hs, htoken⟩ := hserved.written e he
    obtain ⟨i, hi⟩ := List.getElem?_of_mem hpost
    obtain ⟨j, before, rfl, hbefore, hstage⟩ := hlined.order.acked i post hi (hitem ▸ hdelayed)
    obtain ⟨hnumber, hshown⟩ := PostsInOrder.follows_post hlined.order hi hbefore (hitem ▸ hdelayed)
    obtain ⟨index, hindex⟩ := hserved.reached before (List.mem_of_getElem? hbefore) hstage
    obtain ⟨s', hs', hshown'⟩ := hwritten _ hindex
    -- Both were queued in one view, so their tokens are equal.
    have htoken' : s'.token = s.token := by
      rw [htoken]
      exact Option.some_inj.mp (hshown'.symm.trans (hshown.trans (hsteady.named post hpost)))
    obtain rfl := RemoteLemmas.SessionsInv.eq_of_token hscreen.sessions hs' hs htoken'
    exact ⟨before.item, hindex, hitem ▸ hnumber⟩

end InputLemmas

open InputLemmas in
/-- Where no session overtakes an item, input goes where it belongs, and what is queued behind an
item that fails is never posted. -/
theorem input_delivered {p : Phone} (h : Phone.steadyMachine.Reach Phone.Start p) :
    p.Delivered ∧ ∀ item post conflict p', p.pump = .sending item post →
      Phone.steadyMachine.admits p (.fail conflict) →
      Phone.steadyMachine.Reach (fun start => start = p.step (.fail conflict)) p' →
      ∀ behind ∈ p.items, ∀ post ∈ p'.posts, post.item.number ≠ behind.number := by
  refine ⟨delivered_of_reach h, fun item at' conflict p' hsending ha h' behind hbehind => ?_⟩
  have hlater : Phone.steadyMachine.Reach Phone.Start p' ∧ behind.number ∈ p'.dropped := by
    refine h'.invariant (I := fun p' => Phone.steadyMachine.Reach Phone.Start p' ∧
      behind.number ∈ p'.dropped) ?_ fun p' a _ hp' ha' => ?_
    · rintro _ rfl
      exact ⟨.step h ha, dropped_fail hsending conflict hbehind⟩
    · exact ⟨.step hp'.1 ha', dropped_step hp'.2 a⟩
  exact (delivered_of_reach hlater.1).dropped _ hlater.2

/-- The tab gets a shell, and a view draws its screen. -/
def shellOpened : List Phone.Action :=
  [.remote (.respawn (.new 16 8 4 (Nat.le_of_ble_eq_true rfl)) 80 24), .remote .poll,
    .remote .lookup, .remote .answer, .remote .receive, .drawn]

/-- A text and a carriage return are sent, and the text is written. -/
def sentText : List Phone.Action :=
  [.enqueue ["ls", "\r"], .resolve 0, .write 0 true, .settle]

/-- The carriage return is written after its delay. -/
def sentEnter : List Phone.Action := [.timer, .resolve 1, .write 1 true]

/-- The tab gets another shell, and the view starts over and draws it. -/
def shellReopened : List Phone.Action :=
  [.remote (.respawn (.new 16 8 4 (Nat.le_of_ble_eq_true rfl)) 80 24), .remote .poll,
    .remote .lookup, .remote .answer, .remote .receive, .remote .poll, .remote .lookup,
    .remote .answer, .remote .receive]

def atRest : Phone := ⟨⟨7, [7], 1, [], none, .new, none⟩, false, none, [], .rest, [], [], [], 0⟩

/-- A line is sent to one shell. -/
def lineSent : Phone := Phone.machine.run atRest (shellOpened ++ sentText ++ sentEnter)

/-- The shell is replaced in the delay of the carriage return. -/
def overtaken : Phone :=
  Phone.machine.run atRest (shellOpened ++ sentText ++ shellReopened ++ sentEnter)

theorem start_atRest : Phone.Start atRest := ⟨_, ⟨7, rfl⟩, rfl⟩

open InputLemmas in
/-- The line goes to the shell that was shown. -/
theorem input_delivered_lineSent :
    lineSent.written.map (fun e => (e.1, e.2.data)) = [(0, "ls"), (0, "\r")] ∧
      lineSent.Delivered := by
  have hquiet {p : Phone} {a : Phone.Action} (h : p.pending = []) : ¬ p.Overtakes a := by
    intro hovertakes
    unfold Phone.Overtakes at hovertakes
    split at hovertakes
    · obtain ⟨_, _, _, _, _, _, _, _, item, hitem, _⟩ := hovertakes
      exact absurd (h ▸ hitem) List.not_mem_nil
    · exact hovertakes
  have hstart : Phone.steadyMachine.Reach Phone.Start atRest := .init start_atRest
  have hrun : Phone.steadyMachine.Reach Phone.Start lineSent := hstart.of_trace _
    ⟨⟨⟨⟨16, 8, 4, by decide, rfl⟩, by decide⟩, id⟩, ⟨trivial, id⟩, ⟨trivial, id⟩, ⟨trivial, id⟩,
      ⟨trivial, hquiet (by decide +kernel)⟩, ⟨trivial, id⟩, ⟨trivial, id⟩, ⟨trivial, id⟩,
      ⟨trivial, id⟩, ⟨trivial, id⟩, ⟨trivial, id⟩, ⟨trivial, id⟩, ⟨trivial, id⟩, trivial⟩
  exact ⟨by decide +kernel, (input_delivered hrun).1⟩

/-- The carriage return goes to a shell that was not shown when it was sent, and that did not get
its text. -/
theorem not_input_delivered : Phone.machine.Reach Phone.Start overtaken ∧
    overtaken.written.map (fun e => (e.1, e.2.data)) = [(0, "ls"), (1, "\r")] ∧
    ¬ overtaken.Delivered := by
  have hstart : Phone.machine.Reach Phone.Start atRest := .init start_atRest
  have hrun : Phone.machine.Reach Phone.Start overtaken := hstart.of_trace _
    ⟨⟨⟨16, 8, 4, by decide, rfl⟩, by decide⟩, trivial, trivial, trivial, trivial, trivial, trivial,
      trivial, trivial, trivial, ⟨⟨16, 8, 4, by decide, rfl⟩, by decide +kernel⟩, trivial, trivial,
      trivial, trivial, trivial, trivial, trivial, trivial, trivial, trivial, trivial, trivial⟩
  have hposts : overtaken.posts.map (fun post => (post.item.shown, post.token)) =
      [(some "7:1", "7:1"), (some "7:1", "7:2")] := by decide +kernel
  refine ⟨hrun, by decide +kernel, fun hdelivered => ?_⟩
  have hmem : (some "7:1", "7:2") ∈ overtaken.posts.map fun post => (post.item.shown, post.token) :=
    hposts ▸ List.mem_cons_of_mem _ List.mem_cons_self
  obtain ⟨post, hpost, heq⟩ := List.mem_map.mp hmem
  obtain ⟨hshown, htoken⟩ := Prod.mk.inj heq
  have hnamed := hdelivered.named post hpost
  rw [hshown, htoken] at hnamed
  exact absurd hnamed (by decide)

end Mast
