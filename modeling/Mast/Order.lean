import Mast.Dispatch

/-!
# The order of the workspaces

MoveWorkspace takes a workspace out of the list and puts it before another one, or at the
end. The place is looked up in the list without it, so that it is the same forward and
backward.

Results:
1. `run_move`: a move in terms of the list.
2. `run_moves`: moves to the end, one after another, give every order.
3. `move_workspace`: what moves do to the list.
-/

namespace Mast

/-- The moved workspace stands at the place that the command names. -/
def StandsBefore (workspace : WorkspaceId) (l l' : List Workspace) : Option WorkspaceId → Prop
  | none => ∃ moved others, l' = others ++ [moved] ∧ moved.id = workspace
  | some before => if before = workspace then l' = l else
    ∃ left moved found right, l' = left ++ moved :: found :: right ∧ moved.id = workspace ∧
      found.id = before

/-- A list in which one workspace was moved and nothing else has changed. -/
structure Moved (workspace : WorkspaceId) (before : Option WorkspaceId) (l l' : List Workspace) :
    Prop where
  perm : l'.Perm l
  others : (l'.filter fun ws => ws.id ≠ workspace) = l.filter fun ws => ws.id ≠ workspace
  place : StandsBefore workspace l l' before

/-- Commands that move workspaces, one after another. -/
def moveAll (spawner : Spawner) (moves : List (WorkspaceId × Option WorkspaceId)) :
    Method PUnit :=
  moves.forM fun move => do
    let _ ← Dispatcher.execute spawner (.moveWorkspace move.1 move.2)
    pure ()

namespace OrderLemmas

open Method Dispatcher

variable {d d' : Dispatcher} {out : CommandOutput} {before : Option WorkspaceId}
  {moved ws : Workspace} {workspace : WorkspaceId} {older newer rest l left right : List Workspace}

/-! ## Places in a list -/

/-- Where a moved workspace is put in the list of the others. -/
inductive Placed (moved : Workspace) :
    Option WorkspaceId → List Workspace → List Workspace → Prop
  | last (rest : List Workspace) : Placed moved none rest (rest ++ [moved])
  | before {left : List Workspace} {found : Workspace} (right : List Workspace) :
      (∀ ws ∈ left, ws.id ≠ found.id) →
      Placed moved (some found.id) (left ++ found :: right) (left ++ moved :: found :: right)

theorem placed_perm (h : Placed moved before rest l) : l.Perm (moved :: rest) := by
  cases h with
  | last => exact List.perm_append_singleton moved rest
  | before => exact List.perm_middle

theorem placed_mem {target : WorkspaceId} (h : Placed moved before rest l)
    (hbefore : before = some target) : ∃ found ∈ rest, found.id = target := by
  cases h with
  | last => cases hbefore
  | before => exact ⟨_, List.mem_append_right _ List.mem_cons_self, Option.some_inj.mp hbefore⟩

theorem placed_filter {p : Workspace → Bool} (h : Placed moved before rest l)
    (hp : p moved = false) : l.filter p = rest.filter p := by
  have hgone : ¬ p moved = true := Bool.eq_false_iff.mp hp
  cases h with
  | last => rw [List.filter_append, List.filter_cons_of_neg hgone, List.filter_nil, List.append_nil]
  | before => rw [List.filter_append, List.filter_cons_of_neg hgone, ← List.filter_append]

/-- The first element with a property splits the list. -/
theorem findIdx?_split {p : Workspace → Bool} {i : Nat} (h : l.findIdx? p = some i) :
    ∃ left found right, l = left ++ found :: right ∧ left.length = i ∧ p found = true ∧
      ∀ ws ∈ left, p ws = false := by
  obtain ⟨hlt, hfound, hbefore⟩ := List.findIdx?_eq_some_iff_getElem.mp h
  refine ⟨l.take i, l[i], l.drop (i + 1), ?_, List.length_take_of_le hlt.le, hfound,
    fun ws hws => ?_⟩
  · rw [List.getElem_cons_drop, List.take_append_drop]
  · obtain ⟨j, hj, rfl⟩ := List.mem_iff_getElem.mp hws
    have hji : j < i := (List.length_take_of_le hlt.le) ▸ hj
    rw [List.getElem_take]
    exact Bool.eq_false_iff.mpr (hbefore j hji)

theorem findIdx?_middle {p : Workspace → Bool} (hfound : p moved = true)
    (hleft : ∀ ws ∈ left, p ws = false) :
    (left ++ moved :: right).findIdx? p = some left.length := by
  rw [List.findIdx?_append, List.findIdx?_eq_none_iff.mpr hleft, List.findIdx?_cons, if_pos hfound,
    Option.none_or, Option.map_some, Nat.zero_add]

theorem eraseIdx_middle (left : List Workspace) (moved : Workspace) (right : List Workspace) :
    (left ++ moved :: right).eraseIdx left.length = left ++ right := by
  rw [List.eraseIdx_append_of_length_le le_rfl, Nat.sub_self]
  rfl

theorem insertIdx_middle (left right : List Workspace) (moved : Workspace) :
    (left ++ right).insertIdx left.length moved = left ++ moved :: right := by
  induction left with
  | nil => rfl
  | cons ws left ih => exact congrArg (ws :: ·) ih

theorem insertionPoint_placed {place : Nat}
    (h : AppState.insertionPoint rest before = some place) (moved : Workspace) :
    Placed moved before rest (rest.insertIdx place moved) := by
  cases before with
  | none =>
    obtain rfl := Option.some_inj.mp h
    rw [List.insertIdx_length_self]
    exact .last rest
  | some target =>
    obtain ⟨left, found, right, rfl, rfl, hfound, hleft⟩ := findIdx?_split h
    obtain rfl := of_decide_eq_true hfound
    rw [insertIdx_middle]
    exact .before right fun ws hws => of_decide_eq_false (hleft ws hws)

theorem placed_insertionPoint (h : Placed moved before rest l) :
    ∃ place, AppState.insertionPoint rest before = some place ∧
      rest.insertIdx place moved = l := by
  cases h with
  | last => exact ⟨rest.length, rfl, List.insertIdx_length_self⟩
  | @before left found right hleft =>
    refine ⟨left.length, ?_, insertIdx_middle _ _ _⟩
    exact findIdx?_middle (decide_eq_true rfl) fun ws hws => decide_eq_false (hleft ws hws)

/-! ## One move -/

theorem wsIndex_middle {s : AppState} (h : s.workspaces = older ++ moved :: newer)
    (hid : moved.id = workspace) (holder : ∀ ws ∈ older, ws.id ≠ workspace) :
    s.wsIndex workspace = .ok older.length := by
  have hfind : ((older ++ moved :: newer).findIdx? fun ws => decide (ws.id = workspace)) =
      some older.length :=
    findIdx?_middle (decide_eq_true hid) fun ws hws => decide_eq_false (holder ws hws)
  rw [AppState.wsIndex, h, hfind]

theorem wsIndex_split {s : AppState} {wi : Nat} (h : s.wsIndex workspace = .ok wi) :
    ∃ older moved newer, s.workspaces = older ++ moved :: newer ∧ older.length = wi ∧
      moved.id = workspace ∧ ∀ ws ∈ older, ws.id ≠ workspace := by
  unfold AppState.wsIndex at h
  split at h
  · next i hi =>
    obtain rfl : i = wi := Except.ok.inj h
    obtain ⟨older, moved, newer, hall, hlength, hid, holder⟩ := findIdx?_split hi
    exact ⟨older, moved, newer, hall, hlength, of_decide_eq_true hid,
      fun ws hws => of_decide_eq_false (holder ws hws)⟩
  · cases h

/-- What a move that succeeds has done. -/
theorem move_ok (h : Exec.run (moveWorkspace workspace before) d = (.ok out, d')) :
    out = .done ∧ ∃ older moved newer, d.state.workspaces = older ++ moved :: newer ∧
      moved.id = workspace ∧ (∀ ws ∈ older, ws.id ≠ workspace) ∧
      ((before = some workspace ∧ d' = d) ∨ before ≠ some workspace ∧
        ∃ l, Placed moved before (older ++ newer) l ∧
          d' = { d with state := { d.state with workspaces := l } }) := by
  simp only [moveWorkspace, Exec.run_bind_ok, run_find_ok] at h
  obtain ⟨origin, _, ⟨horigin, rfl⟩, h⟩ := h
  obtain ⟨older, moved, newer, hall, rfl, hid, holder⟩ := wsIndex_split horigin
  split at h
  · next hself =>
    obtain ⟨rfl, rfl⟩ := run_pure_ok.mp h
    exact ⟨rfl, older, moved, newer, hall, hid, holder, .inl ⟨hself, rfl⟩⟩
  · next hself =>
    simp only [Exec.run_bind_ok, run_find_ok, run_expect_ok, run_mutate_ok, run_pure_ok] at h
    obtain ⟨_, _, ⟨_, rfl⟩, m, _, ⟨hm, rfl⟩, place, _, ⟨hplace, rfl⟩, _, _, rfl, rfl, rfl⟩ := h
    rw [hall, List.getElem?_append_right le_rfl, Nat.sub_self] at hm
    obtain rfl : moved = m := Option.some_inj.mp hm
    rw [hall, eraseIdx_middle] at hplace
    refine ⟨rfl, older, moved, newer, hall, hid, holder, .inr ⟨hself, _, ?_, rfl⟩⟩
    rw [hall, eraseIdx_middle]
    exact insertionPoint_placed hplace moved

theorem run_move_self (h : d.state.workspaces = older ++ moved :: newer)
    (hid : moved.id = workspace) (holder : ∀ ws ∈ older, ws.id ≠ workspace) :
    Exec.run (moveWorkspace workspace (some workspace)) d = (.ok .done, d) := by
  simp only [moveWorkspace, Exec.run_bind_ok, run_find_ok]
  exact ⟨older.length, d, ⟨wsIndex_middle h hid holder, rfl⟩, by rw [if_pos trivial]; rfl⟩

/-- A move to another place, when the workspace and its place are there. -/
theorem run_move (h : d.state.workspaces = older ++ moved :: newer) (hid : moved.id = workspace)
    (holder : ∀ ws ∈ older, ws.id ≠ workspace) (hself : before ≠ some workspace)
    (hplaced : Placed moved before (older ++ newer) l) :
    Exec.run (moveWorkspace workspace before) d =
      (.ok .done, { d with state := { d.state with workspaces := l } }) := by
  obtain ⟨place, hplace, hinsert⟩ := placed_insertionPoint hplaced
  have hrest : d.state.workspaces.eraseIdx older.length = older ++ newer := by
    rw [h, eraseIdx_middle]
  have hmoved : d.state.workspaces[older.length]? = some moved := by
    rw [h, List.getElem?_append_right le_rfl, Nat.sub_self]
    rfl
  have hthere : ∀ target, before = some target →
      (d.state.workspaces.any fun ws => ws.id = target) = true := by
    intro target htarget
    obtain ⟨found, hfound, hid⟩ := placed_mem hplaced htarget
    refine List.any_eq_true.mpr ⟨found, ?_, decide_eq_true hid⟩
    rw [h]
    rcases List.mem_append.mp hfound with hin | hin
    · exact List.mem_append_left _ hin
    · exact List.mem_append_right _ (List.mem_cons_of_mem _ hin)
  simp only [moveWorkspace, Exec.run_bind_ok, run_find_ok]
  refine ⟨older.length, d, ⟨wsIndex_middle h hid holder, rfl⟩, ?_⟩
  rw [if_neg hself]
  simp only [Exec.run_bind_ok, run_find_ok, run_expect_ok, run_mutate_ok, run_pure_ok]
  refine ⟨(), d, ⟨?_, rfl⟩, moved, d, ⟨hmoved, rfl⟩, place, d, ⟨hrest ▸ hplace, rfl⟩, (), _, rfl,
    trivial, ?_⟩
  · cases before with
    | none => rfl
    | some target => exact if_pos (hthere target rfl)
  · rw [hrest, hinsert]

/-! ## Moves after one another -/

/-- Workspaces have distinct ids. -/
def Distinct (l : List Workspace) : Prop := (l.map Workspace.id).Nodup

theorem ne_of_distinct (h : Distinct (older ++ moved :: newer)) :
    ∀ ws ∈ older ++ newer, ws.id ≠ moved.id := by
  intro ws hws heq
  unfold Distinct at h
  rw [List.map_append, List.map_cons, List.nodup_middle, List.nodup_cons, ← List.map_append] at h
  exact h.1 (heq ▸ List.mem_map_of_mem hws)

/-- The list after a move, around the moved workspace. -/
theorem placed_around (h : Placed moved before rest l) :
    ∃ older newer, l = older ++ moved :: newer ∧ rest = older ++ newer := by
  cases h with
  | last => exact ⟨rest, [], rfl, (List.append_nil rest).symm⟩
  | @before left found right _ => exact ⟨left, found :: right, rfl, rfl⟩

theorem placed_stands {l' : List Workspace} (h : Placed moved before rest l')
    (hid : moved.id = workspace) (hself : before ≠ some workspace) :
    StandsBefore workspace l l' before := by
  cases h with
  | last => exact ⟨moved, rest, rfl, hid⟩
  | @before left found right _ =>
    rw [StandsBefore, if_neg fun heq => hself (congrArg some heq)]
    exact ⟨left, moved, found, right, rfl, hid, rfl⟩

theorem moved_of_placed {l' : List Workspace} (hall : l = older ++ moved :: newer)
    (hid : moved.id = workspace) (hself : before ≠ some workspace)
    (h : Placed moved before (older ++ newer) l') : Moved workspace before l l' where
  perm := by
    rw [hall]
    exact (placed_perm h).trans List.perm_middle.symm
  others := by
    have hgone : ¬ (fun ws : Workspace => decide (ws.id ≠ workspace)) moved = true := fun hne =>
      of_decide_eq_true hne hid
    have hcons : ((moved :: newer).filter fun ws => ws.id ≠ workspace) =
        newer.filter fun ws => ws.id ≠ workspace := List.filter_cons_of_neg hgone
    rw [placed_filter h (Bool.eq_false_iff.mpr hgone), hall, List.filter_append,
      List.filter_append, hcons]
  place := placed_stands h hid hself

/-- A move keeps the rest of the state, and the same move again changes nothing. -/
theorem moved_of_ok (hdistinct : Distinct d.state.workspaces)
    (h : Exec.run (moveWorkspace workspace before) d = (.ok out, d')) :
    Moved workspace before d.state.workspaces d'.state.workspaces ∧
      d'.state.activeWorkspace = d.state.activeWorkspace ∧
      ∀ e : Dispatcher, e.state.workspaces = d'.state.workspaces →
        Exec.run (moveWorkspace workspace before) e = (.ok out, e) := by
  obtain ⟨rfl, older, moved, newer, hall, hid, holder, hcase⟩ := move_ok h
  rcases hcase with ⟨rfl, rfl⟩ | ⟨hself, l, hplaced, rfl⟩
  · refine ⟨⟨.refl _, rfl, ?_⟩, rfl, fun e he => run_move_self (he.trans hall) hid holder⟩
    rw [StandsBefore, if_pos rfl]
  · refine ⟨moved_of_placed hall hid hself hplaced, rfl, fun e he => ?_⟩
    obtain ⟨older', newer', rfl, hrest⟩ := placed_around hplaced
    have hne := ne_of_distinct (hall ▸ hdistinct)
    have holder' : ∀ ws ∈ older', ws.id ≠ workspace := fun ws hws =>
      hid ▸ hne ws (hrest ▸ List.mem_append_left _ hws)
    have hsame : older' ++ moved :: newer' = e.state.workspaces := he.symm
    rw [run_move he hid holder' hself (hrest ▸ hplaced), hsame]

theorem run_moveAll_cons (spawner : Spawner) (move : WorkspaceId × Option WorkspaceId)
    {moves : List (WorkspaceId × Option WorkspaceId)} {e : Dispatcher}
    (h : Exec.run (moveWorkspace move.1 move.2) d = (.ok out, e))
    (hrest : Exec.run (moveAll spawner moves) e = (.ok (), d')) :
    Exec.run (moveAll spawner (move :: moves)) d = (.ok (), d') := by
  refine Exec.run_bind_ok.mpr ⟨(), e, ?_, hrest⟩
  exact Exec.run_bind_ok.mpr ⟨out, e, h, rfl⟩

/-- Moving workspaces to the end one after another leaves them there in that order. -/
theorem run_moves (spawner : Spawner) {order done : List Workspace}
    (hall : d.state.workspaces = rest ++ done) (hperm : rest.Perm order)
    (hdistinct : Distinct d.state.workspaces) :
    Exec.run (moveAll spawner (order.map fun ws => (ws.id, none))) d =
      (.ok (), { d with state := { d.state with workspaces := done ++ order } }) := by
  induction order generalizing d rest done with
  | nil =>
    rw [hperm.eq_nil, List.nil_append] at hall
    rw [List.append_nil, ← hall]
    rfl
  | cons ws order ih =>
    obtain ⟨older, newer, rfl⟩ := List.append_of_mem (hperm.mem_iff.mpr List.mem_cons_self)
    have hrest : (older ++ newer).Perm order :=
      (List.perm_cons ws).mp (List.perm_middle.symm.trans hperm)
    rw [List.append_assoc, List.cons_append] at hall
    have hne := ne_of_distinct (hall ▸ hdistinct)
    have hmove := run_move hall rfl (fun ws' hws' => hne ws' (List.mem_append_left _ hws'))
      (nofun : none ≠ some ws.id) (.last _)
    have hlist : older ++ (newer ++ done) ++ [ws] = (older ++ newer) ++ (done ++ [ws]) := by
      simp only [List.append_assoc]
    have hdistinct' : Distinct (older ++ (newer ++ done) ++ [ws]) := by
      refine (List.Perm.nodup_iff (List.Perm.map _ ?_)).mp (hall ▸ hdistinct)
      exact List.perm_middle.trans (List.perm_append_singleton _ _).symm
    have hdone := run_moveAll_cons spawner (ws.id, none) hmove
      (ih hlist hrest hdistinct')
    rw [← List.append_cons done ws order] at hdone
    exact hdone

end OrderLemmas

open OrderLemmas in
/-- A command that moves a workspace leaves it before its target, or at the end, and changes
nothing else; moving it there again changes nothing. Moves lead to every order. -/
theorem move_workspace {d : Dispatcher} (h : Dispatcher.machine.Reach Dispatcher.Start d)
    (spawner : Spawner) :
    (∀ workspace before out d',
      Exec.run (Dispatcher.dispatch spawner (.moveWorkspace workspace before)) d = (.ok out, d') →
        Moved workspace before d.state.workspaces d'.state.workspaces ∧
        d'.state.activeWorkspace = d.state.activeWorkspace ∧
        Exec.run (Dispatcher.execute spawner (.moveWorkspace workspace before)) d' =
          (.ok out, d')) ∧
    ∀ order : List Workspace, order.Perm d.state.workspaces →
      ∃ moves, Exec.run (moveAll spawner moves) d =
        (.ok (), { d with state := { d.state with workspaces := order } }) := by
  have hdistinct : Distinct d.state.workspaces :=
    LegalLemmas.workspace_ids_nodup (legal_of_reach h)
  refine ⟨fun workspace before out d' hrun => ?_, fun order horder => ?_⟩
  · simp only [Dispatcher.dispatch, Exec.run_bind_ok, Method.run_bumpRevision_ok,
      Method.run_pure_ok] at hrun
    obtain ⟨_, d₁, hmove, _, _, ⟨revision, _, rfl⟩, rfl, rfl⟩ := hrun
    obtain ⟨hmoved, hactive, hagain⟩ := moved_of_ok hdistinct hmove
    exact ⟨hmoved, hactive, hagain _ rfl⟩
  · exact ⟨_, run_moves spawner (List.append_nil _).symm horder.symm hdistinct⟩

def twoWorkspacesTrace : List Action :=
  [.dispatch (fun _ => .ok 7) (.createWorkspace "first" none none none),
    .dispatch (fun _ => .ok 8) (.createWorkspace "second" none none none)]

/-- The second of two workspaces goes before the first. -/
theorem move_workspace_two :
    Moved ⟨3⟩ (some ⟨1⟩)
      (Dispatcher.machine.run Dispatcher.new twoWorkspacesTrace).state.workspaces
      (Exec.run (Dispatcher.dispatch (fun _ => .ok 9) (.moveWorkspace ⟨3⟩ (some ⟨1⟩)))
        (Dispatcher.machine.run Dispatcher.new twoWorkspacesTrace)).2.state.workspaces := by
  have hreach : Dispatcher.machine.Reach Dispatcher.Start
      (Dispatcher.machine.run Dispatcher.new twoWorkspacesTrace) :=
    .of_trace (.init (.inl rfl)) twoWorkspacesTrace (by decide)
  exact ((move_workspace hreach (fun _ => .ok 9)).1 _ _ .done _ (Prod.ext (by rfl) rfl)).1

end Mast
