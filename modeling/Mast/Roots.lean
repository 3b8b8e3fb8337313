import Mast.Dispatch
import Mast.Lib.Lexical

/-!
# The roots of workspaces

A workspace root must not lie under `/mnt`, and CreateWorkspace looks at the text of the path
for it. The same directory has other spellings: `Detour` says which of them get past.

Results:
1. `checkRoot_ok_iff`: what the text is looked at for.
2. `underMnt_iff`: a path leads under `/mnt` when it comes back to the root, enters `mnt` and
   never leaves it.
3. `roots_clear_iff`: the guard holds for every path that is no detour, and for the roots of
   every run without detours.
-/

namespace Mast

open Lexical

/-- What a component does in a lexical walk. -/
def pathSeg (component : List Char) : Seg (List Char) :=
  if component = [] ∨ component = ['.'] then .stay
  else if component = ['.', '.'] then .up
  else .name component

/-- The components of the POSIX normal form of an absolute path. -/
def normalForm (path : String) : List (List Char) := normal ((pathComponents path).map pathSeg)

def mnt : List Char := ['m', 'n', 't']

/-- The normal form of the path is `/mnt` or below it. -/
def UnderMnt (path : String) : Prop :=
  path.toList.head? = some '/' ∧ (normalForm path).head? = some mnt

instance (path : String) : Decidable (UnderMnt path) := inferInstanceAs (Decidable (_ ∧ _))

/-- The path comes back to the root before it enters `mnt` for good, and does not begin with
`mnt`. -/
def Detour (path : String) : Prop :=
  ∃ before after, pathComponents path = [] :: (before ++ mnt :: after) ∧ before ≠ [] ∧
    before.head? ≠ some mnt ∧ (before.map pathSeg).foldl walk [] = [] ∧
    ∀ part, part <+: after → (part.map pathSeg).foldl walk [mnt] ≠ []

/-- No workspace has its root under `/mnt`. -/
def AppState.RootsClear (s : AppState) : Prop :=
  ∀ ws ∈ s.workspaces, ∀ path ∈ ws.rootPath, ¬ UnderMnt path

/-- The root path of a command that creates a workspace. -/
def Action.newRoot : Action → Option String
  | .dispatch _ (.createWorkspace _ rootPath _ _) => rootPath
  | _ => none

/-- Dispatchers under a promise about the root paths of commands. -/
def Dispatcher.rooted (promise : String → Prop) : Machine Dispatcher Action where
  step := Action.step
  admits d a := a.returns d = true ∧ ∀ path ∈ a.newRoot, promise path

/-- A workspace that a command creates does not have its root under `/mnt`. -/
def Guarded (path : String) : Prop :=
  ∀ d, Dispatcher.machine.Reach Dispatcher.Start d → ∀ spawner name distro tab out d',
    Exec.run (Dispatcher.dispatch spawner (.createWorkspace name (some path) distro tab)) d =
      (.ok out, d') → ¬ UnderMnt path

namespace RootsLemmas

open Method Dispatcher EffectLemmas LegalLemmas WorkspaceLemmas

variable {path : String} {s s' : AppState} {d d' : Dispatcher} {ws ws' : Workspace}
  {out : CommandOutput} {gone : List Tab}

/-! ## Spellings -/

theorem components_absolute {text : List Char} (h : path.toList = '/' :: text) :
    pathComponents path = [] :: text.splitOn '/' := by
  have hempty : '/' ∉ ([] : List Char) := List.not_mem_nil
  rw [pathComponents, h]
  exact List.splitOn_append_cons_self_of_not_mem hempty text

/-- The text of a path is its components with slashes between them. -/
theorem text_components (path : String) : ['/'].intercalate (pathComponents path) = path.toList :=
  List.intercalate_splitOn '/'

theorem text_mnt {rest : List (List Char)} (h : pathComponents path = [] :: mnt :: rest) :
    path.toList = "/mnt".toList ∨ "/mnt/".toList <+: path.toList := by
  have htext := text_components path
  rw [h, List.intercalate_cons_cons] at htext
  cases rest with
  | nil =>
    rw [List.intercalate_singleton] at htext
    exact .inl htext.symm
  | cons component rest =>
    rw [List.intercalate_cons_cons] at htext
    refine .inr ⟨['/'].intercalate (component :: rest), ?_⟩
    rw [← htext]
    rfl

theorem components_mnt
    (h : path.toList = "/mnt".toList ∨ "/mnt/".toList <+: path.toList) :
    ∃ rest, pathComponents path = [] :: mnt :: rest := by
  rcases h with h | ⟨text, h⟩
  · have habsolute : path.toList = '/' :: mnt := h
    refine ⟨[], ?_⟩
    rw [components_absolute habsolute, List.splitOn_eq_singleton (by decide)]
  · have habsolute : path.toList = '/' :: (mnt ++ '/' :: text) := h.symm
    refine ⟨text.splitOn '/', ?_⟩
    rw [components_absolute habsolute, List.splitOn_append_cons_self_of_not_mem (by decide)]

theorem checkRoot_ok_iff : checkRoot (some path) = .ok () ↔
    ∀ rest, pathComponents path ≠ [] :: mnt :: rest := by
  rw [checkRoot]
  have htext : path = "/mnt" ↔ path.toList = "/mnt".toList := String.toList_inj.symm
  constructor
  · intro h rest hrest
    rw [if_pos] at h
    · cases h
    · rw [htext]
      exact text_mnt hrest
  · intro h
    refine if_neg fun hspelled => ?_
    rw [htext] at hspelled
    obtain ⟨rest, hrest⟩ := components_mnt hspelled
    exact h rest hrest

theorem pathSeg_eq_name {component name : List Char} (h : pathSeg component = .name name) :
    component = name := by
  unfold pathSeg at h
  split at h
  · cases h
  split at h
  · cases h
  · exact Seg.name.inj h

theorem prefix_map {segs : List (Seg (List Char))} {components : List (List Char)}
    (h : segs <+: components.map pathSeg) :
    ∃ part, part <+: components ∧ segs = part.map pathSeg := by
  obtain ⟨rest, hrest⟩ := h
  obtain ⟨part, other, rfl, rfl, _⟩ := List.map_eq_append_iff.mp hrest.symm
  exact ⟨part, List.prefix_append part other, rfl⟩

/-- A path leads under `/mnt` when it comes back to the root, enters `mnt` and never leaves
it. -/
theorem underMnt_iff : UnderMnt path ↔
    ∃ before after, pathComponents path = [] :: (before ++ mnt :: after) ∧
      (before.map pathSeg).foldl walk [] = [] ∧
      ∀ part, part <+: after → (part.map pathSeg).foldl walk [mnt] ≠ [] := by
  constructor
  · rintro ⟨habsolute, hnormal⟩
    obtain ⟨text, htext⟩ := List.head?_eq_some_iff.mp habsolute
    have hcomponents := components_absolute htext
    rw [normalForm, hcomponents] at hnormal
    obtain ⟨before, after, hsegs, hroot, hstays⟩ := head?_normal_iff.mp hnormal
    obtain ⟨part, other, hall, hbefore, hother⟩ := List.map_eq_append_iff.mp hsegs
    obtain ⟨component, rest, rfl, hcomponent, rfl⟩ := List.map_eq_cons_iff.mp hother
    obtain rfl := pathSeg_eq_name hcomponent
    cases part with
    | nil => cases hall
    | cons first part =>
      obtain ⟨rfl, hall⟩ := List.cons.inj hall
      refine ⟨part, rest, ?_, ?_, fun l hl => ?_⟩
      · rw [hcomponents, hall]
        rfl
      · rw [← hbefore] at hroot
        exact hroot
      · exact hstays _ (hl.map pathSeg)
  · rintro ⟨before, after, hcomponents, hroot, hstays⟩
    refine ⟨?_, ?_⟩
    · have htext := text_components path
      have hne : before ++ mnt :: after ≠ [] :=
        List.append_ne_nil_of_right_ne_nil _ (List.cons_ne_nil _ _)
      rw [hcomponents, List.intercalate_cons_of_ne_nil hne] at htext
      rw [← htext]
      rfl
    · rw [normalForm, hcomponents]
      refine head?_normal_iff.mpr
        ⟨([] :: before).map pathSeg, after.map pathSeg, ?_, hroot, fun segs hsegs => ?_⟩
      · rw [← List.cons_append, List.map_append]
        rfl
      · obtain ⟨part, hpart, rfl⟩ := prefix_map hsegs
        exact hstays part hpart

theorem underMnt_of_detour (h : Detour path) : UnderMnt path := by
  obtain ⟨before, after, hcomponents, -, -, hroot, hstays⟩ := h
  exact underMnt_iff.mpr ⟨before, after, hcomponents, hroot, hstays⟩

theorem checkRoot_of_detour (h : Detour path) : checkRoot (some path) = .ok () := by
  obtain ⟨before, after, hcomponents, hne, hfirst, -, -⟩ := h
  refine checkRoot_ok_iff.mpr fun rest hrest => ?_
  cases before with
  | nil => exact hne rfl
  | cons first before =>
    rw [hcomponents] at hrest
    obtain ⟨-, hrest⟩ := List.cons.inj hrest
    obtain ⟨rfl, -⟩ := List.cons.inj hrest
    exact hfirst rfl

/-- The guard catches every path under `/mnt` that is no detour. -/
theorem not_underMnt (hcheck : checkRoot (some path) = .ok ()) (hdetour : ¬ Detour path) :
    ¬ UnderMnt path := by
  intro h
  obtain ⟨before, after, hcomponents, hroot, hstays⟩ := underMnt_iff.mp h
  have hfirst := checkRoot_ok_iff.mp hcheck
  refine hdetour ⟨before, after, hcomponents, ?_, fun hmnt => ?_, hroot, hstays⟩
  · rintro rfl
    exact hfirst after hcomponents
  · obtain ⟨rest, rfl⟩ := List.head?_eq_some_iff.mp hmnt
    exact hfirst (rest ++ mnt :: after) hcomponents

/-! ## What keeps the roots -/

/-- Every workspace afterwards has the root of a workspace before. -/
def KeepsRoots (s s' : AppState) : Prop :=
  ∀ ws' ∈ s'.workspaces, ∃ ws ∈ s.workspaces, ws'.rootPath = ws.rootPath

theorem keepsRoots_refl (s : AppState) : KeepsRoots s s := fun ws hws => ⟨ws, hws, rfl⟩

theorem KeepsRoots.trans {s'' : AppState} (h : KeepsRoots s s') (h' : KeepsRoots s' s'') :
    KeepsRoots s s'' := by
  intro w hw
  obtain ⟨w', hw', heq⟩ := h' w hw
  obtain ⟨ws, hws, heq'⟩ := h w' hw'
  exact ⟨ws, hws, heq.trans heq'⟩

theorem clear_of_keeps (h : KeepsRoots s s') (hclear : s.RootsClear) : s'.RootsClear := by
  intro ws' hws' path hpath
  obtain ⟨ws, hws, heq⟩ := h ws' hws'
  exact hclear ws hws path (heq ▸ hpath)

theorem keepsRoots_edited {wi : Nat} (hws : s.workspaces[wi]? = some ws)
    (hlist : s'.workspaces = s.workspaces.modify wi fun _ => ws')
    (hroot : ws'.rootPath = ws.rootPath) : KeepsRoots s s' := by
  intro w hw
  rw [hlist] at hw
  rcases mem_edited hw with rfl | hold
  · exact ⟨ws, List.mem_of_getElem? hws, hroot⟩
  · exact ⟨w, hold, rfl⟩

theorem keepsRoots_map {f : Workspace → Workspace} (hlist : s'.workspaces = s.workspaces.map f)
    (hf : ∀ ws, (f ws).rootPath = ws.rootPath) : KeepsRoots s s' := by
  intro w hw
  rw [hlist] at hw
  obtain ⟨ws, hws, rfl⟩ := List.mem_map.mp hw
  exact ⟨ws, hws, hf ws⟩

theorem rootPath_resetAgentSource (tab : TabId) :
    (ws.resetAgentSource tab).rootPath = ws.rootPath := by
  unfold Workspace.resetAgentSource
  split <;> rfl

theorem rootPath_resetAll (tabs : List TabId) : (ws.resetAll tabs).rootPath = ws.rootPath := by
  induction tabs generalizing ws with
  | nil => rfl
  | cons tab tabs ih => exact ih.trans (rootPath_resetAgentSource tab)

theorem rootPath_collapsePane {pane : PaneId} {removed : Pane}
    (h : ws.collapsePane pane = some (removed, ws')) : ws'.rootPath = ws.rootPath := by
  dsimp only [Workspace.collapsePane] at h
  split at h
  · obtain ⟨-, rfl⟩ := Prod.mk.inj (Option.some_inj.mp h)
    rfl
  · cases h

theorem edit_rootPath {shown : Bool} (h : Edit shown ws out gone ws') :
    ws'.rootPath = ws.rootPath := by
  cases h with
  | closePane hsize hclose =>
    obtain ⟨ws₁, hcollapse, rfl⟩ := closePane_eq_some hclose
    exact (rootPath_resetAll _).trans (rootPath_collapsePane hcollapse)
  | closeTab hp ht hclose =>
    obtain ⟨ws₁, rfl, hws₁⟩ := closeTab_eq_some hclose
    refine (rootPath_resetAgentSource _).trans ?_
    rcases hws₁ with rfl | ⟨removed, hcollapse, -⟩
    · rfl
    · have hcollapsed := rootPath_collapsePane hcollapse
      exact hcollapsed
  | _ => rfl

theorem rootPath_applyDelta (tab : TabId) (delta : OscDelta) :
    (ws.applyDelta tab delta).rootPath = ws.rootPath := by
  have hreport : ∀ status, (ws.reportStatus tab status).rootPath = ws.rootPath := by
    intro status
    unfold Workspace.reportStatus
    split <;> rfl
  unfold Workspace.applyDelta
  cases delta.message <;> cases hstatus : delta.status with
  | none => rfl
  | some status => exact hreport status

/-! ## Commands -/

/-- The output of a command that creates a workspace. -/
def Creates : CommandOutput → Prop
  | .workspaceCreated .. => True
  | _ => False

/-- Every run of the method ends with such an output. -/
def Ends (P : CommandOutput → Prop) (m : Method CommandOutput) : Prop :=
  ∀ d out d', Exec.run m d = (.ok out, d') → P out

theorem ends_pure {P : CommandOutput → Prop} (h : P out) : Ends P (pure out) := by
  intro d o d' hrun
  obtain ⟨rfl, -⟩ := run_pure_ok.mp hrun
  exact h

theorem ends_bind {α : Type} {P : CommandOutput → Prop} {m : Method α}
    {f : α → Method CommandOutput} (h : ∀ a, Ends P (f a)) : Ends P (m >>= f) := by
  intro d o d' hrun
  obtain ⟨a, e, -, hrun⟩ := Exec.run_bind_ok.mp hrun
  exact h a e o d' hrun

/-- Only one command creates workspaces. -/
theorem ends_execute (spawner : Spawner) (cmd : Command)
    (h : ∀ name rootPath distro tab, cmd ≠ .createWorkspace name rootPath distro tab) :
    Ends (fun out => ¬ Creates out) (execute spawner cmd) := by
  cases cmd with
  | createWorkspace name rootPath distro tab => exact absurd rfl (h name rootPath distro tab)
  | moveWorkspace workspace before =>
    refine ends_bind fun _ => ?_
    split
    · exact ends_pure id
    · repeat refine ends_bind fun _ => ?_
      exact ends_pure id
  | _ =>
    repeat refine ends_bind fun _ => ?_
    exact ends_pure id

theorem keepsRoots_effect {cmd : Command} (h : Effect cmd s out gone s') (hout : ¬ Creates out) :
    KeepsRoots s s' := by
  cases h with
  | edit hws hids hedit htakes => exact keepsRoots_edited hws rfl (edit_rootPath hedit)
  | create => exact absurd trivial hout
  | switch hws => exact keepsRoots_edited hws rfl rfl
  | @close wi ws hws =>
    have hleft : KeepsRoots s { s with workspaces := s.workspaces.eraseIdx wi } :=
      fun w hw => ⟨w, List.mem_of_mem_eraseIdx hw, rfl⟩
    refine hleft.trans ?_
    unfold AppState.fallBack
    split
    · intro w hw
      rcases ListEdit.mem_modify hw with hw | ⟨w, hfirst, rfl⟩
      · exact ⟨w, hw, rfl⟩
      · exact ⟨w, List.mem_of_getElem? hfirst, rfl⟩
    · exact keepsRoots_refl _
  | move hperm => exact fun w hw => ⟨w, hperm.mem_iff.mp hw, rfl⟩

/-- What a command that creates a workspace has checked, and what it adds. -/
theorem create_ok {spawner : Spawner} {name : String} {rootPath distro : Option String}
    {tab : Option NewTab}
    (h : Exec.run (createWorkspace spawner name rootPath distro tab) d = (.ok out, d')) :
    checkRoot rootPath = .ok () ∧
      ∃ ws, d'.state.workspaces = d.state.workspaces ++ [ws] ∧ ws.rootPath = rootPath := by
  simp only [createWorkspace, Exec.run_bind_ok, run_check_ok, run_peekId_ok, run_allocId_ok,
    run_mutate_ok, run_pure_ok] at h
  obtain ⟨_, _, ⟨hcheck, rfl⟩, _, _, ⟨_, rfl⟩, prepared, d₁, hprepared, workspace, _,
    ⟨rfl, n₁, hn₁, rfl⟩, pane, _, ⟨rfl, n₂, hn₂, rfl⟩, placed, _, hplaced, _, _, rfl, rfl, rfl⟩ := h
  obtain ⟨hhost, -⟩ := prepareOptional_ok hprepared
  obtain ⟨n, -, rfl⟩ := placeOptional_ok hplaced
  have hcreate : (Workspace.create ⟨d₁.state.nextId⟩ name rootPath distro ⟨n₁⟩ placed).rootPath =
      rootPath := rfl
  refine ⟨hcheck, _, ?_, hcreate⟩
  dsimp only
  rw [hhost.state]

theorem roots_execute {spawner : Spawner} {cmd : Command}
    (h : Exec.run (execute spawner cmd) d = (.ok out, d')) :
    ∀ ws' ∈ d'.state.workspaces, (∃ ws ∈ d.state.workspaces, ws'.rootPath = ws.rootPath) ∨
      ∃ name distro tab, cmd = .createWorkspace name ws'.rootPath distro tab ∧
        checkRoot ws'.rootPath = .ok () := by
  by_cases hcreate : ∃ name rootPath distro tab, cmd = .createWorkspace name rootPath distro tab
  · obtain ⟨name, rootPath, distro, tab, rfl⟩ := hcreate
    obtain ⟨hcheck, ws, hlist, rfl⟩ := create_ok h
    intro ws' hws'
    rw [hlist] at hws'
    rcases List.mem_append.mp hws' with hold | hnew
    · exact .inl ⟨ws', hold, rfl⟩
    · rw [List.mem_singleton.mp hnew]
      exact .inr ⟨name, distro, tab, rfl, hcheck⟩
  · have hout := ends_execute spawner cmd
      (fun name rootPath distro tab heq => hcreate ⟨name, rootPath, distro, tab, heq⟩) d out d' h
    obtain ⟨gone, hperformed⟩ := execute_ok h
    exact fun ws' hws' => .inl (keepsRoots_effect hperformed.effect hout ws' hws')

/-! ## Steps -/

theorem keepsRoots_heard {nowMs : UInt64} {entry : SessionId × OscDelta}
    (h : BoardLemmas.Heard s nowMs entry s') : KeepsRoots s s' := by
  cases h with
  | missed hpos => exact keepsRoots_refl s
  | located hpos hlookup hsession =>
    obtain ⟨hws, -⟩ := lookup_eq_some.mp hlookup
    exact keepsRoots_edited hws rfl (rootPath_applyDelta _ _)

theorem keepsRoots_applyEntries (nowMs : UInt64) (entries : List (SessionId × OscDelta))
    (d : Dispatcher) : KeepsRoots d.state (d.applyEntries nowMs entries).2.state := by
  induction entries generalizing d with
  | nil => exact keepsRoots_refl _
  | cons entry entries ih =>
    exact (keepsRoots_heard (BoardLemmas.applyEntry_heard nowMs entry d)).trans (ih _)

theorem keepsRoots_receive (ev : SessionEvent) (d : Dispatcher) :
    KeepsRoots d.state (d.receive ev).2.state := by
  cases ev with
  | sessionExited session code endedAtMs =>
    exact keepsRoots_map rfl fun ws => rootPath_resetAll _
  | sessionStartupTimeout session =>
    unfold Dispatcher.receive
    dsimp only
    split
    · exact keepsRoots_refl _
    · exact keepsRoots_map rfl fun ws => rfl

/-- An action that is no command keeps the roots. -/
theorem keepsRoots_step {a : Action} (h : Stepped d a d')
    (hcommand : ∀ spawner cmd, a ≠ .dispatch spawner cmd) : KeepsRoots d.state d'.state := by
  cases h with
  | performed revision h => exact absurd rfl (hcommand _ _)
  | failed hframe => exact absurd rfl (hcommand _ _)
  | refused spawner tab => exact keepsRoots_refl _
  | @respawned spawner tab ws pos t session status _ h =>
    obtain ⟨p, hlookup⟩ := h.place
    exact keepsRoots_edited (lookup_eq_some.mp hlookup).1 h.workspaces rfl
  | event ev revision => exact keepsRoots_receive ev d
  | osc batch nowMs revision => exact keepsRoots_applyEntries nowMs _ d

theorem clear_step {a : Action} (hclear : d.state.RootsClear) (ha : a.returns d = true)
    (hroot : ∀ path ∈ a.newRoot, ¬ Detour path) : (a.step d).state.RootsClear := by
  cases a with
  | dispatch spawner cmd =>
    have hstep : Action.step d (.dispatch spawner cmd) =
        (Exec.run (dispatch spawner cmd) d).2 := by
      rw [Action.step, Action.method, MachineLemmas.run_then_pure]
    rw [hstep]
    cases hrun : Exec.run (dispatch spawner cmd) d with
    | mk r d' =>
      cases r with
      | error e =>
        have hreturns := MachineLemmas.returns_iff.mp ha
        rw [Action.method, MachineLemmas.run_then_pure, hrun] at hreturns
        have hframe := dispatch_atomic spawner cmd d e (by rw [hrun]) fun hpanic =>
          hreturns (congrArg Except.error hpanic)
        rw [hrun] at hframe
        have hstate : d'.state = d.state := congrArg Prod.fst hframe
        exact hstate ▸ hclear
      | ok out =>
        simp only [Dispatcher.dispatch, Exec.run_bind_ok, run_bumpRevision_ok,
          run_pure_ok] at hrun
        obtain ⟨_, d₁, hexecute, _, _, ⟨revision, _, rfl⟩, rfl, rfl⟩ := hrun
        intro ws' hws' path hpath
        rcases roots_execute hexecute ws' hws' with ⟨ws, hws, heq⟩ | hnew
        · exact hclear ws hws path (heq ▸ hpath)
        · obtain ⟨name, distro, tab, rfl, hcheck⟩ := hnew
          rw [hpath] at hcheck
          exact not_underMnt hcheck (hroot path hpath)
  | _ =>
    exact clear_of_keeps (keepsRoots_step (Action.stepped ha) (fun _ _ heq => by cases heq)) hclear

/-- A new dispatcher accepts a detour. -/
theorem accepts_detour (h : checkRoot (some path) = .ok ()) (spawner : Spawner) :
    ∃ out d', Exec.run (dispatch spawner (.createWorkspace "w" (some path) none none)) .new =
      (.ok out, d') := by
  refine ⟨.workspaceCreated ⟨1⟩ ⟨2⟩ none none, _, Prod.ext ?_ rfl⟩
  simp only [dispatch, execute, createWorkspace, check, Exec.run_bind, Exec.run_reads, h,
    Except.mapError]
  rfl

end RootsLemmas

open RootsLemmas in
/-- The guard holds for exactly the paths that are no detour, and in a run without detours no
root comes to lie under `/mnt`. -/
theorem roots_clear_iff (path : String) {d : Dispatcher}
    (h : (Dispatcher.rooted fun path => ¬ Detour path).Reach
      (fun d => d.Start ∧ d.state.RootsClear) d) :
    (Guarded path ↔ ¬ Detour path) ∧ d.state.RootsClear := by
  refine ⟨⟨fun hguarded hdetour => ?_, fun hdetour d _ spawner name distro tab out d' hrun => ?_⟩,
    ?_⟩
  · obtain ⟨out, d', hrun⟩ := accepts_detour (checkRoot_of_detour hdetour) fun _ => .error ""
    exact hguarded .new (.init (.inl rfl)) _ "w" none none out d' hrun (underMnt_of_detour hdetour)
  · simp only [Dispatcher.dispatch, Exec.run_bind_ok] at hrun
    obtain ⟨_, _, hcreate, -⟩ := hrun
    exact not_underMnt (create_ok hcreate).1 hdetour
  · refine h.invariant (I := fun d => d.state.RootsClear) (fun _ hd => hd.2)
      fun e a _ hclear ha => ?_
    have hadmits : a.returns e = true ∧ ∀ path ∈ a.newRoot, ¬ Detour path := ha
    exact clear_step hclear hadmits.1 hadmits.2

/-- A workspace is created in a home directory. -/
def createdAtHome : List Action :=
  [.dispatch (fun _ => .ok 7) (.createWorkspace "w" (some "/home/u") none none)]

theorem roots_clear_created :
    Guarded "/home/u" ∧ (Dispatcher.machine.run .new createdAtHome).state.RootsClear := by
  have hno : ¬ Detour "/home/u" := by
    rintro ⟨before, after, heq, -⟩
    have hmem : mnt ∈ pathComponents "/home/u" :=
      heq ▸ List.mem_cons_of_mem _ (List.mem_append_right _ List.mem_cons_self)
    exact absurd hmem (by decide)
  have hinit : (Dispatcher.rooted fun path => ¬ Detour path).Reach
      (fun d => d.Start ∧ d.state.RootsClear) .new :=
    .init ⟨.inl rfl, fun ws hws => absurd hws List.not_mem_nil⟩
  have hreach := hinit.of_trace createdAtHome ⟨⟨by decide, fun path hpath => ?_⟩, trivial⟩
  · obtain ⟨hguarded, hclear⟩ := roots_clear_iff "/home/u" hreach
    exact ⟨hguarded.mpr hno, hclear⟩
  · obtain rfl := Option.some_inj.mp hpath
    exact hno

/-- A doubled slash is a detour that the guard does not see. -/
theorem not_guarded : ¬ Guarded "//mnt/c" ∧
    ¬ ∀ d, Dispatcher.machine.Reach Dispatcher.Start d → d.state.RootsClear := by
  refine ⟨fun h => ?_, fun h => ?_⟩
  · exact h .new (.init (.inl rfl)) (fun _ => .ok 7) "w" none none _ _ (Prod.ext (by rfl) rfl)
      (by decide +kernel)
  · have hinit : Dispatcher.machine.Reach Dispatcher.Start .new := .init (.inl rfl)
    have hreach := hinit.of_trace
      [.dispatch (fun _ => .ok 7) (.createWorkspace "w" (some "//mnt/c") none none)] (by decide)
    exact h _ hreach _ (List.mem_singleton_self _) "//mnt/c" rfl (by decide +kernel)

end Mast
