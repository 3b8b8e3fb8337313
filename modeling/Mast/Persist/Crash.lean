import Mast.Lib.Files
import Mast.Persist.RoundTrip

/-!
# The state file across crashes

`save_atomic` writes the document to `state.json.tmp-<pid>`, pushes it to the disk and renames it
to `state.json`. A process can end and the power can fail between any two of these steps, a call
can fail, and several instances of the app can run at once. `load` removes stale temporary files
and moves a file that it cannot take out of the way.

Results:
1. `isStaleTmp_iff`: the sweep removes temporary files only.
2. `state_survives`: `state.json` is always a whole document that was put in place, and a start
   restores from it a state that a dispatcher had reached.
-/

namespace Mast

/-! ## Names -/

/-- The names of the state file, of the temporary file of a process and of a file that was moved
out of the way. -/
inductive StateName
  | state
  | temp (pid : UInt32)
  | corrupt (epochSecs : UInt64)
deriving DecidableEq, Repr

namespace StateName

def text : StateName → String
  | state => "state.json"
  | temp pid => "state.json" ++ (".tmp-" ++ toString pid.toNat)
  | corrupt epochSecs => "state.json" ++ (".corrupt-" ++ toString epochSecs.toNat)

/-- The test of `sweep_stale_tmp` on a name of the directory. -/
def isStaleTmp (n : StateName) : Bool :=
  ("state.json" ++ ".tmp-").toList.isPrefixOf n.text.toList

theorem isStaleTmp_iff {n : StateName} : n.isStaleTmp = true ↔ ∃ pid, n = .temp pid := by
  cases n with
  | state => simp [isStaleTmp, text, List.isPrefixOf]
  | temp pid => simp [isStaleTmp, text, List.isPrefixOf]
  | corrupt epochSecs => simp [isStaleTmp, text, List.isPrefixOf]

end StateName

/-! ## Processes and the disk -/

section Disk

variable (fromSlice : List UInt8 → Option Json.Value) (toVecPretty : PersistedState → List UInt8)
  (found : Option (List UInt8))

/-- What `save_atomic` writes for a state that a dispatcher reached, if serde reads it back. -/
def SavedDocument (doc : List UInt8) : Prop :=
  ∃ d, Dispatcher.machine.Reach (Dispatcher.Booted fromSlice) d ∧
    TextRoundTrips fromSlice toVecPretty d.state ∧ doc = toVecPretty ⟨persistVersion, d.state⟩

/-- What a protected name may hold: a saved document, or what the first start found. -/
def StateDocument (doc : List UInt8) : Prop :=
  found = some doc ∨ SavedDocument fromSlice toVecPretty doc

/-- The writers are processes, each with its own temporary name; they push their bytes to the disk
before the rename. -/
def stateConfig : ReplaceConfig StateName UInt32 where
  temp := .temp
  target _ := .state
  syncs := true
  good _ := StateDocument fromSlice toVecPretty found
  temp_injective _ _ h := StateName.temp.inj h
  target_ne_temp _ _ h := by cases h

end Disk

/-- The files and the saves under way. For the record, `placed` are the documents that were put in
place so far, newest first, with the one that was found; `disturbed`: since the newest was put
there, the power failed or the file was moved out of the way. -/
structure StateDisk where
  disk : Replace StateName UInt32
  placed : List (List UInt8)
  disturbed : Bool

namespace StateDisk

/-- The steps of `save_atomic`, a removal by `sweep_stale_tmp`, the rename of `backup_corrupt`, and
what can happen to a process and to the machine. `stop` is a call that fails, or the end of the
process. -/
inductive Step
  | create (pid : UInt32) (doc : List UInt8)
  | write (pid : UInt32) (count : Nat)
  | sync (pid : UInt32)
  | rename (pid : UInt32)
  | stop (pid : UInt32)
  | sweep (n : StateName)
  | backup (epochSecs : UInt64)
  | powerLoss (back : Nat) (junk : Nat → List UInt8)

variable (c : ReplaceConfig StateName UInt32) (s : StateDisk)

/-- A document is put in place if its temporary file is still there. -/
def rename (pid : UInt32) : StateDisk :=
  let disk := s.disk.step c (.rename pid)
  match s.disk.jobs pid with
  | some job =>
    if (s.disk.files.dir (.temp pid)).isSome then ⟨disk, job.doc :: s.placed, false⟩
    else { s with disk }
  | none => { s with disk }

def step : Step → StateDisk
  | .create pid doc => { s with disk := s.disk.step c (.create pid doc) }
  | .write pid count => { s with disk := s.disk.step c (.write pid count) }
  | .sync pid => { s with disk := s.disk.step c (.sync pid) }
  | .rename pid => s.rename c pid
  | .stop pid => { s with disk := s.disk.step c (.stop pid) }
  | .sweep n => { s with disk := s.disk.step c (.remove n) }
  | .backup epochSecs =>
    { s with disk := s.disk.step c (.move .state (.corrupt epochSecs)), disturbed := true }
  | .powerLoss back junk =>
    { s with disk := s.disk.step c (.powerLoss back junk), disturbed := true }

/-- A process does one save at a time, with a document for a state that its dispatcher reached. A
file that cannot be read is moved out of the way like one that is corrupt. -/
def Admits (saved : List UInt8 → Prop) : Step → Prop
  | .create pid doc => s.disk.jobs pid = none ∧ saved doc
  | .rename pid => ∃ job, s.disk.jobs pid = some job ∧ job.written = job.doc.length ∧
      job.synced = true
  | .sweep n => n.isStaleTmp = true
  | _ => True

def machine (fromSlice : List UInt8 → Option Json.Value)
    (toVecPretty : PersistedState → List UInt8) (found : Option (List UInt8)) :
    Machine StateDisk Step where
  step s := s.step (stateConfig fromSlice toVecPretty found)
  admits s := s.Admits (SavedDocument fromSlice toVecPretty)

/-- Nothing but the file that the first start finds, if there is one. -/
def first (found : Option (List UInt8)) : StateDisk where
  disk :=
    { files :=
        { nodes := found.toList.map fun data => ⟨data, true⟩
          dir := fun n => if n = .state then found.map fun _ => 0 else none
          behind := [] }
      jobs := fun _ => none }
  placed := found.toList
  disturbed := false

end StateDisk

namespace CrashLemmas

open StateDisk Replace FiniteLemmas

variable {fromSlice : List UInt8 → Option Json.Value} {toVecPretty : PersistedState → List UInt8}
  {found : Option (List UInt8)} {s : StateDisk}

/-- The files are in order, and the state file was put in place at some time. -/
structure DiskInv (c : ReplaceConfig StateName UInt32) (s : StateDisk) : Prop where
  files : ReplaceInv c s.disk
  newest : s.disturbed = false → s.disk.files.read .state = s.placed.head?
  placed : ∀ data, s.disk.files.MayShow .state data → data ∈ s.placed

theorem protected_state : Protected (stateConfig fromSlice toVecPretty found) .state :=
  fun _ h => by cases h

theorem protected_corrupt (epochSecs : UInt64) :
    Protected (stateConfig fromSlice toVecPretty found) (.corrupt epochSecs) :=
  fun _ h => by cases h

theorem good_of_read (h : ReplaceInv (stateConfig fromSlice toVecPretty found) s.disk)
    {n : StateName} (hn : Protected (stateConfig fromSlice toVecPretty found) n)
    {data : List UInt8} (hread : s.disk.files.read n = some data) :
    StateDocument fromSlice toVecPretty found data := by
  obtain ⟨i, hi, hdata⟩ := Option.bind_eq_some_iff.mp hread
  obtain ⟨node, hnode, rfl⟩ := Option.map_eq_some_iff.mp hdata
  exact ((h.dirs _ (mem_dirs_self _)).whole n i node hn hi hnode).2

/-- What a process does before its rename. -/
theorem DiskInv.quiet (h : DiskInv (stateConfig fromSlice toVecPretty found) s)
    {a : Replace.Action StateName UInt32} (hquiet : IsQuiet a)
    (ha : Replace.Admits (stateConfig fromSlice toVecPretty found) s.disk a) :
    DiskInv (stateConfig fromSlice toVecPretty found)
      { s with disk := s.disk.step (stateConfig fromSlice toVecPretty found) a } where
  files := h.files.step ha
  newest := fun hcalm => (read_quiet h.files hquiet protected_state).trans (h.newest hcalm)
  placed := fun data hshow => h.placed data (mayShow_quiet h.files hquiet protected_state hshow)

theorem DiskInv.rename (h : DiskInv (stateConfig fromSlice toVecPretty found) s) {pid : UInt32}
    {job : ReplaceJob} (hjob : s.disk.jobs pid = some job)
    (hwritten : job.written = job.doc.length) (hsynced : job.synced = true) :
    DiskInv (stateConfig fromSlice toVecPretty found)
      (s.rename (stateConfig fromSlice toVecPretty found) pid) := by
  have hfiles := h.files.rename hjob hwritten fun _ => hsynced
  have hread := read_rename h.files hjob hwritten protected_state
  have hshow {data : List UInt8}
      (hshow : (s.disk.rename (stateConfig fromSlice toVecPretty found) pid).files.MayShow .state
        data) : s.disk.files.MayShow .state data ∨ s.disk.files.read (.temp pid) = some data := by
    unfold Replace.rename at hshow
    rw [hjob] at hshow
    exact (mayShow_rename hshow).imp_right And.right
  unfold StateDisk.rename
  rw [hjob]
  dsimp only
  split
  · next htemp =>
    refine ⟨hfiles, fun _ => hread.trans (if_pos ⟨rfl, htemp⟩), fun data hdata => ?_⟩
    rcases hshow hdata with hold | hnew
    · exact List.mem_cons_of_mem _ (h.placed data hold)
    · rw [doc_of_read h.files hjob hwritten hnew]
      exact List.mem_cons_self
  · next hgone =>
    refine ⟨hfiles, fun hcalm => ?_, fun data hdata => ?_⟩
    · exact (hread.trans (if_neg fun hboth => hgone hboth.2)).trans (h.newest hcalm)
    · refine (hshow hdata).elim (h.placed data) fun hnew => ?_
      obtain ⟨i, hi, -⟩ := Option.bind_eq_some_iff.mp hnew
      exact absurd (Option.isSome_iff_exists.mpr ⟨i, hi⟩) hgone

theorem DiskInv.step (h : DiskInv (stateConfig fromSlice toVecPretty found) s)
    {a : StateDisk.Step} (ha : (machine fromSlice toVecPretty found).admits s a) :
    DiskInv (stateConfig fromSlice toVecPretty found)
      (s.step (stateConfig fromSlice toVecPretty found) a) := by
  cases a with
  | create pid doc => exact h.quiet (a := .create pid doc) trivial ⟨ha.1, .inr ha.2⟩
  | write pid count => exact h.quiet (a := .write pid count) trivial trivial
  | sync pid => exact h.quiet (a := .sync pid) trivial trivial
  | stop pid => exact h.quiet (a := .stop pid) trivial trivial
  | rename pid =>
    obtain ⟨job, hjob, hwritten, hsynced⟩ := ha
    exact h.rename hjob hwritten hsynced
  | sweep n =>
    obtain ⟨pid, rfl⟩ := StateName.isStaleTmp_iff.mp ha
    have hne : StateName.state ≠ .temp pid := by simp
    have hread : (s.disk.files.remove (.temp pid)).read .state = s.disk.files.read .state :=
      read_eq (Function.update_of_ne hne none _) fun _ _ => rfl
    exact ⟨h.files.remove _, fun hcalm => hread.trans (h.newest hcalm),
      fun data hshow => h.placed data (mayShow_remove hne hshow)⟩
  | backup epochSecs =>
    refine ⟨h.files.move protected_state (protected_corrupt epochSecs) fun data hread =>
      good_of_read h.files protected_state hread, nofun, fun data hshow => h.placed data ?_⟩
    exact (mayShow_rename hshow).resolve_right fun hnew => by cases hnew.1
  | powerLoss back junk =>
    exact ⟨h.files.powerLoss rfl back junk, nofun, fun data hshow =>
      h.placed data (mayShow_powerLoss h.files rfl protected_state hshow)⟩

theorem diskInv_first :
    DiskInv (stateConfig fromSlice toVecPretty found) (StateDisk.first found) where
  files := by
    refine replaceInv_of_start
      { jobs := fun _ => rfl
        behind := rfl
        bound := fun n i hi => ?_
        distinct := fun n n' i hi hi' => ?_
        whole := fun n i node hn hi hnode => ?_ }
    · cases found with
      | none => simp [StateDisk.first] at hi
      | some data =>
        simp only [StateDisk.first, Option.map_some, Option.toList_some, List.map_cons,
          List.map_nil, List.length_singleton] at hi ⊢
        split at hi
        · have h0 : 0 = i := Option.some_inj.mp hi
          omega
        · cases hi
    · have hstate : ∀ n, (StateDisk.first found).disk.files.dir n = some i → n = .state := by
        intro n hn
        simp only [StateDisk.first] at hn
        split at hn
        next heq => exact heq
        next => cases hn
      rw [hstate n hi, hstate n' hi']
    · cases found with
      | none => simp [StateDisk.first] at hnode
      | some data =>
        have hmem := List.mem_of_getElem? hnode
        simp only [StateDisk.first, Option.toList_some, List.map_cons, List.map_nil,
          List.mem_singleton] at hmem
        exact hmem ▸ ⟨rfl, .inl rfl⟩
  newest := fun _ => by cases found <;> rfl
  placed := fun data ⟨dir, hdir, hread⟩ => by
    rw [List.mem_singleton.mp hdir] at hread
    cases found with
    | none => cases hread
    | some doc => exact List.mem_singleton.mpr (Option.some_inj.mp hread).symm

/-- What `load` makes of a document that a protected name may hold. -/
theorem load_document {doc : List UInt8} (h : StateDocument fromSlice toVecPretty found doc) :
    found = some doc ∨ ∃ d, Dispatcher.machine.Reach (Dispatcher.Booted fromSlice) d ∧
      doc = toVecPretty ⟨persistVersion, d.state⟩ ∧
      load fromSlice PersistedState.fromValue (.bytes doc) = .restored d.state.sanitized [] := by
  rcases h with hfound | ⟨d, hreach, htext, rfl⟩
  · exact .inl hfound
  · have hlegal := legal_of_reach (reach_start hreach)
    have hload := RoundTripLemmas.load_of_legal hlegal
      (RoundTripLemmas.nextId_of_reach (reach_start hreach)) (FiniteLemmas.finite_of_reach hreach)
      htext
    exact .inr ⟨d, hreach, rfl, hload⟩

end CrashLemmas

open CrashLemmas Replace in
/-- In every run of any number of processes, with calls that fail, processes that end and power
losses between any two steps: `state.json`, if it is there, is one of the documents that were put
in place, and it is the newest of them unless since then the power failed or it was moved out of
the way. It and every file moved out of the way is the document found at the first start or one
that `load` restores to a state that a dispatcher had reached. -/
theorem state_survives {fromSlice : List UInt8 → Option Json.Value}
    {toVecPretty : PersistedState → List UInt8} {found : Option (List UInt8)} {s : StateDisk}
    (h : (StateDisk.machine fromSlice toVecPretty found).Reach (· = .first found) s) :
    (∀ data, s.disk.files.read .state = some data → data ∈ s.placed) ∧
    (s.disturbed = false → s.disk.files.read .state = s.placed.head?) ∧
    ∀ n, n = .state ∨ (∃ epochSecs, n = .corrupt epochSecs) → ∀ data,
      s.disk.files.read n = some data → found = some data ∨
        ∃ d, Dispatcher.machine.Reach (Dispatcher.Booted fromSlice) d ∧
          data = toVecPretty ⟨persistVersion, d.state⟩ ∧
          load fromSlice PersistedState.fromValue (.bytes data) =
            .restored d.state.sanitized [] := by
  have hinv : DiskInv (stateConfig fromSlice toVecPretty found) s :=
    h.invariant (fun s hs => hs ▸ diskInv_first) fun s a _ hinv ha => DiskInv.step hinv ha
  refine ⟨fun data hread => hinv.placed data ⟨_, mem_dirs_self _, hread⟩, hinv.newest,
    fun n hn data hread => load_document (good_of_read hinv.files ?_ hread)⟩
  rcases hn with rfl | ⟨epochSecs, rfl⟩
  · exact protected_state
  · exact protected_corrupt epochSecs

def warnedDocument : List UInt8 := writeTerminal ⟨persistVersion, warnedTerminal.state⟩

/-- The power fails in the middle of a first save; the next process saves again. -/
def tornTrace : List StateDisk.Step :=
  [.create 7 warnedDocument, .write 7 10, .powerLoss 0 fun _ => [0], .sweep (.temp 7),
    .create 8 warnedDocument, .write 8 warnedDocument.length, .sync 8, .rename 8]

def tornDisk : StateDisk :=
  (StateDisk.machine parseTerminal writeTerminal none).run (.first none) tornTrace

theorem state_survives_torn :
    ∃ d, Dispatcher.machine.Reach (Dispatcher.Booted parseTerminal) d ∧
      load parseTerminal PersistedState.fromValue (.bytes warnedDocument) =
        .restored d.state.sanitized [] := by
  have htext : writeTerminal ⟨persistVersion, warnedTerminal.state⟩ =
      terminalText "7" "notStarted" := if_pos rfl
  have hsaved : SavedDocument parseTerminal writeTerminal warnedDocument := by
    refine ⟨warnedTerminal, .of_trace (.init (.inl rfl)) warnedTerminalTrace (by decide), ?_, rfl⟩
    rw [TextRoundTrips, htext]
    exact if_pos rfl
  have hwritten :
      min (0 + warnedDocument.length) warnedDocument.length = warnedDocument.length := by
    rw [Nat.zero_add, Nat.min_self]
  have hadmitted : (StateDisk.machine parseTerminal writeTerminal none).Admitted (.first none)
      tornTrace :=
    ⟨⟨rfl, hsaved⟩, trivial, trivial, (StateName.isStaleTmp_iff (n := .temp 7)).mpr ⟨7, rfl⟩,
      ⟨rfl, hsaved⟩, trivial, trivial, ⟨_, rfl, hwritten, rfl⟩, trivial⟩
  have hfirst : (StateDisk.machine parseTerminal writeTerminal none).Reach (· = .first none)
      (.first none) := .init rfl
  have hreach : (StateDisk.machine parseTerminal writeTerminal none).Reach (· = .first none)
      tornDisk := hfirst.of_trace tornTrace hadmitted
  obtain ⟨-, hnewest, hdocuments⟩ := state_survives hreach
  rcases hdocuments .state (.inl rfl) warnedDocument ((hnewest rfl).trans rfl) with
    hnone | ⟨d, hd, -, hload⟩
  · cases hnone
  · exact ⟨d, hd, hload⟩

end Mast
