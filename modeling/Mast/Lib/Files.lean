import Mathlib.Logic.Function.Basic
import Mast.Lib.Machine

/-!
# Files that are replaced by a rename

A file system as a directory of names and the files they name. A file whose bytes were not
pushed to the disk may hold anything after a power loss, and the directory may be an earlier one.

A writer writes a document into a temporary file of its own, may push it to the disk, and renames
it to its target. Any call can fail, other parties may remove any name, and a process can end
between any two steps.

Results:
1. `ReplaceInv.step`: what a writer has open is no protected file.
2. `whole`: a target holds a whole document at any time, after a power loss too if the writers
   push their bytes to the disk first.
3. `read_quiet`, `read_rename`: only a rename changes what stands under a protected name, and it
   puts the document of its write there.
4. `mayShow_quiet`, `mayShow_rename`, `mayShow_powerLoss`: what a power loss may bring back under a
   protected name was put there before.
-/

universe u v

/-- The bytes of a file; `stable`: they are on the disk. -/
structure FileNode where
  data : List UInt8
  stable : Bool
deriving DecidableEq

/-- Nodes by number, the directory, and the older directories that a power loss may bring back. -/
structure Files (N : Type u) where
  nodes : List FileNode
  dir : N → Option Nat
  behind : List (N → Option Nat)

namespace Files

variable {N : Type u} [DecidableEq N] (f : Files N)

/-- The bytes under a name. -/
def read (n : N) : Option (List UInt8) := (f.dir n).bind fun i => f.nodes[i]?.map FileNode.data

/-- The bytes under a name of another directory. -/
def readIn (dir : N → Option Nat) (n : N) : Option (List UInt8) :=
  (dir n).bind fun i => f.nodes[i]?.map FileNode.data

/-- Every directory that may be found after a power loss. -/
def dirs : List (N → Option Nat) := f.dir :: f.behind

/-- The bytes are under the name now, or were so in a directory that may be found again. -/
def MayShow (n : N) (data : List UInt8) : Prop := ∃ dir ∈ f.dirs, f.readIn dir n = some data

def setDir (dir : N → Option Nat) : Files N := { f with dir, behind := f.dirs }

def modifyNode (i : Nat) (g : FileNode → FileNode) : Files N :=
  { f with nodes := f.nodes.modify i g }

/-- Open a file for writing from its start. A file that is there loses its bytes. -/
def create (n : N) : Files N × Nat :=
  match f.dir n with
  | some i => (f.modifyNode i fun _ => ⟨[], false⟩, i)
  | none =>
    let fresh : Files N := { f with nodes := f.nodes ++ [⟨[], false⟩] }
    (fresh.setDir (Function.update f.dir n (some f.nodes.length)), f.nodes.length)

def append (i : Nat) (bytes : List UInt8) : Files N :=
  f.modifyNode i fun node => ⟨node.data ++ bytes, false⟩

/-- `sync_all`: the bytes reach the disk. -/
def sync (i : Nat) : Files N := f.modifyNode i fun node => { node with stable := true }

def remove (n : N) : Files N := f.setDir (Function.update f.dir n none)

/-- A name that is there takes the place of another. -/
def rename (source target : N) : Files N :=
  match f.dir source with
  | some i => f.setDir (Function.update (Function.update f.dir target (some i)) source none)
  | none => f

/-- Only what reached the disk is sure to be found again. -/
def powerLoss (back : Nat) (junk : Nat → List UInt8) : Files N where
  nodes := f.nodes.mapIdx fun i node => if node.stable then node else ⟨junk i, true⟩
  dir := (f.dirs[back]?).getD f.dir
  behind := []

end Files

/-! ## Writers -/

/-- The names of the writers, whether they push their bytes to the disk, and which documents a
protected name may hold. Temporary names are not protected. -/
structure ReplaceConfig (N : Type u) (W : Type v) where
  temp : W → N
  target : W → N
  syncs : Bool
  good : N → List UInt8 → Prop
  temp_injective : Function.Injective temp
  target_ne_temp : ∀ w w', target w ≠ temp w'

/-- A write that is under way: the file it has open, the document, and how much of it is
written. -/
structure ReplaceJob where
  node : Nat
  doc : List UInt8
  written : Nat
  synced : Bool

structure Replace (N : Type u) (W : Type v) where
  files : Files N
  jobs : W → Option ReplaceJob

namespace Replace

variable {N : Type u} {W : Type v}

inductive Action (N : Type u) (W : Type v)
  | create (w : W) (doc : List UInt8)
  | write (w : W) (count : Nat)
  | sync (w : W)
  | rename (w : W)
  | stop (w : W)
  | remove (n : N)
  | move (source target : N)
  | powerLoss (back : Nat) (junk : Nat → List UInt8)

section Machine

variable [DecidableEq N] [DecidableEq W] (c : ReplaceConfig N W) (s : Replace N W)

def setJob (w : W) (job : Option ReplaceJob) (files : Files N) : Replace N W :=
  ⟨files, Function.update s.jobs w job⟩

def create (w : W) (doc : List UInt8) : Replace N W :=
  let (files, node) := s.files.create (c.temp w)
  s.setJob w (some ⟨node, doc, 0, false⟩) files

/-- One call of `write` takes some of the bytes that are left. -/
def write (w : W) (count : Nat) : Replace N W :=
  match s.jobs w with
  | some job =>
    s.setJob w
      (some { job with written := min (job.written + count) job.doc.length, synced := false })
      (s.files.append job.node ((job.doc.drop job.written).take count))
  | none => s

def sync (w : W) : Replace N W :=
  match s.jobs w with
  | some job => s.setJob w (some { job with synced := true }) (s.files.sync job.node)
  | none => s

/-- The last step of a write: the handle is closed before the rename. -/
def rename (w : W) : Replace N W :=
  match s.jobs w with
  | some _ => s.setJob w none (s.files.rename (c.temp w) (c.target w))
  | none => s

def step : Action N W → Replace N W
  | .create w doc => s.create c w doc
  | .write w count => s.write w count
  | .sync w => s.sync w
  | .rename w => s.rename c w
  | .stop w => s.setJob w none s.files
  | .remove n => { s with files := s.files.remove n }
  | .move source target => { s with files := s.files.rename source target }
  | .powerLoss back junk => ⟨s.files.powerLoss back junk, fun _ => none⟩

/-- A name that only whole documents may stand under. -/
def Protected (n : N) : Prop := ∀ w, n ≠ c.temp w

/-- A writer does one write at a time, and renames what is written as a whole. A protected file
is moved only to a name that may hold what it holds. -/
def Admits : Action N W → Prop
  | .create w doc => s.jobs w = none ∧ c.good (c.target w) doc
  | .rename w => ∃ job, s.jobs w = some job ∧ job.written = job.doc.length ∧
      (c.syncs = true → job.synced = true)
  | .move source target => Protected c source ∧ Protected c target ∧
      ∀ data, s.files.read source = some data → c.good target data
  | .powerLoss _ _ => c.syncs = true
  | _ => True

def machine : Machine (Replace N W) (Action N W) where
  step := step c
  admits := Admits c

end Machine

section Invariant

variable (c : ReplaceConfig N W) (s : Replace N W)

/-- Nothing is under way, no two names share a file, and the protected files hold documents. -/
structure Start (s : Replace N W) : Prop where
  jobs : ∀ w, s.jobs w = none
  behind : s.files.behind = []
  bound : ∀ n i, s.files.dir n = some i → i < s.files.nodes.length
  distinct : ∀ n n' i, s.files.dir n = some i → s.files.dir n' = some i → n = n'
  whole : ∀ n i node, Protected c n → s.files.dir n = some i → s.files.nodes[i]? = some node →
    node.stable = true ∧ c.good n node.data

/-! ## The invariant -/

/-- What holds of each directory that may be found again. -/
structure DirInv (nodes : List FileNode) (dir : N → Option Nat) : Prop where
  bound : ∀ n i, dir n = some i → i < nodes.length
  distinct : ∀ n n' i, dir n = some i → dir n' = some i → n = n'
  whole : ∀ n i node, Protected c n → dir n = some i → nodes[i]? = some node →
    (c.syncs = true → node.stable = true) ∧ c.good n node.data

/-- What holds of a write that is under way. Its file has no other name than the temporary one. -/
structure JobInv (w : W) (job : ReplaceJob) : Prop where
  bound : job.node < s.files.nodes.length
  le : job.written ≤ job.doc.length
  good : c.good (c.target w) job.doc
  data : ∀ node, s.files.nodes[job.node]? = some node →
    node.data = job.doc.take job.written ∧ (job.synced = true → node.stable = true)
  free : ∀ dir ∈ s.files.dirs, ∀ n, Protected c n → dir n ≠ some job.node
  own : ∀ n, s.files.dir n = some job.node → n = c.temp w
  named : ∀ i, s.files.dir (c.temp w) = some i → i = job.node
  alone : ∀ w' job', s.jobs w' = some job' → job'.node = job.node → w' = w

structure ReplaceInv : Prop where
  dirs : ∀ dir ∈ s.files.dirs, DirInv c s.files.nodes dir
  -- a file that is protected in some directory has no temporary name now
  closed : ∀ dir ∈ s.files.dirs, ∀ n i w, Protected c n → dir n = some i →
    s.files.dir (c.temp w) ≠ some i
  jobs : ∀ w job, s.jobs w = some job → JobInv c s w job

end Invariant

variable {c : ReplaceConfig N W} {s : Replace N W} {nodes : List FileNode} {dir : N → Option Nat}
  {w : W} {job : ReplaceJob}

theorem not_protected_temp (w : W) : ¬ Protected c (c.temp w) := fun h => h w rfl

theorem protected_target (w : W) : Protected c (c.target w) := fun w' => c.target_ne_temp w w'

theorem mem_dirs_self (f : Files N) : f.dir ∈ f.dirs := List.mem_cons_self

theorem mem_dirs_setDir {f : Files N} {dir dir' : N → Option Nat} :
    dir' ∈ (f.setDir dir).dirs ↔ dir' = dir ∨ dir' ∈ f.dirs := List.mem_cons

/-! ### Directories -/

/-- A change of a file that is not protected. -/
theorem DirInv.modify (h : DirInv c nodes dir) {i : Nat} (g : FileNode → FileNode)
    (hfree : ∀ n, Protected c n → dir n ≠ some i) : DirInv c (nodes.modify i g) dir where
  bound := fun n j hj => by
    rw [List.length_modify]
    exact h.bound n j hj
  distinct := h.distinct
  whole := fun n j node hn hj hnode => by
    have hne : i ≠ j := fun hij => hfree n hn (hij ▸ hj)
    rw [List.getElem?_modify_ne _ _ hne] at hnode
    exact h.whole n j node hn hj hnode

theorem DirInv.append (h : DirInv c nodes dir) (node : FileNode) :
    DirInv c (nodes ++ [node]) dir where
  bound := fun n j hj => by
    rw [List.length_append]
    exact Nat.lt_succ_of_lt (h.bound n j hj)
  distinct := h.distinct
  whole := fun n j node hn hj hnode => by
    rw [List.getElem?_append_left (h.bound n j hj)] at hnode
    exact h.whole n j node hn hj hnode

/-! ### Writes under way -/

/-- A write is not touched by what happens to other files. -/
theorem JobInv.frame {s' : Replace N W} (h : JobInv c s w job)
    (hnode : s'.files.nodes[job.node]? = s.files.nodes[job.node]?)
    (hfree : ∀ dir ∈ s'.files.dirs, ∀ n, Protected c n → dir n ≠ some job.node)
    (hown : ∀ n, s'.files.dir n = some job.node → s.files.dir n = some job.node)
    (hnamed : ∀ i, s'.files.dir (c.temp w) = some i → s.files.dir (c.temp w) = some i)
    (halone : ∀ w' job', s'.jobs w' = some job' → job'.node = job.node → w' = w) :
    JobInv c s' w job where
  bound := by
    exact (List.getElem?_eq_some_iff.mp (hnode.trans (List.getElem?_eq_getElem h.bound))).1
  le := h.le
  good := h.good
  data := fun node hget => h.data node (hnode ▸ hget)
  free := hfree
  own := fun n hn => h.own n (hown n hn)
  named := fun i hi => h.named i (hnamed i hi)
  alone := halone

/-- Two writes have different files open. -/
theorem ReplaceInv.node_ne (h : ReplaceInv c s) {w' : W} {job' : ReplaceJob}
    (hjob : s.jobs w = some job) (hjob' : s.jobs w' = some job') (hne : w' ≠ w) :
    job'.node ≠ job.node :=
  fun heq => hne ((h.jobs w job hjob).alone w' job' hjob' heq)

/-! ### Changes of the directory -/

section Names

variable [DecidableEq N]

theorem update_none_eq_some {n n' : N} {i : Nat} (h : Function.update dir n none n' = some i) :
    dir n' = some i := by
  by_cases hn : n' = n
  · rw [hn, Function.update_self] at h
    cases h
  · rwa [Function.update_of_ne hn] at h

theorem DirInv.update_none (h : DirInv c nodes dir) (n : N) :
    DirInv c nodes (Function.update dir n none) where
  bound := fun n' i hi => h.bound n' i (update_none_eq_some hi)
  distinct := fun n₁ n₂ i h₁ h₂ =>
    h.distinct n₁ n₂ i (update_none_eq_some h₁) (update_none_eq_some h₂)
  whole := fun n' i node hn hi => h.whole n' i node hn (update_none_eq_some hi)

/-- What stands under a name after a rename, if the file was there. -/
theorem rename_eq_some {source target n : N} {i j : Nat}
    (h : Function.update (Function.update dir target (some i)) source none n = some j) :
    (n = target ∧ j = i) ∨ (n ≠ source ∧ dir n = some j) := by
  by_cases hs : n = source
  · rw [hs, Function.update_self] at h
    cases h
  · rw [Function.update_of_ne hs] at h
    by_cases ht : n = target
    · rw [ht, Function.update_self] at h
      exact .inl ⟨ht, (Option.some_inj.mp h).symm⟩
    · rw [Function.update_of_ne ht] at h
      exact .inr ⟨hs, h⟩

/-- A rename to a name that may hold the file. -/
theorem DirInv.rename (h : DirInv c nodes dir) {source target : N} {i : Nat}
    (hi : dir source = some i) (hgood : Protected c target → ∀ node, nodes[i]? = some node →
      (c.syncs = true → node.stable = true) ∧ c.good target node.data) :
    DirInv c nodes (Function.update (Function.update dir target (some i)) source none) where
  bound := fun n j hj => by
    rcases rename_eq_some hj with ⟨-, rfl⟩ | ⟨-, hj⟩
    · exact h.bound source j hi
    · exact h.bound n j hj
  distinct := fun n n' j hn hn' => by
    rcases rename_eq_some hn with ⟨hnt, hj⟩ | ⟨hns, hold⟩
    · rcases rename_eq_some hn' with ⟨hnt', -⟩ | ⟨hns', hold'⟩
      · exact hnt.trans hnt'.symm
      · exact absurd (h.distinct n' source i (hj ▸ hold') hi) hns'
    · rcases rename_eq_some hn' with ⟨-, hj⟩ | ⟨hns', hold'⟩
      · exact absurd (h.distinct n source i (hj ▸ hold) hi) hns
      · exact h.distinct n n' j hold hold'
  whole := fun n j node hn hj hnode => by
    rcases rename_eq_some hj with ⟨rfl, rfl⟩ | ⟨-, hj⟩
    · exact hgood hn node hnode
    · exact h.whole n j node hn hj hnode

theorem ReplaceInv.remove (h : ReplaceInv c s) (n : N) :
    ReplaceInv c { s with files := s.files.remove n } where
  dirs := fun dir hdir => by
    rcases mem_dirs_setDir.mp hdir with rfl | hdir
    · exact (h.dirs _ (mem_dirs_self _)).update_none n
    · exact h.dirs dir hdir
  closed := fun dir hdir n' i w hn' hi htemp => by
    have htemp' := update_none_eq_some htemp
    rcases mem_dirs_setDir.mp hdir with rfl | hdir
    · exact h.closed _ (mem_dirs_self _) n' i w hn' (update_none_eq_some hi) htemp'
    · exact h.closed dir hdir n' i w hn' hi htemp'
  jobs := fun w job hjob => by
    refine JobInv.frame (h.jobs w job hjob) rfl (fun dir hdir n' hn' hi => ?_)
      (fun _ => update_none_eq_some) (fun _ => update_none_eq_some) (h.jobs w job hjob).alone
    rcases mem_dirs_setDir.mp hdir with rfl | hdir
    · exact (h.jobs w job hjob).free _ (mem_dirs_self _) n' hn' (update_none_eq_some hi)
    · exact (h.jobs w job hjob).free dir hdir n' hn' hi

theorem rename_of_some {f : Files N} {source target : N} {i : Nat} (hi : f.dir source = some i) :
    f.rename source target =
      f.setDir (Function.update (Function.update f.dir target (some i)) source none) := by
  rw [Files.rename, hi]

/-- What is left of the temporary names after a rename. -/
theorem temp_of_rename {source target : N} {i j : Nat} (htarget : Protected c target)
    (h : Function.update (Function.update dir target (some i)) source none (c.temp w) = some j) :
    c.temp w ≠ source ∧ dir (c.temp w) = some j := by
  rcases rename_eq_some h with ⟨heq, -⟩ | hold
  · exact absurd heq.symm (htarget w)
  · exact hold

/-- A rename to a protected name that may hold the file. -/
theorem ReplaceInv.moved (h : ReplaceInv c s) {source target : N} {i : Nat}
    (hi : s.files.dir source = some i) (htarget : Protected c target)
    (hgood : ∀ node, s.files.nodes[i]? = some node →
      (c.syncs = true → node.stable = true) ∧ c.good target node.data)
    (hidle : ∀ w job, s.jobs w = some job → job.node ≠ i) :
    ReplaceInv c { s with files := s.files.rename source target } := by
  have hcurrent := h.dirs _ (mem_dirs_self s.files)
  rw [rename_of_some hi]
  exact
    { dirs := fun dir hdir => by
        rcases mem_dirs_setDir.mp hdir with rfl | hdir
        · exact hcurrent.rename hi fun _ => hgood
        · exact h.dirs dir hdir
      closed := fun dir hdir n j w hn hj htemp => by
        obtain ⟨hne, hbefore⟩ := temp_of_rename htarget htemp
        rcases mem_dirs_setDir.mp hdir with rfl | hdir
        · rcases rename_eq_some hj with ⟨-, heq⟩ | ⟨-, hold⟩
          · exact hne (hcurrent.distinct _ source i (heq ▸ hbefore) hi)
          · exact h.closed _ (mem_dirs_self _) n j w hn hold hbefore
        · exact h.closed dir hdir n j w hn hj hbefore
      jobs := fun w job hjob => by
        have hinv := h.jobs w job hjob
        have hother : ∀ n,
            Function.update (Function.update s.files.dir target (some i)) source none n =
              some job.node → s.files.dir n = some job.node := by
          intro n hn
          rcases rename_eq_some hn with ⟨-, heq⟩ | ⟨-, hold⟩
          · exact absurd heq (hidle w job hjob)
          · exact hold
        refine JobInv.frame hinv rfl (fun dir hdir n hn hj => ?_) hother
          (fun j hj => (temp_of_rename htarget hj).2) hinv.alone
        rcases mem_dirs_setDir.mp hdir with rfl | hdir
        · exact hinv.free _ (mem_dirs_self _) n hn (hother n hj)
        · exact hinv.free dir hdir n hn hj }

theorem ReplaceInv.move (h : ReplaceInv c s) {source target : N} (hsource : Protected c source)
    (htarget : Protected c target)
    (hgood : ∀ data, s.files.read source = some data → c.good target data) :
    ReplaceInv c { s with files := s.files.rename source target } := by
  cases hi : s.files.dir source with
  | none => simpa [Files.rename, hi] using h
  | some i =>
    refine h.moved hi htarget (fun node hnode => ⟨?_, hgood _ (by simp [Files.read, hi, hnode])⟩)
      fun w job hjob heq => ?_
    · exact ((h.dirs _ (mem_dirs_self _)).whole source i node hsource hi hnode).1
    · exact (h.jobs w job hjob).free _ (mem_dirs_self _) source hsource (heq ▸ hi)

end Names

/-! ### Steps of a writer -/

section Jobs

variable [DecidableEq W]

theorem setJob_jobs {files : Files N} {o : Option ReplaceJob} {w' : W} {job' : ReplaceJob}
    (h : (s.setJob w o files).jobs w' = some job') :
    (w' = w ∧ o = some job') ∨ (w' ≠ w ∧ s.jobs w' = some job') := by
  unfold setJob at h
  by_cases hw : w' = w
  · dsimp only at h
    rw [hw, Function.update_self] at h
    exact .inl ⟨hw, h⟩
  · dsimp only at h
    rw [Function.update_of_ne hw] at h
    exact .inr ⟨hw, h⟩

theorem ReplaceInv.stop (h : ReplaceInv c s) (w : W) : ReplaceInv c (s.setJob w none s.files) where
  dirs := h.dirs
  closed := h.closed
  jobs := fun w' job' hjob' => by
    rcases setJob_jobs hjob' with ⟨-, hnone⟩ | ⟨-, hjob'⟩
    · cases hnone
    · refine JobInv.frame (h.jobs w' job' hjob') rfl (h.jobs w' job' hjob').free (fun _ => id)
        (fun _ => id) fun w'' job'' hjob'' heq => ?_
      rcases setJob_jobs hjob'' with ⟨-, hnone⟩ | ⟨-, hjob''⟩
      · cases hnone
      · exact (h.jobs w' job' hjob').alone w'' job'' hjob'' heq

/-- The job of a writer goes on with the same file, and only that file is changed. -/
theorem ReplaceInv.progress (h : ReplaceInv c s) {job' : ReplaceJob} {g : FileNode → FileNode}
    (hjob : s.jobs w = some job) (hnode : job'.node = job.node) (hdoc : job'.doc = job.doc)
    (hle : job'.written ≤ job.doc.length)
    (hdata : ∀ node, s.files.nodes[job.node]? = some node →
      (g node).data = job.doc.take job'.written ∧ (job'.synced = true → (g node).stable = true)) :
    ReplaceInv c (s.setJob w (some job') (s.files.modifyNode job.node g)) where
  dirs := fun dir hdir =>
    (h.dirs dir hdir).modify g fun n hn => (h.jobs w job hjob).free dir hdir n hn
  closed := h.closed
  jobs := fun w' other hother => by
    have hw := h.jobs w job hjob
    have halone : ∀ w'' job'', (s.setJob w (some job') (s.files.modifyNode job.node g)).jobs w'' =
        some job'' → ∃ old, s.jobs w'' = some old ∧ job''.node = old.node := by
      intro w'' job'' hjob''
      rcases setJob_jobs hjob'' with ⟨rfl, heq⟩ | ⟨-, hold⟩
      · exact ⟨job, hjob, Option.some_inj.mp heq ▸ hnode⟩
      · exact ⟨job'', hold, rfl⟩
    rcases setJob_jobs hother with ⟨rfl, heq⟩ | ⟨hne, hold⟩
    · obtain rfl := Option.some_inj.mp heq
      exact
        { bound := by
            rw [hnode]
            exact (List.length_modify _ _ _).symm ▸ hw.bound
          le := hdoc ▸ hle
          good := hdoc ▸ hw.good
          data := fun node hget => by
            rw [hnode, setJob, Files.modifyNode, List.getElem?_modify_eq] at hget
            obtain ⟨old, hold, rfl⟩ := Option.map_eq_some_iff.mp hget
            rw [hdoc]
            exact hdata old hold
          free := hnode ▸ hw.free
          own := hnode ▸ hw.own
          named := hnode ▸ hw.named
          alone := fun w'' job'' hjob'' heq => by
            obtain ⟨old, hold, hsame⟩ := halone w'' job'' hjob''
            exact hw.alone w'' old hold (hsame ▸ heq.trans hnode) }
    · have hdiff : job.node ≠ other.node := h.node_ne hold hjob (Ne.symm hne)
      refine JobInv.frame (h.jobs w' other hold) (List.getElem?_modify_ne _ _ hdiff)
        (h.jobs w' other hold).free (fun _ => id) (fun _ => id) fun w'' job'' hjob'' heq => ?_
      obtain ⟨old, hold'', hsame⟩ := halone w'' job'' hjob''
      exact (h.jobs w' other hold).alone w'' old hold'' (hsame ▸ heq)

theorem ReplaceInv.write (h : ReplaceInv c s) (w : W) (count : Nat) :
    ReplaceInv c (s.write w count) := by
  unfold Replace.write
  split
  next job hjob =>
    have hw := h.jobs w job hjob
    refine h.progress hjob rfl rfl (Nat.min_le_right _ _) fun node hnode => ⟨?_, fun hs => ?_⟩
    · show node.data ++ (job.doc.drop job.written).take count =
        job.doc.take (min (job.written + count) job.doc.length)
      rw [(hw.data node hnode).1, ← List.take_eq_take_min, List.take_add]
    · cases hs
  · exact h

theorem ReplaceInv.sync (h : ReplaceInv c s) (w : W) : ReplaceInv c (s.sync w) := by
  unfold Replace.sync
  split
  next job hjob =>
    have hw := h.jobs w job hjob
    exact h.progress hjob rfl rfl hw.le fun node hnode => ⟨(hw.data node hnode).1, fun _ => rfl⟩
  · exact h

/-- A write begins in a file that no other write has open. -/
theorem replaceInv_begin {files : Files N} {node : Nat} {doc : List UInt8}
    (hgood : c.good (c.target w) doc) (hempty : files.nodes[node]? = some ⟨[], false⟩)
    (hdirs : ∀ dir ∈ files.dirs, DirInv c files.nodes dir)
    (hclosed : ∀ dir ∈ files.dirs, ∀ n i w, Protected c n → dir n = some i →
      files.dir (c.temp w) ≠ some i)
    (hhere : files.dir (c.temp w) = some node)
    (hother : ∀ w' job', s.jobs w' = some job' → w' ≠ w → job'.node ≠ node ∧
      JobInv c ⟨files, s.jobs⟩ w' job') :
    ReplaceInv c (s.setJob w (some ⟨node, doc, 0, false⟩) files) where
  dirs := hdirs
  closed := hclosed
  jobs := fun w' job' hjob' => by
    rcases setJob_jobs hjob' with ⟨rfl, heq⟩ | ⟨hne, hold⟩
    · obtain rfl := Option.some_inj.mp heq
      have hcurrent := hdirs _ (mem_dirs_self files)
      exact
        { bound := (List.getElem?_eq_some_iff.mp hempty).1
          le := Nat.zero_le _
          good := hgood
          data := fun node' hget => by
            obtain rfl := Option.some_inj.mp (hempty.symm.trans hget)
            exact ⟨rfl, fun hs => by cases hs⟩
          free := fun dir hdir n hn hi => hclosed dir hdir n node w' hn hi hhere
          own := fun n hn => hcurrent.distinct n (c.temp w') node hn hhere
          named := fun i hi => Option.some_inj.mp (hi.symm.trans hhere)
          alone := fun w'' job'' hjob'' heq => by
            rcases setJob_jobs hjob'' with ⟨hw, -⟩ | ⟨hne, hold⟩
            · exact hw
            · exact absurd heq (hother w'' job'' hold hne).1 }
    · obtain ⟨hnode, hinv⟩ := hother w' job' hold hne
      refine JobInv.frame hinv rfl hinv.free (fun _ => id) (fun _ => id)
        fun w'' job'' hjob'' heq => ?_
      rcases setJob_jobs hjob'' with ⟨-, hnew⟩ | ⟨-, hold''⟩
      · obtain rfl := Option.some_inj.mp hnew
        exact absurd heq.symm hnode
      · exact hinv.alone w'' job'' hold'' heq

end Jobs

section Steps

variable [DecidableEq N] [DecidableEq W]

theorem ReplaceInv.create (h : ReplaceInv c s) {doc : List UInt8}
    (hgood : c.good (c.target w) doc) : ReplaceInv c (s.create c w doc) := by
  unfold Replace.create Files.create
  cases htemp : s.files.dir (c.temp w) with
  | some i =>
    have hfree : ∀ dir ∈ s.files.dirs, ∀ n, Protected c n → dir n ≠ some i :=
      fun dir hdir n hn hi => h.closed dir hdir n i w hn hi htemp
    have hbound := (h.dirs _ (mem_dirs_self _)).bound _ i htemp
    refine replaceInv_begin hgood ?_
      (fun dir hdir => (h.dirs dir hdir).modify _ (hfree dir hdir)) h.closed htemp
      fun w' job' hjob' hne => ?_
    · rw [Files.modifyNode, List.getElem?_modify_eq, List.getElem?_eq_getElem hbound]
      rfl
    · have hnode : job'.node ≠ i := fun heq =>
        hne (c.temp_injective ((h.jobs w' job' hjob').own _ (heq ▸ htemp))).symm
      exact ⟨hnode, JobInv.frame (h.jobs w' job' hjob') (List.getElem?_modify_ne _ _ hnode.symm)
        (h.jobs w' job' hjob').free (fun _ => id) (fun _ => id) (h.jobs w' job' hjob').alone⟩
  | none =>
    have hnew {dir : N → Option Nat} (hdir : dir ∈ s.files.dirs) (n : N) :
        dir n ≠ some s.files.nodes.length :=
      fun hi => absurd ((h.dirs dir hdir).bound n _ hi) (Nat.lt_irrefl _)
    have hstep : ∀ n i, Function.update s.files.dir (c.temp w) (some s.files.nodes.length) n =
        some i → (n = c.temp w ∧ i = s.files.nodes.length) ∨ s.files.dir n = some i := by
      intro n i hi
      by_cases hn : n = c.temp w
      · rw [hn, Function.update_self] at hi
        exact .inl ⟨hn, (Option.some_inj.mp hi).symm⟩
      · rw [Function.update_of_ne hn] at hi
        exact .inr hi
    have hcurrent := h.dirs _ (mem_dirs_self s.files)
    refine replaceInv_begin hgood ?_ (fun dir hdir => ?_) (fun dir hdir n i w' hn hi htemp' => ?_)
      (Function.update_self _ _ _) fun w' job' hjob' hne => ?_
    · exact List.getElem?_concat_length
    · rcases mem_dirs_setDir.mp hdir with rfl | hdir
      · exact
          { bound := fun n i hi => by
              rcases hstep n i hi with ⟨-, rfl⟩ | hi
              · exact List.length_append ▸ Nat.lt_succ_self _
              · exact (hcurrent.append _).bound n i hi
            distinct := fun n n' i hi hi' => by
              rcases hstep n i hi with ⟨hn, rfl⟩ | hold
              · rcases hstep n' _ hi' with ⟨hn', -⟩ | hold'
                · exact hn.trans hn'.symm
                · exact absurd hold' (hnew (mem_dirs_self _) n')
              · rcases hstep n' i hi' with ⟨-, rfl⟩ | hold'
                · exact absurd hold (hnew (mem_dirs_self _) n)
                · exact hcurrent.distinct n n' i hold hold'
            whole := fun n i node hn hi => by
              rcases hstep n i hi with ⟨rfl, -⟩ | hold
              · exact absurd hn (not_protected_temp w)
              · exact (hcurrent.append _).whole n i node hn hold }
      · exact (h.dirs dir hdir).append _
    · have hbefore : ∃ dir ∈ s.files.dirs, dir n = some i := by
        rcases mem_dirs_setDir.mp hdir with rfl | hdir
        · rcases hstep n i hi with ⟨rfl, -⟩ | hold
          · exact absurd hn (not_protected_temp w)
          · exact ⟨_, mem_dirs_self _, hold⟩
        · exact ⟨dir, hdir, hi⟩
      obtain ⟨old, hmem, hold⟩ := hbefore
      rcases hstep _ i htemp' with ⟨-, rfl⟩ | htemp'
      · exact hnew hmem n hold
      · exact h.closed old hmem n i w' hn hold htemp'
    · have hinv := h.jobs w' job' hjob'
      have hnode : job'.node ≠ s.files.nodes.length := Nat.ne_of_lt hinv.bound
      refine ⟨hnode, JobInv.frame hinv (List.getElem?_append_left hinv.bound)
        (fun dir hdir n hn hi => ?_) (fun n hi => ?_) (fun i hi => ?_) hinv.alone⟩
      · rcases mem_dirs_setDir.mp hdir with rfl | hdir
        · rcases hstep n _ hi with ⟨-, heq⟩ | hold
          · exact hnode heq
          · exact hinv.free _ (mem_dirs_self _) n hn hold
        · exact hinv.free dir hdir n hn hi
      · exact (hstep n _ hi).resolve_left fun heq => hnode heq.2
      · exact (hstep _ i hi).resolve_left fun heq => hne (c.temp_injective heq.1)

/-- What was written as a whole is renamed. -/
theorem ReplaceInv.rename (h : ReplaceInv c s) (hjob : s.jobs w = some job)
    (hwritten : job.written = job.doc.length) (hsynced : c.syncs = true → job.synced = true) :
    ReplaceInv c (s.rename c w) := by
  have hw := h.jobs w job hjob
  have hstop := h.stop w
  unfold Replace.rename
  rw [hjob]
  cases hi : s.files.dir (c.temp w) with
  | none => simpa [Files.rename, hi] using hstop
  | some i =>
    obtain rfl := hw.named i hi
    refine hstop.moved hi (protected_target w) (fun node hnode => ?_) fun w' job' hjob' heq => ?_
    · obtain ⟨hdata, hstable⟩ := hw.data node hnode
      rw [hwritten, List.take_length] at hdata
      exact ⟨fun hs => hstable (hsynced hs), hdata ▸ hw.good⟩
    · rcases setJob_jobs hjob' with ⟨-, hnone⟩ | ⟨hne, hold⟩
      · cases hnone
      · exact hne (hw.alone w' job' hold heq)

end Steps

/-! ### Power losses -/

theorem mem_dirs_powerLoss (f : Files N) (back : Nat) (junk : Nat → List UInt8) :
    (f.powerLoss back junk).dir ∈ f.dirs := by
  unfold Files.powerLoss
  cases hget : f.dirs[back]? with
  | none => exact mem_dirs_self _
  | some dir => exact List.mem_of_getElem? hget

theorem ReplaceInv.powerLoss (h : ReplaceInv c s) (hsyncs : c.syncs = true) (back : Nat)
    (junk : Nat → List UInt8) : ReplaceInv c ⟨s.files.powerLoss back junk, fun _ => none⟩ := by
  have hfound := h.dirs _ (mem_dirs_powerLoss s.files back junk)
  have hafter : DirInv c (s.files.powerLoss back junk).nodes (s.files.powerLoss back junk).dir :=
    { bound := fun n i hi => by
        unfold Files.powerLoss
        rw [List.length_mapIdx]
        exact hfound.bound n i hi
      distinct := hfound.distinct
      whole := fun n i node hn hi hnode => by
        unfold Files.powerLoss at hnode
        rw [List.getElem?_mapIdx] at hnode
        obtain ⟨old, hold, rfl⟩ := Option.map_eq_some_iff.mp hnode
        obtain ⟨hstable, hgood⟩ := hfound.whole n i old hn hi hold
        rw [if_pos (hstable hsyncs)]
        exact ⟨hstable, hgood⟩ }
  have honly : ∀ dir ∈ (s.files.powerLoss back junk).dirs,
      dir = (s.files.powerLoss back junk).dir := fun dir hmem => List.mem_singleton.mp hmem
  exact
    { dirs := fun dir hmem => honly dir hmem ▸ hafter
      closed := fun dir hmem n i w hn hi htemp => by
        rw [honly dir hmem] at hi
        exact hn w (hfound.distinct n _ i hi htemp)
      jobs := fun w job hjob => by cases hjob }

/-! ## Runs -/

theorem readIn_eq {f f' : Files N} {dir dir' : N → Option Nat} {n : N} (hdir : dir' n = dir n)
    (hnode : ∀ i, dir n = some i → f'.nodes[i]? = f.nodes[i]?) :
    f'.readIn dir' n = f.readIn dir n := by
  unfold Files.readIn
  rw [hdir]
  cases hi : dir n with
  | none => rfl
  | some i => rw [Option.bind_some, Option.bind_some, hnode i hi]

theorem read_eq {f f' : Files N} {n : N} (hdir : f'.dir n = f.dir n)
    (hnode : ∀ i, f.dir n = some i → f'.nodes[i]? = f.nodes[i]?) : f'.read n = f.read n :=
  readIn_eq hdir hnode

theorem replaceInv_of_start (h : Start c s) : ReplaceInv c s where
  dirs := fun dir hdir => by
    rw [Files.dirs, h.behind, List.mem_singleton] at hdir
    rw [hdir]
    exact
      { bound := h.bound
        distinct := h.distinct
        whole := fun n i node hn hi hnode => ⟨fun _ => (h.whole n i node hn hi hnode).1,
          (h.whole n i node hn hi hnode).2⟩ }
  closed := fun dir hdir n i w hn hi htemp => by
    rw [Files.dirs, h.behind, List.mem_singleton] at hdir
    rw [hdir] at hi
    exact hn w (h.distinct n _ i hi htemp)
  jobs := fun w job hjob => by
    rw [h.jobs w] at hjob
    cases hjob

/-- A writer works in a file that is not found under a protected name. -/
theorem readIn_open (h : ReplaceInv c s) (hjob : s.jobs w = some job) (hdir : dir ∈ s.files.dirs)
    {n : N} (hn : Protected c n) (g : FileNode → FileNode) :
    (s.files.modifyNode job.node g).readIn dir n = s.files.readIn dir n :=
  readIn_eq rfl fun _ hi => List.getElem?_modify_ne _ _ fun heq =>
    (h.jobs w job hjob).free dir hdir n hn (heq ▸ hi)

theorem mayShow_open (h : ReplaceInv c s) (hjob : s.jobs w = some job) {n : N}
    (hn : Protected c n) {g : FileNode → FileNode} {data : List UInt8}
    (hshow : (s.files.modifyNode job.node g).MayShow n data) : s.files.MayShow n data := by
  obtain ⟨dir, hdir, hread⟩ := hshow
  exact ⟨dir, hdir, (readIn_open h hjob hdir hn g).symm.trans hread⟩

/-- What a writer renames is its document. -/
theorem doc_of_read (h : ReplaceInv c s) (hjob : s.jobs w = some job)
    (hwritten : job.written = job.doc.length) {data : List UInt8}
    (hread : s.files.read (c.temp w) = some data) : data = job.doc := by
  obtain ⟨i, hi, hdata⟩ := Option.bind_eq_some_iff.mp hread
  obtain ⟨node, hnode, rfl⟩ := Option.map_eq_some_iff.mp hdata
  obtain rfl := (h.jobs w job hjob).named i hi
  rw [((h.jobs w job hjob).data node hnode).1, hwritten, List.take_length]

/-- What is protected is on the disk. -/
theorem mayShow_powerLoss (h : ReplaceInv c s) (hsyncs : c.syncs = true) {back : Nat}
    {junk : Nat → List UInt8} {n : N} (hn : Protected c n) {data : List UInt8}
    (hshow : (s.files.powerLoss back junk).MayShow n data) : s.files.MayShow n data := by
  obtain ⟨dir, hdir, hread⟩ := hshow
  obtain rfl : dir = (s.files.powerLoss back junk).dir := List.mem_singleton.mp hdir
  have hmem := mem_dirs_powerLoss s.files back junk
  obtain ⟨i, hi, hdata⟩ := Option.bind_eq_some_iff.mp hread
  refine ⟨_, hmem, Option.bind_eq_some_iff.mpr ⟨i, hi, ?_⟩⟩
  obtain ⟨node, hnode, rfl⟩ := Option.map_eq_some_iff.mp hdata
  unfold Files.powerLoss at hnode
  rw [List.getElem?_mapIdx] at hnode
  obtain ⟨old, hold, rfl⟩ := Option.map_eq_some_iff.mp hnode
  rw [hold, if_pos (((h.dirs _ hmem).whole n i old hn hi hold).1 hsyncs)]
  rfl

variable [DecidableEq N] [DecidableEq W]

theorem ReplaceInv.step (h : ReplaceInv c s) {a : Action N W} (ha : Admits c s a) :
    ReplaceInv c (s.step c a) := by
  cases a with
  | create w doc => exact h.create ha.2
  | write w count => exact h.write w count
  | sync w => exact h.sync w
  | rename w =>
    obtain ⟨job, hjob, hwritten, hsynced⟩ := ha
    exact h.rename hjob hwritten hsynced
  | stop w => exact h.stop w
  | remove n => exact h.remove n
  | move source target => exact h.move ha.1 ha.2.1 ha.2.2
  | powerLoss back junk => exact h.powerLoss ha back junk

/-- At any time of a run a protected name holds a whole document. -/
theorem whole (h : (machine c).Reach (Start c) s) {n : N} (hn : Protected c n) {data : List UInt8}
    (hread : s.files.read n = some data) : c.good n data := by
  have hinv : ReplaceInv c s :=
    h.invariant (fun s hs => replaceInv_of_start hs) fun s a _ hinv ha => hinv.step ha
  obtain ⟨i, hi, hdata⟩ := Option.bind_eq_some_iff.mp hread
  obtain ⟨node, hnode, rfl⟩ := Option.map_eq_some_iff.mp hdata
  exact ((hinv.dirs _ (mem_dirs_self _)).whole n i node hn hi hnode).2

/-! ## Reading -/

/-- The steps of a write before its rename. -/
def IsQuiet : Action N W → Prop
  | .create _ _ | .write _ _ | .sync _ | .stop _ => True
  | _ => False

/-- What a writer does before its rename is not seen under a protected name. -/
theorem read_quiet (h : ReplaceInv c s) {a : Action N W} (ha : IsQuiet a) {n : N}
    (hn : Protected c n) : (s.step c a).files.read n = s.files.read n := by
  cases a with
  | create w doc =>
    show (s.create c w doc).files.read n = _
    unfold Replace.create Files.create
    cases htemp : s.files.dir (c.temp w) with
    | some i =>
      exact read_eq rfl fun j hj => List.getElem?_modify_ne _ _ fun heq =>
        h.closed _ (mem_dirs_self _) n j w hn hj (heq ▸ htemp)
    | none =>
      exact read_eq (Function.update_of_ne (hn w) _ _) fun j hj =>
        List.getElem?_append_left ((h.dirs _ (mem_dirs_self _)).bound n j hj)
  | write w count =>
    show (s.write w count).files.read n = _
    unfold Replace.write
    split
    next job hjob => exact readIn_open h hjob (mem_dirs_self _) hn _
    · rfl
  | sync w =>
    show (s.sync w).files.read n = _
    unfold Replace.sync
    split
    next job hjob => exact readIn_open h hjob (mem_dirs_self _) hn _
    · rfl
  | stop w => rfl
  | _ => exact ha.elim

/-- Nor does a power loss bring it back. -/
theorem mayShow_quiet (h : ReplaceInv c s) {a : Action N W} (ha : IsQuiet a) {n : N}
    (hn : Protected c n) {data : List UInt8} (hshow : (s.step c a).files.MayShow n data) :
    s.files.MayShow n data := by
  cases a with
  | create w doc =>
    obtain ⟨dir, hdir, hread⟩ := hshow
    change dir ∈ (s.create c w doc).files.dirs at hdir
    change (s.create c w doc).files.readIn dir n = _ at hread
    unfold Replace.create Files.create at hdir hread
    cases htemp : s.files.dir (c.temp w) with
    | some i =>
      rw [htemp] at hdir hread
      refine ⟨dir, hdir, (readIn_eq rfl fun j hj => ?_).symm.trans hread⟩
      exact List.getElem?_modify_ne _ _ fun heq => h.closed dir hdir n j w hn hj (heq ▸ htemp)
    | none =>
      rw [htemp] at hdir hread
      rcases mem_dirs_setDir.mp hdir with rfl | hold
      · refine ⟨_, mem_dirs_self _, (readIn_eq ?_ fun j hj => ?_).symm.trans hread⟩
        · exact Function.update_of_ne (hn w) _ _
        · exact List.getElem?_append_left ((h.dirs _ (mem_dirs_self _)).bound n j hj)
      · refine ⟨dir, hold, (readIn_eq rfl fun j hj => ?_).symm.trans hread⟩
        exact List.getElem?_append_left ((h.dirs dir hold).bound n j hj)
  | write w count =>
    change (s.write w count).files.MayShow n data at hshow
    unfold Replace.write at hshow
    split at hshow
    · next job hjob => exact mayShow_open h hjob hn hshow
    · exact hshow
  | sync w =>
    change (s.sync w).files.MayShow n data at hshow
    unfold Replace.sync at hshow
    split at hshow
    · next job hjob => exact mayShow_open h hjob hn hshow
    · exact hshow
  | stop w => exact hshow
  | _ => exact ha.elim

theorem mayShow_remove {f : Files N} {n m : N} (hne : n ≠ m) {data : List UInt8}
    (hshow : (f.remove m).MayShow n data) : f.MayShow n data := by
  obtain ⟨dir, hdir, hread⟩ := hshow
  rcases mem_dirs_setDir.mp hdir with rfl | hold
  · exact ⟨_, mem_dirs_self f,
      (readIn_eq (Function.update_of_ne hne _ _) fun _ _ => rfl).symm.trans hread⟩
  · exact ⟨dir, hold, hread⟩

/-- A rename shows what it showed under the old name. -/
theorem mayShow_rename {f : Files N} {source target n : N} {data : List UInt8}
    (hshow : (f.rename source target).MayShow n data) :
    f.MayShow n data ∨ n = target ∧ f.read source = some data := by
  cases hi : f.dir source with
  | none =>
    rw [Files.rename, hi] at hshow
    exact .inl hshow
  | some i =>
    rw [rename_of_some hi] at hshow
    obtain ⟨dir, hdir, hread⟩ := hshow
    rcases mem_dirs_setDir.mp hdir with rfl | hold
    · obtain ⟨j, hj, hdata⟩ := Option.bind_eq_some_iff.mp hread
      rcases rename_eq_some hj with ⟨rfl, rfl⟩ | ⟨-, hj⟩
      · exact .inr ⟨rfl, Option.bind_eq_some_iff.mpr ⟨j, hi, hdata⟩⟩
      · exact .inl ⟨_, mem_dirs_self f, Option.bind_eq_some_iff.mpr ⟨j, hj, hdata⟩⟩
    · exact .inl ⟨dir, hold, hread⟩

/-- A rename puts the document in place, if the temporary file is still there. -/
theorem read_rename (h : ReplaceInv c s) (hjob : s.jobs w = some job)
    (hwritten : job.written = job.doc.length) {n : N} (hn : Protected c n) :
    (s.rename c w).files.read n =
      if n = c.target w ∧ (s.files.dir (c.temp w)).isSome then some job.doc
      else s.files.read n := by
  unfold Replace.rename
  rw [hjob]
  show (s.files.rename (c.temp w) (c.target w)).read n = _
  cases hi : s.files.dir (c.temp w) with
  | none => simp [Files.rename, hi]
  | some i =>
    have hw := h.jobs w job hjob
    obtain rfl := hw.named i hi
    rw [rename_of_some hi]
    by_cases ht : n = c.target w
    · subst ht
      have hnode := List.getElem?_eq_getElem hw.bound
      obtain ⟨hdata, -⟩ := hw.data _ hnode
      rw [hwritten, List.take_length] at hdata
      simp [Files.read, Files.setDir, Function.update_of_ne (hn w), hnode, hdata]
    · rw [if_neg fun hand => ht hand.1]
      refine read_eq ?_ fun _ _ => rfl
      exact (Function.update_of_ne (hn w) _ _).trans (Function.update_of_ne ht _ _)

end Replace
