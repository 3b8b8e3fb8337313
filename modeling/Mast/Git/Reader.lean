import Mast.Capture.Loop
import Mast.Git

/-!
# Queries of a repository

`git.rs`: a status or a diff is a few captured runs of git under one deadline. Each is refused
unless git says that it succeeded, and an output that was cut off is used only where it may be.
What a capture returns is up to the system.

Results:
1. `run_ok`: a query is made before the deadline.
2. `checkOutput_ok`: which outputs are used.
3. `git_status`: the changes that are shown are those that git reported of the resolved root.
4. `query_of_diff`: which queries a diff makes.
5. `git_diff`: a diff is what git printed, and all of it unless it says otherwise.
-/

namespace Mast

/-- `DIFF_BYTES` -/
def diffBytes : Nat := 512 * 1024

def statusBytes : Nat := 1024 * 1024

def controlBytes : Nat := 64 * 1024

def stderrBytes : Nat := 16 * 1024

/-- `TIMEOUT`, in nanoseconds. -/
def gitTimeout : Nat := 10 * 1000 * 1000 * 1000

inductive GitScope
  | working
  | staged
  | all
deriving DecidableEq, Repr

structure GitDiffRequest where
  root : String
  path : String
  originalPath : Option String
  scope : GitScope
  untracked : Bool
  unborn : Bool
deriving DecidableEq, Repr

structure GitDiff where
  text : String
  truncated : Bool
deriving DecidableEq, Repr

/-! ## Outputs -/

/-- `from_utf16_lossy` -/
def fromUtf16Lossy : List Nat → List Char
  | [] => []
  | [unit] => [if 0xD800 ≤ unit ∧ unit < 0xE000 then Utf8.replacement else Char.ofNat unit]
  | unit :: next :: rest =>
    if 0xD800 ≤ unit ∧ unit < 0xE000 then
      if unit < 0xDC00 ∧ 0xDC00 ≤ next ∧ next < 0xE000 then
        Char.ofNat (0x10000 + (unit - 0xD800) * 0x400 + (next - 0xDC00)) :: fromUtf16Lossy rest
      else Utf8.replacement :: fromUtf16Lossy (next :: rest)
    else Char.ofNat unit :: fromUtf16Lossy (next :: rest)

/-- The little-endian units; a byte that is left over is dropped. -/
def utf16Units : List UInt8 → List Nat
  | low :: high :: rest => (low.toNat + 256 * high.toNat) :: utf16Units rest
  | _ => []

/-- The relay writes UTF-16 and git UTF-8. -/
def diagnostic (bytes : List UInt8) : String :=
  if 0 ∈ bytes then String.ofList (trim (fromUtf16Lossy (utf16Units bytes)))
  else String.ofList (trim (Utf8.fromUtf8Lossy bytes).toList)

def gitTimedOut : String := "Git query timed out after 10 seconds; refresh to retry"

def checkOutput (output : CapturedOutput) (noIndex allowTruncated : Bool) : Except String Unit :=
  let code := output.status.bind ExitStatus.code
  if output.timedOut ∨ code = some 124 ∨ code = some 137 then .error gitTimedOut
  else if output.stderrTruncated then
    .error ("Git error output exceeded 16 KiB: " ++ diagnostic output.stderr)
  else if output.stdoutTruncated then
    if allowTruncated then .ok () else .error "Git repository metadata exceeded 64 KiB"
  else
    let success := output.status.elim false ExitStatus.success
    let different := noIndex ∧ code = some 1 ∧ output.stdout ≠ []
    if success ∨ different then .ok ()
    else
      .error ("Git query failed (" ++ output.status.elim "terminated" ExitStatus.text ++ "): " ++
        diagnostic output.stderr)

def validateRoot (path : String) : Except String Unit :=
  if path.toList.head? ≠ some '/' ∨ Char.ofNat 0 ∈ path.toList ∨
      ∃ s ∈ path.toList.splitOn '/', s = ['.'] ∨ s = ['.', '.'] then
    .error "Git root must be an absolute Linux path without NUL, '.' or '..' components"
  else .ok ()

/-! ## Commands -/

/-- The variables that git does not get. -/
def gitVariables : List String :=
  ["GIT_DIR", "GIT_WORK_TREE", "GIT_INDEX_FILE", "GIT_COMMON_DIR", "GIT_EXTERNAL_DIFF",
    "GIT_DIFF_OPTS", "GIT_CONFIG_COUNT", "GIT_CONFIG_PARAMETERS", "GIT_LITERAL_PATHSPECS",
    "GIT_GLOB_PATHSPECS", "GIT_NOGLOB_PATHSPECS", "GIT_ICASE_PATHSPECS"]

/-- The command line; `seconds` prints a time. -/
def gitCommand (seconds : Nat → String) (distro : Option String) (root : String)
    (args : List String) (timeout : Nat) : Except String (List String) :=
  if ∃ d ∈ distro, Char.ofNat 0 ∈ d.toList then .error "WSL distro must not contain a NUL byte"
  else
    .ok (["wsl.exe"] ++
      (match distro.filter (· ≠ "") with
        | some d => ["--distribution", d]
        | none => []) ++
      ["--exec", "/usr/bin/timeout", "--kill-after=1s", seconds timeout, "/usr/bin/env"] ++
      gitVariables.flatMap (["-u", ·]) ++
      ["LC_ALL=C", "GIT_TERMINAL_PROMPT=0", "GIT_OPTIONAL_LOCKS=0", "git", "--no-optional-locks",
        "--literal-pathspecs", "-c", "core.fsmonitor=false", "-C", root] ++ args)

def statusArgs : List String :=
  ["status", "--porcelain=v2", "-z", "--branch", "--no-ahead-behind", "--untracked-files=all",
    "--ignore-submodules=none", "--find-renames=50%"]

/-! ## Queries -/

structure GitQuery where
  argv : List String
  limits : CaptureLimits
deriving DecidableEq, Repr

/-- What the system does: when the queries are made, and what their captures return. `seconds` and
`quote` are the forms in which times and texts are printed. -/
structure GitWorld where
  start : Nat
  clock : Nat → Nat
  capture : Nat → GitQuery → Except String CapturedOutput
  seconds : Nat → String
  quote : String → String

/-- The queries that were made are kept along. -/
abbrev GitRead := ExceptT String (StateM (List GitQuery))

def GitRead.runFrom {α : Type} (x : GitRead α) (queries : List GitQuery) :
    Except String α × List GitQuery :=
  StateT.run (ExceptT.run x) queries

structure GitReader where
  distro : Option String
  deadline : Nat

namespace GitReader

variable (w : GitWorld)

def new (distro : Option String) : GitReader := ⟨distro, w.start + gitTimeout⟩

def remaining (r : GitReader) (queries : List GitQuery) : Nat :=
  r.deadline - w.clock queries.length

/-- A second is left to the outer capture. -/
def margin : Nat := 1000 * 1000 * 1000

/-- The capture of the next query. -/
def captureNext (query : GitQuery) : GitRead CapturedOutput := fun queries =>
  (w.capture queries.length query, queries ++ [query])

def run (r : GitReader) (root : String) (args : List String) (cap : Nat) :
    GitRead CapturedOutput := do
  let queries ← get
  let linuxTimeout := r.remaining w queries - margin
  if linuxTimeout = 0 then throw gitTimedOut
  let argv ← gitCommand w.seconds r.distro root args linuxTimeout
  captureNext w ⟨argv, ⟨cap, stderrBytes, r.remaining w queries⟩⟩

def control (r : GitReader) (root : String) (args : List String) : GitRead String := do
  let output ← r.run w root args controlBytes
  checkOutput output false false
  match fromUtf8 output.stdout with
  | none => throw "Git repository metadata is not valid UTF-8"
  | some text =>
    if text.toList.getLast? = some '\n' then return String.ofList text.toList.dropLast
    else return text

end GitReader

/-- `split("\0\0")` -/
def splitRecords : List Char → List (List Char)
  | [] => [[]]
  | [c] => [[c]]
  | c :: d :: rest =>
    if c = Char.ofNat 0 ∧ d = Char.ofNat 0 then [] :: splitRecords rest
    else
      match splitRecords (d :: rest) with
      | record :: records => (c :: record) :: records
      | [] => [[c]]

/-- The worktree that the branch is checked out in. -/
def defaultWorktree (bytes : List UInt8) (branch : String) : Except String String :=
  match fromUtf8 bytes with
  | none => .error "Git worktree paths are not valid UTF-8"
  | some text =>
    let worktree? (record : List Char) : Option String :=
      let fields := record.splitOn (Char.ofNat 0)
      if "bare".toList ∈ fields ∨ ∃ f ∈ fields, "prunable".toList <+: f then none
      else if "branch ".toList ++ branch.toList ∈ fields then
        (fields.findSome? ("worktree ".toList.isPrefixOf? ·)).map String.ofList
      else none
    match (splitRecords text.toList).findSome? worktree? with
    | some path => .ok path
    | none =>
      .error ("Bare repository has no available worktree for " ++ branch ++
        "; open a workspace at a worktree path")

namespace GitReader

variable (w : GitWorld)

def resolveRoot (r : GitReader) (path : String) : GitRead String := do
  let bare ← r.control w path ["rev-parse", "--is-bare-repository"]
  if bare = "false" then r.control w path ["rev-parse", "--show-toplevel"]
  else if bare = "true" then do
    let branch ← r.control w path ["symbolic-ref", "HEAD"]
    let output ← r.run w path ["worktree", "list", "--porcelain", "-z"] controlBytes
    checkOutput output false false
    let worktree ← defaultWorktree output.stdout branch
    validateRoot worktree
    r.control w worktree ["rev-parse", "--show-toplevel"]
  else throw ("Unexpected Git repository kind: " ++ w.quote bare)

end GitReader

/-- `parse_status`, which does not panic. -/
def parseReport (quote : String → String) (root : String) (bytes : List UInt8) (truncated : Bool) :
    Except String GitStatus :=
  ((parseStatus root bytes truncated).get
    (Option.isSome_iff_exists.mpr (GitLemmas.parseStatus_returns root bytes truncated))).mapError
      (GitStatusError.message quote)

namespace GitWorld

variable (w : GitWorld)

def status (distro : Option String) (path : String) : GitRead GitStatus := do
  validateRoot path
  let reader := GitReader.new w distro
  let root ← reader.resolveRoot w path
  let output ← reader.run w root statusArgs statusBytes
  checkOutput output false true
  parseReport w.quote root output.stdout output.stdoutTruncated

/-- The hash of the empty tree is computed, and nothing is written. -/
def treeArgs : List String := ["hash-object", "-t", "tree", "--stdin"]

/-- The empty tree, if there is no commit to compare with. -/
def diffBase (reader : GitReader) (request : GitDiffRequest) : GitRead (List String) :=
  match request.scope with
  | .working => return []
  | .staged => return ["--cached"]
  | .all =>
    if request.unborn then do
      let emptyTree ← reader.control w request.root treeArgs
      return [emptyTree]
    else return ["HEAD"]

def diffArgs : List String :=
  ["diff", "--no-ext-diff", "--no-textconv", "--no-color", "--no-relative", "--src-prefix=a/",
    "--dst-prefix=b/", "--patch", "--submodule=short", "--ignore-submodules=none",
    "--find-renames=50%", "--no-exit-code", "--no-quiet"]

/-- The files that are compared stand behind the `--`. -/
def diffTargets (reader : GitReader) (request : GitDiffRequest) : GitRead (List String) :=
  if request.untracked then return ["--no-index", "--", "/dev/null", request.path]
  else do
    let base ← w.diffBase reader request
    return base ++ ["--", request.path] ++ request.originalPath.toList

def validateRequest (request : GitDiffRequest) : Except String Unit := do
  validateRoot request.root
  (validateFile request.path).mapError (GitStatusError.message w.quote)
  match request.originalPath with
  | some original => (validateFile original).mapError (GitStatusError.message w.quote)
  | none => .ok ()

def diff (distro : Option String) (request : GitDiffRequest) : GitRead GitDiff := do
  w.validateRequest request
  if request.untracked ∧ request.scope = .staged then return ⟨"", false⟩
  else if request.path.toList.getLast? = some '/' then
    throw ("Untracked repository directories have no file diff; " ++
      "open that repository in its own workspace")
  else
    let reader := GitReader.new w distro
    let targets ← w.diffTargets reader request
    let output ← reader.run w request.root (diffArgs ++ targets) diffBytes
    checkOutput output request.untracked true
    return ⟨Utf8.fromUtf8Lossy output.stdout, output.stdoutTruncated⟩

end GitWorld

/-! ## What git does -/

/-- The files of a comparison. -/
def GitDiffRequest.files (request : GitDiffRequest) : List String :=
  if request.untracked then ["/dev/null", request.path]
  else request.path :: request.originalPath.toList

/-- The options of a comparison, where `emptyTree` is what git printed for the empty tree. -/
def GitDiffRequest.options (request : GitDiffRequest) (emptyTree : String) : List String :=
  if request.untracked then ["--no-index"]
  else
    match request.scope with
    | .working => []
    | .staged => ["--cached"]
    | .all => [if request.unborn then emptyTree else "HEAD"]

/-- The empty tree is needed: there is no commit to compare with. -/
def GitDiffRequest.asksTree (request : GitDiffRequest) : Bool :=
  !request.untracked && decide (request.scope = .all) && request.unborn

/-- A query with these arguments. -/
def GitReader.Sends (w : GitWorld) (r : GitReader) (root : String) (args : List String) (cap : Nat)
    (query : GitQuery) : Prop :=
  query.limits.stdoutBytes = cap ∧
    gitCommand w.seconds r.distro root args (query.limits.timeout - margin) = .ok query.argv

/-- A query for the files of a request. -/
def GitReader.Compares (w : GitWorld) (r : GitReader) (request : GitDiffRequest)
    (emptyTree : String) (query : GitQuery) : Prop :=
  r.Sends w request.root
    (GitWorld.diffArgs ++ (request.options emptyTree ++ "--" :: request.files)) diffBytes query

/-- What is asked before the files are compared, and what it is for: the empty tree, if it is
needed. -/
def GitReader.Prepares (w : GitWorld) (r : GitReader) (request : GitDiffRequest)
    (emptyTree : String) (earlier : List GitQuery) : Prop :=
  if request.asksTree = true then
    (r.control w request.root GitWorld.treeArgs).runFrom [] = (.ok emptyTree, earlier)
  else earlier = []

/-- What git wrote is the beginning of its report, and all of it once git has succeeded and let go
of the pipe. -/
structure WritesReport (report : List UInt8) (c : CaptureRun) : Prop where
  begun : (c.streams .stdout).state.pipe.data <+: report
  whole : ∀ exit, c.exit = some exit → exit.success = true → (c.streams .stdout).closed = true →
    (c.streams .stdout).state.pipe.data = report

/-- Every query is made more than a second before the deadline, and captured up to it. -/
def GitReader.Timely (w : GitWorld) (r : GitReader) (queries : List GitQuery) : Prop :=
  ∀ (n : Nat) (query : GitQuery), queries[n]? = some query →
    query.limits.timeout = r.deadline - w.clock n ∧ margin < query.limits.timeout

namespace GitReadLemmas

open GitReader GitWorld

variable {α β : Type} {w : GitWorld} {r : GitReader} {queries queries' : List GitQuery}
  {x : GitRead α} {f : α → GitRead β}

/-! ### Steps of a read -/

theorem runFrom_bind (x : GitRead α) (f : α → GitRead β) (queries : List GitQuery) :
    (x >>= f).runFrom queries = match x.runFrom queries with
      | (.ok a, queries') => (f a).runFrom queries'
      | (.error error, queries') => (.error error, queries') := by
  unfold GitRead.runFrom
  rw [ExceptT.run_bind, StateT.run_bind]
  show (match StateT.run (ExceptT.run x) queries with | (result, queries') => _) = _
  rcases StateT.run (ExceptT.run x) queries with ⟨error | a, queries'⟩ <;> rfl

theorem bind_of_ok {a : α} (h : x.runFrom queries = (.ok a, queries')) :
    (x >>= f).runFrom queries = (f a).runFrom queries' := by
  rw [runFrom_bind, h]

theorem bind_of_error {error : String} (h : x.runFrom queries = (.error error, queries')) :
    (x >>= f).runFrom queries = (.error error, queries') := by
  rw [runFrom_bind, h]

@[simp] theorem runFrom_pure (a : α) : (pure a : GitRead α).runFrom queries = (.ok a, queries) :=
  rfl

@[simp] theorem runFrom_throw (error : String) :
    (throw error : GitRead α).runFrom queries = (.error error, queries) := rfl

@[simp] theorem runFrom_lift (result : Except String α) :
    (liftM result : GitRead α).runFrom queries = (result, queries) := by
  cases result <;> rfl

@[simp] theorem runFrom_get :
    (get : GitRead (List GitQuery)).runFrom queries = (.ok queries, queries) := rfl

/-- A read that succeeds has succeeded in all its parts. -/
theorem bind_ok {b : β} (h : (x >>= f).runFrom queries = (.ok b, queries')) :
    ∃ a queries'', x.runFrom queries = (.ok a, queries'') ∧
      (f a).runFrom queries'' = (.ok b, queries') := by
  rw [runFrom_bind] at h
  cases hx : x.runFrom queries with
  | mk result queries'' =>
    rw [hx] at h
    cases result with
    | error error => cases (Prod.mk.inj h).1
    | ok a => exact ⟨a, queries'', rfl, h⟩

theorem lift_ok {result : Except String α} {a : α}
    (h : (liftM result : GitRead α).runFrom queries = (.ok a, queries')) :
    result = .ok a ∧ queries' = queries := by
  rw [runFrom_lift] at h
  exact ⟨(Prod.mk.inj h).1, (Prod.mk.inj h).2.symm⟩

theorem snd_bind (hf : ∀ a queries, ((f a).runFrom queries).2 = queries) :
    ((x >>= f).runFrom queries).2 = (x.runFrom queries).2 := by
  rw [runFrom_bind]
  rcases x.runFrom queries with ⟨error | a, queries'⟩
  · rfl
  · exact hf a queries'

/-- What every query keeps, every read keeps. -/
theorem timely_bind (hx : r.Timely w queries → r.Timely w (x.runFrom queries).2)
    (hf : ∀ a queries, r.Timely w queries → r.Timely w ((f a).runFrom queries).2)
    (h : r.Timely w queries) : r.Timely w ((x >>= f).runFrom queries).2 := by
  rw [runFrom_bind]
  have hx' := hx h
  cases heq : x.runFrom queries with
  | mk result queries' =>
    rw [heq] at hx'
    cases result with
    | error error => exact hx'
    | ok a => exact hf a queries' hx'

/-- A query is made before the deadline, or not at all. -/
theorem run_cases (w : GitWorld) (r : GitReader) (root : String) (args : List String) (cap : Nat)
    (queries : List GitQuery) :
    (∃ error, (r.run w root args cap).runFrom queries = (.error error, queries)) ∨
    ∃ query : GitQuery, margin < query.limits.timeout ∧
      query.limits = ⟨cap, stderrBytes, r.remaining w queries⟩ ∧
      gitCommand w.seconds r.distro root args (query.limits.timeout - margin) = .ok query.argv ∧
      (r.run w root args cap).runFrom queries =
        (w.capture queries.length query, queries ++ [query]) := by
  unfold GitReader.run
  rw [runFrom_bind, runFrom_get]
  dsimp only
  by_cases hlate : r.remaining w queries - margin = 0
  · refine .inl ⟨gitTimedOut, ?_⟩
    rw [if_pos hlate, runFrom_bind, runFrom_throw]
  · rw [if_neg hlate, runFrom_bind, runFrom_lift]
    cases hargv : gitCommand w.seconds r.distro root args (r.remaining w queries - margin) with
    | error error => exact .inl ⟨error, rfl⟩
    | ok argv =>
      have hmargin : margin < r.remaining w queries :=
        Nat.lt_of_not_le fun hle => hlate (Nat.sub_eq_zero_of_le hle)
      exact .inr ⟨⟨argv, ⟨cap, stderrBytes, r.remaining w queries⟩⟩, hmargin, rfl, hargv, rfl⟩

/-- A query that succeeds. -/
theorem run_ok {root : String} {args : List String} {cap : Nat} {output : CapturedOutput}
    (h : (r.run w root args cap).runFrom queries = (.ok output, queries')) :
    ∃ query : GitQuery, query.limits = ⟨cap, stderrBytes, r.remaining w queries⟩ ∧
      gitCommand w.seconds r.distro root args (query.limits.timeout - margin) = .ok query.argv ∧
      w.capture queries.length query = .ok output ∧ queries' = queries ++ [query] := by
  rcases run_cases w r root args cap queries with ⟨error, heq⟩ | ⟨query, -, hlimits, hargv, heq⟩
  · cases (Prod.mk.inj (h.symm.trans heq)).1
  · obtain ⟨houtput, rfl⟩ := Prod.mk.inj (h.symm.trans heq)
    exact ⟨query, hlimits, hargv, houtput.symm, rfl⟩

theorem query_of_append {n : Nat} {query last : GitQuery}
    (h : (queries ++ [last])[n]? = some query) :
    queries[n]? = some query ∨ last = query ∧ n = queries.length := by
  rw [List.getElem?_append] at h
  split at h
  next => exact .inl h
  next hge =>
    obtain ⟨hlt, rfl⟩ := List.getElem?_eq_some_iff.mp h
    exact .inr ⟨(List.getElem_singleton hlt).symm,
      Nat.le_antisymm (Nat.le_of_sub_eq_zero (Nat.lt_one_iff.mp hlt)) (Nat.le_of_not_lt hge)⟩

theorem timely_run (root : String) (args : List String) (cap : Nat) (h : r.Timely w queries) :
    r.Timely w ((r.run w root args cap).runFrom queries).2 := by
  rcases run_cases w r root args cap queries with ⟨error, heq⟩ | ⟨query, hmargin, hlimits, -, heq⟩
  · rw [heq]
    exact h
  · rw [heq]
    intro n query' hquery'
    rcases query_of_append hquery' with hold | ⟨rfl, rfl⟩
    · exact h n query' hold
    · refine ⟨?_, hmargin⟩
      rw [hlimits, GitReader.remaining]

theorem timely_control (root : String) (args : List String) (h : r.Timely w queries) :
    r.Timely w ((r.control w root args).runFrom queries).2 := by
  refine timely_bind (timely_run root args controlBytes) (fun output queries h => ?_) h
  refine timely_bind (fun h => ?_) (fun _ queries h => ?_) h
  · rw [runFrom_lift]
    exact h
  · split
    · exact h
    · split <;> exact h

theorem timely_lift (result : Except String α) (h : r.Timely w queries) :
    r.Timely w ((liftM result : GitRead α).runFrom queries).2 := by
  rw [runFrom_lift]
  exact h

theorem timely_resolveRoot (path : String) (h : r.Timely w queries) :
    r.Timely w ((r.resolveRoot w path).runFrom queries).2 := by
  refine timely_bind (timely_control path _) (fun bare queries h => ?_) h
  split
  · exact timely_control path _ h
  · split
    · refine timely_bind (timely_control path _) (fun branch queries h => ?_) h
      refine timely_bind (timely_run path _ _) (fun output queries h => ?_) h
      refine timely_bind (timely_lift _) (fun _ queries h => ?_) h
      refine timely_bind (timely_lift _) (fun worktree queries h => ?_) h
      refine timely_bind (timely_lift _) (fun _ queries h => ?_) h
      exact timely_control worktree _ h
    · exact h

theorem timely_nil : r.Timely w [] := fun n query h => by cases h

theorem timely_status (w : GitWorld) (distro : Option String) (path : String) :
    (GitReader.new w distro).Timely w ((w.status distro path).runFrom []).2 := by
  refine timely_bind (timely_lift _) (fun _ queries h => ?_) timely_nil
  refine timely_bind (timely_resolveRoot path) (fun root queries h => ?_) h
  refine timely_bind (timely_run root _ _) (fun output queries h => ?_) h
  exact timely_bind (timely_lift _) (fun _ queries h => timely_lift _ h) h

theorem timely_diff (w : GitWorld) (distro : Option String) (request : GitDiffRequest) :
    (GitReader.new w distro).Timely w ((w.diff distro request).runFrom []).2 := by
  refine timely_bind (timely_lift _) (fun _ queries h => ?_) timely_nil
  split
  · exact h
  split
  · exact h
  refine timely_bind (fun h => ?_) (fun targets queries h => ?_) h
  · unfold GitWorld.diffTargets
    split
    · exact h
    · refine timely_bind (fun h => ?_) (fun _ _ h => h) h
      unfold GitWorld.diffBase
      split
      · exact h
      · exact h
      · split
        · exact timely_bind (timely_control _ _) (fun _ _ h => h) h
        · exact h
  · refine timely_bind (timely_run _ _ _) (fun output queries h => ?_) h
    exact timely_bind (timely_lift _) (fun _ _ h => h) h

/-! ### What is used -/

/-- An output is used if git succeeded in time, or if it was cut off where it may be. -/
theorem checkOutput_ok {output : CapturedOutput} {noIndex allowTruncated : Bool}
    (h : checkOutput output noIndex allowTruncated = .ok ()) :
    output.timedOut = false ∧ (output.stdoutTruncated = true ∨ ∃ exit, output.status = some exit ∧
      (exit.success = true ∨ noIndex = true ∧ exit.code = some 1)) := by
  unfold checkOutput at h
  dsimp only at h
  split at h
  · cases h
  next hintime =>
    have htimedOut : output.timedOut = false := by
      rw [not_or, Bool.not_eq_true] at hintime
      exact hintime.1
    split at h
    · cases h
    split at h
    next hcut => exact ⟨htimedOut, .inl hcut⟩
    next =>
      split at h
      next hend =>
        refine ⟨htimedOut, .inr ?_⟩
        cases hstatus : output.status with
        | none =>
          rw [hstatus] at hend
          rcases hend with hsuccess | ⟨-, hcode, -⟩
          · cases hsuccess
          · cases hcode
        | some exit =>
          rw [hstatus] at hend
          exact ⟨exit, rfl, hend.imp_right fun hdifferent => ⟨hdifferent.1, hdifferent.2.1⟩⟩
      · cases h

open CaptureLoopLemmas in
/-- An output that is used is the beginning of what git wrote; if it was not cut off, git has
exited as it should and nothing is missing. -/
theorem output_used {limits : CaptureLimits} {c : CaptureRun} {output : CapturedOutput}
    (h : (CaptureRun.machine limits).Reach CaptureRun.Start c)
    (hplace : c.place = .returned (.ok output)) {noIndex allowTruncated : Bool}
    (hused : checkOutput output noIndex allowTruncated = .ok ()) :
    output.stdout = (c.streams .stdout).state.pipe.data.take
        (min (c.streams .stdout).state.pipe.taken limits.stdoutBytes) ∧
      (output.stdoutTruncated = true → limits.stdoutBytes <
        (c.streams .stdout).state.pipe.taken) ∧
      (output.stdoutTruncated = false → ∃ exit, c.exit = some exit ∧
        (exit.success = true ∨ noIndex = true ∧ exit.code = some 1) ∧
        (c.streams .stdout).closed = true ∧
        output.stdout = (c.streams .stdout).state.pipe.data) := by
  obtain ⟨hintime, hend⟩ := checkOutput_ok hused
  obtain ⟨hcore, -, rfl, -, hidle⟩ := returned_ok h hplace
  obtain ⟨hbytes, htruncated⟩ := stream_returned hcore .stdout
  refine ⟨hbytes, htruncated.mp, fun hwhole => ?_⟩
  obtain ⟨exit, hexit, hsuccess⟩ := hend.resolve_left fun hcut => by
    rw [hwhole] at hcut
    cases hcut
  have hidle := hidle.resolve_left fun hlate => Bool.false_ne_true (hintime.symm.trans hlate)
  obtain ⟨hclosed, hall⟩ := stream_whole hcore (hidle .stdout) hwhole
  exact ⟨exit, (hcore.status exit hexit).1, hsuccess, hclosed, hall⟩

theorem mapError_ok {ε δ : Type} {g : ε → δ} {result : Except ε α} {a : α}
    (h : result.mapError g = .ok a) : result = .ok a := by
  cases result with
  | error error => cases h
  | ok b => exact congrArg Except.ok (Except.ok.inj h)

theorem parseReport_ok {quote : String → String} {root : String} {bytes : List UInt8}
    {truncated : Bool} {s : GitStatus} (h : parseReport quote root bytes truncated = .ok s) :
    parseStatus root bytes truncated = some (.ok s) := by
  have hread := mapError_ok h
  rw [← hread, Option.some_get]

theorem parseStatus_root {root : String} {bytes : List UInt8} {truncated : Bool} {s : GitStatus}
    (h : parseStatus root bytes truncated = some (.ok s)) : s.root = root := by
  unfold parseStatus at h
  repeat' split at h
  all_goals cases h
  rfl

/-- What a status shows of an output that is used. -/
theorem status_reported {root : String} {output : CapturedOutput} {s : GitStatus}
    {limits : CaptureLimits} {c : CaptureRun} {before after : List (List UInt8)} {oid : String}
    {changes : List StatusEntry} (hused : checkOutput output false true = .ok ())
    (hparse : parseStatus root output.stdout output.stdoutTruncated = some (.ok s))
    (hreach : (CaptureRun.machine limits).Reach CaptureRun.Start c)
    (hplace : c.place = .returned (.ok output)) (hheaders : Headers before after oid)
    (hchanges : ∀ e ∈ changes, e.WellFormed)
    (hreports : WritesReport
      (encodeStatus (before ++ Utf8.bytes (oidHeader oid) :: after) changes) c) :
    s.unborn = decide (oid = "(initial)") ∧
    (∃ n, s.entries = (changes.take n).map StatusEntry.change) ∧
    (s.truncated = false → s.entries = changes.map StatusEntry.change) ∧
    (s.truncated = true → limits.stdoutBytes < (c.streams .stdout).state.pipe.taken ∨
      maxEntries < changes.length) := by
  obtain ⟨hbytes, hcut, hwhole⟩ := output_used hreach hplace hused
  cases htruncated : output.stdoutTruncated with
  | true =>
    rw [htruncated] at hparse
    have hprefix : output.stdout <+:
        encodeStatus (before ++ Utf8.bytes (oidHeader oid) :: after) changes := by
      rw [hbytes]
      exact (List.take_prefix _ _).trans hreports.begun
    have hread := GitLemmas.parseStatus_cut root hheaders hchanges hprefix
    split at hread
    next =>
      obtain ⟨n, hread⟩ := hread
      obtain rfl := Except.ok.inj (Option.some_inj.mp (hparse.symm.trans hread))
      exact ⟨rfl, ⟨n, rfl⟩, nofun, fun _ => .inl (hcut htruncated)⟩
    next => cases Option.some_inj.mp (hparse.symm.trans hread)
  | false =>
    obtain ⟨exit, hexit, hsuccess, hclosed, hall⟩ := hwhole htruncated
    have hsuccess := hsuccess.resolve_right fun hdifferent => Bool.false_ne_true hdifferent.1
    rw [htruncated, hall, hreports.whole exit hexit hsuccess hclosed,
      GitLemmas.parseStatus_whole root hheaders hchanges] at hparse
    obtain rfl := Except.ok.inj (Option.some_inj.mp hparse)
    refine ⟨rfl, ⟨maxEntries, rfl⟩, fun hshort => ?_, fun hlong => .inr (of_decide_eq_true hlong)⟩
    have hroom : changes.length ≤ maxEntries := Nat.le_of_not_lt (of_decide_eq_false hshort)
    exact congrArg (List.map StatusEntry.change) (List.take_of_length_le hroom)

/-- A resolved root is what git printed as the top of a work tree. -/
theorem topLevel_of_resolveRoot {path root : String}
    (h : (r.resolveRoot w path).runFrom queries = (.ok root, queries')) :
    ∃ worktree before, (r.control w worktree ["rev-parse", "--show-toplevel"]).runFrom before =
      (.ok root, queries') := by
  obtain ⟨bare, earlier, -, hrest⟩ := bind_ok h
  split at hrest
  · exact ⟨path, earlier, hrest⟩
  · split at hrest
    · obtain ⟨_, _, -, hrest⟩ := bind_ok hrest
      obtain ⟨_, _, -, hrest⟩ := bind_ok hrest
      obtain ⟨_, _, -, hrest⟩ := bind_ok hrest
      obtain ⟨worktree, _, -, hrest⟩ := bind_ok hrest
      obtain ⟨_, before, -, hrest⟩ := bind_ok hrest
      exact ⟨worktree, before, hrest⟩
    · cases (Prod.mk.inj hrest).1

/-- The last query of a status. -/
theorem status_ok {distro : Option String} {path : String} {s : GitStatus}
    (h : (w.status distro path).runFrom [] = (.ok s, queries)) :
    ∃ root query output earlier, queries = earlier ++ [query] ∧
      ((GitReader.new w distro).resolveRoot w path).runFrom [] = (.ok root, earlier) ∧
      (GitReader.new w distro).Sends w root statusArgs statusBytes query ∧
      w.capture earlier.length query = .ok output ∧ checkOutput output false true = .ok () ∧
      parseStatus root output.stdout output.stdoutTruncated = some (.ok s) := by
  obtain ⟨_, _, hvalid, hrest⟩ := bind_ok h
  obtain ⟨-, rfl⟩ := lift_ok hvalid
  obtain ⟨root, earlier, hroot, hrest⟩ := bind_ok hrest
  obtain ⟨output, _, hrun, hrest⟩ := bind_ok hrest
  obtain ⟨_, _, hused, hread⟩ := bind_ok hrest
  obtain ⟨query, hlimits, hargv, hcapture, rfl⟩ := run_ok hrun
  obtain ⟨hchecked, rfl⟩ := lift_ok hused
  obtain ⟨hstatus, rfl⟩ := lift_ok hread
  exact ⟨root, query, output, earlier, rfl, hroot,
    ⟨congrArg CaptureLimits.stdoutBytes hlimits, hargv⟩, hcapture, hchecked,
    parseReport_ok hstatus⟩

/-- What a control query asks, whatever comes of it. -/
theorem queries_of_control (w : GitWorld) (r : GitReader) (root : String) (args : List String)
    (queries : List GitQuery) :
    ((r.control w root args).runFrom queries).2 = queries ∨
    ∃ query, r.Sends w root args controlBytes query ∧
      ((r.control w root args).runFrom queries).2 = queries ++ [query] := by
  have hcontrol : ((r.control w root args).runFrom queries).2 =
      ((r.run w root args controlBytes).runFrom queries).2 := by
    refine snd_bind fun output queries => ?_
    refine (snd_bind fun _ queries => ?_).trans (congrArg Prod.snd (runFrom_lift _))
    split
    · rfl
    · split <;> rfl
  rw [hcontrol]
  rcases run_cases w r root args controlBytes queries with
    ⟨error, heq⟩ | ⟨query, -, hlimits, hargv, heq⟩
  · exact .inl (congrArg Prod.snd heq)
  · exact .inr ⟨query, ⟨congrArg CaptureLimits.stdoutBytes hlimits, hargv⟩,
      congrArg Prod.snd heq⟩

theorem query_of_control {root : String} {args : List String} {n : Nat} {query : GitQuery}
    {result : Except String String} {queries : List GitQuery}
    (hcontrol : (r.control w root args).runFrom [] = (result, queries))
    (h : queries[n]? = some query) : n = 0 ∧ r.Sends w root args controlBytes query := by
  have hqueries := queries_of_control w r root args []
  rw [hcontrol] at hqueries
  rcases hqueries with rfl | ⟨first, hsends, rfl⟩
  · cases h
  · rcases query_of_append h with hnone | ⟨rfl, hn⟩
    · cases hnone
    · exact ⟨hn, hsends⟩

theorem diffTargets_eq (w : GitWorld) (r : GitReader) (request : GitDiffRequest) :
    w.diffTargets r request =
      if request.asksTree = true then
        r.control w request.root GitWorld.treeArgs >>= fun emptyTree =>
          pure (request.options emptyTree ++ "--" :: request.files)
      else pure (request.options "" ++ "--" :: request.files) := by
  unfold GitWorld.diffTargets GitWorld.diffBase GitDiffRequest.asksTree GitDiffRequest.options
    GitDiffRequest.files
  cases request.untracked with
  | true => simp
  | false =>
    cases request.scope with
    | working => simp
    | staged => simp
    | all => cases request.unborn <;> simp

/-- The options are there once the empty tree is, if it is needed. -/
theorem diffTargets_cases (w : GitWorld) (r : GitReader) (request : GitDiffRequest) :
    (∃ emptyTree earlier, r.Prepares w request emptyTree earlier ∧
      (w.diffTargets r request).runFrom [] =
        (.ok (request.options emptyTree ++ "--" :: request.files), earlier)) ∨
    request.asksTree = true ∧ ∃ error earlier,
      (r.control w request.root GitWorld.treeArgs).runFrom [] = (.error error, earlier) ∧
      (w.diffTargets r request).runFrom [] = (.error error, earlier) := by
  rw [diffTargets_eq]
  by_cases hasks : request.asksTree = true
  · rw [if_pos hasks]
    cases hcontrol : (r.control w request.root GitWorld.treeArgs).runFrom [] with
    | mk result earlier =>
      cases result with
      | ok emptyTree =>
        exact .inl ⟨emptyTree, earlier, (if_pos hasks).mpr hcontrol, bind_of_ok hcontrol⟩
      | error error => exact .inr ⟨hasks, error, earlier, rfl, bind_of_error hcontrol⟩
  · rw [if_neg hasks]
    exact .inl ⟨"", [], (if_neg hasks).mpr rfl, runFrom_pure _⟩

/-- What the tree query asked is the only query before the files are compared. -/
theorem query_of_prepares {request : GitDiffRequest} {emptyTree : String} {earlier : List GitQuery}
    (h : r.Prepares w request emptyTree earlier) {n : Nat} {query : GitQuery}
    (hquery : earlier[n]? = some query) :
    request.asksTree = true ∧ n = 0 ∧
      r.Sends w request.root GitWorld.treeArgs controlBytes query := by
  by_cases hasks : request.asksTree = true
  · have hcontrol := (if_pos hasks).mp h
    exact ⟨hasks, query_of_control hcontrol hquery⟩
  · rw [(if_neg hasks).mp h] at hquery
    cases hquery

/-- Every query of a diff is for the files of the request, or for the empty tree that they are
compared with. -/
theorem query_of_diff {distro : Option String} {request : GitDiffRequest} {n : Nat}
    {query : GitQuery} (h : ((w.diff distro request).runFrom []).2[n]? = some query) :
    (request.asksTree = true ∧ n = 0 ∧
      (GitReader.new w distro).Sends w request.root GitWorld.treeArgs controlBytes query) ∨
    ∃ emptyTree earlier, (GitReader.new w distro).Prepares w request emptyTree earlier ∧
      (GitReader.new w distro).Compares w request emptyTree query ∧ n = earlier.length := by
  unfold GitWorld.diff at h
  rw [runFrom_bind, runFrom_lift] at h
  cases hvalid : w.validateRequest request with
  | error error =>
    rw [hvalid] at h
    cases h
  | ok _ =>
    rw [hvalid] at h
    dsimp only at h
    split at h
    · cases h
    split at h
    · cases h
    rcases diffTargets_cases w (GitReader.new w distro) request with
      ⟨emptyTree, earlier, hprepared, heq⟩ | ⟨hasks, error, earlier, hcontrol, heq⟩
    · rw [bind_of_ok heq, snd_bind fun output queries =>
        (snd_bind fun _ _ => rfl).trans (congrArg Prod.snd (runFrom_lift _))] at h
      rcases run_cases w (GitReader.new w distro) request.root
          (GitWorld.diffArgs ++ (request.options emptyTree ++ "--" :: request.files)) diffBytes
          earlier with ⟨error, hrun⟩ | ⟨last, -, hlimits, hargv, hrun⟩
      · rw [hrun] at h
        exact .inl (query_of_prepares hprepared h)
      · rw [hrun] at h
        rcases query_of_append h with hearlier | ⟨rfl, hn⟩
        · exact .inl (query_of_prepares hprepared hearlier)
        · exact .inr ⟨emptyTree, earlier, hprepared,
            ⟨congrArg CaptureLimits.stdoutBytes hlimits, hargv⟩, hn⟩
    · rw [bind_of_error heq] at h
      exact .inl ⟨hasks, query_of_control hcontrol h⟩

/-- A diff: nothing is asked for, or the last query was for the files of the request. -/
theorem diff_ok {distro : Option String} {request : GitDiffRequest} {d : GitDiff}
    (h : (w.diff distro request).runFrom [] = (.ok d, queries)) :
    w.validateRequest request = .ok () ∧
    (request.untracked = true ∧ request.scope = .staged ∧ d = ⟨"", false⟩ ∧ queries = [] ∨
    ∃ emptyTree query output earlier, queries = earlier ++ [query] ∧
      (GitReader.new w distro).Prepares w request emptyTree earlier ∧
      (GitReader.new w distro).Compares w request emptyTree query ∧
      w.capture earlier.length query = .ok output ∧
      checkOutput output request.untracked true = .ok () ∧
      d = ⟨Utf8.fromUtf8Lossy output.stdout, output.stdoutTruncated⟩) := by
  obtain ⟨_, _, hvalid, hrest⟩ := bind_ok h
  obtain ⟨hrequest, rfl⟩ := lift_ok hvalid
  refine ⟨hrequest, ?_⟩
  split at hrest
  next hnone =>
    cases hrest
    exact .inl ⟨hnone.1, hnone.2, rfl, rfl⟩
  split at hrest
  · cases hrest
  obtain ⟨targets, earlier, htargets, hrest⟩ := bind_ok hrest
  obtain ⟨output, _, hrun, hrest⟩ := bind_ok hrest
  obtain ⟨_, _, hused, hd⟩ := bind_ok hrest
  obtain ⟨query, hlimits, hargv, hcapture, rfl⟩ := run_ok hrun
  obtain ⟨hchecked, rfl⟩ := lift_ok hused
  cases hd
  rcases diffTargets_cases w (GitReader.new w distro) request with
    ⟨emptyTree, earlier', hprepared, heq⟩ | ⟨-, error, _, -, heq⟩
  · obtain ⟨htargets, rfl⟩ := Prod.mk.inj (htargets.symm.trans heq)
    obtain rfl := Except.ok.inj htargets
    exact .inr ⟨emptyTree, query, output, earlier, rfl, hprepared,
      ⟨congrArg CaptureLimits.stdoutBytes hlimits, hargv⟩, hcapture, hchecked, rfl⟩
  · cases (Prod.mk.inj (htargets.symm.trans heq)).1

/-! ### Two answers -/

def exitedZero : ExitStatus := ⟨some 0, "exit status: 0"⟩

/-- Git answers in time; the queries are answered one after the other. -/
def answering (answers : List (List UInt8)) : GitWorld where
  start := 0
  clock _ := 0
  capture n _ := .ok ⟨some exitedZero, answers.getD n [], [], false, false, false⟩
  seconds _ := "9.000s"
  quote text := text

def exitedStop : StopAnswers := ⟨.ok false, .notFound, .ok (some exitedZero), .ok exitedZero⟩

/-- Git writes and exits, and what it wrote is read in one piece. -/
def reporting (report : List UInt8) : List CaptureRun.Action :=
  [.start (.ok ()) (fun _ => true) (fun _ => .ok ()) exitedStop, .write .stdout report,
    .exit exitedZero, .close .stdout, .close .stderr, .tryWait (.ok (some exitedZero)) exitedStop,
    .clock exitedStop, .drain (.ok (.bytes report.length)) (.ok ()) exitedStop,
    .drain (.ok .eof) (.ok ()) exitedStop, .last, .tryWait (.ok none) exitedStop,
    .clock exitedStop, .drain (.ok .eof) (.ok ()) exitedStop,
    .drain (.ok .noData) (.ok ()) exitedStop, .last]

def reported (limits : CaptureLimits) (report : List UInt8) : CaptureRun :=
  (CaptureRun.machine limits).run .new (reporting report)

def statusLimits : CaptureLimits := ⟨statusBytes, stderrBytes, gitTimeout⟩

def diffLimits : CaptureLimits := ⟨diffBytes, stderrBytes, gitTimeout⟩

def untrackedFile : StatusEntry := ⟨.untracked, '?', '?', [], "a"⟩

def untrackedReport : List UInt8 :=
  encodeStatus ([] ++ Utf8.bytes (oidHeader "(initial)") :: []) [untrackedFile]

def printedDiff : List UInt8 := Utf8.bytes "-a\n+b\n"

theorem reach_reported {limits : CaptureLimits} {report : List UInt8}
    (h : limits = statusLimits ∧ report = untrackedReport ∨
      limits = diffLimits ∧ report = printedDiff) :
    (CaptureRun.machine limits).Reach CaptureRun.Start (reported limits report) := by
  have hstart : (CaptureRun.machine limits).Reach CaptureRun.Start .new := .init rfl
  have hagrees (c : CaptureRun) (h : c.exit = none ∨ c.exit = some exitedZero) :
      c.Agrees exitedStop := by
    rintro status (htry | hwait)
    · cases htry
      exact h
    · cases hwait
      exact h
  rcases h with ⟨rfl, rfl⟩ | ⟨rfl, rfl⟩
  all_goals
    refine hstart.of_trace (reporting _)
      ⟨hagrees _ (.inl rfl), rfl, trivial, trivial, trivial, ⟨?_, hagrees _ (.inr rfl)⟩,
        hagrees _ (.inr rfl), ⟨hagrees _ (.inr rfl), ?_⟩, ⟨hagrees _ (.inr rfl), ?_⟩, trivial,
        ⟨nofun, hagrees _ (.inr rfl)⟩, hagrees _ (.inr rfl), ⟨hagrees _ (.inr rfl), ?_⟩,
        ⟨hagrees _ (.inr rfl), fun _ _ _ _ => trivial⟩, trivial, trivial⟩
    · rintro status h
      cases h
      rfl
    · rintro side deadlineReached progress hplace
      cases hplace
      exact ⟨by decide, by decide, by decide⟩
    · rintro side deadlineReached progress hplace
      cases hplace
      exact ⟨rfl, rfl⟩
    · rintro side deadlineReached progress hplace
      cases hplace
      exact ⟨rfl, by decide +kernel⟩

theorem eq_of_fst {p : α × β} {a : α} (h : p.1 = a) : p = (a, p.2) := by
  rw [← h]

end GitReadLemmas

open GitReadLemmas GitReader in
/-- A status: every query is captured up to one deadline, and what is shown is what the last one
found, which is asked of the root that was found first. If git reports these changes, a status
shows the first of them, and all of them unless it says that it was cut off. -/
theorem git_status (w : GitWorld) (distro : Option String) (path : String) :
    (GitReader.new w distro).Timely w ((w.status distro path).runFrom []).2 ∧
    ∀ (s : GitStatus) (queries : List GitQuery),
      (w.status distro path).runFrom [] = (.ok s, queries) →
      ∃ query output earlier, queries = earlier ++ [query] ∧
        ((GitReader.new w distro).resolveRoot w path).runFrom [] = (.ok s.root, earlier) ∧
        (∃ worktree before, ((GitReader.new w distro).control w worktree
          ["rev-parse", "--show-toplevel"]).runFrom before = (.ok s.root, earlier)) ∧
        gitCommand w.seconds distro s.root statusArgs (query.limits.timeout - margin) =
          .ok query.argv ∧
        w.capture earlier.length query = .ok output ∧
        ∀ (c : CaptureRun) (before after : List (List UInt8)) (oid : String)
          (changes : List StatusEntry),
          (CaptureRun.machine query.limits).Reach CaptureRun.Start c →
          c.place = .returned (.ok output) → Headers before after oid →
          (∀ e ∈ changes, e.WellFormed) →
          WritesReport (encodeStatus (before ++ Utf8.bytes (oidHeader oid) :: after) changes) c →
          s.unborn = decide (oid = "(initial)") ∧
          (∃ n, s.entries = (changes.take n).map StatusEntry.change) ∧
          (s.truncated = false → s.entries = changes.map StatusEntry.change) ∧
          (s.truncated = true → statusBytes < (c.streams .stdout).state.pipe.taken ∨
            maxEntries < changes.length) := by
  refine ⟨timely_status w distro path, fun s queries h => ?_⟩
  obtain ⟨root, query, output, earlier, rfl, hroot, ⟨hcap, hargv⟩, hcapture, hused, hparse⟩ :=
    status_ok h
  obtain rfl := parseStatus_root hparse
  refine ⟨query, output, earlier, rfl, hroot, topLevel_of_resolveRoot hroot, hargv, hcapture, ?_⟩
  intro c before after oid changes hreach hplace hheaders hchanges hreports
  rw [← hcap]
  exact status_reported hused hparse hreach hplace hheaders hchanges hreports

def untrackedStatus : GitStatus := ⟨"/r", true, [⟨"a", none, "?", "?", true, false⟩], false⟩

open GitReadLemmas GitReader in
/-- The status of a directory in a repository without a commit and with one file: the root is the
top of the work tree. -/
theorem git_status_untracked :
    (((answering [Utf8.bytes "false\n", Utf8.bytes "/r\n", untrackedReport]).status none
      "/r/src").runFrom []).1 = .ok untrackedStatus ∧
      untrackedStatus.entries = [untrackedFile].map StatusEntry.change := by
  generalize hw : answering [Utf8.bytes "false\n", Utf8.bytes "/r\n", untrackedReport] = w
  have hstatus : ((w.status none "/r/src").runFrom []).1 = .ok untrackedStatus := by
    rw [← hw]
    decide +kernel
  have hqueries : ((w.status none "/r/src").runFrom []).2.map GitQuery.limits =
      [⟨controlBytes, stderrBytes, gitTimeout⟩, ⟨controlBytes, stderrBytes, gitTimeout⟩,
        statusLimits] := by
    rw [← hw]
    decide +kernel
  refine ⟨hstatus, ?_⟩
  obtain ⟨query, output, earlier, hlast, -, -, -, hcapture, hshown⟩ :=
    (git_status w none "/r/src").2 untrackedStatus _ (eq_of_fst hstatus)
  rw [hlast, List.map_append, List.map_singleton] at hqueries
  obtain ⟨hearlier, hlimits⟩ := List.append_inj' (hqueries.trans
    (List.append_assoc [_] [_] [statusLimits]).symm) rfl
  have hlength : earlier.length = 2 := by
    rw [← List.length_map (f := GitQuery.limits), hearlier]
    rfl
  rw [hlength, ← hw] at hcapture
  obtain rfl := Except.ok.inj hcapture
  have hreached := reach_reported (.inl ⟨rfl, rfl⟩)
  rw [List.singleton_inj.mp hlimits] at hshown
  have headers : Headers [] [] "(initial)" := ⟨nofun, by decide⟩
  have hwellFormed : untrackedFile.WellFormed :=
    ⟨by decide, by decide, fun h => absurd rfl h, nofun, .inl (by decide), nofun⟩
  exact (hshown _ [] [] "(initial)" [untrackedFile] hreached rfl headers
    (List.forall_mem_singleton.mpr hwellFormed) ⟨List.prefix_rfl, fun _ _ _ _ => rfl⟩).2.2.1 rfl

open GitReadLemmas GitReader in
/-- A diff: a request is refused before git is asked; every query is for the files of the request,
which stand behind the `--` and the options of its scope, or for the empty tree; and the text is
what git printed, decoded: the first of it, and all of it unless the diff says otherwise. -/
theorem git_diff (w : GitWorld) (distro : Option String) (request : GitDiffRequest) :
    (GitReader.new w distro).Timely w ((w.diff distro request).runFrom []).2 ∧
    (w.validateRequest request ≠ .ok () → ((w.diff distro request).runFrom []).2 = []) ∧
    (∀ n query, ((w.diff distro request).runFrom []).2[n]? = some query →
      (request.asksTree = true ∧ n = 0 ∧
        (GitReader.new w distro).Sends w request.root GitWorld.treeArgs controlBytes query) ∨
      ∃ emptyTree earlier, (GitReader.new w distro).Prepares w request emptyTree earlier ∧
        (GitReader.new w distro).Compares w request emptyTree query ∧ n = earlier.length) ∧
    ∀ (d : GitDiff) (queries : List GitQuery),
      (w.diff distro request).runFrom [] = (.ok d, queries) →
      request.untracked = true ∧ request.scope = .staged ∧ d = ⟨"", false⟩ ∧ queries = [] ∨
      ∃ emptyTree query output earlier, queries = earlier ++ [query] ∧
        (GitReader.new w distro).Prepares w request emptyTree earlier ∧
        (GitReader.new w distro).Compares w request emptyTree query ∧
        w.capture earlier.length query = .ok output ∧
        ∀ c : CaptureRun, (CaptureRun.machine query.limits).Reach CaptureRun.Start c →
          c.place = .returned (.ok output) →
          d.text = Utf8.fromUtf8Lossy ((c.streams .stdout).state.pipe.data.take
            (min (c.streams .stdout).state.pipe.taken diffBytes)) ∧
          (d.truncated = true → diffBytes < (c.streams .stdout).state.pipe.taken) ∧
          (d.truncated = false → ∃ exit, c.exit = some exit ∧
            (exit.success = true ∨ request.untracked = true ∧ exit.code = some 1) ∧
            (c.streams .stdout).closed = true ∧
            d.text = Utf8.fromUtf8Lossy (c.streams .stdout).state.pipe.data) := by
  refine ⟨timely_diff w distro request, fun hrefused => ?_, fun n query h => query_of_diff h,
    fun d queries h => ?_⟩
  · unfold GitWorld.diff
    rw [runFrom_bind, runFrom_lift]
    cases hvalid : w.validateRequest request with
    | error error => rfl
    | ok _ => exact absurd hvalid hrefused
  · refine (diff_ok h).2.imp_right ?_
    rintro ⟨emptyTree, query, output, earlier, rfl, hprepared, hcompares, hcapture, hused, rfl⟩
    refine ⟨emptyTree, query, output, earlier, rfl, hprepared, hcompares, hcapture, ?_⟩
    intro c hreach hplace
    obtain ⟨hbytes, hcut, hwhole⟩ := output_used hreach hplace hused
    rw [hcompares.1] at hbytes hcut
    refine ⟨congrArg Utf8.fromUtf8Lossy hbytes, hcut, fun htruncated => ?_⟩
    obtain ⟨exit, hexit, hsuccess, hclosed, hall⟩ := hwhole htruncated
    exact ⟨exit, hexit, hsuccess, hclosed, congrArg Utf8.fromUtf8Lossy hall⟩

open GitReadLemmas GitReader in
/-- The diff of a file in a repository without a commit, which is the second query; the file must
lie in the repository. -/
theorem git_diff_printed :
    (((answering [Utf8.bytes "4b825d\n", printedDiff]).diff none
        ⟨"/r", "a", none, .all, false, true⟩).runFrom []).1 = .ok ⟨"-a\n+b\n", false⟩ ∧
      "-a\n+b\n" = Utf8.fromUtf8Lossy printedDiff ∧
      (((answering [Utf8.bytes "4b825d\n", printedDiff]).diff none
        ⟨"/r", "../a", none, .all, false, true⟩).runFrom []).2 = [] := by
  generalize hw : answering [Utf8.bytes "4b825d\n", printedDiff] = w
  have hdiff : ((w.diff none ⟨"/r", "a", none, .all, false, true⟩).runFrom []).1 =
      .ok ⟨"-a\n+b\n", false⟩ := by
    rw [← hw]
    decide +kernel
  have hqueries : ((w.diff none ⟨"/r", "a", none, .all, false, true⟩).runFrom []).2.map
      GitQuery.limits = [⟨controlBytes, stderrBytes, gitTimeout⟩, diffLimits] := by
    rw [← hw]
    decide +kernel
  refine ⟨hdiff, ?_, (git_diff w none _).2.1 (by rw [← hw]; decide +kernel)⟩
  rcases (git_diff w none _).2.2.2 _ _ (eq_of_fst hdiff) with
    ⟨huntracked, -⟩ | ⟨emptyTree, query, output, earlier, hlast, -, -, hcapture, hshown⟩
  · cases huntracked
  · rw [hlast, List.map_append, List.map_singleton] at hqueries
    obtain ⟨hearlier, hlimits⟩ := List.append_inj' (hqueries.trans
      (List.singleton_append (l := [diffLimits])).symm) rfl
    have hlength : earlier.length = 1 := by
      rw [← List.length_map (f := GitQuery.limits), hearlier]
      rfl
    rw [hlength, ← hw] at hcapture
    obtain rfl := Except.ok.inj hcapture
    rw [List.singleton_inj.mp hlimits] at hshown
    have hreached := reach_reported (.inr ⟨rfl, rfl⟩)
    obtain ⟨-, -, -, -, htext⟩ := (hshown _ hreached rfl).2.2 rfl
    exact htext

end Mast
