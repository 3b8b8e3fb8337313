import Mast.Lib.Segments
import Mast.Remote.Http

/-!
# The output of git status

`git.rs`: the porcelain v2 format with `-z`, read from a capture that may have been cut. A
record ends with a NUL byte; a rename is two records, the second one its original path; and
a cut capture is read up to its last NUL.

Results:
1. `parseStatus_returns`: the reader does not panic on any bytes.
2. `readChange_record`: the first record of a change is read back.
3. `parseRecords_changes`: the records of changes give these changes, up to the bound.
4. `status_round_trip`: whole outputs, long outputs and cut outputs.
-/

namespace Mast

open Segments

/-- `MAX_ENTRIES` -/
def maxEntries : Nat := 5000

structure GitChange where
  path : String
  originalPath : Option String
  indexStatus : String
  worktreeStatus : String
  untracked : Bool
  conflicted : Bool
deriving DecidableEq, Repr

structure GitStatus where
  root : String
  unborn : Bool
  entries : List GitChange
  truncated : Bool
deriving DecidableEq, Repr

inductive GitStatusError
  | incompleteRecord
  | notUtf8
  | unsupported (record : String)
  | malformed
  | badFile
  | sourceNotUtf8
  | noSource
  | noHead
deriving DecidableEq, Repr

/-- The text of the error. `quote` is the debug form of a string. -/
def GitStatusError.message (quote : String → String) : GitStatusError → String
  | .incompleteRecord => "Git status ended in an incomplete record"
  | .notUtf8 => "Git status contains a filename that is not valid UTF-8"
  | .unsupported record => s!"Unsupported Git status record: {quote record}"
  | .malformed => "Malformed Git status record"
  | .badFile =>
    "Git file must be a nonempty repository-relative path without NUL, '.' or '..' components"
  | .sourceNotUtf8 => "Git rename source is not valid UTF-8"
  | .noSource => "Git rename record has no source path"
  | .noHead => "Git status did not report HEAD"

def validateFile (path : String) : Except GitStatusError Unit :=
  let path := if path.toList.getLast? = some '/' then path.toList.dropLast else path.toList
  if path = [] ∨ path.head? = some '/' ∨ Char.ofNat 0 ∈ path ∨
      ∃ s ∈ path.splitOn '/', s = [] ∨ s = ['.'] ∨ s = ['.', '.'] then
    .error .badFile
  else .ok ()

/-! ## Records -/

/-- What a header line says: whether the branch has no commit yet, or nothing that is
used. -/
def readHeader (record : List Char) : Option (Option Bool) :=
  match "# branch.oid ".toList.isPrefixOf? record with
  | some oid => some (some (decide (oid = "(initial)".toList)))
  | none => if "# ".toList <+: record then some none else none

/-- The text before and after a byte position, which has to be between two characters. -/
def splitAtByte : Nat → List Char → Option (List Char × List Char)
  | 0, text => some ([], text)
  | _ + 1, [] => none
  | n + 1, c :: rest =>
    if c.utf8Size ≤ n + 1 then
      (splitAtByte (n + 1 - c.utf8Size) rest).map fun p => (c :: p.1, p.2)
    else none

/-- The number of fields of a record, and whether it is a rename or a conflict. -/
def recordShape (record : List Char) : Option (Nat × Bool × Bool) :=
  match record.head? with
  | some '1' => some (9, false, false)
  | some '2' => some (10, true, false)
  | some 'u' => some (11, false, true)
  | _ => none

/-- A record that is no header, and whether its original path is to follow. `none`: a field
is taken that is not there, or a text is cut inside a character. -/
def readChange (record : List Char) : Option (Except GitStatusError (GitChange × Bool)) :=
  match "? ".toList.isPrefixOf? record with
  | some path =>
    match validateFile (String.ofList path) with
    | .error e => some (.error e)
    | .ok () => some (.ok (⟨String.ofList path, none, "?", "?", true, false⟩, false))
  | none =>
    match recordShape record with
    | none => some (.error (.unsupported (String.ofList record)))
    | some (count, renamed, conflicted) =>
      let fields := splitn count ' ' record
      if fields.length ≠ count then some (.error .malformed)
      else do
        let statuses ← fields[1]?
        if (Utf8.bytes (String.ofList statuses)).length ≠ 2 ∨
            ¬ statuses.all fun c => c.toNat < 0x80 then
          some (.error .malformed)
        else do
          let path ← fields[count - 1]?
          match validateFile (String.ofList path) with
          | .error e => some (.error e)
          | .ok () =>
            let (index, worktree) ← splitAtByte 1 statuses
            some (.ok (⟨String.ofList path, none, String.ofList index, String.ofList worktree,
              false, conflicted⟩, renamed))

/-- The loop over the records. -/
def parseRecords (truncated : Bool) (entries : List GitChange) (unborn : Option Bool) :
    List (List UInt8) → Option (Except GitStatusError (List GitChange × Option Bool × Bool))
  | [] => some (.ok (entries, unborn, truncated))
  | bytes :: rest =>
    match fromUtf8 bytes with
    | none => some (.error .notUtf8)
    | some record =>
      match readHeader record.toList with
      | some initial => parseRecords truncated entries (initial.or unborn) rest
      | none =>
        if entries.length = maxEntries then some (.ok (entries, unborn, true))
        else
          match readChange record.toList with
          | none => none
          | some (.error e) => some (.error e)
          | some (.ok (change, false)) => parseRecords truncated (entries ++ [change]) unborn rest
          | some (.ok (change, true)) =>
            match rest with
            | [] =>
              if truncated then some (.ok (entries, unborn, truncated))
              else some (.error .noSource)
            | source :: rest =>
              match fromUtf8 source with
              | none => some (.error .sourceNotUtf8)
              | some original =>
                match validateFile original with
                | .error e => some (.error e)
                | .ok () =>
                  parseRecords truncated
                    (entries ++ [{ change with originalPath := some original }]) unborn rest

/-- The end of the records: a cut capture is read up to its last NUL. -/
def statusRecords (bytes : List UInt8) (truncated : Bool) :
    Except GitStatusError (List (List UInt8)) :=
  if truncated then .ok (segments 0 (bytes.rdropWhile (· ≠ 0)))
  else if bytes ≠ [] ∧ bytes.getLast? ≠ some 0 then .error .incompleteRecord
  else .ok (segments 0 bytes)

/-- `parse_status`. `none`: it panics. -/
def parseStatus (root : String) (bytes : List UInt8) (truncated : Bool) :
    Option (Except GitStatusError GitStatus) :=
  match statusRecords bytes truncated with
  | .error e => some (.error e)
  | .ok records =>
    match parseRecords truncated [] none records with
    | none => none
    | some (.error e) => some (.error e)
    | some (.ok (entries, unborn, truncated)) =>
      match unborn with
      | none => some (.error .noHead)
      | some unborn => some (.ok ⟨root, unborn, entries, truncated⟩)

/-! ## What git writes -/

/-- A path below the root of a repository. -/
def GitPath (path : String) : Prop :=
  Char.ofNat 0 ∉ path.toList ∧
    ∀ s ∈ path.toList.splitOn '/', s ≠ [] ∧ s ≠ ['.'] ∧ s ≠ ['.', '.']

instance (path : String) : Decidable (GitPath path) :=
  inferInstanceAs (Decidable (_ ∧
    ∀ s ∈ path.toList.splitOn '/', s ≠ [] ∧ s ≠ ['.'] ∧ s ≠ ['.', '.']))

inductive ChangeKind
  | ordinary
  | renamed (original : String)
  | unmerged
  | untracked
deriving DecidableEq, Repr

/-- A change as git has it: the two status letters, and the modes and object names between
them and the path. -/
structure StatusEntry where
  kind : ChangeKind
  index : Char
  worktree : Char
  fields : List String
  path : String
deriving DecidableEq, Repr

/-- The code of a record. -/
def ChangeKind.code : ChangeKind → Char
  | ordinary => '1'
  | renamed _ => '2'
  | unmerged => 'u'
  | untracked => '?'

/-- How many fields stand between the status letters and the path. -/
def ChangeKind.fieldCount : ChangeKind → Nat
  | ordinary => 6
  | renamed _ => 7
  | unmerged => 8
  | untracked => 0

def ChangeKind.original? : ChangeKind → Option String
  | renamed original => some original
  | _ => none

/-- A status letter. -/
def IsStatusLetter (c : Char) : Prop := c.toNat < 0x80 ∧ c ≠ ' ' ∧ c ≠ Char.ofNat 0

instance (c : Char) : Decidable (IsStatusLetter c) := inferInstanceAs (Decidable (_ ∧ _ ∧ _))

/-- A change that git can report. An untracked directory ends with a slash. -/
structure StatusEntry.WellFormed (e : StatusEntry) : Prop where
  index : IsStatusLetter e.index
  worktree : IsStatusLetter e.worktree
  fieldCount : e.kind ≠ .untracked → e.fields.length = e.kind.fieldCount
  field : ∀ field ∈ e.fields, ' ' ∉ field.toList ∧ Char.ofNat 0 ∉ field.toList
  path : GitPath e.path ∨ e.kind = .untracked ∧ ∃ dir, GitPath dir ∧ e.path = dir ++ "/"
  original : ∀ original ∈ e.kind.original?, GitPath original

/-- The first record of a change. -/
def StatusEntry.record (e : StatusEntry) : String :=
  if e.kind = .untracked then "? " ++ e.path
  else
    String.ofList (([e.kind.code] :: [e.index, e.worktree] :: e.fields.map String.toList).flatMap
      (· ++ [' '])) ++ e.path

/-- The records of a change: a rename has its original path in a record of its own. -/
def StatusEntry.records (e : StatusEntry) : List String := e.record :: e.kind.original?.toList

/-- What the app shows of a change. -/
def StatusEntry.change (e : StatusEntry) : GitChange :=
  if e.kind = .untracked then ⟨e.path, none, "?", "?", true, false⟩
  else
    ⟨e.path, e.kind.original?, String.ofList [e.index], String.ofList [e.worktree], false,
      decide (e.kind = .unmerged)⟩

/-- A header line. -/
def headerLine (text : List UInt8) : List UInt8 := Utf8.bytes "# " ++ text

/-- The text of the header that names the commit. -/
def oidHeader (oid : String) : String := "branch.oid " ++ oid

/-- The records of an output: header lines, then changes. -/
def statusOutput (headers : List (List UInt8)) (changes : List StatusEntry) : List (List UInt8) :=
  headers.map headerLine ++ changes.flatMap fun e => e.records.map Utf8.bytes

/-- The output of git. -/
def encodeStatus (headers : List (List UInt8)) (changes : List StatusEntry) : List UInt8 :=
  trail 0 (statusOutput headers changes)

/-- One header line names the commit, and the lines are text without NUL bytes. -/
structure Headers (before after : List (List UInt8)) (oid : String) : Prop where
  text : ∀ h ∈ before ++ after, ∃ text, fromUtf8 h = some text ∧ Char.ofNat 0 ∉ text.toList ∧
    ¬ "branch.oid ".toList <+: text.toList
  oid : Char.ofNat 0 ∉ oid.toList

namespace GitLemmas

variable {path : String} {record : List Char} {e : StatusEntry} {changes : List StatusEntry}
  {headers before after : List (List UInt8)} {entries : List GitChange} {unborn : Option Bool}
  {truncated : Bool} {records : List (List UInt8)} {oid : String}

/-! ## Panics -/

/-- A text of two ASCII characters can be cut between them. -/
theorem splitAtByte_ascii {text : List Char} (hlen : (Utf8.bytes (String.ofList text)).length = 2)
    (hascii : ∀ c ∈ text, c.toNat < 0x80) : ∃ c rest, text = c :: rest ∧
      splitAtByte 1 text = some ([c], rest) := by
  cases text with
  | nil => cases hlen
  | cons c rest =>
    have hc : c.val ≤ 0x7F := Nat.le_of_lt_succ (hascii c List.mem_cons_self)
    have hsize : c.utf8Size = 1 := Char.utf8Size_eq_one_iff.mpr hc
    refine ⟨c, rest, rfl, ?_⟩
    rw [splitAtByte, hsize, if_pos (Nat.le_refl 1), splitAtByte]
    rfl

theorem recordShape_count {count : Nat} {renamed conflicted : Bool}
    (h : recordShape record = some (count, renamed, conflicted)) : 9 ≤ count := by
  unfold recordShape at h
  split at h <;> cases h <;> decide

theorem ascii_iff {chars : List Char} :
    (chars.all fun c => c.toNat < 0x80) = true ↔ ∀ c ∈ chars, c.toNat < 0x80 := by
  rw [List.all_eq_true]
  exact forall₂_congr fun c _ => decide_eq_true_iff

theorem readChange_returns (record : List Char) : ∃ r, readChange record = some r := by
  unfold readChange
  split
  · split <;> exact ⟨_, rfl⟩
  split
  · exact ⟨_, rfl⟩
  next count renamed conflicted hshape =>
  have hcount := recordShape_count hshape
  dsimp only
  split
  · exact ⟨_, rfl⟩
  next hfields =>
  have hlen : (splitn count ' ' record).length = count := not_not.mp hfields
  have hone : 1 < (splitn count ' ' record).length := by omega
  have hlast : count - 1 < (splitn count ' ' record).length := by omega
  rw [List.getElem?_eq_getElem hone, List.getElem?_eq_getElem hlast]
  simp only [Option.bind_eq_bind, Option.bind_some]
  split
  · exact ⟨_, rfl⟩
  next hstatuses =>
  obtain ⟨htwo, hascii⟩ := not_or.mp hstatuses
  obtain ⟨c, rest, -, hcut⟩ := splitAtByte_ascii (not_not.mp htwo)
    (ascii_iff.mp (not_not.mp hascii))
  split
  · exact ⟨_, rfl⟩
  · rw [hcut]
    exact ⟨_, rfl⟩

theorem parseRecords_returns (truncated : Bool) (entries : List GitChange)
    (unborn : Option Bool) (records : List (List UInt8)) :
    ∃ r, parseRecords truncated entries unborn records = some r := by
  induction entries, unborn, records using parseRecords.induct truncated with
  | case1 => exact ⟨_, rfl⟩
  | case5 entries unborn bytes rest record htext hheader hroom hpanic =>
    obtain ⟨r, hr⟩ := readChange_returns record.toList
    rw [hpanic] at hr
    cases hr
  | case3 entries unborn bytes rest record htext initial hheader ih =>
    simpa only [parseRecords, htext, hheader] using ih
  | case7 entries unborn bytes rest record htext hheader hroom change hchange ih =>
    simpa only [parseRecords, htext, hheader, hroom, hchange, if_false] using ih
  | case12 entries unborn bytes record htext hheader hroom change hchange source rest original
      hsource hvalid ih =>
    simpa only [parseRecords, htext, hheader, hroom, hchange, hsource, hvalid, if_false] using ih
  | _ => simp only [parseRecords, *, if_true, if_false, Bool.false_eq_true, Option.some.injEq,
      exists_eq']

/-- The reader does not panic on any bytes. -/
theorem parseStatus_returns (root : String) (bytes : List UInt8) (truncated : Bool) :
    ∃ r, parseStatus root bytes truncated = some r := by
  unfold parseStatus
  split
  · exact ⟨_, rfl⟩
  next records hrecords =>
  obtain ⟨r, hr⟩ := parseRecords_returns truncated [] none records
  rw [hr]
  rcases r with e | ⟨entries, unborn, truncated⟩
  · exact ⟨_, rfl⟩
  · cases unborn <;> exact ⟨_, rfl⟩

/-! ## Paths -/

theorem validateFile_ok {text : String}
    (h : GitPath text ∨ ∃ dir, GitPath dir ∧ text = dir ++ "/") : validateFile text = .ok () := by
  obtain ⟨dir, ⟨hnul, hcomponents⟩, hdir⟩ : ∃ dir, GitPath dir ∧
      (if text.toList.getLast? = some '/' then text.toList.dropLast else text.toList) =
        dir.toList := by
    rcases h with hpath | ⟨dir, hdir, rfl⟩
    · refine ⟨text, hpath, if_neg fun hlast => ?_⟩
      -- a slash at the end would leave an empty component
      obtain ⟨front, hfront⟩ := List.getLast?_eq_some_iff.mp hlast
      have hempty : [] ∈ text.toList.splitOn '/' := by
        rw [hfront, List.splitOn_append_cons_self]
        exact List.mem_append_right _ List.mem_cons_self
      exact (hpath.2 [] hempty).1 rfl
    · refine ⟨dir, hdir, ?_⟩
      have htext : (dir ++ "/").toList = dir.toList ++ ['/'] := String.toList_append ..
      rw [htext, List.getLast?_concat, if_pos rfl, List.dropLast_concat]
  have hhead : dir.toList.head? ≠ some '/' := by
    intro hhead
    obtain ⟨rest, hrest⟩ := List.head?_eq_some_iff.mp hhead
    have hempty : [] ∈ dir.toList.splitOn '/' := by
      rw [hrest, ← List.nil_append ('/' :: rest), List.splitOn_append_cons_self]
      exact List.mem_append_left _ List.mem_cons_self
    exact (hcomponents [] hempty).1 rfl
  have hne : dir.toList ≠ [] := by
    intro hnil
    rw [hnil] at hcomponents
    exact (hcomponents [] List.mem_cons_self).1 rfl
  unfold validateFile
  dsimp only
  rw [hdir, if_neg]
  rintro (h | h | h | ⟨s, hs, h | h | h⟩)
  · exact hne h
  · exact hhead h
  · exact hnul h
  · exact (hcomponents s hs).1 h
  · exact (hcomponents s hs).2.1 h
  · exact (hcomponents s hs).2.2 h

/-! ## Fields -/

/-- Pieces without the separator are split off one by one. -/
theorem splitn_pieces {pieces : List (List Char)} (h : ∀ piece ∈ pieces, ' ' ∉ piece)
    (rest : List Char) : splitn (pieces.length + 1) ' ' (pieces.flatMap (· ++ [' ']) ++ rest) =
      pieces ++ [rest] := by
  induction pieces with
  | nil => rfl
  | cons piece pieces ih =>
    obtain ⟨hpiece, hpieces⟩ := List.forall_mem_cons.mp h
    have htext : (piece :: pieces).flatMap (· ++ [' ']) ++ rest =
        piece ++ ' ' :: (pieces.flatMap (· ++ [' ']) ++ rest) := by
      simp
    rw [htext, List.length_cons, splitn, splitOnce_append hpiece]
    dsimp only
    rw [ih hpieces]
    rfl

theorem readHeader_none {c : Char} {rest : List Char} (h : c ≠ '#') :
    readHeader (c :: rest) = none := by
  have hoid : "# branch.oid ".toList.isPrefixOf? (c :: rest) = none := by
    refine Option.eq_none_iff_forall_ne_some.mpr fun tail htail => ?_
    have htext := List.isPrefixOf?_eq_some_iff_append_eq.mp htail
    exact h (List.cons.inj htext).1.symm
  have hother : ¬ "# ".toList <+: c :: rest := fun hbegins =>
    h (List.cons_prefix_cons.mp hbegins).1.symm
  unfold readHeader
  rw [hoid]
  exact if_neg hother

theorem isPrefixOf?_untracked {c : Char} {rest : List Char} (h : c ≠ '?') :
    "? ".toList.isPrefixOf? (c :: rest) = none := by
  refine Option.eq_none_iff_forall_ne_some.mpr fun tail htail => ?_
  have htext := List.isPrefixOf?_eq_some_iff_append_eq.mp htail
  exact h (List.cons.inj htext).1.symm

/-- What the code of a record says. -/
theorem recordShape_code (hkind : e.kind ≠ .untracked) (rest : List Char) :
    recordShape (e.kind.code :: rest) =
      some (e.kind.fieldCount + 3, e.kind.original?.isSome, decide (e.kind = .unmerged)) := by
  cases hk : e.kind with
  | untracked => exact absurd hk hkind
  | _ => rfl

/-- The pieces of a tracked change's record in front of its path. -/
def pieces (e : StatusEntry) : List (List Char) :=
  [e.kind.code] :: [e.index, e.worktree] :: e.fields.map String.toList

theorem record_tracked (hkind : e.kind ≠ .untracked) :
    e.record.toList = (pieces e).flatMap (· ++ [' ']) ++ e.path.toList := by
  rw [StatusEntry.record, if_neg hkind, String.toList_append, String.toList_ofList]
  rfl

theorem code_ne (kind : ChangeKind) : kind.code ≠ '#' ∧ (kind ≠ .untracked → kind.code ≠ '?') := by
  cases kind <;> simp [ChangeKind.code]

theorem space_not_mem_pieces (h : e.WellFormed) : ∀ piece ∈ pieces e, ' ' ∉ piece := by
  intro piece hpiece hspace
  rcases List.mem_cons.mp hpiece with rfl | hpiece
  · cases hk : e.kind <;> simp [hk, ChangeKind.code] at hspace
  rcases List.mem_cons.mp hpiece with rfl | hpiece
  · rcases List.mem_cons.mp hspace with heq | hspace
    · exact h.index.2.1 heq.symm
    · exact h.worktree.2.1 (List.mem_singleton.mp hspace).symm
  · obtain ⟨field, hfield, rfl⟩ := List.mem_map.mp hpiece
    exact (h.field field hfield).1 hspace

theorem readHeader_record (e : StatusEntry) : readHeader e.record.toList = none := by
  by_cases hkind : e.kind = .untracked
  · have htext : e.record.toList = '?' :: ' ' :: e.path.toList := by
      rw [StatusEntry.record, if_pos hkind, String.toList_append]
      rfl
    rw [htext]
    exact readHeader_none (by decide)
  · rw [record_tracked hkind]
    exact readHeader_none (code_ne e.kind).1

/-- The first record of a change is read back; a rename waits for its original path. -/
theorem readChange_record (h : e.WellFormed) : readChange e.record.toList =
    some (.ok ({ e.change with originalPath := none }, e.kind.original?.isSome)) := by
  by_cases hkind : e.kind = .untracked
  · -- An untracked file has a record of its own form.
    have htext : e.record.toList = "? ".toList ++ e.path.toList := by
      rw [StatusEntry.record, if_pos hkind, String.toList_append]
    have hpath : validateFile e.path = .ok () :=
      validateFile_ok (h.path.imp_right fun hdir => hdir.2)
    have hbegins : "? ".toList.isPrefixOf? ("? ".toList ++ e.path.toList) = some e.path.toList :=
      List.isPrefixOf?_eq_some_iff_append_eq.mpr rfl
    unfold readChange
    rw [htext, hbegins]
    dsimp only
    rw [String.ofList_toList, hpath, StatusEntry.change, if_pos hkind, hkind]
    rfl
  · have hpath : validateFile e.path = .ok () :=
      validateFile_ok (h.path.imp_right fun hdir => absurd hdir.1 hkind)
    -- The path is the last field, so blanks in it are not cut.
    have hcount : (pieces e).length + 1 = e.kind.fieldCount + 3 := by
      rw [pieces, List.length_cons, List.length_cons, List.length_map, h.fieldCount hkind]
    have hsplit : splitn (e.kind.fieldCount + 3) ' ' e.record.toList =
        pieces e ++ [e.path.toList] := by
      rw [record_tracked hkind, ← hcount, splitn_pieces (space_not_mem_pieces h)]
    have hshape : recordShape e.record.toList =
        some (e.kind.fieldCount + 3, e.kind.original?.isSome, decide (e.kind = .unmerged)) := by
      rw [record_tracked hkind]
      exact recordShape_code hkind _
    have hno : "? ".toList.isPrefixOf? e.record.toList = none := by
      rw [record_tracked hkind]
      exact isPrefixOf?_untracked ((code_ne e.kind).2 hkind)
    have hlen : (pieces e ++ [e.path.toList]).length = e.kind.fieldCount + 3 := by
      rw [List.length_append, List.length_singleton, hcount]
    have hlast :
        (pieces e ++ [e.path.toList])[e.kind.fieldCount + 3 - 1]? = some e.path.toList := by
      rw [← hcount, Nat.add_sub_cancel, List.getElem?_concat_length]
    have hstatus : (pieces e ++ [e.path.toList])[1]? = some [e.index, e.worktree] := rfl
    have hascii : ∀ c ∈ [e.index, e.worktree], c.toNat < 0x80 := by
      simp only [List.mem_cons, List.not_mem_nil, or_false, forall_eq_or_imp, forall_eq]
      exact ⟨h.index.1, h.worktree.1⟩
    -- The status is two ASCII characters, which is what the source checks in bytes.
    have hbytes : (Utf8.bytes (String.ofList [e.index, e.worktree])).length = 2 := by
      rw [Utf8.bytes, String.toList_ofList, List.flatMap_cons, List.flatMap_cons,
        Utf8.encodeChar_ascii h.index.1, Utf8.encodeChar_ascii h.worktree.1]
      rfl
    obtain ⟨c, rest, htext, hcut⟩ := splitAtByte_ascii hbytes hascii
    obtain ⟨rfl, rfl⟩ := List.cons.inj htext
    unfold readChange
    rw [hno, hshape]
    dsimp only
    rw [hsplit, if_neg (not_not.mpr hlen), hstatus, hlast]
    simp only [Option.bind_eq_bind, Option.bind_some]
    rw [if_neg (not_or.mpr ⟨not_not.mpr hbytes, not_not.mpr (ascii_iff.mpr hascii)⟩),
      String.ofList_toList, hpath]
    dsimp only
    rw [hcut, StatusEntry.change, if_neg hkind]
    rfl

/-! ## The loop -/

/-- A header line that does not name the commit is passed over. -/
theorem readHeader_other {text : String} (h : ¬ "branch.oid ".toList <+: text.toList) :
    readHeader ("# " ++ text).toList = some none := by
  have htext : ("# " ++ text).toList = "# ".toList ++ text.toList := String.toList_append ..
  have hoid : "# branch.oid ".toList.isPrefixOf? ("# ".toList ++ text.toList) = none := by
    refine Option.eq_none_iff_forall_ne_some.mpr fun tail htail => h ⟨tail, ?_⟩
    have happ := List.isPrefixOf?_eq_some_iff_append_eq.mp htail
    exact (List.cons.inj (List.cons.inj happ).2).2
  unfold readHeader
  rw [htext, hoid]
  exact if_pos (List.prefix_append _ _)

theorem readHeader_oid (oid : String) :
    readHeader ("# " ++ oidHeader oid).toList = some (some (decide (oid = "(initial)"))) := by
  have htext : ("# " ++ oidHeader oid).toList = "# branch.oid ".toList ++ oid.toList := by
    simp [oidHeader]
  have hoid : "# branch.oid ".toList.isPrefixOf? ("# branch.oid ".toList ++ oid.toList) =
      some oid.toList := List.isPrefixOf?_eq_some_iff_append_eq.mpr rfl
  unfold readHeader
  rw [htext, hoid]
  simp only [String.toList_inj]

theorem headerLine_bytes (text : String) :
    headerLine (Utf8.bytes text) = Utf8.bytes ("# " ++ text) := (Utf8.bytes_append _ _).symm

/-- The header lines that do not name the commit are passed over. -/
theorem parseRecords_headers
    (h : ∀ l ∈ headers, ∃ text, fromUtf8 l = some text ∧ ¬ "branch.oid ".toList <+: text.toList)
    (rest : List (List UInt8)) :
    parseRecords truncated entries unborn (headers.map headerLine ++ rest) =
      parseRecords truncated entries unborn rest := by
  induction headers with
  | nil => rfl
  | cons l headers ih =>
    obtain ⟨⟨text, htext, hother⟩, hheaders⟩ := List.forall_mem_cons.mp h
    rw [fromUtf8_iff.mp htext, List.map_cons, List.cons_append, headerLine_bytes, parseRecords,
      fromUtf8_iff.mpr rfl]
    dsimp only
    rw [readHeader_other hother]
    exact ih hheaders

theorem parseRecords_oid (oid : String) (rest : List (List UInt8)) :
    parseRecords truncated entries unborn (headerLine (Utf8.bytes (oidHeader oid)) :: rest) =
      parseRecords truncated entries (some (decide (oid = "(initial)"))) rest := by
  rw [headerLine_bytes, parseRecords, fromUtf8_iff.mpr rfl]
  dsimp only
  rw [readHeader_oid]
  rfl

/-- The records of one change give that change. -/
theorem parseRecords_change (h : e.WellFormed) (hroom : entries.length < maxEntries)
    (rest : List (List UInt8)) :
    parseRecords truncated entries unborn (e.records.map Utf8.bytes ++ rest) =
      parseRecords truncated (entries ++ [e.change]) unborn rest := by
  have hread := readChange_record h
  rw [StatusEntry.records, List.map_cons, List.cons_append, parseRecords.eq_def]
  dsimp only
  rw [fromUtf8_iff.mpr rfl]
  dsimp only
  rw [readHeader_record e]
  dsimp only
  rw [if_neg (Nat.ne_of_lt hroom)]
  cases horiginal : e.kind.original? with
  | none =>
    have hchange : { e.change with originalPath := none } = e.change := by
      unfold StatusEntry.change
      rw [horiginal]
      split <;> rfl
    rw [horiginal, hchange] at hread
    rw [hread]
    rfl
  | some original =>
    have hkind : e.kind ≠ .untracked := fun hkind => by
      rw [hkind] at horiginal
      cases horiginal
    have hchange : { e.change with originalPath := some original } = e.change := by
      unfold StatusEntry.change
      rw [horiginal, if_neg hkind]
    have hvalid : validateFile original = .ok () := validateFile_ok (.inl (h.original _ horiginal))
    have hsource : (some original).toList.map Utf8.bytes ++ rest =
        Utf8.bytes original :: rest := rfl
    rw [horiginal] at hread
    rw [hread, hsource]
    dsimp only [Option.isSome_some]
    rw [fromUtf8_iff.mpr rfl]
    dsimp only
    rw [hvalid]
    dsimp only
    rw [hchange]

/-- The records of changes give these changes, while there is room. -/
theorem parseRecords_run (h : ∀ e ∈ changes, e.WellFormed)
    (hroom : entries.length + changes.length ≤ maxEntries) (rest : List (List UInt8)) :
    parseRecords truncated entries unborn
        ((changes.flatMap fun e => e.records.map Utf8.bytes) ++ rest) =
      parseRecords truncated (entries ++ changes.map StatusEntry.change) unborn rest := by
  induction changes generalizing entries with
  | nil => rw [List.map_nil, List.append_nil, List.flatMap_nil, List.nil_append]
  | cons e changes ih =>
    obtain ⟨he, hchanges⟩ := List.forall_mem_cons.mp h
    rw [List.length_cons] at hroom
    have hlen : (entries ++ [e.change]).length + changes.length ≤ maxEntries := by
      rw [List.length_append, List.length_singleton]
      omega
    rw [List.flatMap_cons, List.append_assoc, parseRecords_change he (by omega),
      ih hchanges hlen, List.map_cons, List.append_assoc]
    rfl

/-- A change beyond the bound ends the loop. -/
theorem parseRecords_full (hfull : entries.length = maxEntries) (rest : List (List UInt8)) :
    parseRecords truncated entries unborn (Utf8.bytes e.record :: rest) =
      some (.ok (entries, unborn, true)) := by
  rw [parseRecords.eq_def]
  dsimp only
  rw [fromUtf8_iff.mpr rfl]
  dsimp only
  rw [readHeader_record e]
  exact if_pos hfull

/-- A rename whose original path was cut off ends the loop. -/
theorem parseRecords_half (h : e.WellFormed) (hrename : e.kind.original?.isSome = true) :
    parseRecords true entries unborn [Utf8.bytes e.record] =
      some (.ok (entries, unborn, true)) := by
  have hread := readChange_record h
  rw [hrename] at hread
  rw [parseRecords.eq_def]
  dsimp only
  rw [fromUtf8_iff.mpr rfl]
  dsimp only
  rw [readHeader_record e]
  dsimp only
  split
  · rfl
  · rw [hread]
    rfl

/-- The records behind whole changes: none, or half of a rename in a cut capture. -/
def Tail (truncated : Bool) (tail : List (List UInt8)) : Prop :=
  tail = [] ∨ truncated = true ∧ ∃ e : StatusEntry, e.WellFormed ∧
    e.kind.original?.isSome = true ∧ tail = [Utf8.bytes e.record]

/-- The records of changes give these changes, up to the bound. -/
theorem parseRecords_changes (h : ∀ e ∈ changes, e.WellFormed) {tail : List (List UInt8)}
    (htail : Tail truncated tail) :
    parseRecords truncated [] unborn
        ((changes.flatMap fun e => e.records.map Utf8.bytes) ++ tail) =
      some (.ok ((changes.take maxEntries).map StatusEntry.change, unborn,
        truncated || decide (maxEntries < changes.length))) := by
  have hfirst : ∀ e ∈ changes.take maxEntries, e.WellFormed :=
    fun e he => h e (List.mem_of_mem_take he)
  have hroom : ([] : List GitChange).length + (changes.take maxEntries).length ≤ maxEntries := by
    rw [List.length_nil, Nat.zero_add, List.length_take]
    exact Nat.min_le_left ..
  have hsplit : (changes.flatMap fun e => e.records.map Utf8.bytes) =
      ((changes.take maxEntries).flatMap fun e => e.records.map Utf8.bytes) ++
        (changes.drop maxEntries).flatMap fun e => e.records.map Utf8.bytes := by
    rw [← List.flatMap_append, List.take_append_drop]
  rw [hsplit, List.append_assoc, parseRecords_run hfirst hroom, List.nil_append]
  cases hdrop : changes.drop maxEntries with
  | nil =>
    have hshort : ¬ maxEntries < changes.length := Nat.not_lt.mpr (List.drop_eq_nil_iff.mp hdrop)
    rw [decide_eq_false hshort, Bool.or_false, List.flatMap_nil, List.nil_append]
    rcases htail with rfl | ⟨rfl, e, he, hrename, rfl⟩
    · rfl
    · exact parseRecords_half he hrename
  | cons e rest =>
    have hlong : maxEntries < changes.length := by
      refine Nat.lt_of_not_le fun hle => ?_
      rw [List.drop_eq_nil_of_le hle] at hdrop
      cases hdrop
    have hfull : ((changes.take maxEntries).map StatusEntry.change).length = maxEntries := by
      rw [List.length_map, List.length_take]
      exact Nat.min_eq_left (Nat.le_of_lt hlong)
    rw [decide_eq_true hlong, Bool.or_true, List.flatMap_cons, StatusEntry.records, List.map_cons,
      List.cons_append, List.cons_append]
    exact parseRecords_full hfull _

/-! ## Whole and cut outputs -/

/-- Some of the records of changes: whole changes, and perhaps half of a rename. -/
theorem take_records (h : ∀ e ∈ changes, e.WellFormed) (n : Nat) : ∃ k tail, Tail true tail ∧
    (changes.flatMap fun e => e.records.map Utf8.bytes).take n =
      ((changes.take k).flatMap fun e => e.records.map Utf8.bytes) ++ tail := by
  induction changes generalizing n with
  | nil => exact ⟨0, [], .inl rfl, List.take_nil⟩
  | cons e changes ih =>
    obtain ⟨he, hchanges⟩ := List.forall_mem_cons.mp h
    rw [List.flatMap_cons, List.take_append]
    rcases Nat.lt_or_ge n (e.records.map Utf8.bytes).length with hlt | hge
    · -- the cut is inside the records of this change
      have hzero : n - (e.records.map Utf8.bytes).length = 0 := by omega
      refine ⟨0, (e.records.map Utf8.bytes).take n, ?_, ?_⟩
      · cases horiginal : e.kind.original? with
        | none =>
          have hone : e.records.map Utf8.bytes = [Utf8.bytes e.record] := by
            rw [StatusEntry.records, horiginal]
            rfl
          rw [hone] at hlt ⊢
          obtain rfl : n = 0 := Nat.lt_one_iff.mp hlt
          exact .inl List.take_zero
        | some original =>
          have htwo : e.records.map Utf8.bytes = [Utf8.bytes e.record, Utf8.bytes original] := by
            rw [StatusEntry.records, horiginal]
            rfl
          rw [htwo] at hlt ⊢
          rcases Nat.lt_succ_iff_lt_or_eq.mp hlt with hlt | rfl
          · obtain rfl : n = 0 := Nat.lt_one_iff.mp hlt
            exact .inl List.take_zero
          · exact .inr ⟨rfl, e, he, by rw [horiginal]; rfl, rfl⟩
      · rw [hzero, List.take_zero, List.append_nil, List.take_zero]
        rfl
    · obtain ⟨k, tail, htail, hk⟩ := ih hchanges (n - (e.records.map Utf8.bytes).length)
      refine ⟨k + 1, tail, htail, ?_⟩
      rw [List.take_of_length_le hge, hk, List.take_succ_cons, List.flatMap_cons,
        List.append_assoc]

theorem zero_mem_bytes {text : String} (h : 0 ∈ Utf8.bytes text) : Char.ofNat 0 ∈ text.toList := by
  obtain ⟨c, hc, hzero⟩ := List.mem_flatMap.mp h
  rcases Nat.lt_or_ge c.toNat 0x80 with hlow | hhigh
  · rw [Utf8.encodeChar_ascii hlow, List.mem_singleton] at hzero
    have hval := congrArg UInt8.toNat hzero
    rw [Utf8.toNat_ofNat (by omega)] at hval
    have hnul : c = Char.ofNat 0 := Char.toNat_inj.mp hval.symm
    rw [← hnul]
    exact hc
  · exact absurd (Utf8.high_of_encodeChar hhigh 0 hzero) (by decide)

theorem isSegment_bytes {text : String} (hne : text.toList ≠ [])
    (hnul : Char.ofNat 0 ∉ text.toList) : IsSegment 0 (Utf8.bytes text) := by
  refine ⟨fun hempty => hne ?_, fun hzero => hnul (zero_mem_bytes hzero)⟩
  have htext : text = "" := Utf8.bytes_inj hempty
  rw [htext]
  rfl

theorem nul_not_mem_record (h : e.WellFormed) : Char.ofNat 0 ∉ e.record.toList := by
  have hpath : Char.ofNat 0 ∉ e.path.toList := by
    rcases h.path with hpath | ⟨-, dir, hdir, hpath⟩
    · exact hpath.1
    · rw [hpath, String.toList_append]
      intro hmem
      rcases List.mem_append.mp hmem with hmem | hmem
      · exact hdir.1 hmem
      · exact absurd hmem (by decide)
  intro hmem
  by_cases hkind : e.kind = .untracked
  · rw [StatusEntry.record, if_pos hkind, String.toList_append] at hmem
    rcases List.mem_append.mp hmem with hmem | hmem
    · exact absurd hmem (by decide)
    · exact hpath hmem
  · rw [record_tracked hkind] at hmem
    rcases List.mem_append.mp hmem with hmem | hmem
    · obtain ⟨piece, hpiece, hmem⟩ := List.mem_flatMap.mp hmem
      rcases List.mem_append.mp hmem with hmem | hmem
      · rcases List.mem_cons.mp hpiece with rfl | hpiece
        · cases hk : e.kind <;> simp [hk, ChangeKind.code] at hmem
        rcases List.mem_cons.mp hpiece with rfl | hpiece
        · rcases List.mem_cons.mp hmem with heq | hmem
          · exact h.index.2.2 heq.symm
          · exact h.worktree.2.2 (List.mem_singleton.mp hmem).symm
        · obtain ⟨field, hfield, rfl⟩ := List.mem_map.mp hpiece
          exact (h.field field hfield).2 hmem
      · exact absurd hmem (by decide)
    · exact hpath hmem

theorem isSegment_records (h : e.WellFormed) :
    ∀ record ∈ e.records.map Utf8.bytes, IsSegment 0 record := by
  intro record hrecord
  obtain ⟨text, htext, rfl⟩ := List.mem_map.mp hrecord
  rcases List.mem_cons.mp htext with rfl | htext
  · refine isSegment_bytes (fun hempty => ?_) (nul_not_mem_record h)
    by_cases hkind : e.kind = .untracked
    · rw [StatusEntry.record, if_pos hkind, String.toList_append] at hempty
      cases hempty
    · rw [record_tracked hkind] at hempty
      cases hempty
  · obtain ⟨hnul, hcomponents⟩ := h.original text (Option.mem_toList.mp htext)
    refine isSegment_bytes (fun hempty => ?_) hnul
    rw [hempty] at hcomponents
    exact (hcomponents [] List.mem_cons_self).1 rfl

theorem isSegment_header {text : String} (h : Char.ofNat 0 ∉ text.toList) :
    IsSegment 0 (headerLine (Utf8.bytes text)) := by
  rw [headerLine_bytes]
  refine isSegment_bytes (fun hempty => ?_) fun hmem => ?_
  · rw [String.toList_append] at hempty
    cases hempty
  · rw [String.toList_append] at hmem
    rcases List.mem_append.mp hmem with hmem | hmem
    · exact absurd hmem (by decide)
    · exact h hmem

theorem isSegment_output (hheaders : Headers before after oid)
    (hchanges : ∀ e ∈ changes, e.WellFormed) :
    ∀ record ∈ statusOutput (before ++ Utf8.bytes (oidHeader oid) :: after) changes,
      IsSegment 0 record := by
  have hoid : Char.ofNat 0 ∉ (oidHeader oid).toList := by
    rw [oidHeader, String.toList_append]
    intro hmem
    rcases List.mem_append.mp hmem with hmem | hmem
    · exact absurd hmem (by decide)
    · exact hheaders.oid hmem
  intro record hrecord
  rcases List.mem_append.mp hrecord with hrecord | hrecord
  · obtain ⟨l, hl, rfl⟩ := List.mem_map.mp hrecord
    have hcases : l = Utf8.bytes (oidHeader oid) ∨ l ∈ before ++ after := by
      rcases List.mem_append.mp hl with hl | hl
      · exact .inr (List.mem_append_left _ hl)
      · rcases List.mem_cons.mp hl with hl | hl
        · exact .inl hl
        · exact .inr (List.mem_append_right _ hl)
    rcases hcases with rfl | hl
    · exact isSegment_header hoid
    · obtain ⟨text, htext, hnul, -⟩ := hheaders.text l hl
      rw [fromUtf8_iff.mp htext]
      exact isSegment_header hnul
  · obtain ⟨e, he, hrecord⟩ := List.mem_flatMap.mp hrecord
    exact isSegment_records (hchanges e he) record hrecord

theorem others (hheaders : Headers before after oid) {part : List (List UInt8)}
    (hpart : ∀ l ∈ part, l ∈ before ++ after) :
    ∀ l ∈ part, ∃ text, fromUtf8 l = some text ∧ ¬ "branch.oid ".toList <+: text.toList := by
  intro l hl
  obtain ⟨text, htext, -, hother⟩ := hheaders.text l (hpart l hl)
  exact ⟨text, htext, hother⟩

/-- The loop over header lines and some of the records of the changes. -/
theorem parseRecords_output (hheaders : Headers before after oid)
    (hchanges : ∀ e ∈ changes, e.WellFormed) {part tail : List (List UInt8)}
    (hpart : ∀ l ∈ part, l ∈ after) (htail : Tail truncated tail) :
    parseRecords truncated [] none (before.map headerLine ++
        headerLine (Utf8.bytes (oidHeader oid)) :: (part.map headerLine ++
          ((changes.flatMap fun e => e.records.map Utf8.bytes) ++ tail))) =
      some (.ok ((changes.take maxEntries).map StatusEntry.change,
        some (decide (oid = "(initial)")), truncated || decide (maxEntries < changes.length))) := by
  rw [parseRecords_headers (others hheaders fun l hl => List.mem_append_left _ hl),
    parseRecords_oid,
    parseRecords_headers (others hheaders fun l hl => List.mem_append_right _ (hpart l hl)),
    parseRecords_changes hchanges htail]

/-- A whole output. -/
theorem parseStatus_whole (root : String) (hheaders : Headers before after oid)
    (hchanges : ∀ e ∈ changes, e.WellFormed) :
    parseStatus root (encodeStatus (before ++ Utf8.bytes (oidHeader oid) :: after) changes) false =
      some (.ok ⟨root, decide (oid = "(initial)"), (changes.take maxEntries).map StatusEntry.change,
        decide (maxEntries < changes.length)⟩) := by
  have hsegs := isSegment_output hheaders hchanges
  have hpart : ∀ l ∈ after, l ∈ after := fun l hl => hl
  have htail : Tail false [] := .inl rfl
  have hloop := parseRecords_output hheaders hchanges hpart htail
  have hsplit : statusOutput (before ++ Utf8.bytes (oidHeader oid) :: after) changes =
      before.map headerLine ++ headerLine (Utf8.bytes (oidHeader oid)) :: (after.map headerLine ++
        ((changes.flatMap fun e => e.records.map Utf8.bytes) ++ [])) := by
    rw [statusOutput, List.map_append, List.map_cons, List.append_nil, List.append_assoc,
      List.cons_append]
  have hend : (encodeStatus (before ++ Utf8.bytes (oidHeader oid) :: after) changes).getLast? =
      some 0 := by
    have hne : statusOutput (before ++ Utf8.bytes (oidHeader oid) :: after) changes ≠ [] := by
      rw [hsplit]
      exact List.append_ne_nil_of_right_ne_nil _ (List.cons_ne_nil _ _)
    rw [encodeStatus, ← List.dropLast_concat_getLast hne, trail_append]
    exact List.getLast?_append_of_ne_nil _ (by simp [trail]) |>.trans (by simp [trail])
  have hrecords : statusRecords (encodeStatus (before ++ Utf8.bytes (oidHeader oid) :: after)
      changes) false = .ok (statusOutput (before ++ Utf8.bytes (oidHeader oid) :: after)
        changes) := by
    unfold statusRecords
    rw [if_neg Bool.false_ne_true, if_neg fun h => h.2 hend, encodeStatus, segments_trail hsegs]
  unfold parseStatus
  rw [hrecords]
  dsimp only
  rw [hsplit, hloop]
  rfl

theorem parseStatus_records {root : String} {cut : List UInt8}
    (hsegs : ∀ record ∈ records, IsSegment 0 record)
    (hkept : cut.rdropWhile (· ≠ 0) = trail 0 records)
    {result : Except GitStatusError (List GitChange × Option Bool × Bool)}
    (hloop : parseRecords true [] none records = some result) :
    parseStatus root cut true = some (result.bind fun (entries, unborn, truncated) =>
      match unborn with
      | none => .error .noHead
      | some unborn => .ok ⟨root, unborn, entries, truncated⟩) := by
  have hrecords : statusRecords cut true = .ok records := by
    unfold statusRecords
    rw [if_pos rfl, hkept, segments_trail hsegs]
  unfold parseStatus
  rw [hrecords]
  dsimp only
  rw [hloop]
  rcases result with e | ⟨entries, unborn, truncated⟩
  · rfl
  · cases unborn <;> rfl

/-- The header lines up to the one that names the commit. -/
def leading (before : List (List UInt8)) (oid : String) : List (List UInt8) :=
  before.map headerLine ++ [headerLine (Utf8.bytes (oidHeader oid))]

theorem output_leading (before after : List (List UInt8)) (oid : String)
    (changes : List StatusEntry) :
    statusOutput (before ++ Utf8.bytes (oidHeader oid) :: after) changes =
      leading before oid ++ (after.map headerLine ++
        changes.flatMap fun e => e.records.map Utf8.bytes) := by
  simp [statusOutput, leading]

/-- A cut output that has the line which names the commit. -/
theorem parseStatus_cut_ok (root : String) (hheaders : Headers before after oid)
    (hchanges : ∀ e ∈ changes, e.WellFormed) {rest : List UInt8}
    (hcut : rest <+: trail 0 (after.map headerLine ++
      changes.flatMap fun e => e.records.map Utf8.bytes)) :
    ∃ n, parseStatus root (trail 0 (leading before oid) ++ rest) true =
      some (.ok ⟨root, decide (oid = "(initial)"), (changes.take n).map StatusEntry.change,
        true⟩) := by
  have hsegs := isSegment_output hheaders hchanges
  rw [output_leading] at hsegs
  obtain ⟨n, hn⟩ := rdropWhile_prefix
    (fun seg hseg => (hsegs seg (List.mem_append_right _ hseg)).2) hcut
  have hkept : (trail 0 (leading before oid) ++ rest).rdropWhile (· ≠ 0) =
      trail 0 (leading before oid ++ (after.map headerLine ++
        changes.flatMap fun e => e.records.map Utf8.bytes).take n) := by
    rw [rdropWhile_trail, hn, trail_append]
  obtain ⟨k, tail, htail, hk⟩ := take_records hchanges (n - (after.map headerLine).length)
  have htake : (after.map headerLine ++ changes.flatMap fun e => e.records.map Utf8.bytes).take n =
      (after.take n).map headerLine ++
        (((changes.take k).flatMap fun e => e.records.map Utf8.bytes) ++ tail) := by
    rw [List.take_append, hk, List.map_take]
  have hpart : ∀ l ∈ after.take n, l ∈ after := fun l hl => List.mem_of_mem_take hl
  have hchanges' : ∀ e ∈ changes.take k, e.WellFormed :=
    fun e he => hchanges e (List.mem_of_mem_take he)
  have hloop := parseRecords_output hheaders hchanges' hpart htail
  have hall : leading before oid ++ ((after.take n).map headerLine ++
      (((changes.take k).flatMap fun e => e.records.map Utf8.bytes) ++ tail)) =
        before.map headerLine ++ headerLine (Utf8.bytes (oidHeader oid)) ::
          ((after.take n).map headerLine ++
            (((changes.take k).flatMap fun e => e.records.map Utf8.bytes) ++ tail)) := by
    simp [leading]
  have hkeptSegs : ∀ record ∈ leading before oid ++ (after.map headerLine ++
      changes.flatMap fun e => e.records.map Utf8.bytes).take n, IsSegment 0 record := by
    intro record hrecord
    rcases List.mem_append.mp hrecord with hrecord | hrecord
    · exact hsegs record (List.mem_append_left _ hrecord)
    · exact hsegs record (List.mem_append_right _ (List.mem_of_mem_take hrecord))
  refine ⟨min maxEntries k, ?_⟩
  rw [← List.take_take]
  rw [htake, hall] at hkept hkeptSegs
  exact parseStatus_records hkeptSegs hkept hloop

/-- What the reader makes of a cut output: without the line that names the commit it has no
result, and else it has some of the changes. -/
theorem parseStatus_cut (root : String) (hheaders : Headers before after oid)
    (hchanges : ∀ e ∈ changes, e.WellFormed) {cut : List UInt8}
    (hcut : cut <+: encodeStatus (before ++ Utf8.bytes (oidHeader oid) :: after) changes) :
    if encodeStatus (before ++ [Utf8.bytes (oidHeader oid)]) [] <+: cut then
      ∃ n, parseStatus root cut true = some (.ok ⟨root, decide (oid = "(initial)"),
        (changes.take n).map StatusEntry.change, true⟩)
    else parseStatus root cut true = some (.error .noHead) := by
  have hlead : encodeStatus (before ++ [Utf8.bytes (oidHeader oid)]) [] =
      trail 0 (leading before oid) := by
    simp [encodeStatus, statusOutput, leading]
  have hsegs := isSegment_output hheaders hchanges
  rw [encodeStatus] at hcut
  rw [output_leading] at hcut hsegs
  rw [hlead]
  split
  · next hbegins =>
    obtain ⟨rest, rfl⟩ := hbegins
    rw [trail_append] at hcut
    exact parseStatus_cut_ok root hheaders hchanges ((List.prefix_append_right_inj _).mp hcut)
  · next hbegins =>
    obtain ⟨n, hn⟩ := rdropWhile_prefix (fun seg hseg => (hsegs seg hseg).2) hcut
    have hshort : n < (leading before oid).length := by
      refine Nat.lt_of_not_le fun hle => hbegins ?_
      have hkept : trail 0 (leading before oid) <+: cut.rdropWhile (· ≠ 0) := by
        rw [hn, List.take_append, List.take_of_length_le hle, trail_append]
        exact List.prefix_append _ _
      exact hkept.trans (List.rdropWhile_prefix _ cut)
    have hlength : (leading before oid).length = before.length + 1 := by
      simp [leading]
    have htake : (leading before oid ++ (after.map headerLine ++
        changes.flatMap fun e => e.records.map Utf8.bytes)).take n =
          (before.take n).map headerLine := by
      have hroom : n ≤ (before.map headerLine).length := by
        rw [List.length_map]
        omega
      rw [List.take_append_of_le_length (by omega), leading, List.take_append_of_le_length hroom,
        List.map_take]
    have hloop : parseRecords true [] none ((before.take n).map headerLine ++ []) =
        some (.ok ([], none, true)) := by
      rw [parseRecords_headers (others hheaders fun l hl =>
        List.mem_append_left _ (List.mem_of_mem_take hl))]
      rfl
    rw [List.append_nil] at hloop
    have hkeptSegs : ∀ record ∈ (before.take n).map headerLine, IsSegment 0 record := by
      rw [← htake]
      exact fun record hrecord => hsegs record (List.mem_of_mem_take hrecord)
    rw [htake] at hn
    exact parseStatus_records hkeptSegs hn hloop

end GitLemmas

open GitLemmas

/-- Git's output read back: whole, beyond the bound, and cut anywhere by the capture. The
header lines are UTF-8. -/
theorem status_round_trip (root : String) {before after : List (List UInt8)} {oid : String}
    {changes : List StatusEntry} (hheaders : Headers before after oid)
    (hchanges : ∀ e ∈ changes, e.WellFormed) :
    (changes.length ≤ 5000 → parseStatus root
        (encodeStatus (before ++ Utf8.bytes (oidHeader oid) :: after) changes) false =
      some (.ok ⟨root, decide (oid = "(initial)"), changes.map StatusEntry.change, false⟩)) ∧
    (5000 < changes.length → parseStatus root
        (encodeStatus (before ++ Utf8.bytes (oidHeader oid) :: after) changes) false =
      some (.ok ⟨root, decide (oid = "(initial)"),
        (changes.take 5000).map StatusEntry.change, true⟩)) ∧
    (∀ cut, cut <+: encodeStatus (before ++ Utf8.bytes (oidHeader oid) :: after) changes →
      if encodeStatus (before ++ [Utf8.bytes (oidHeader oid)]) [] <+: cut then
        ∃ n, parseStatus root cut true = some (.ok ⟨root, decide (oid = "(initial)"),
          (changes.take n).map StatusEntry.change, true⟩)
      else parseStatus root cut true = some (.error .noHead)) ∧
    ∀ bytes truncated, ∃ result, parseStatus root bytes truncated = some result := by
  have hwhole := parseStatus_whole root hheaders hchanges
  refine ⟨fun hshort => ?_, fun hlong => ?_, fun cut => parseStatus_cut root hheaders hchanges,
    parseStatus_returns root⟩
  · have hbound : changes.length ≤ maxEntries := hshort
    rw [hwhole, List.take_of_length_le hbound, decide_eq_false (Nat.not_lt.mpr hbound)]
  · have hbound : maxEntries < changes.length := hlong
    rw [hwhole, decide_eq_true hbound]
    rfl

/-- A repository with a rename whose paths have spaces, an untracked directory, and a future
header line. -/
theorem status_round_trip_rename :
    parseStatus "/r" (encodeStatus ([Utf8.bytes "future x"] ++ Utf8.bytes (oidHeader "(initial)") ::
        []) [⟨.renamed "old name", 'R', '.', ["N...", "1", "2", "3", "a", "b", "R100"], "new name"⟩,
          ⟨.untracked, '?', '?', [], "dir/"⟩]) false =
      some (.ok ⟨"/r", true, [⟨"new name", some "old name", "R", ".", false, false⟩,
        ⟨"dir/", none, "?", "?", true, false⟩], false⟩) := by
  refine (status_round_trip "/r" ?_ ?_).1 (by decide)
  · refine ⟨fun h hmem => ⟨"future x", ?_⟩, by decide⟩
    obtain rfl : h = Utf8.bytes "future x" := by simpa using hmem
    exact ⟨fromUtf8_iff.mpr rfl, by decide, by decide⟩
  · intro e he
    simp only [List.mem_cons, List.not_mem_nil, or_false] at he
    rcases he with rfl | rfl
    · refine ⟨by decide, by decide, fun _ => rfl, by decide, .inl (by decide), ?_⟩
      rintro _ ⟨⟩
      decide
    · exact ⟨by decide, by decide, nofun, by decide, .inr ⟨rfl, "dir", by decide, rfl⟩, nofun⟩

/-- The name of a branch need not be UTF-8, and the header line that has it is no text. -/
theorem not_every_header :
    ¬ ∀ (before : List (List UInt8)) (oid : String),
      (∀ h ∈ before, 0 ∉ h ∧ ¬ Utf8.bytes "branch.oid " <+: h) → Char.ofNat 0 ∉ oid.toList →
      parseStatus "/r" (encodeStatus (before ++ [Utf8.bytes (oidHeader oid)]) []) false =
        some (.ok ⟨"/r", decide (oid = "(initial)"), [], false⟩) := by
  intro h
  have hread := h [Utf8.bytes "branch.head caf" ++ [0xE9]] "a1" (by decide) (by decide)
  exact absurd hread (by decide +kernel)

end Mast
