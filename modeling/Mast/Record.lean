import Mathlib.Data.Finset.Basic
import Mast.Lib.Decimal
import Mast.Model
import Mast.Remote.Http

/-!
# The sweep of record files

`record.rs`: the last screen of a terminal whose shell has ended is kept in a file that
is named by the id of its tab. At the start of the app the files of tabs that are gone
are removed, and with them the temporary files a write has left behind. What else lies
in the directory is not the app's to remove, so a name has to be one the store writes.

The names are read by a parser that takes zeros before the number, which the store never
writes.

Results:
1. `parseFileName_iff`: the names the parser takes.
2. `sweep_ok`: what a sweep removes.
3. `swept_exactly_iff`: a sweep removes the files of the store and no others, unless one
   of the others has zeros before its number.
-/

namespace Mast

namespace RecordStore

/-! ## Names -/

def fileName (tab : TabId) : String := "tab-" ++ toString tab.val.toNat ++ ".bin"

def tmpFileName (tab : TabId) : String := fileName tab ++ ".tmp"

/-- `tab-<u64>.bin`. A sign, which the reader of numbers would take, is refused. -/
def parseFileName (name : List Char) : Option TabId := do
  let rest ← "tab-".toList.isPrefixOf? name
  let digits ← ".bin".toList.isSuffixOf? rest
  if digits = [] ∨ ¬ digits.all Char.isDigit then none
  else if Nat.ofDigitChars 10 digits 0 < 2 ^ 64 then
    some ⟨UInt64.ofNat (Nat.ofDigitChars 10 digits 0)⟩
  else none

/-! ## The directory -/

inductive IoError
  | notFound
  | other
deriving DecidableEq, Repr

/-- The bytes of a file's name. They need not be text. -/
abbrev OsName := List UInt8

/-- What was removed, and what could not be. -/
structure SweepReport where
  removed : Nat
  failed : Nat
deriving DecidableEq, Repr

def SweepReport.default : SweepReport := { removed := 0, failed := 0 }

/-- Whether the file was there. -/
def removeIfPresent (removeFile : OsName → Except IoError Unit) (name : OsName) :
    Except IoError Bool :=
  match removeFile name with
  | .ok () => .ok true
  | .error .notFound => .ok false
  | .error .other => .error .other

def doomed (keep : Finset TabId) (name : List Char) : Bool :=
  match ".tmp".toList.isSuffixOf? name with
  -- the trace of a write that did not end, whether the tab is kept or not
  | some stem => (parseFileName stem).isSome
  | none =>
    match parseFileName name with
    | some tab => decide (tab ∉ keep)
    | none => false

/-- One entry of the directory. An entry that cannot be read or removed does not end the
sweep. -/
def sweepEntry (keep : Finset TabId) (removeFile : OsName → Except IoError Unit)
    (swept : SweepReport × List OsName) (entry : Except IoError OsName) :
    SweepReport × List OsName :=
  match entry with
  | .error _ => ({ swept.1 with failed := swept.1.failed + 1 }, swept.2)
  | .ok name =>
    match fromUtf8 name with
    | none => swept
    | some text =>
      if doomed keep text.toList then
        match removeIfPresent removeFile name with
        | .ok true => ({ swept.1 with removed := swept.1.removed + 1 }, swept.2 ++ [name])
        | .ok false => swept
        | .error _ => ({ swept.1 with failed := swept.1.failed + 1 }, swept.2)
      else swept

/-- The report of a sweep, and the names of the files it removed. -/
def sweep (keep : Finset TabId) (removeFile : OsName → Except IoError Unit)
    (readDir : Except IoError (List (Except IoError OsName))) :
    Except IoError (SweepReport × List OsName) :=
  match readDir with
  | .ok entries => .ok (entries.foldl (sweepEntry keep removeFile) (SweepReport.default, []))
  | .error .notFound => .ok (SweepReport.default, [])
  | .error .other => .error .other

/-! ## The files of the store -/

/-- The name is one the store writes, and the file is not needed. -/
def Due (keep : Finset TabId) (name : OsName) : Prop :=
  (∃ tab ∉ keep, name = Utf8.bytes (fileName tab)) ∨ ∃ tab, name = Utf8.bytes (tmpFileName tab)

/-- A file of the directory that the file system lets go. -/
def Removable (removeFile : OsName → Except IoError Unit)
    (entries : List (Except IoError OsName)) (name : OsName) : Prop :=
  .ok name ∈ entries ∧ removeFile name = .ok ()

/-- The sweep removes the files of the store that are not needed and no others. -/
structure SweptExactly (keep : Finset TabId) (removeFile : OsName → Except IoError Unit)
    (entries : List (Except IoError OsName)) (gone : List OsName) : Prop where
  removed_iff : ∀ name, Removable removeFile entries name → (name ∈ gone ↔ Due keep name)
  listed : ∀ name ∈ gone, Removable removeFile entries name
  keeps : ∀ tab ∈ keep, Utf8.bytes (fileName tab) ∉ gone

/-- The name of a record with zeros put before its number. -/
def paddedName (zeros : Nat) (tab : TabId) : String :=
  "tab-" ++ String.ofList (Decimal.padded zeros tab.val.toNat) ++ ".bin"

/-- The name of a record that is not needed, or of a temporary file, but with zeros put
before its number. -/
def ZeroPadded (keep : Finset TabId) (name : OsName) : Prop :=
  ∃ zeros tab, 0 < zeros ∧ (tab ∉ keep ∧ name = Utf8.bytes (paddedName zeros tab) ∨
    name = Utf8.bytes (paddedName zeros tab ++ ".tmp"))

end RecordStore

namespace RecordLemmas

open RecordStore

variable {keep : Finset TabId} {removeFile : OsName → Except IoError Unit}
  {entries : List (Except IoError OsName)} {name : OsName} {text : String} {cs : List Char}
  {tab tab' : TabId} {j k : Nat}

/-! ## Names -/

theorem paddedName_toList : (paddedName k tab).toList =
    "tab-".toList ++ (Decimal.padded k tab.val.toNat ++ ".bin".toList) := by
  simp only [paddedName, String.toList_append, String.toList_ofList, List.append_assoc]

/-- The suffixes of the two kinds of files differ. -/
theorem paddedName_ne_append_tmp {stem : List Char} :
    stem ++ ".tmp".toList ≠ (paddedName k tab).toList := by
  have hlength : ".tmp".toList.length = ".bin".toList.length := by decide
  have hne : ".tmp".toList ≠ ".bin".toList := by decide
  rw [paddedName_toList, ← List.append_assoc]
  intro h
  exact hne (List.append_inj_right' h hlength)

theorem paddedName_ne_tmp : paddedName j tab ≠ paddedName k tab' ++ ".tmp" := by
  intro h
  have hlist := congrArg String.toList h
  rw [String.toList_append] at hlist
  exact paddedName_ne_append_tmp hlist.symm

theorem fileName_eq : fileName tab = paddedName 0 tab := by
  rw [fileName, paddedName, Decimal.padded, List.replicate_zero, List.nil_append,
    Nat.toString_eq_ofList_toDigits]

theorem paddedName_inj (h : paddedName j tab = paddedName k tab') : j = k ∧ tab = tab' := by
  have hlist := congrArg String.toList h
  rw [paddedName_toList, paddedName_toList] at hlist
  obtain ⟨hzeros, hnum⟩ := Decimal.zeros_unique
    (List.append_cancel_right (List.append_cancel_left hlist))
  obtain ⟨v⟩ := tab
  obtain ⟨w⟩ := tab'
  exact ⟨hzeros, congrArg TabId.mk (UInt64.toNat_inj.mp hnum)⟩

/-- The names the parser takes. -/
theorem parseFileName_iff : parseFileName cs = some tab ↔ ∃ k, cs = (paddedName k tab).toList := by
  simp only [paddedName_toList]
  unfold parseFileName
  simp only [Option.bind_eq_bind, Option.bind_eq_some_iff, List.isPrefixOf?_eq_some_iff_append_eq,
    List.isSuffixOf?_eq_some_iff_append_eq]
  constructor
  · rintro ⟨rest, hrest, digits, hdigits, h⟩
    split at h
    · cases h
    next hdigit =>
    obtain ⟨hne, hall⟩ := not_or.mp hdigit
    split at h
    · next hlt =>
      obtain ⟨k, hk⟩ := Decimal.digits_eq hne fun c hc =>
        List.all_eq_true.mp (not_not.mp hall) c hc
      have hnum : tab.val.toNat = Nat.ofDigitChars 10 digits 0 := by
        rw [← Option.some.inj h]
        exact UInt64.toNat_ofNat_of_lt' hlt
      refine ⟨k, ?_⟩
      rw [hnum, ← hk, hdigits, hrest]
    · cases h
  · rintro ⟨k, rfl⟩
    refine ⟨_, rfl, _, rfl, ?_⟩
    have hdigit : ¬ (Decimal.padded k tab.val.toNat = [] ∨
        ¬ (Decimal.padded k tab.val.toNat).all Char.isDigit) := by
      rintro (h | h)
      · exact Decimal.padded_ne_nil h
      · exact h (List.all_eq_true.mpr fun c hc => Decimal.isDigit_of_mem_padded hc)
    rw [if_neg hdigit, Decimal.ofDigitChars_padded, if_pos tab.val.toNat_lt, UInt64.ofNat_toNat]

/-- The names that are removed. -/
theorem doomed_iff : doomed keep text.toList = true ↔
    (∃ k, ∃ tab ∉ keep, text = paddedName k tab) ∨ ∃ k tab, text = paddedName k tab ++ ".tmp" := by
  unfold doomed
  split
  · next stem hstem =>
    have happ : stem ++ ".tmp".toList = text.toList :=
      List.isSuffixOf?_eq_some_iff_append_eq.mp hstem
    rw [Option.isSome_iff_exists]
    constructor
    · rintro ⟨tab, h⟩
      obtain ⟨k, hk⟩ := parseFileName_iff.mp h
      refine .inr ⟨k, tab, String.toList_inj.mp ?_⟩
      rw [String.toList_append, ← hk, happ]
    · rintro (⟨k, tab, -, rfl⟩ | ⟨k, tab, rfl⟩)
      · exact absurd happ paddedName_ne_append_tmp
      · rw [String.toList_append] at happ
        refine ⟨tab, parseFileName_iff.mpr ⟨k, ?_⟩⟩
        exact List.append_cancel_right happ
  · next hnone =>
    have hno : ∀ k tab, text ≠ paddedName k tab ++ ".tmp" := by
      rintro k tab rfl
      have hsome : ".tmp".toList.isSuffixOf? (paddedName k tab ++ ".tmp").toList =
          some (paddedName k tab).toList :=
        List.isSuffixOf?_eq_some_iff_append_eq.mpr (String.toList_append ..).symm
      rw [hnone] at hsome
      cases hsome
    constructor
    · intro h
      split at h
      · next tab htab =>
        obtain ⟨k, hk⟩ := parseFileName_iff.mp htab
        exact .inl ⟨k, tab, of_decide_eq_true h, String.toList_inj.mp hk⟩
      · cases h
    · rintro (⟨k, tab, hkeep, rfl⟩ | ⟨k, tab, h⟩)
      · rw [parseFileName_iff.mpr ⟨k, rfl⟩]
        exact decide_eq_true hkeep
      · exact absurd h (hno k tab)

/-! ## The sweep -/

/-- What one entry adds to the removed files. -/
theorem mem_sweepEntry {swept : SweepReport × List OsName} {entry : Except IoError OsName} :
    name ∈ (sweepEntry keep removeFile swept entry).2 ↔ name ∈ swept.2 ∨
      entry = .ok name ∧ removeFile name = .ok () ∧
        ∃ text, name = Utf8.bytes text ∧ doomed keep text.toList = true := by
  unfold sweepEntry
  split
  · simp
  next found =>
  split
  · next hnone =>
    -- A name that is no text is none of the names in question.
    have hno : ∀ text, found ≠ Utf8.bytes text := fun text h => by
      rw [fromUtf8_iff.mpr h] at hnone
      cases hnone
    constructor
    · exact .inl
    · rintro (h | ⟨hname, -, text, htext, -⟩)
      · exact h
      · cases hname
        exact absurd htext (hno text)
  next text htext =>
  obtain rfl := fromUtf8_iff.mp htext
  split
  · next hdoomed =>
    unfold removeIfPresent
    split
    · next hremove =>
      split at hremove
      · next hok =>
        simp only [List.mem_append, List.mem_singleton]
        constructor
        · rintro (h | rfl)
          · exact .inl h
          · exact .inr ⟨rfl, hok, text, rfl, hdoomed⟩
        · rintro (h | ⟨hname, -⟩)
          · exact .inl h
          · exact .inr (Except.ok.inj hname).symm
      · cases hremove
      · cases hremove
    -- A file that is gone already, or that cannot be removed, is not counted.
    all_goals
      next hremove =>
      constructor
      · exact .inl
      · rintro (h | ⟨hname, hok, -⟩)
        · exact h
        · cases hname
          rw [hok] at hremove
          cases hremove
  · next hdoomed =>
    constructor
    · exact .inl
    · rintro (h | ⟨hname, -, text', htext', hdoomed'⟩)
      · exact h
      · cases hname
        rw [Utf8.bytes_inj htext'] at hdoomed
        exact absurd hdoomed' hdoomed

theorem mem_sweepEntries {swept : SweepReport × List OsName} :
    name ∈ (entries.foldl (sweepEntry keep removeFile) swept).2 ↔ name ∈ swept.2 ∨
      Removable removeFile entries name ∧
        ∃ text, name = Utf8.bytes text ∧ doomed keep text.toList = true := by
  induction entries generalizing swept with
  | nil => simp [Removable]
  | cons entry entries ih =>
    rw [List.foldl_cons, ih, mem_sweepEntry, Removable, Removable, List.mem_cons]
    constructor
    · rintro ((h | ⟨rfl, h, ht⟩) | ⟨⟨hmem, h⟩, ht⟩)
      · exact .inl h
      · exact .inr ⟨⟨.inl rfl, h⟩, ht⟩
      · exact .inr ⟨⟨.inr hmem, h⟩, ht⟩
    · rintro (h | ⟨⟨rfl | hmem, h⟩, ht⟩)
      · exact .inl (.inl h)
      · exact .inl (.inr ⟨rfl, h, ht⟩)
      · exact .inr ⟨⟨hmem, h⟩, ht⟩

/-- What a sweep removes: the files whose names are those of the store, perhaps with zeros
before the number. -/
theorem sweep_ok (keep : Finset TabId) (removeFile : OsName → Except IoError Unit)
    (entries : List (Except IoError OsName)) :
    ∃ report gone, sweep keep removeFile (.ok entries) = .ok (report, gone) ∧
      ∀ name, name ∈ gone ↔
        Removable removeFile entries name ∧ (Due keep name ∨ ZeroPadded keep name) := by
  refine ⟨_, _, rfl, fun name => ?_⟩
  rw [mem_sweepEntries]
  simp only [List.not_mem_nil, false_or, doomed_iff]
  refine and_congr_right fun _ => ⟨?_, ?_⟩
  · rintro ⟨_, rfl, ⟨k, tab, hkeep, rfl⟩ | ⟨k, tab, rfl⟩⟩ <;>
      rcases Nat.eq_zero_or_pos k with rfl | hpos
    · exact .inl (.inl ⟨tab, hkeep, by rw [fileName_eq]⟩)
    · exact .inr ⟨k, tab, hpos, .inl ⟨hkeep, rfl⟩⟩
    · exact .inl (.inr ⟨tab, by rw [tmpFileName, fileName_eq]⟩)
    · exact .inr ⟨k, tab, hpos, .inr rfl⟩
  · rintro ((⟨tab, hkeep, rfl⟩ | ⟨tab, rfl⟩) | ⟨k, tab, -, ⟨hkeep, rfl⟩ | rfl⟩)
    · exact ⟨_, rfl, .inl ⟨0, tab, hkeep, fileName_eq⟩⟩
    · exact ⟨_, rfl, .inr ⟨0, tab, by rw [tmpFileName, fileName_eq]⟩⟩
    · exact ⟨_, rfl, .inl ⟨k, tab, hkeep, rfl⟩⟩
    · exact ⟨_, rfl, .inr ⟨k, tab, rfl⟩⟩

/-! ## Zeros before the number -/

/-- A name with zeros before its number is not one the store writes. -/
theorem not_due_of_zeroPadded (h : ZeroPadded keep name) : ¬ Due keep name := by
  obtain ⟨k, tab, hpos, hname⟩ := h
  rintro (⟨tab', -, hdue⟩ | ⟨tab', hdue⟩)
  · rw [fileName_eq] at hdue
    rcases hname with ⟨-, hname⟩ | hname
    · have := (paddedName_inj (Utf8.bytes_inj (hname.symm.trans hdue))).1
      omega
    · exact paddedName_ne_tmp (Utf8.bytes_inj (hdue.symm.trans hname))
  · rw [tmpFileName, fileName_eq] at hdue
    rcases hname with ⟨-, hname⟩ | hname
    · exact paddedName_ne_tmp (Utf8.bytes_inj (hname.symm.trans hdue))
    · have htext := congrArg String.toList (Utf8.bytes_inj (hname.symm.trans hdue))
      rw [String.toList_append, String.toList_append] at htext
      have := (paddedName_inj (String.toList_inj.mp (List.append_cancel_right htext))).1
      omega

/-- The record of a kept tab is neither due nor padded. -/
theorem kept_not_removed (hkeep : tab ∈ keep) :
    ¬ (Due keep (Utf8.bytes (fileName tab)) ∨ ZeroPadded keep (Utf8.bytes (fileName tab))) := by
  rw [fileName_eq]
  rintro ((⟨tab', hkeep', h⟩ | ⟨tab', h⟩) | ⟨k, tab', hpos, ⟨-, h⟩ | h⟩)
  · rw [fileName_eq] at h
    rw [(paddedName_inj (Utf8.bytes_inj h)).2] at hkeep
    exact hkeep' hkeep
  · rw [tmpFileName, fileName_eq] at h
    exact paddedName_ne_tmp (Utf8.bytes_inj h)
  · have := (paddedName_inj (Utf8.bytes_inj h)).1
    omega
  · exact paddedName_ne_tmp (Utf8.bytes_inj h)

end RecordLemmas

open RecordStore RecordLemmas

/-- A sweep removes the files of the store that are not needed and no others if and only
if none of the others has the name of such a file with zeros before its number. -/
theorem swept_exactly_iff (keep : Finset TabId) (removeFile : OsName → Except IoError Unit)
    (entries : List (Except IoError OsName)) :
    ∃ report gone, sweep keep removeFile (.ok entries) = .ok (report, gone) ∧
      (SweptExactly keep removeFile entries gone ↔
        ∀ name, Removable removeFile entries name → ¬ ZeroPadded keep name) := by
  obtain ⟨report, gone, hsweep, hgone⟩ := sweep_ok keep removeFile entries
  refine ⟨report, gone, hsweep, fun h name hremovable hpadded => ?_, fun h => ?_⟩
  · have hmem : name ∈ gone := (hgone name).mpr ⟨hremovable, .inr hpadded⟩
    exact not_due_of_zeroPadded hpadded ((h.removed_iff name hremovable).mp hmem)
  · constructor
    · intro name hremovable
      rw [hgone]
      constructor
      · rintro ⟨-, hdue | hpadded⟩
        · exact hdue
        · exact absurd hpadded (h name hremovable)
      · exact fun hdue => ⟨hremovable, .inl hdue⟩
    · exact fun name hname => ((hgone name).mp hname).1
    · exact fun tab hkeep hmem => kept_not_removed hkeep ((hgone _).mp hmem).2

/-- A file that someone else has put into the directory is removed: its name is not one
the store writes for any tab. -/
theorem not_swept_exactly :
    ∃ report gone, sweep ∅ (fun _ => .ok ()) (.ok [.ok (Utf8.bytes "tab-007.bin")]) =
      .ok (report, gone) ∧
      ¬ SweptExactly ∅ (fun _ => .ok ()) [.ok (Utf8.bytes "tab-007.bin")] gone := by
  obtain ⟨report, gone, hsweep, hgone⟩ :=
    sweep_ok ∅ (fun _ => .ok ()) [.ok (Utf8.bytes "tab-007.bin")]
  have hremovable : Removable (fun _ => .ok ()) [.ok (Utf8.bytes "tab-007.bin")]
      (Utf8.bytes "tab-007.bin") := ⟨by simp, rfl⟩
  have hname : "tab-007.bin" = paddedName 2 ⟨7⟩ := by decide +kernel
  have hpadded : ZeroPadded ∅ (Utf8.bytes "tab-007.bin") :=
    ⟨2, ⟨7⟩, by decide, .inl ⟨by simp, congrArg Utf8.bytes hname⟩⟩
  refine ⟨report, gone, hsweep, fun h => ?_⟩
  have hmem := (hgone _).mpr ⟨hremovable, .inr hpadded⟩
  exact not_due_of_zeroPadded hpadded ((h.removed_iff _ hremovable).mp hmem)

end Mast
