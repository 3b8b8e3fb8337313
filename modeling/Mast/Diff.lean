import Mathlib.Algebra.Group.Nat.Defs
import Mathlib.Data.List.Basic

/-!
# The presentation of a diff

`diff-presentation.ts`: a diff is shown as two sides, with gaps where one side has no line,
when every line of it is understood, and else as it is. The parser counts the lines of a hunk
against its header; the lines a side shows are merged into runs of one tone.
-/

namespace Mast.Diff

abbrev Text := List Char

/-- `MAX_DIFF_LINES` -/
def maxDiffLines : Nat := 5000

/-- `metadata` is `meta` in the source. -/
inductive DiffTone
  | context
  | added
  | removed
  | metadata
  | gap
deriving DecidableEq, Repr

structure DiffRun where
  tone : DiffTone
  text : Text
deriving DecidableEq, Repr

inductive DiffMode
  | comparison
  | unified
deriving DecidableEq, Repr

/-! ## Lines -/

/-- A line as it is in the diff, and without its end. -/
structure SourceLine where
  raw : Text
  body : Text
deriving DecidableEq, Repr

/-- The text up to and with the first line end, and the rest. -/
def cutLine : Text → Text × Text
  | [] => ([], [])
  | c :: rest => if c = '\n' then (['\n'], rest) else (c :: (cutLine rest).1, (cutLine rest).2)

/-- At most so many lines, and the text behind them. -/
def takeLines : Nat → Text → List Text × Text
  | 0, text => ([], text)
  | _ + 1, [] => ([], [])
  | n + 1, text =>
    let (line, rest) := cutLine text
    let (lines, rest) := takeLines n rest
    (line :: lines, rest)

/-- A text without its last character, if it is that one. -/
def dropEnd (c : Char) (text : Text) : Text :=
  if text.getLast? = some c then text.dropLast else text

def bodyOf (raw : Text) : Text := dropEnd '\r' (dropEnd '\n' raw)

/-- The lines that are shown, and whether there are more. -/
def sourceLines (text : Text) : List SourceLine × Bool :=
  let (raws, rest) := takeLines maxDiffLines text
  (raws.map fun raw => ⟨raw, bodyOf raw⟩, decide (rest ≠ []))

/-- Add a text to the last run, if that has the tone. -/
def appendRun (runs : List DiffRun) (tone : DiffTone) (text : Text) : List DiffRun :=
  if text = [] then runs
  else
    match runs.getLast? with
    | some previous =>
      if previous.tone = tone then
        runs.dropLast ++ [{ previous with text := previous.text ++ text }]
      else runs ++ [⟨tone, text⟩]
    | none => runs ++ [⟨tone, text⟩]

/-! ## Headers -/

/-- `Number.MAX_SAFE_INTEGER` -/
def maxSafe : Nat := 2 ^ 53 - 1

def unsignedDecimal (value : Text) : Option Nat :=
  if value = [] ∨ 16 < value.length then none
  else if Nat.ofDigitChars 10 value 0 ≤ maxSafe then some (Nat.ofDigitChars 10 value 0)
  else none

structure HunkRange where
  oldCount : Nat
  newCount : Nat
deriving DecidableEq, Repr

/-- The digits of `[0-9]+` at the start of a text, and the rest. -/
def takeDigits (text : Text) : Option (Text × Text) :=
  if text.takeWhile Char.isDigit = [] then none
  else some (text.takeWhile Char.isDigit, text.dropWhile Char.isDigit)

/-- `([0-9]+)(?:,([0-9]+))?` -/
def takeRange (text : Text) : Option (Text × Text × Text) := do
  let (start, rest) ← takeDigits text
  match rest with
  | ',' :: rest =>
    let (count, rest) ← takeDigits rest
    some (start, count, rest)
  | rest => some (start, ['1'], rest)

/-- A character that `.` does not match. -/
def isLineTerminator (c : Char) : Bool :=
  c = '\n' || c = '\r' || c.toNat = 0x2028 || c.toNat = 0x2029

/-- The four numbers of a hunk header, as text. -/
def matchHunkHeader (body : Text) : Option (Text × Text × Text × Text) := do
  let rest ← "@@ -".toList.isPrefixOf? body
  let (oldStart, oldCount, rest) ← takeRange rest
  let rest ← " +".toList.isPrefixOf? rest
  let (newStart, newCount, rest) ← takeRange rest
  let rest ← " @@".toList.isPrefixOf? rest
  match rest with
  | [] => some (oldStart, oldCount, newStart, newCount)
  | ' ' :: rest =>
    if rest.any isLineTerminator then none else some (oldStart, oldCount, newStart, newCount)
  | _ => none

def parseHunkHeader (body : Text) : Option HunkRange := do
  let (oldStart, oldCount, newStart, newCount) ← matchHunkHeader body
  let oldStart ← unsignedDecimal oldStart
  let newStart ← unsignedDecimal newStart
  let oldCount ← unsignedDecimal oldCount
  let newCount ← unsignedDecimal newCount
  if oldStart = 0 ∧ oldCount ≠ 0 ∨ newStart = 0 ∧ newCount ≠ 0 then none
  else if oldCount = 0 ∧ newCount = 0 then none
  else some ⟨oldCount, newCount⟩

/-- What `\s` matches. -/
def isJsSpace (c : Char) : Bool :=
  let n := c.toNat
  (9 ≤ n && n ≤ 13) || n = 0x20 || n = 0xA0 || n = 0x1680 || (0x2000 ≤ n && n ≤ 0x200A) ||
    n = 0x2028 || n = 0x2029 || n = 0x202F || n = 0x205F || n = 0x3000 || n = 0xFEFF

/-- The text is the word, or has white space behind it. -/
def beginsWord (word body : Text) : Bool :=
  match word.isPrefixOf? body with
  | some [] => true
  | some (c :: _) => isJsSpace c
  | none => false

def isCombinedDiffHeader (body : Text) : Bool :=
  beginsWord "diff --cc".toList body || beginsWord "diff --combined".toList body

def isCombinedHunkHeader (body : Text) : Bool := beginsWord "@@@".toList body

def isCombinedHeader (body : Text) : Bool := isCombinedDiffHeader body || isCombinedHunkHeader body

/-- `NO_NEWLINE_MARKER` -/
def noNewlineMarker : Text := "\\ No newline at end of file".toList

inductive EntryKind
  | context
  | added
  | removed
deriving DecidableEq, Repr

inductive BodyKind
  | entry (kind : EntryKind)
  | marker
deriving DecidableEq, Repr

def bodyKind (body : Text) : Option BodyKind :=
  if body = noNewlineMarker then some .marker
  else
    match body.head? with
    | some ' ' => some (.entry .context)
    | some '+' => some (.entry .added)
    | some '-' => some (.entry .removed)
    | _ => none

def isFileHeader (body : Text) : Bool :=
  decide (body = "---".toList) || "--- ".toList.isPrefixOf body ||
    decide (body = "+++".toList) || "+++ ".toList.isPrefixOf body

def isBinaryMetadata (body : Text) : Bool :=
  "Binary files ".toList.isPrefixOf body || decide (body = "GIT binary patch".toList) ||
    "literal ".toList.isPrefixOf body || "delta ".toList.isPrefixOf body

/-- The beginnings of a metadata line that are not spelled out elsewhere. -/
def metadataStarts : List String :=
  ["diff --git ", "diff --no-index ", "index ", "new file mode ", "deleted file mode ",
    "old mode ", "new mode ", "similarity index ", "dissimilarity index ", "rename from ",
    "rename to ", "copy from ", "copy to ", "Submodule ", "Only in ", "Files "]

def isMetadataLine (body : Text) : Bool :=
  metadataStarts.any (fun start => start.toList.isPrefixOf body) || isCombinedHeader body ||
    isFileHeader body || isBinaryMetadata body

/-! ## The parser -/

structure BodyEntry where
  kind : EntryKind
  raw : Text
  markers : List Text
deriving DecidableEq, Repr

structure Hunk where
  header : Text
  oldCount : Nat
  newCount : Nat
  oldSeen : Nat
  newSeen : Nat
  entries : List BodyEntry
deriving DecidableEq, Repr

inductive Event
  | metadata (raw : Text)
  | hunk (header : Text) (entries : List BodyEntry)
deriving DecidableEq, Repr

structure ParsedPatch where
  events : List Event
  sawHunk : Bool
  malformed : Bool
  combined : Bool
  unknownOutsideHunk : Bool
deriving DecidableEq, Repr

/-- The variables of the loop. -/
structure PatchState where
  events : List Event
  hunk : Option Hunk
  sawHunk : Bool
  completedHunk : Bool
  unknownOutsideHunk : Bool
deriving DecidableEq, Repr

/-- How the loop goes on. -/
inductive Verdict
  | next (s : PatchState)
  | malformed (s : PatchState)
  | combined (s : PatchState)
deriving DecidableEq, Repr

def Hunk.complete (h : Hunk) : Bool :=
  decide (h.oldSeen = h.oldCount) && decide (h.newSeen = h.newCount)

def EntryKind.oldIncrement : EntryKind → Nat
  | context | removed => 1
  | added => 0

def EntryKind.newIncrement : EntryKind → Nat
  | context | added => 1
  | removed => 0

/-- A marker belongs to the entry before it, and an entry has one at most. -/
def Hunk.attachMarker (h : Hunk) (raw : Text) : Option Hunk :=
  match h.entries.getLast? with
  | none => none
  | some previous =>
    if previous.markers ≠ [] then none
    else
      some { h with
        entries := h.entries.dropLast ++ [{ previous with markers := previous.markers ++ [raw] }] }

namespace PatchState

def init : PatchState :=
  { events := [], hunk := none, sawHunk := false, completedHunk := false,
    unknownOutsideHunk := false }

def markerLine (s : PatchState) (h : Hunk) (raw : Text) : Verdict :=
  match h.attachMarker raw with
  | some h => .next { s with hunk := some h }
  | none => .malformed s

/-- A line of a hunk that is not complete. -/
def bodyLine (s : PatchState) (h : Hunk) (line : SourceLine) : Verdict :=
  match bodyKind line.body with
  | some .marker => s.markerLine h line.raw
  | none => .malformed s
  | some (.entry kind) =>
    if h.oldCount < h.oldSeen + kind.oldIncrement ∨ h.newCount < h.newSeen + kind.newIncrement then
      .malformed s
    else
      .next { s with
        hunk := some { h with
          entries := h.entries ++ [⟨kind, line.raw, []⟩]
          oldSeen := h.oldSeen + kind.oldIncrement
          newSeen := h.newSeen + kind.newIncrement } }

/-- A line outside hunks. -/
def outsideLine (s : PatchState) (line : SourceLine) : Verdict :=
  if isCombinedHeader line.body then .combined s
  else
    match parseHunkHeader line.body with
    | some range =>
      .next { s with
        hunk := some
          { header := line.raw, oldCount := range.oldCount, newCount := range.newCount,
            oldSeen := 0, newSeen := 0, entries := [] }
        sawHunk := true
        completedHunk := false }
    | none =>
      if "@@".toList <+: line.body then .malformed s
      else if s.completedHunk ∧ bodyKind line.body ≠ none ∧ ¬ isFileHeader line.body then
        .malformed s
      else
        .next { s with
          events := s.events ++ [.metadata line.raw]
          completedHunk := false
          unknownOutsideHunk := s.unknownOutsideHunk ||
            (decide (line.body ≠ []) && !isMetadataLine line.body) }

def closeHunk (s : PatchState) (h : Hunk) : PatchState :=
  { s with events := s.events ++ [.hunk h.header h.entries], hunk := none, completedHunk := true }

/-- The loop for one line. A line that closes a hunk is then read outside of it. -/
def patchLine (s : PatchState) (line : SourceLine) : Verdict :=
  match s.hunk with
  | none => s.outsideLine line
  | some h =>
    if h.complete then
      if bodyKind line.body = some .marker then s.markerLine h line.raw
      else (s.closeHunk h).outsideLine line
    else s.bodyLine h line

def patchLines (s : PatchState) : List SourceLine → Verdict
  | [] => .next s
  | line :: rest =>
    match s.patchLine line with
    | .next s => s.patchLines rest
    | verdict => verdict

/-- Behind the loop: the last hunk. -/
def finish (s : PatchState) (malformed : Bool) : ParsedPatch :=
  let parsed (events : List Event) (malformed : Bool) : ParsedPatch :=
    { events, sawHunk := s.sawHunk, malformed, combined := false,
      unknownOutsideHunk := s.unknownOutsideHunk }
  match s.hunk with
  | none => parsed s.events malformed
  | some h =>
    if h.complete then parsed (s.events ++ [.hunk h.header h.entries]) malformed
    else parsed s.events true

end PatchState

def parsePatch (lines : List SourceLine) : ParsedPatch :=
  match PatchState.init.patchLines lines with
  | .next s => s.finish false
  | .malformed s => s.finish true
  | .combined s =>
    { events := [], sawHunk := s.sawHunk, malformed := false, combined := true,
      unknownOutsideHunk := s.unknownOutsideHunk }

/-! ## The two sides -/

/-- What is shown before and after. -/
structure Sides where
  before : List DiffRun
  after : List DiffRun
deriving DecidableEq, Repr

def markerCount : Option BodyEntry → Nat
  | none => 0
  | some e => e.markers.length

namespace Sides

def appendBefore (s : Sides) (tone : DiffTone) (text : Text) : Sides :=
  { s with before := appendRun s.before tone text }

def appendAfter (s : Sides) (tone : DiffTone) (text : Text) : Sides :=
  { s with after := appendRun s.after tone text }

def appendBoth (s : Sides) (tone : DiffTone) (text : Text) : Sides :=
  (s.appendBefore tone text).appendAfter tone text

/-- One row of changed lines: a side without a line has a gap, and so has a side with fewer
markers. -/
def renderRow (s : Sides) (old new : Option BodyEntry) : Sides :=
  let s := match old with
    | none => s.appendBefore .gap ['\n']
    | some e => e.markers.foldl (·.appendBefore .context ·) (s.appendBefore .removed e.raw)
  let s := match new with
    | none => s.appendAfter .gap ['\n']
    | some e => e.markers.foldl (·.appendAfter .context ·) (s.appendAfter .added e.raw)
  let oldMarkers := markerCount old
  let newMarkers := markerCount new
  if newMarkers < oldMarkers then
    s.appendAfter .gap (List.replicate (oldMarkers - newMarkers) '\n')
  else if oldMarkers < newMarkers then
    s.appendBefore .gap (List.replicate (newMarkers - oldMarkers) '\n')
  else s

/-- The rows of a block, the two lists walked in step. -/
def renderRows (s : Sides) : List BodyEntry → List BodyEntry → Sides
  | [], added => added.foldl (fun s new => s.renderRow none (some new)) s
  | old :: removed, [] => (s.renderRow (some old) none).renderRows removed []
  | old :: removed, new :: added => (s.renderRow (some old) (some new)).renderRows removed added

def renderChangeBlock (s : Sides) (entries : List BodyEntry) : Sides :=
  s.renderRows (entries.filter fun e => e.kind = .removed) (entries.filter fun e => e.kind = .added)

/-- The entries of a hunk, with the changed lines that wait for the end of their block. -/
def renderEntries (s : Sides) (changes : List BodyEntry) : List BodyEntry → Sides
  | [] => s.renderChangeBlock changes
  | e :: rest =>
    if e.kind = .context then
      let s := (s.renderChangeBlock changes).appendBoth .context e.raw
      (e.markers.foldl (·.appendBoth .context ·) s).renderEntries [] rest
    else s.renderEntries (changes ++ [e]) rest

def renderEvent (s : Sides) : Event → Sides
  | .metadata raw => s.appendBoth .metadata raw
  | .hunk header entries => (s.appendBoth .metadata header).renderEntries [] entries

end Sides

def renderComparison (events : List Event) : Sides := events.foldl Sides.renderEvent ⟨[], []⟩

/-! ## The unified text -/

def fallbackTone (body : Text) (inHunk combined : Bool) : DiffTone :=
  if !inHunk then if isMetadataLine body then .metadata else .context
  else if isCombinedHeader body then .metadata
  else if combined || decide (body = noNewlineMarker) then .context
  else
    match body.head? with
    | some '+' => .added
    | some '-' => .removed
    | _ => .context

/-- The variables of the loop; a combined hunk has no counts. -/
structure UnifiedState where
  runs : List DiffRun
  inHunk : Bool
  oldSeen : Nat
  newSeen : Nat
  oldCount : Option Nat
  newCount : Option Nat
deriving DecidableEq, Repr

/-- As many lines as a count asks for. -/
def reached (count : Option Nat) (seen : Nat) : Bool :=
  match count with
  | some count => decide (count ≤ seen)
  | none => false

def UnifiedState.line (combined : Bool) (s : UnifiedState) (line : SourceLine) : UnifiedState :=
  match parseHunkHeader line.body with
  | some range =>
    { runs := appendRun s.runs .metadata line.raw, inHunk := true, oldSeen := 0, newSeen := 0,
      oldCount := some range.oldCount, newCount := some range.newCount }
  | none =>
    if isCombinedHunkHeader line.body then
      { runs := appendRun s.runs .metadata line.raw, inHunk := true, oldSeen := 0, newSeen := 0,
        oldCount := none, newCount := none }
    else if isCombinedDiffHeader line.body then
      { s with runs := appendRun s.runs .metadata line.raw, inHunk := false }
    else if !s.inHunk && isMetadataLine line.body then
      { s with runs := appendRun s.runs .metadata line.raw }
    else if s.inHunk && "diff --".toList.isPrefixOf line.body then
      { s with runs := appendRun s.runs .metadata line.raw, inHunk := false }
    else
      let s' := { s with
        runs := appendRun s.runs (fallbackTone line.body s.inHunk combined) line.raw }
      if !s.inHunk || combined then s'
      else
        let kind := bodyKind line.body
        let old := if kind = some (.entry .context) ∨ kind = some (.entry .removed) then 1 else 0
        let new := if kind = some (.entry .context) ∨ kind = some (.entry .added) then 1 else 0
        { s' with
          oldSeen := s.oldSeen + old
          newSeen := s.newSeen + new
          inHunk :=
            !(reached s.oldCount (s.oldSeen + old) && reached s.newCount (s.newSeen + new)) }

def renderUnified (lines : List SourceLine) (combined : Bool) : List DiffRun :=
  (lines.foldl (UnifiedState.line combined) ⟨[], false, 0, 0, some 0, some 0⟩).runs

/-! ## The presentation -/

structure DiffPresentation where
  mode : DiffMode
  before : List DiffRun
  after : List DiffRun
  unified : List DiffRun
  notice : Option String
deriving DecidableEq, Repr

def hasBinaryMetadata (lines : List SourceLine) : Bool := lines.any fun l => isBinaryMetadata l.body

def hasPlainUnknown (lines : List SourceLine) : Bool :=
  lines.any fun l => decide (l.body ≠ []) && !isMetadataLine l.body

def fallbackNotice (lines : List SourceLine) (parsed : ParsedPatch) (truncated capped : Bool) :
    Option String :=
  if truncated && capped then
    some "diff is truncated and exceeds the 5,000-line display limit — showing unified text"
  else if truncated then some "diff is truncated — showing unified text"
  else if capped then some "diff exceeds the 5,000-line display limit — showing unified text"
  else if parsed.combined then some "combined diff cannot be compared — showing unified text"
  else if parsed.malformed then some "diff is incomplete or malformed — showing unified text"
  else if parsed.unknownOutsideHunk then
    some "diff contains unsupported text outside hunks — showing unified text"
  else if hasBinaryMetadata lines then
    some "binary diff cannot be compared — showing unified text"
  else if !parsed.sawHunk && hasPlainUnknown lines then
    some "diff has no textual hunks — showing unified text"
  else none

def mustUseUnified (lines : List SourceLine) (parsed : ParsedPatch) (truncated capped : Bool) :
    Bool :=
  truncated || capped || parsed.combined || parsed.malformed || parsed.unknownOutsideHunk ||
    !parsed.sawHunk || hasBinaryMetadata lines

def presentDiff (text : Text) (truncated : Bool) : DiffPresentation :=
  let (lines, capped) := sourceLines text
  let parsed := parsePatch lines
  if mustUseUnified lines parsed truncated capped then
    { mode := .unified, before := [], after := [], unified := renderUnified lines parsed.combined,
      notice := fallbackNotice lines parsed truncated capped }
  else
    let sides := renderComparison parsed.events
    { mode := .comparison, before := sides.before, after := sides.after, unified := [],
      notice := none }

example : (presentDiff "@@ -1,2 +1,1 @@\n-a\n-b\n+c\n".toList false).after =
    [⟨.metadata, "@@ -1,2 +1,1 @@\n".toList⟩, ⟨.added, "+c\n".toList⟩, ⟨.gap, "\n".toList⟩] := by
  decide +kernel

end Mast.Diff
