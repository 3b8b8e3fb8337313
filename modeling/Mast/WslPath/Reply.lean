import Mathlib.Data.List.DropRight
import Mathlib.Data.List.TakeWhile
import Mast.Remote.Http
import Mast.Roots
import Mast.Send
import Mast.WslPath.Unc

/-!
# The path of a reply

`send.rs`: a program in a terminal asks the app for a list and names the file the answer is
to be written to. The name comes out of terminal output, so it is decoded, looked at as a
Linux path, and held to `/tmp`; then it is written as a path of the share, and Windows
reads that path by its own rules.

Results:
1. `win32Seg_plain`: what Windows makes of a component that passed the check.
2. `win32Location_uncText`: where Windows finds a path of the share.
3. `reply_confined`: an accepted reply path names `/tmp` or something below it, for both
   systems.
-/

namespace Mast

open Lexical Segments

/-! ## The decoder -/

inductive ReplyPathError
  | decode (error : SendDecodeError)
  | notUtf8
  | invalidPath (error : PathError)
  | outsideTmp
deriving DecidableEq, Repr

/-- `REPLY_PATH_PREFIX` -/
def replyPathPrefix : List Char := "/tmp/".toList

def decodeReplyPath (replyB64 : String) : Except ReplyPathError String :=
  match decodeSendText replyB64 with
  | .error e => .error (.decode e)
  | .ok bytes =>
    match fromUtf8 bytes with
    | none => .error .notUtf8
    | some path =>
      match validateLinuxPath path with
      | .error e => .error (.invalidPath e)
      | .ok () => if replyPathPrefix <+: path.toList then .ok path else .error .outsideTmp

/-! ## Windows -/

/-- A component without its stream. -/
def streamless (component : List Char) : List Char := component.takeWhile (· ≠ ':')

/-- The name of the file: no stream, and no dots or spaces at the end. -/
def win32Name (component : List Char) : List Char :=
  (streamless component).rdropWhile fun c => c = '.' || c = ' '

/-- What a component does when Windows walks a path. -/
def win32Seg (component : List Char) : Seg (List Char) :=
  let bare := (streamless component).rdropWhile (· = ' ')
  if bare = ['.', '.'] then .up
  else if win32Name component = [] then .stay
  else .name (win32Name component)

/-- Where a UNC path leads: the names below the share. -/
structure ShareLocation where
  server : List Char
  share : List Char
  names : List (List Char)
deriving DecidableEq, Repr

/-- A UNC path as Windows reads it. No path leads above its share. -/
def win32Location (unc : String) : Option ShareLocation :=
  match oneSeparator unc.toList with
  | '\\' :: '\\' :: rest =>
    match segments '\\' rest with
    | server :: share :: components =>
      some ⟨win32Name server, win32Name share, normal (components.map win32Seg)⟩
    | _ => none
  | _ => none

example : win32Location "//wsl.localhost\\Ubuntu/tmp\\.. \\etc. ./x:y" =
    some ⟨"wsl.localhost".toList, "Ubuntu".toList, ["etc".toList, "x".toList]⟩ := by
  decide +kernel

def tmp : List Char := ['t', 'm', 'p']

/-- The path names `/tmp` or something below it, as a Linux path and on the share of every
distribution. -/
structure ConfinedToTmp (path : String) : Prop where
  starts : replyPathPrefix <+: path.toList
  noNul : Char.ofNat 0 ∉ path.toList
  noBackslash : '\\' ∉ path.toList
  noDots : ∀ component ∈ pathComponents path, component ≠ ['.'] ∧ component ≠ ['.', '.']
  normalForm : ∃ names, normalForm path = tmp :: names
  share : ∀ distro, (∃ other unc, toUnc distro other = .ok unc) → ∃ unc names,
    toUnc distro path = .ok unc ∧
      win32Location unc = some ⟨"wsl.localhost".toList, distro.toList, tmp :: names⟩

namespace ReplyLemmas

open WslPathLemmas RootsLemmas

variable {path distro : String} {component : List Char} {components : List (List Char)}

/-! ## Plain names -/

theorem rdropWhile_of_getLast? {drop : Char → Bool}
    (h : ∀ c, component.getLast? = some c → drop c = false) :
    component.rdropWhile drop = component := by
  refine List.rdropWhile_eq_self_iff.mpr fun hne => ?_
  rw [h _ (List.getLast?_eq_some_getLast hne)]
  exact Bool.false_ne_true

theorem streamless_plain (h : PlainName component) : streamless component = component := by
  unfold streamless
  refine List.takeWhile_eq_self_iff.mpr fun c hc => decide_eq_true ?_
  rintro rfl
  exact h.noColon hc

theorem win32Name_plain (h : PlainName component) : win32Name component = component := by
  rw [win32Name, streamless_plain h]
  refine rdropWhile_of_getLast? fun c hc => ?_
  have hdot : c ≠ '.' := fun heq => h.noTrail.1 (heq ▸ hc)
  have hspace : c ≠ ' ' := fun heq => h.noTrail.2 (heq ▸ hc)
  simp [hdot, hspace]

/-- What Windows makes of a component that passed the check. -/
theorem win32Seg_plain (h : PlainName component) (hne : component ≠ []) :
    win32Seg component = .name component := by
  have hbare : (streamless component).rdropWhile (· = ' ') = component := by
    rw [streamless_plain h]
    exact rdropWhile_of_getLast? fun c hc => decide_eq_false fun heq => h.noTrail.2 (heq ▸ hc)
  unfold win32Seg
  dsimp only
  rw [hbare, if_neg h.notDots, win32Name_plain h, if_neg hne]

theorem pathSeg_plain (h : PlainName component) (hne : component ≠ []) :
    pathSeg component = .name component := by
  rw [pathSeg, if_neg (not_or.mpr ⟨hne, h.notDot⟩), if_neg h.notDots]

/-! ## The share -/

theorem normal_plain {read : List Char → Seg (List Char)}
    (h : ∀ component ∈ components, read component = .name component) :
    normal (components.map read) = components := by
  have hread : components.map read = components.map Seg.name := List.map_congr_left h
  have hup : Seg.up ∉ components.map (Seg.name (α := List Char)) := by
    intro hmem
    obtain ⟨_, -, heq⟩ := List.mem_map.mp hmem
    cases heq
  rw [hread, normal_of_names hup, List.filterMap_map]
  exact List.filterMap_some

/-- Where Windows finds a path of the share. -/
theorem win32Location_uncText (hdistro : validateDistro distro = .ok ())
    (hseg : ∀ component ∈ components, component ≠ [] ∧ '/' ∉ component ∧ '\\' ∉ component)
    (hplain : ∀ component ∈ components, PlainName component) :
    win32Location (String.ofList (uncText distro.toList components)) =
      some ⟨"wsl.localhost".toList, distro.toList, components⟩ := by
  obtain ⟨hne, hslash, hbackslash, -, hname⟩ := validateDistro_ok hdistro
  obtain ⟨tail, htext, htail⟩ := uncText_eq distro.toList
    fun component hmem => ⟨(hseg component hmem).1, (hseg component hmem).2.2⟩
  have hone : oneSeparator (uncText distro.toList components) =
      '\\' :: '\\' :: ("wsl.localhost".toList ++ '\\' :: (distro.toList ++ '\\' :: tail)) := by
    rw [oneSeparator_of_plain
      (slash_not_mem_uncText hslash fun component hmem => (hseg component hmem).2.1), htext]
    rfl
  have hshare : segments '\\' distro.toList = [distro.toList] :=
    segments_of_segment ⟨hne, hbackslash⟩
  have hsegments :
      segments '\\' ("wsl.localhost".toList ++ '\\' :: (distro.toList ++ '\\' :: tail)) =
        "wsl.localhost".toList :: distro.toList :: components := by
    rw [segments_append, segments_append, htail, hshare]
    rfl
  have hnormal : normal (components.map win32Seg) = components :=
    normal_plain fun component hmem =>
      win32Seg_plain (hplain component hmem) (hseg component hmem).1
  have hserver : win32Name "wsl.localhost".toList = "wsl.localhost".toList := by decide +kernel
  rw [win32Location, String.toList_ofList, hone]
  simp only [hsegments]
  rw [hserver, win32Name_plain hname, hnormal]

/-! ## Accepted paths -/

theorem decodeReplyPath_ok {replyB64 : String} (h : decodeReplyPath replyB64 = .ok path) :
    decodeSendText replyB64 = .ok (Utf8.bytes path) ∧ validateLinuxPath path = .ok () ∧
      replyPathPrefix <+: path.toList := by
  unfold decodeReplyPath at h
  split at h
  · cases h
  next bytes hbytes =>
  split at h
  · cases h
  next text htext =>
  obtain rfl := fromUtf8_iff.mp htext
  split at h
  · cases h
  next hvalid =>
  split at h
  · next hstarts =>
    obtain rfl := Except.ok.inj h
    exact ⟨hbytes, hvalid, hstarts⟩
  · cases h

/-- The components of a path that begins with `/tmp/`. -/
theorem components_tmp (h : replyPathPrefix <+: path.toList) :
    ∃ rest, pathComponents path = [] :: tmp :: rest := by
  obtain ⟨text, htext⟩ := h
  have habsolute : path.toList = '/' :: (tmp ++ '/' :: text) := htext.symm
  refine ⟨text.splitOn '/', ?_⟩
  rw [components_absolute habsolute, List.splitOn_append_cons_self_of_not_mem (by decide)]

theorem segments_tmp (h : replyPathPrefix <+: path.toList) :
    ∃ rest, segments '/' path.toList = tmp :: rest := by
  obtain ⟨rest, hrest⟩ := components_tmp h
  have hsplit : path.toList.splitOn '/' = [] :: tmp :: rest := hrest
  refine ⟨rest.filter (· ≠ []), ?_⟩
  rw [segments, hsplit]
  rfl

/-- The normal form of an accepted path has the components that are not empty. -/
theorem normalForm_valid (h : validateLinuxPath path = .ok ()) :
    normalForm path = segments '/' path.toList := by
  obtain ⟨-, -, -, hplain⟩ := validateLinuxPath_ok_iff.mp h
  have hwalk : ∀ (l : List (List Char)) (stack : List (List Char)),
      (l.map pathSeg).foldl walk stack = ((l.filter (· ≠ [])).map pathSeg).foldl walk stack := by
    intro l
    induction l with
    | nil => exact fun _ => rfl
    | cons component l ih =>
      intro stack
      rcases eq_or_ne component [] with rfl | hne
      · exact ih stack
      · have hkeep : (component :: l).filter (· ≠ []) = component :: l.filter (· ≠ []) := by
          simp [hne]
        rw [hkeep]
        exact ih _
  have hskip : normalForm path = normal ((segments '/' path.toList).map pathSeg) :=
    congrArg List.reverse (hwalk _ [])
  rw [hskip]
  exact normal_plain fun component hmem =>
    pathSeg_plain (hplain component hmem) (isSegment_of_mem hmem).1

theorem confined_of_valid (hvalid : validateLinuxPath path = .ok ())
    (hstarts : replyPathPrefix <+: path.toList) : ConfinedToTmp path := by
  obtain ⟨-, hnul, hbackslash, hplain⟩ := validateLinuxPath_ok_iff.mp hvalid
  obtain ⟨rest, hrest⟩ := segments_tmp hstarts
  constructor
  · exact hstarts
  · exact hnul
  · exact hbackslash
  · intro component hmem
    rcases eq_or_ne component [] with rfl | hne
    · exact ⟨nofun, nofun⟩
    · have hplain' := hplain component (List.mem_filter.mpr ⟨hmem, decide_eq_true hne⟩)
      exact ⟨hplain'.notDot, hplain'.notDots⟩
  · exact ⟨rest, (normalForm_valid hvalid).trans hrest⟩
  · rintro distro ⟨other, unc, hother⟩
    have hdistro := (toUnc_ok_iff.mp hother).1
    refine ⟨_, rest, toUnc_ok_iff.mpr ⟨hdistro, hvalid, rfl⟩, ?_⟩
    rw [← hrest]
    refine win32Location_uncText hdistro (fun component hmem => ?_) hplain
    obtain ⟨hne, hslash⟩ := isSegment_of_mem hmem
    exact ⟨hne, hslash, fun hc => hbackslash (mem_of_mem_segments hmem hc)⟩

end ReplyLemmas

open ReplyLemmas

/-- An accepted reply path is the decoded text of its field, and names `/tmp` or something
below it. -/
theorem reply_confined {replyB64 path : String} (h : decodeReplyPath replyB64 = .ok path) :
    decodeSendText replyB64 = .ok (Utf8.bytes path) ∧ ConfinedToTmp path := by
  obtain ⟨hbytes, hvalid, hstarts⟩ := decodeReplyPath_ok h
  exact ⟨hbytes, confined_of_valid hvalid hstarts⟩

theorem reply_confined_list :
    decodeSendText "L3RtcC9tYXN0LXRhYnMtNDIuanNvbg==" = .ok (Utf8.bytes "/tmp/mast-tabs-42.json") ∧
      ConfinedToTmp "/tmp/mast-tabs-42.json" :=
  reply_confined (by decide +kernel)

end Mast
