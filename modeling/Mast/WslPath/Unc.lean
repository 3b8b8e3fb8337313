import Mast.Lib.Segments
import Mast.Osc
import Mast.WslPath

/-!
# Linux paths and UNC paths

`wslpath.rs`: a Linux path of a distribution is written as a path of the `wsl.localhost`
share, and a Windows path from the folder dialog is read back. The reader takes more
spellings than the writer makes.

Results:
1. `validateLinuxPath_ok_iff`: the accepted paths in terms of their components.
2. `fromWindowsPath_toUnc`: reading what was written gives the path without empty segments.
3. `unc_round_trip`: both directions, and that the writer is injective up to empty segments.
-/

namespace Mast

open Segments

/-- Why a distribution name or a path is rejected. -/
inductive WslPathError
  | distroEmpty
  | distroSeparator (distro : String)
  | distroDots (distro : String)
  | distroColon (distro : String)
  | distroTrailing (distro : String)
  | linuxPath (error : PathError)
  | noDistro (path : String)
  | otherUnc (path : String)
  | notAbsolute (path : String)
deriving DecidableEq, Repr

/-- The text of the rejection. `quote` is the debug form of a string. -/
def WslPathError.message (quote : String → String) : WslPathError → String
  | .distroEmpty => "distro must not be empty"
  | .distroSeparator distro =>
    s!"distro must not contain '/', '\\' or a NUL byte: {quote distro}"
  | .distroDots distro => s!"distro must not be a dot component: {quote distro}"
  | .distroColon distro => s!"distro must not contain ':': {quote distro}"
  | .distroTrailing distro =>
    s!"distro must not end with a dot or a space (Win32 trims them): {quote distro}"
  | .linuxPath error => error.message quote
  | .noDistro path => s!"WSL UNC path has no distro name: {quote path}"
  | .otherUnc path =>
    s!"only \\\\wsl.localhost or \\\\wsl$ UNC paths can be mapped to a WSL path: {quote path}"
  | .notAbsolute path =>
    "not an absolute Windows path (expected 'C:\\dir' or " ++
      s!"'\\\\wsl.localhost\\<distro>\\dir'): {quote path}"

def validateDistro (distro : String) : Except WslPathError Unit :=
  if distro.toList = [] then .error .distroEmpty
  else if '/' ∈ distro.toList ∨ '\\' ∈ distro.toList ∨ Char.ofNat 0 ∈ distro.toList then
    .error (.distroSeparator distro)
  else if distro.toList = ['.'] ∨ distro.toList = ['.', '.'] then .error (.distroDots distro)
  else if ':' ∈ distro.toList then .error (.distroColon distro)
  else if distro.toList.getLast? = some '.' ∨ distro.toList.getLast? = some ' ' then
    .error (.distroTrailing distro)
  else .ok ()

/-! ## The writer -/

/-- `UNC_PREFIX`, `\\wsl.localhost`. -/
def uncPrefix : List Char := '\\' :: '\\' :: "wsl.localhost".toList

/-- `UNC_PREFIX_LEGACY`, `\\wsl$`. -/
def uncPrefixLegacy : List Char := '\\' :: '\\' :: "wsl$".toList

/-- The text of a UNC path; the root of the share keeps its separator. -/
def uncText (distro : List Char) (components : List (List Char)) : List Char :=
  uncPrefix ++ '\\' :: (distro ++ if components = [] then ['\\'] else lead '\\' components)

def toUnc (distro linuxPath : String) : Except WslPathError String :=
  match validateDistro distro with
  | .error e => .error e
  | .ok () =>
    match validateLinuxPath linuxPath with
    | .error e => .error (.linuxPath e)
    | .ok () => .ok (String.ofList (uncText distro.toList (segments '/' linuxPath.toList)))

/-! ## The reader -/

/-- Both separators of Windows are one. -/
def oneSeparator (path : List Char) : List Char := path.map fun c => if c = '/' then '\\' else c

/-- What follows the prefix of a WSL share and its separator. -/
def stripPrefix (path uncStart : List Char) : Option (List Char) :=
  if (path.take uncStart.length).map Char.toLower = uncStart then
    match path.drop uncStart.length with
    | [] => some []
    | c :: rest => if c = '\\' then some rest else none
  else none

def stripWslUnc (path : List Char) : Option (List Char) :=
  (stripPrefix path uncPrefix).or (stripPrefix path uncPrefixLegacy)

/-- The letter of an absolute drive path, in lower case, and what follows. -/
def stripDrive : List Char → Option (Char × List Char)
  | letter :: ':' :: '\\' :: tail => if letter.isAlpha then some (letter.toLower, tail) else none
  | _ => none

def driveMountRoot : List Char := "/mnt".toList

def joinLinux (root tail : List Char) : List Char :=
  let out := root ++ lead '/' (segments '\\' tail)
  if out = [] then ['/'] else out

/-- The distribution and the Linux path of a Windows path, before the last check. -/
def mapWindowsPath (path : String) : Except WslPathError (Option String × String) :=
  let normalized := oneSeparator path.toList
  match stripWslUnc normalized with
  | some rest =>
    let (distro, tail) := (splitOnce '\\' rest).getD (rest, [])
    if distro = [] then .error (.noDistro path)
    else
      match validateDistro (String.ofList distro) with
      | .error e => .error e
      | .ok () => .ok (some (String.ofList distro), String.ofList (joinLinux [] tail))
  | none =>
    if ['\\', '\\'] <+: normalized then .error (.otherUnc path)
    else
      match stripDrive normalized with
      | some (letter, tail) =>
        .ok (none, String.ofList (joinLinux (driveMountRoot ++ ['/', letter]) tail))
      | none => .error (.notAbsolute path)

def fromWindowsPath (path : String) : Except WslPathError (Option String × String) :=
  match mapWindowsPath path with
  | .error e => .error e
  | .ok (distro, linux) =>
    match validateLinuxPath linux with
    | .error e => .error (.linuxPath e)
    | .ok () => .ok (distro, linux)

example : fromWindowsPath "//WSL$/Ubuntu\\\\home/dev/" = .ok (some "Ubuntu", "/home/dev") := by
  decide +kernel

example : fromWindowsPath "C:\\Users" = .ok (none, "/mnt/c/Users") := by decide +kernel

/-! ## What the checks accept -/

/-- A name that Windows takes as it is written. -/
structure PlainName (name : List Char) : Prop where
  notDot : name ≠ ['.']
  notDots : name ≠ ['.', '.']
  noColon : ':' ∉ name
  noTrail : name.getLast? ≠ some '.' ∧ name.getLast? ≠ some ' '

namespace WslPathLemmas

variable {path distro : String} {text rest : List Char} {components : List (List Char)}

theorem forM_ok_iff {α ε : Type} {f : α → Except ε Unit} {l : List α} :
    l.forM f = .ok () ↔ ∀ a ∈ l, f a = .ok () := by
  induction l with
  | nil => exact ⟨fun _ a ha => (List.not_mem_nil ha).elim, fun _ => rfl⟩
  | cons a l ih =>
    rw [List.forall_mem_cons, ← ih]
    show (f a >>= fun _ => l.forM f) = .ok () ↔ _
    cases hfirst : f a with
    | ok u => exact ⟨fun h => ⟨rfl, h⟩, fun h => h.2⟩
    | error e => exact ⟨nofun, fun h => nomatch h.1⟩

theorem validateComponent_ok_iff {component : List Char} (hne : component ≠ []) :
    validateComponent path component = .ok () ↔ PlainName component := by
  unfold validateComponent
  rw [if_neg hne]
  constructor
  · intro h
    split at h
    · cases h
    next hdots =>
    split at h
    · cases h
    next hcolon =>
    split at h
    · cases h
    next htrail => exact ⟨(not_or.mp hdots).1, (not_or.mp hdots).2, hcolon, not_or.mp htrail⟩
  · rintro ⟨hdot, hdots, hcolon, htrail⟩
    rw [if_neg (not_or.mpr ⟨hdot, hdots⟩), if_neg hcolon, if_neg (not_or.mpr htrail)]

/-- The accepted paths in terms of their components. -/
theorem validateLinuxPath_ok_iff : validateLinuxPath path = .ok () ↔
    path.toList.head? = some '/' ∧ Char.ofNat 0 ∉ path.toList ∧ '\\' ∉ path.toList ∧
      ∀ component ∈ segments '/' path.toList, PlainName component := by
  have hcomponents : (pathComponents path).forM (validateComponent path) = .ok () ↔
      ∀ component ∈ segments '/' path.toList, PlainName component := by
    rw [forM_ok_iff]
    constructor
    · intro h component hmem
      obtain ⟨hsplit, hne⟩ := List.mem_filter.mp hmem
      exact (validateComponent_ok_iff (of_decide_eq_true hne)).mp (h component hsplit)
    · intro h component hsplit
      by_cases hne : component = []
      · rw [hne, validateComponent, if_pos rfl]
      · refine (validateComponent_ok_iff hne).mpr (h component ?_)
        exact List.mem_filter.mpr ⟨hsplit, decide_eq_true hne⟩
  unfold validateLinuxPath
  constructor
  · intro h
    split at h
    · cases h
    next habsolute =>
    split at h
    · cases h
    next hnul =>
    split at h
    · cases h
    next hbackslash =>
    exact ⟨not_not.mp habsolute, hnul, hbackslash, hcomponents.mp h⟩
  · rintro ⟨habsolute, hnul, hbackslash, hplain⟩
    rw [if_neg (not_not.mpr habsolute), if_neg hnul, if_neg hbackslash]
    exact hcomponents.mpr hplain

/-- What is known of an accepted distribution name. -/
theorem validateDistro_ok (h : validateDistro distro = .ok ()) : distro.toList ≠ [] ∧
    '/' ∉ distro.toList ∧ '\\' ∉ distro.toList ∧ Char.ofNat 0 ∉ distro.toList ∧
      PlainName distro.toList := by
  unfold validateDistro at h
  split at h
  · cases h
  next hempty =>
  split at h
  · cases h
  next hchars =>
  split at h
  · cases h
  next hdots =>
  split at h
  · cases h
  next hcolon =>
  split at h
  · cases h
  next htrail =>
  obtain ⟨hslash, hchars⟩ := not_or.mp hchars
  obtain ⟨hbackslash, hnul⟩ := not_or.mp hchars
  obtain ⟨hdot, hdots⟩ := not_or.mp hdots
  exact ⟨hempty, hslash, hbackslash, hnul, hdot, hdots, hcolon, not_or.mp htrail⟩

theorem toUnc_ok_iff {unc : String} : toUnc distro path = .ok unc ↔
    validateDistro distro = .ok () ∧ validateLinuxPath path = .ok () ∧
      unc = String.ofList (uncText distro.toList (segments '/' path.toList)) := by
  unfold toUnc
  cases validateDistro distro with
  | error e => exact ⟨nofun, fun h => nomatch h.1⟩
  | ok u =>
    cases validateLinuxPath path with
    | error e => exact ⟨nofun, fun h => nomatch h.2.1⟩
    | ok u =>
      exact ⟨fun h => ⟨rfl, rfl, (Except.ok.inj h).symm⟩, fun h => congrArg _ h.2.2.symm⟩

/-! ## Prefixes -/

theorem toLower_eq_backslash {c : Char} (h : c.toLower = '\\') : c = '\\' := by
  unfold Char.toLower at h
  split at h
  · next hupper =>
    have hval : c.val + ('a'.val - 'A'.val) = '\\'.val := congrArg Char.val h
    have hc : c.val = '\\'.val - ('a'.val - 'A'.val) := by
      rw [← hval]
      simp
    rw [hc] at hupper
    exact absurd hupper (by decide)
  · exact h

/-- The text of a WSL share up to the name of the distribution: two separators and the host. -/
def IsWslStart (start : List Char) : Prop :=
  start.map Char.toLower = uncPrefix ∨ start.map Char.toLower = uncPrefixLegacy

theorem stripPrefix_start {start uncStart : List Char}
    (h : start.map Char.toLower = uncStart) (rest : List Char) :
    stripPrefix (start ++ '\\' :: rest) uncStart = some rest := by
  have hlength : uncStart.length = start.length := by rw [← h, List.length_map]
  unfold stripPrefix
  rw [hlength, List.take_left, if_pos h, List.drop_left]
  rfl

theorem stripPrefix_cases {uncStart : List Char} (h : stripPrefix text uncStart = some rest) :
    rest = [] ∨ ∃ start, start.map Char.toLower = uncStart ∧ text = start ++ '\\' :: rest := by
  unfold stripPrefix at h
  split at h
  · next hstart =>
    split at h
    · exact .inl (Option.some_inj.mp h).symm
    · next c other hdrop =>
      split at h
      · next hc =>
        obtain rfl := Option.some_inj.mp h
        refine .inr ⟨text.take uncStart.length, hstart, ?_⟩
        rw [← hc, ← hdrop, List.take_append_drop]
      · cases h
  · cases h

theorem stripWslUnc_cases (h : stripWslUnc text = some rest) :
    rest = [] ∨ ∃ start, IsWslStart start ∧ text = start ++ '\\' :: rest := by
  rcases Option.or_eq_some_iff.mp h with h | ⟨-, h⟩
  · rcases stripPrefix_cases h with h | ⟨start, hstart, htext⟩
    · exact .inl h
    · exact .inr ⟨start, .inl hstart, htext⟩
  · rcases stripPrefix_cases h with h | ⟨start, hstart, htext⟩
    · exact .inl h
    · exact .inr ⟨start, .inr hstart, htext⟩

/-- The host of a WSL share. -/
def IsWslHost (host : List Char) : Prop :=
  host.map Char.toLower = "wsl.localhost".toList ∨ host.map Char.toLower = "wsl$".toList

theorem host_of_start {start : List Char} (h : IsWslStart start) :
    ∃ host, start = '\\' :: '\\' :: host ∧ '\\' ∉ host ∧ IsWslHost host := by
  have hname : ∃ name, start.map Char.toLower = '\\' :: '\\' :: name ∧ '\\' ∉ name ∧
      (name = "wsl.localhost".toList ∨ name = "wsl$".toList) := by
    rcases h with h | h
    · exact ⟨_, h, by decide, .inl rfl⟩
    · exact ⟨_, h, by decide, .inr rfl⟩
  obtain ⟨name, hmap, hnot, hhost⟩ := hname
  obtain ⟨c, start, rfl, hc, hmap⟩ := List.map_eq_cons_iff.mp hmap
  obtain ⟨c', host, rfl, hc', rfl⟩ := List.map_eq_cons_iff.mp hmap
  refine ⟨host, ?_, fun hmem => hnot ?_, hhost⟩
  · rw [toLower_eq_backslash hc, toLower_eq_backslash hc']
  · exact List.mem_map.mpr ⟨'\\', hmem, by decide⟩

/-! ## The paths of a share -/

/-- The Linux path with given components. -/
def linuxText (components : List (List Char)) : List Char :=
  if components = [] then ['/'] else lead '/' components

theorem joinLinux_root (tail : List Char) : joinLinux [] tail = linuxText (segments '\\' tail) := by
  unfold joinLinux linuxText
  rw [List.nil_append]
  by_cases h : segments '\\' tail = []
  · rw [h]
    rfl
  · rw [if_neg h, if_neg fun hlead => h (lead_eq_nil hlead)]

theorem segments_linuxText (h : ∀ component ∈ components, IsSegment '/' component) :
    segments '/' (linuxText components) = components := by
  unfold linuxText
  split
  · next hnil =>
    rw [hnil]
    rfl
  · exact segments_lead h

theorem mem_linuxText {c : Char} (h : c ∈ linuxText components) :
    c = '/' ∨ ∃ component ∈ components, c ∈ component := by
  unfold linuxText at h
  split at h
  · exact .inl (List.mem_singleton.mp h)
  · obtain ⟨component, hmem, hc⟩ := mem_lead.mp h
    rcases hc with hc | hc
    · exact .inl hc
    · exact .inr ⟨component, hmem, hc⟩

/-- The tail of a UNC path behind the name of the distribution. -/
theorem uncText_eq (distro : List Char) (h : ∀ component ∈ components, IsSegment '\\' component) :
    ∃ tail, uncText distro components = uncPrefix ++ '\\' :: (distro ++ '\\' :: tail) ∧
      segments '\\' tail = components := by
  unfold uncText
  cases components with
  | nil => exact ⟨[], rfl, rfl⟩
  | cons component components =>
    refine ⟨component ++ lead '\\' components, ?_, ?_⟩
    · rw [if_neg (List.cons_ne_nil _ _)]
      rfl
    · have hlead := segments_lead h
      have hcons : lead '\\' (component :: components) =
          [] ++ '\\' :: (component ++ lead '\\' components) := rfl
      rw [hcons, segments_append, segments_nil, List.nil_append] at hlead
      exact hlead

theorem oneSeparator_of_plain (h : '/' ∉ text) : oneSeparator text = text := by
  unfold oneSeparator
  refine (List.map_congr_left fun c hc => ?_).trans (List.map_id text)
  exact if_neg fun heq : c = '/' => h (heq ▸ hc)

theorem slash_not_mem_oneSeparator (text : List Char) : '/' ∉ oneSeparator text := by
  intro h
  obtain ⟨c, -, hc⟩ := List.mem_map.mp h
  split at hc
  · cases hc
  · next hne => exact hne hc

theorem slash_not_mem_uncText {name : List Char} (hname : '/' ∉ name)
    (h : ∀ component ∈ components, '/' ∉ component) : '/' ∉ uncText name components := by
  unfold uncText
  rw [List.mem_append, List.mem_cons, List.mem_append, not_or, not_or, not_or]
  refine ⟨by decide, by decide, hname, ?_⟩
  split
  · decide
  · intro hmem
    obtain ⟨component, hcomponent, hc⟩ := mem_lead.mp hmem
    rcases hc with hc | hc
    · cases hc
    · exact h component hcomponent hc

/-- The collapsed form of an accepted path is accepted. -/
theorem validate_linuxText (h : validateLinuxPath path = .ok ()) :
    validateLinuxPath (String.ofList (linuxText (segments '/' path.toList))) = .ok () := by
  obtain ⟨-, hnul, hbackslash, hplain⟩ := validateLinuxPath_ok_iff.mp h
  have hkept : ∀ c : Char, c ≠ '/' → c ∉ path.toList →
      c ∉ linuxText (segments '/' path.toList) := by
    intro c hne habsent hmem
    rcases mem_linuxText hmem with heq | ⟨component, hcomponent, hc⟩
    · exact hne heq
    · exact habsent (mem_of_mem_segments hcomponent hc)
  refine validateLinuxPath_ok_iff.mpr ?_
  rw [String.toList_ofList]
  refine ⟨?_, hkept _ (by decide) hnul, hkept _ (by decide) hbackslash, ?_⟩
  · unfold linuxText
    split
    · rfl
    · cases hsegs : segments '/' path.toList with
      | nil => contradiction
      | cons component rest => rfl
  · rw [segments_linuxText fun _ hmem => isSegment_of_mem hmem]
    exact hplain

/-- The reader on a path of a WSL share. -/
theorem fromWindowsPath_share {tail : List Char} (hdistro : validateDistro distro = .ok ())
    (hstrip : stripWslUnc (oneSeparator path.toList) = some rest)
    (hrest : rest = distro.toList ++ '\\' :: tail ∨ (rest = distro.toList ∧ tail = []))
    (hlinux : validateLinuxPath (String.ofList (linuxText (segments '\\' tail))) = .ok ()) :
    fromWindowsPath path =
      .ok (some distro, String.ofList (linuxText (segments '\\' tail))) := by
  obtain ⟨hne, -, hbackslash, -, -⟩ := validateDistro_ok hdistro
  have hsplit : (splitOnce '\\' rest).getD (rest, []) = (distro.toList, tail) := by
    rcases hrest with rfl | ⟨rfl, rfl⟩
    · rw [splitOnce_append hbackslash]
      rfl
    · rcases splitOnce_cases '\\' distro.toList with ⟨hnone, -⟩ | ⟨first, rest, -, heq, -⟩
      · rw [hnone]
        rfl
      · exact absurd (heq ▸ List.mem_append_right _ List.mem_cons_self) hbackslash
  have hmap : mapWindowsPath path =
      .ok (some distro, String.ofList (linuxText (segments '\\' tail))) := by
    unfold mapWindowsPath
    dsimp only
    rw [hstrip]
    dsimp only
    rw [hsplit]
    dsimp only
    rw [if_neg hne, String.ofList_toList, hdistro, joinLinux_root]
  rw [fromWindowsPath, hmap]
  dsimp only
  rw [hlinux]

/-- What the reader has accepted as a path of a WSL share. -/
theorem fromWindowsPath_ok {linux : String} (h : fromWindowsPath path = .ok (some distro, linux)) :
    ∃ rest tail, stripWslUnc (oneSeparator path.toList) = some rest ∧
      (rest = distro.toList ++ '\\' :: tail ∨ (rest = distro.toList ∧ tail = [])) ∧
      validateDistro distro = .ok () ∧
      linux = String.ofList (linuxText (segments '\\' tail)) ∧
      validateLinuxPath linux = .ok () := by
  unfold fromWindowsPath at h
  split at h
  · cases h
  next hmap =>
  split at h
  · cases h
  next hlinux =>
  obtain ⟨rfl, rfl⟩ := Prod.mk.inj (Except.ok.inj h)
  unfold mapWindowsPath at hmap
  dsimp only at hmap
  split at hmap
  · next rest hstrip =>
    generalize hpair : (splitOnce '\\' rest).getD (rest, []) = pair at hmap
    obtain ⟨name, tail⟩ := pair
    dsimp only at hmap
    split at hmap
    · cases hmap
    split at hmap
    · cases hmap
    next hdistro =>
    obtain ⟨hname, rfl⟩ := Prod.mk.inj (Except.ok.inj hmap)
    obtain rfl := Option.some_inj.mp hname
    refine ⟨rest, tail, hstrip, ?_, hdistro, by rw [joinLinux_root], hlinux⟩
    rw [String.toList_ofList]
    rcases splitOnce_cases '\\' rest with ⟨hnone, -⟩ | ⟨first, other, hsome, rfl, -⟩
    · rw [hnone] at hpair
      obtain ⟨rfl, rfl⟩ := Prod.mk.inj hpair
      exact .inr ⟨rfl, rfl⟩
    · rw [hsome] at hpair
      obtain ⟨rfl, rfl⟩ := Prod.mk.inj hpair
      exact .inl rfl
  · split at hmap
    · cases hmap
    split at hmap
    · cases hmap
    · cases hmap

end WslPathLemmas

open WslPathLemmas

/-- The path without its empty segments. -/
def collapseEmpty (path : String) : String := String.ofList (linuxText (segments '/' path.toList))

/-- Where a Windows path leads: a WSL share, its distribution and the components in it. -/
structure Locates (path : String) (distro : String) (components : List (List Char)) : Prop where
  share : ∃ host rest, (oneSeparator path.toList).splitOn '\\' =
    [] :: [] :: host :: distro.toList :: rest ∧ IsWslHost host ∧
      components = rest.filter (· ≠ [])

theorem locates_of_start {path distro : String} {start rest tail : List Char}
    (htext : oneSeparator path.toList = start ++ '\\' :: rest) (hstart : IsWslStart start)
    (hrest : rest = distro.toList ++ '\\' :: tail ∨ (rest = distro.toList ∧ tail = []))
    (hdistro : '\\' ∉ distro.toList) : Locates path distro (segments '\\' tail) := by
  obtain ⟨host, rfl, hplain, hhost⟩ := host_of_start hstart
  have hempty : '\\' ∉ ([] : List Char) := List.not_mem_nil
  have hfirst : ∀ l : List Char, ('\\' :: l).splitOn '\\' = [] :: l.splitOn '\\' :=
    fun l => List.splitOn_append_cons_self_of_not_mem hempty l
  have hsplit : (oneSeparator path.toList).splitOn '\\' =
      [] :: [] :: host :: rest.splitOn '\\' := by
    rw [htext, List.cons_append, List.cons_append, hfirst, hfirst,
      List.splitOn_append_cons_self_of_not_mem hplain]
  rcases hrest with rfl | ⟨rfl, rfl⟩
  · refine ⟨host, tail.splitOn '\\', ?_, hhost, rfl⟩
    rw [hsplit, List.splitOn_append_cons_self_of_not_mem hdistro]
  · refine ⟨host, [], ?_, hhost, rfl⟩
    rw [hsplit, List.splitOn_eq_singleton hdistro]

/-- Reading what was written gives the path without empty segments. -/
theorem fromWindowsPath_toUnc {distro path unc : String} (h : toUnc distro path = .ok unc) :
    fromWindowsPath unc = .ok (some distro, collapseEmpty path) := by
  obtain ⟨hdistro, hpath, rfl⟩ := toUnc_ok_iff.mp h
  obtain ⟨-, hslash, -, -, -⟩ := validateDistro_ok hdistro
  obtain ⟨-, -, hbackslash, -⟩ := validateLinuxPath_ok_iff.mp hpath
  have hsegments : ∀ component ∈ segments '/' path.toList, IsSegment '\\' component :=
    fun component hmem => ⟨(isSegment_of_mem hmem).1, fun hc =>
      hbackslash (mem_of_mem_segments hmem hc)⟩
  obtain ⟨tail, htext, htail⟩ := uncText_eq distro.toList hsegments
  have hcomponents : ∀ component ∈ segments '/' path.toList, '/' ∉ component :=
    fun component hmem => (isSegment_of_mem hmem).2
  have hplain := slash_not_mem_uncText hslash hcomponents
  have hstart : uncPrefix.map Char.toLower = uncPrefix := by decide
  have hstrip : stripWslUnc (oneSeparator
      (String.ofList (uncText distro.toList (segments '/' path.toList))).toList) =
        some (distro.toList ++ '\\' :: tail) := by
    rw [String.toList_ofList, oneSeparator_of_plain hplain, htext, stripWslUnc,
      stripPrefix_start hstart, Option.some_or]
  have hread := fromWindowsPath_share hdistro hstrip (.inl rfl)
    (by rw [htail]; exact validate_linuxText hpath)
  rw [hread, htail]
  rfl

open WslPathLemmas in
/-- The reader undoes the writer up to empty segments, the writer gives the usual spelling of
what was read, and it is injective up to empty segments. -/
theorem unc_round_trip :
    (∀ distro path, validateDistro distro = .ok () → validateLinuxPath path = .ok () →
      ∃ unc, toUnc distro path = .ok unc ∧
        fromWindowsPath unc = .ok (some distro, collapseEmpty path)) ∧
    (∀ path distro linux, fromWindowsPath path = .ok (some distro, linux) →
      validateLinuxPath linux = .ok () ∧
        ∃ components unc, Locates path distro components ∧ toUnc distro linux = .ok unc ∧
          unc = String.ofList (uncText distro.toList components) ∧
          Locates unc distro components) ∧
    ∀ distro path distro' path' unc, toUnc distro path = .ok unc → toUnc distro' path' = .ok unc →
      distro = distro' ∧ collapseEmpty path = collapseEmpty path' := by
  refine ⟨fun distro path hdistro hpath => ?_, fun path distro linux h => ?_,
    fun distro path distro' path' unc h h' => ?_⟩
  · have hunc := toUnc_ok_iff.mpr ⟨hdistro, hpath, rfl⟩
    exact ⟨_, hunc, fromWindowsPath_toUnc hunc⟩
  · obtain ⟨rest, tail, hstrip, hrest, hdistro, rfl, hlinux⟩ := fromWindowsPath_ok h
    obtain ⟨hne, hslash', hbackslash, -, -⟩ := validateDistro_ok hdistro
    have hcomponents : ∀ component ∈ segments '\\' tail, IsSegment '\\' component :=
      fun _ hmem => isSegment_of_mem hmem
    rcases stripWslUnc_cases hstrip with rfl | ⟨start, hstart, htext⟩
    · rcases hrest with hrest | ⟨hrest, -⟩
      · exact absurd hrest.symm (List.append_ne_nil_of_left_ne_nil hne _)
      · exact absurd hrest.symm hne
    have hslash : ∀ component ∈ segments '\\' tail, IsSegment '/' component := by
      intro component hmem
      refine ⟨(hcomponents component hmem).1, fun hc => ?_⟩
      refine slash_not_mem_oneSeparator path.toList ?_
      have hin := mem_of_mem_segments hmem hc
      rw [htext, List.mem_append, List.mem_cons]
      rcases hrest with rfl | ⟨-, rfl⟩
      · exact .inr (.inr (List.mem_append_right _ (List.mem_cons_of_mem _ hin)))
      · cases hin
    have hunc : toUnc distro (String.ofList (linuxText (segments '\\' tail))) =
        .ok (String.ofList (uncText distro.toList (segments '\\' tail))) := by
      refine toUnc_ok_iff.mpr ⟨hdistro, hlinux, ?_⟩
      rw [String.toList_ofList, segments_linuxText hslash]
    refine ⟨hlinux, segments '\\' tail, _, locates_of_start htext hstart hrest hbackslash, hunc,
      rfl, ?_⟩
    have hplain := slash_not_mem_uncText hslash' fun component hmem => (hslash component hmem).2
    obtain ⟨tail', htext', htail'⟩ := uncText_eq distro.toList hcomponents
    have hstart' : IsWslStart uncPrefix := .inl (by decide)
    have htext'' : oneSeparator (String.ofList
        (uncText distro.toList (segments '\\' tail))).toList =
          uncPrefix ++ '\\' :: (distro.toList ++ '\\' :: tail') := by
      rw [String.toList_ofList, oneSeparator_of_plain hplain, htext']
    have hlocates := locates_of_start htext'' hstart' (.inl rfl) hbackslash
    exact htail' ▸ hlocates
  · have hread := (fromWindowsPath_toUnc h).symm.trans (fromWindowsPath_toUnc h')
    obtain ⟨hdistro, hpath⟩ := Prod.mk.inj (Except.ok.inj hread)
    exact ⟨Option.some_inj.mp hdistro, hpath⟩

end Mast
