import Mast.Lib.Json
import Mast.Persist
import Mast.Structure.Tree

/-!
# The saved document

How the state is written to `state.json` and read back: the serialisation contract of
`model.rs`, with its names. A structure is an object, an enumeration without data is a
name, and one with data is an object with a `type`. A field of an optional type may be
missing, and fields that are not known are skipped. Structures and enumerations with data
are read from arrays too, which are never written.

`serde_json` writes and parses the text; here a document is its parsed value.

Results:
1. `fromValue_toValue`: a state whose numbers are finite is read back from its document.
2. `fromContent_eq`: a tree is read from its tag and its fields.
3. `tab_of_fromValue`: a tab that is read was one of the tabs of the document.
4. `finite_of_fromValue`: a position that is read from a document is finite.
-/

namespace Mast

open Json Json.Value

/-- `PERSIST_VERSION` -/
def persistVersion : UInt32 := 1

/-- The envelope of a saved state. -/
structure PersistedState where
  version : UInt32
  state : AppState
deriving DecidableEq

/-! ## Writing -/

def AgentStatus.names : List (String × AgentStatus) :=
  [("running", .running), ("needsInput", .needsInput), ("idle", .idle)]

def AgentStatus.toValue : AgentStatus → Value
  | .running => .string "running"
  | .needsInput => .string "needsInput"
  | .idle => .string "idle"

def NotificationState.names : List (String × NotificationState) :=
  [("none", .none), ("unread", .unread)]

def NotificationState.toValue : NotificationState → Value
  | .none => .string "none"
  | .unread => .string "unread"

def SplitDirection.names : List (String × SplitDirection) :=
  [("horizontal", .horizontal), ("vertical", .vertical)]

def SplitDirection.toValue : SplitDirection → Value
  | .horizontal => .string "horizontal"
  | .vertical => .string "vertical"

def TerminalStatus.toValue : TerminalStatus → Value
  | .running => .ofFields [("type", .string "running")]
  | .exited code endedAtMs => .ofFields
      [("type", .string "exited"), ("code", .ofOption (fun c => .ofUInt64 c.toUInt64) code),
        ("endedAtMs", .ofOption .ofUInt64 endedAtMs)]
  | .notStarted => .ofFields [("type", .string "notStarted")]

def TabKind.toValue : TabKind → Value
  | .terminal ptySession status cwd => .ofFields
      [("type", .string "terminal"),
        ("ptySession", .ofOption (fun s => .ofUInt64 s.toUInt64) ptySession),
        ("status", status.toValue), ("cwd", .ofOption .string cwd)]
  | .folderBrowser path => .ofFields [("type", .string "folderBrowser"), ("path", .string path)]
  | .changesViewer path => .ofFields [("type", .string "changesViewer"), ("path", .string path)]
  | .textViewer path scrollTop => .ofFields
      [("type", .string "textViewer"), ("path", .string path), ("scrollTop", .ofF64 scrollTop)]
  | .markdownViewer path scrollTop => .ofFields
      [("type", .string "markdownViewer"), ("path", .string path),
        ("scrollTop", .ofF64 scrollTop)]

def Tab.toValue (t : Tab) : Value := .ofFields
  [("id", .ofUInt64 t.id.val), ("title", .string t.title), ("kind", t.kind.toValue),
    ("notification", t.notification.toValue),
    ("lastActivityMs", .ofOption .ofUInt64 t.lastActivityMs)]

def Pane.toValue (p : Pane) : Value := .ofFields
  [("id", .ofUInt64 p.id.val), ("tabs", .array (p.tabs.map Tab.toValue)),
    ("activeTab", .ofOption (fun id => .ofUInt64 id.val) p.activeTab)]

def SplitTree.toValue : SplitTree → Value
  | .leaf pane => .ofFields [("type", .string "leaf"), ("pane", .ofUInt64 pane.val)]
  | .split id direction ratio first second => .ofFields
      [("type", .string "split"), ("id", .ofUInt64 id.val), ("direction", direction.toValue),
        ("ratio", .ofF64 ratio), ("first", first.toValue), ("second", second.toValue)]

/-- The key of a pane: its number, as text. -/
def PaneId.toKey (id : PaneId) : String := id.val.toNat.repr

/-- An agent status without a source leaves the field out. -/
def Workspace.toValue (ws : Workspace) : Value := .ofFields
  ([("id", .ofUInt64 ws.id.val), ("name", .string ws.name),
      ("rootPath", .ofOption .string ws.rootPath), ("distro", .ofOption .string ws.distro),
      ("gitBranch", .ofOption .string ws.gitBranch), ("gitDirty", .ofOption .bool ws.gitDirty),
      ("layout", ws.layout.toValue),
      ("panes", .ofFields (ws.panes.entries.map fun e => (e.1.toKey, e.2.toValue))),
      ("activePane", .ofUInt64 ws.activePane.val), ("agentStatus", ws.agentStatus.toValue),
      ("lastAgentMessage", .ofOption .string ws.lastAgentMessage)] ++
    match ws.agentStatusSource with
    | some tab => [("agentStatusSource", .ofUInt64 tab.val)]
    | none => [])

def AppState.toValue (s : AppState) : Value := .ofFields
  [("workspaces", .array (s.workspaces.map Workspace.toValue)),
    ("activeWorkspace", .ofOption (fun id => .ofUInt64 id.val) s.activeWorkspace),
    ("nextId", .ofUInt64 s.nextId), ("revision", .ofUInt64 s.revision)]

def PersistedState.toValue (p : PersistedState) : Value := .ofFields
  [("version", .ofUInt64 p.version.toUInt64), ("state", p.state.toValue)]

/-! ## Reading -/

def WorkspaceId.fromValue (v : Value) : Option WorkspaceId := (asUInt64 v).map .mk

def PaneId.fromValue (v : Value) : Option PaneId := (asUInt64 v).map .mk

def TabId.fromValue (v : Value) : Option TabId := (asUInt64 v).map .mk

def SplitId.fromValue (v : Value) : Option SplitId := (asUInt64 v).map .mk

def PaneId.fromKey (key : String) : Option PaneId := (asKey key).map .mk

/-- A status is inside of a tab's kind. -/
def TerminalStatus.fromValue (v : Value) : Option TerminalStatus := do
  let (tag, content) ← tagged (asTag ["running", "exited", "notStarted"]) v
  match tag with
  | "running" => asStruct [] 0 (fun _ => some .running) content
  | "exited" =>
    asStruct ["code", "endedAtMs"] 1
      (fun v => do
        some (.exited (← fieldOption "code" asUInt32 v) (← fieldOption "endedAtMs" asUInt64 v)))
      content
  | "notStarted" => asStruct [] 0 (fun _ => some .notStarted) content
  | _ => none

def TabKind.fromValue (v : Value) : Option TabKind := do
  let (tag, content) ← tagged asString v
  match tag with
  | "terminal" =>
    asStruct ["ptySession", "status", "cwd"] 0
      (fun v => do
        some (.terminal (← fieldOption "ptySession" asUInt32 v)
          (← field "status" TerminalStatus.fromValue v) (← fieldOption "cwd" asString v)))
      content
  | "folderBrowser" =>
    asStruct ["path"] 0 (fun v => do some (.folderBrowser (← field "path" asString v))) content
  | "changesViewer" =>
    asStruct ["path"] 0 (fun v => do some (.changesViewer (← field "path" asString v))) content
  | "textViewer" =>
    asStruct ["path", "scrollTop"] 0
      (fun v => do
        some (.textViewer (← field "path" asString v) (← field "scrollTop" asF64 v)))
      content
  | "markdownViewer" =>
    asStruct ["path", "scrollTop"] 0
      (fun v => do
        some (.markdownViewer (← field "path" asString v) (← field "scrollTop" asF64 v)))
      content
  | _ => none

def Tab.fromFields (v : Value) : Option Tab := do
  some
    { id := ← field "id" TabId.fromValue v
      title := ← field "title" asString v
      kind := ← field "kind" TabKind.fromValue v
      notification := ← field "notification" (asName NotificationState.names) v
      lastActivityMs := ← fieldOption "lastActivityMs" asUInt64 v }

def Tab.fromValue : Value → Option Tab :=
  asStruct ["id", "title", "kind", "notification", "lastActivityMs"] 0 Tab.fromFields

def Pane.fromFields (v : Value) : Option Pane := do
  some
    { id := ← field "id" PaneId.fromValue v
      tabs := ← field "tabs" (asList Tab.fromValue) v
      activeTab := ← fieldOption "activeTab" TabId.fromValue v }

def Pane.fromValue : Value → Option Pane :=
  asStruct ["id", "tabs", "activeTab"] 0 Pane.fromFields

/-- A tree from its tag and its fields, where `subtrees` are the trees that each of the fields
stands for. -/
def SplitTree.fromFields (tag : String) (v : Value)
    (subtrees : List (String × Option SplitTree)) : Option SplitTree := do
  match tag with
  | "leaf" => some (.leaf (← field "pane" PaneId.fromValue v))
  | "split" =>
    some (.split (← field "id" SplitId.fromValue v)
      (← field "direction" (asBufferedName SplitDirection.names) v) (← field "ratio" asF64 v)
      (← (subtrees.lookup "first").join) (← (subtrees.lookup "second").join))
  | _ => none

def SplitTree.fieldNames : String → List String
  | "leaf" => ["pane"]
  | "split" => ["id", "direction", "ratio", "first", "second"]
  | _ => []

mutual

/-- A tree inside of another. Its tag may be a number. -/
def SplitTree.fromContent : Value → Option SplitTree
  | .object fields => do
    let tag ← field "type" (asTag ["leaf", "split"]) (.object fields)
    SplitTree.fromFields tag (.object fields) (SplitTree.subtrees fields)
  | .array (first :: items) => do
    let tag ← asTag ["leaf", "split"] first
    let fields ← fieldsOf (SplitTree.fieldNames tag) 0 (.array items)
    SplitTree.fromFields tag fields ((SplitTree.fieldNames tag).zip (SplitTree.itemTrees items))
  | _ => none

def SplitTree.subtrees : List (String × Value) → List (String × Option SplitTree)
  | [] => []
  | (key, v) :: rest => (key, SplitTree.fromContent v) :: SplitTree.subtrees rest

def SplitTree.itemTrees : List Value → List (Option SplitTree)
  | [] => []
  | v :: rest => SplitTree.fromContent v :: SplitTree.itemTrees rest

end

/-- The tag of a layout is a name. -/
def SplitTree.fromValue (v : Value) : Option SplitTree :=
  (tagged asString v).bind fun _ => SplitTree.fromContent v

def Workspace.fromFields (v : Value) : Option Workspace := do
  some
    { id := ← field "id" WorkspaceId.fromValue v
      name := ← field "name" asString v
      rootPath := ← fieldOption "rootPath" asString v
      distro := ← fieldOption "distro" asString v
      gitBranch := ← fieldOption "gitBranch" asString v
      gitDirty := ← fieldOption "gitDirty" asBool v
      layout := ← field "layout" SplitTree.fromValue v
      panes := ← field "panes" (keyed PaneId.fromKey Pane.fromValue) v
      activePane := ← field "activePane" PaneId.fromValue v
      agentStatus := ← field "agentStatus" (asName AgentStatus.names) v
      lastAgentMessage := ← fieldOption "lastAgentMessage" asString v
      agentStatusSource := ← fieldOption "agentStatusSource" TabId.fromValue v }

def Workspace.fromValue : Value → Option Workspace :=
  asStruct ["id", "name", "rootPath", "distro", "gitBranch", "gitDirty", "layout", "panes",
    "activePane", "agentStatus", "lastAgentMessage", "agentStatusSource"] 1 Workspace.fromFields

def AppState.fromFields (v : Value) : Option AppState := do
  some
    { workspaces := ← field "workspaces" (asList Workspace.fromValue) v
      activeWorkspace := ← fieldOption "activeWorkspace" WorkspaceId.fromValue v
      nextId := ← field "nextId" asUInt64 v
      revision := ← field "revision" asUInt64 v }

def AppState.fromValue : Value → Option AppState :=
  asStruct ["workspaces", "activeWorkspace", "nextId", "revision"] 0 AppState.fromFields

def PersistedState.fromFields (v : Value) : Option PersistedState := do
  some
    { version := ← field "version" asUInt32 v
      state := ← field "state" AppState.fromValue v }

def PersistedState.fromValue : Value → Option PersistedState :=
  asStruct ["version", "state"] 0 PersistedState.fromFields

/-! ## Parts of a document -/

/-- The workspaces of a document. -/
def workspacesOf (document : Value) : List Value :=
  (document.get "state").toList.flatMap fun state =>
    (state.get "workspaces").toList.flatMap items

/-- The panes of the workspaces of a document. -/
def panesOf (document : Value) : List Value :=
  (workspacesOf document).flatMap fun ws => (ws.get "panes").toList.flatMap values

/-- The tabs of a pane of a document. -/
def tabsOf (pane : Value) : List Value := (pane.get "tabs").toList.flatMap items

/-- The state, the workspaces, the panes and the tabs are not written as arrays. -/
structure InObjects (document : Value) : Prop where
  state : ∀ state ∈ document.get "state", state.isArray = false
  workspaces : ∀ ws ∈ workspacesOf document, ws.isArray = false
  panes : ∀ pane ∈ panesOf document, pane.isArray = false
  tabs : ∀ pane ∈ panesOf document, ∀ tab ∈ tabsOf pane, tab.isArray = false

/-! ## Documents are read back -/

/-- The position in a viewer is a number. -/
def TabKind.Finite : TabKind → Prop
  | .textViewer _ scrollTop | .markdownViewer _ scrollTop => scrollTop.isFinite = true
  | _ => True

namespace DocumentLemmas

open JsonLemmas

@[simp] theorem uint64_option (a : Option UInt64) :
    asOption asUInt64 (ofOption ofUInt64 a) = some a :=
  asOption_ofOption asUInt64_ofUInt64 rfl a

@[simp] theorem uint32_option (a : Option UInt32) :
    asOption asUInt32 (ofOption (fun n => ofUInt64 n.toUInt64) a) = some a :=
  asOption_ofOption asUInt32_ofUInt64 rfl a

@[simp] theorem string_option (a : Option String) :
    asOption asString (ofOption .string a) = some a :=
  asOption_ofOption (f := asString) (fun _ => rfl) rfl a

@[simp] theorem bool_option (a : Option Bool) : asOption asBool (ofOption .bool a) = some a :=
  asOption_ofOption (f := asBool) (fun _ => rfl) rfl a

@[simp] theorem tabId_option (a : Option TabId) :
    asOption TabId.fromValue (ofOption (fun id => ofUInt64 id.val) a) = some a :=
  asOption_ofOption (f := TabId.fromValue) (fun _ => rfl) rfl a

@[simp] theorem workspaceId_option (a : Option WorkspaceId) :
    asOption WorkspaceId.fromValue (ofOption (fun id => ofUInt64 id.val) a) = some a :=
  asOption_ofOption (f := WorkspaceId.fromValue) (fun _ => rfl) rfl a

theorem fromValue_terminalStatus (status : TerminalStatus) :
    TerminalStatus.fromValue status.toValue = some status := by
  cases status <;> simp [TerminalStatus.toValue, TerminalStatus.fromValue, tagged_ofFields, field,
    fieldOption, get_ofFields, List.lookup_cons, asTag]

theorem fromValue_tabKind {kind : TabKind} (h : kind.Finite) :
    TabKind.fromValue kind.toValue = some kind := by
  cases kind with
  | terminal ptySession status cwd =>
    simp [TabKind.toValue, TabKind.fromValue, tagged_ofFields, field, fieldOption, get_ofFields,
      List.lookup_cons, asString, fromValue_terminalStatus]
  | folderBrowser path | changesViewer path =>
    simp [TabKind.toValue, TabKind.fromValue, tagged_ofFields, field, get_ofFields,
      List.lookup_cons, asString]
  | textViewer path scrollTop | markdownViewer path scrollTop =>
    have hfinite : scrollTop.isFinite = true := h
    simp [TabKind.toValue, TabKind.fromValue, tagged_ofFields, field, get_ofFields,
      List.lookup_cons, asString, asF64_ofF64 hfinite]

theorem asName_notification (n : NotificationState) :
    asName NotificationState.names n.toValue = some n := by
  cases n <;> rfl

theorem asName_agentStatus (status : AgentStatus) :
    asName AgentStatus.names status.toValue = some status := by
  cases status <;> rfl

theorem asBufferedName_direction (d : SplitDirection) :
    asBufferedName SplitDirection.names d.toValue = some d := by
  cases d <;> rfl

theorem fromValue_tab {t : Tab} (h : t.kind.Finite) : Tab.fromValue t.toValue = some t := by
  simp [Tab.toValue, Tab.fromValue, Tab.fromFields, field, fieldOption, get_ofFields,
    List.lookup_cons, asString, TabId.fromValue, fromValue_tabKind h, asName_notification]

theorem fromValue_pane {p : Pane} (h : ∀ t ∈ p.tabs, t.kind.Finite) :
    Pane.fromValue p.toValue = some p := by
  have htabs : (p.tabs.map Tab.toValue).mapM Tab.fromValue = some p.tabs :=
    mapM_eq_some_of_forall fun t ht => fromValue_tab (h t ht)
  simp [Pane.toValue, Pane.fromValue, Pane.fromFields, field, fieldOption, get_ofFields,
    List.lookup_cons, asList, PaneId.fromValue, htabs]

theorem lookup_subtrees (fields : List (String × Value)) (key : String) :
    ((SplitTree.subtrees fields).lookup key).join =
      field key SplitTree.fromContent (.object fields) := by
  induction fields with
  | nil => rfl
  | cons e rest ih =>
    obtain ⟨k, v⟩ := e
    rw [SplitTree.subtrees, List.lookup_cons]
    by_cases h : k = key
    · simp [field, Value.get, h]
    · have hne : (key == k) = false := beq_eq_false_iff_ne.mpr (Ne.symm h)
      simpa [field, Value.get, h, hne] using ih

theorem subtrees_zip (names : List String) (items : List Value) :
    names.zip (SplitTree.itemTrees items) = SplitTree.subtrees (names.zip items) := by
  induction names generalizing items with
  | nil => rfl
  | cons name names ih =>
    cases items with
    | nil => rfl
    | cons v rest =>
      rw [SplitTree.itemTrees, List.zip_cons_cons, List.zip_cons_cons, SplitTree.subtrees, ih]

/-- A tree from its tag and its fields. -/
def treeOfFields (tag : String) (v : Value) : Option SplitTree :=
  match tag with
  | "leaf" => (field "pane" PaneId.fromValue v).map .leaf
  | "split" => do
    some (.split (← field "id" SplitId.fromValue v)
      (← field "direction" (asBufferedName SplitDirection.names) v) (← field "ratio" asF64 v)
      (← field "first" SplitTree.fromContent v) (← field "second" SplitTree.fromContent v))
  | _ => none

theorem fromFields_subtrees (tag : String) (fields : List (String × Value)) :
    SplitTree.fromFields tag (.object fields) (SplitTree.subtrees fields) =
      treeOfFields tag (.object fields) := by
  unfold SplitTree.fromFields treeOfFields
  split
  · cases field "pane" PaneId.fromValue (.object fields) <;> rfl
  · rw [lookup_subtrees, lookup_subtrees]
  · rfl

/-- A tree is read from its tag and the fields that go with it. -/
theorem fromContent_eq (v : Value) : SplitTree.fromContent v =
    (tagged (asTag ["leaf", "split"]) v).bind fun e =>
      asStruct (SplitTree.fieldNames e.1) 0 (treeOfFields e.1) e.2 := by
  cases v with
  | object fields =>
    rw [SplitTree.fromContent, tagged, Option.bind_map]
    exact Option.bind_congr fun tag _ => fromFields_subtrees tag fields
  | array items =>
    cases items with
    | nil => rfl
    | cons first items =>
      rw [SplitTree.fromContent, tagged, Option.bind_map]
      refine Option.bind_congr fun tag _ => ?_
      rw [Function.comp_apply, asStruct, subtrees_zip]
      unfold fieldsOf
      split
      · next heq =>
        cases heq
        split
        · exact fromFields_subtrees tag _
        · rfl
      · next hne => exact absurd rfl (hne _)
  | _ => rfl

example : SplitTree.fromValue (.array [.string "leaf", ofUInt64 2]) = some (.leaf ⟨2⟩) := rfl

theorem fromContent_splitTree {t : SplitTree} (h : ∀ r ∈ t.ratios, r.isFinite = true) :
    SplitTree.fromContent t.toValue = some t := by
  induction t with
  | leaf pane =>
    rw [fromContent_eq]
    simp [SplitTree.toValue, tagged_ofFields, treeOfFields, field, get_ofFields, List.lookup_cons,
      asTag, PaneId.fromValue]
  | split id direction ratio first second ihfirst ihsecond =>
    have hratio : ratio.isFinite = true := h ratio List.mem_cons_self
    have hfirst := ihfirst fun r hr => h r (List.mem_cons_of_mem _ (List.mem_append_left _ hr))
    have hsecond := ihsecond fun r hr => h r (List.mem_cons_of_mem _ (List.mem_append_right _ hr))
    rw [fromContent_eq]
    simp [SplitTree.toValue, tagged_ofFields, treeOfFields, field, get_ofFields, List.lookup_cons,
      asTag, SplitId.fromValue, asBufferedName_direction, asF64_ofF64 hratio, hfirst, hsecond]

theorem fromValue_splitTree {t : SplitTree} (h : ∀ r ∈ t.ratios, r.isFinite = true) :
    SplitTree.fromValue t.toValue = some t := by
  obtain ⟨e, htag⟩ : ∃ e, tagged asString t.toValue = some e := by
    cases t <;> simp [SplitTree.toValue, tagged_ofFields, field, get_ofFields, asString]
  rw [SplitTree.fromValue, htag, Option.bind_some, fromContent_splitTree h]

theorem fromValue_workspace {ws : Workspace} (hlayout : ∀ r ∈ ws.layout.ratios, r.isFinite = true)
    (htabs : ∀ e ∈ ws.panes.entries, ∀ t ∈ e.2.tabs, t.kind.Finite) :
    Workspace.fromValue ws.toValue = some ws := by
  have hpanes : keyed PaneId.fromKey Pane.fromValue
      (.ofFields (ws.panes.entries.map fun e => (e.1.toKey, e.2.toValue))) = some ws.panes := by
    refine keyed_ofFields (fun k => ?_) fun e he => fromValue_pane (htabs e he)
    rw [PaneId.fromKey, PaneId.toKey, asKey_repr]
    rfl
  have hsource (tab : TabId) : asOption TabId.fromValue (ofUInt64 tab.val) = some (some tab) := rfl
  obtain ⟨_, _, _, _, _, _, layout, panes, _, _, _, source⟩ := ws
  cases source <;> simp [Workspace.toValue, Workspace.fromValue, Workspace.fromFields, field,
    fieldOption, get_ofFields, List.lookup_cons, asString, WorkspaceId.fromValue, PaneId.fromValue,
    fromValue_splitTree hlayout, hpanes, asName_agentStatus, hsource]

/-- A saved state is read back from its document. -/
theorem fromValue_toValue {version : UInt32} {s : AppState}
    (hratios : ∀ ws ∈ s.workspaces, ∀ r ∈ ws.layout.ratios, r.isFinite = true)
    (hkinds : ∀ t ∈ s.tabs, t.kind.Finite) :
    PersistedState.fromValue (PersistedState.toValue ⟨version, s⟩) = some ⟨version, s⟩ := by
  have hworkspaces : (s.workspaces.map Workspace.toValue).mapM Workspace.fromValue =
      some s.workspaces := by
    refine mapM_eq_some_of_forall fun ws hws => fromValue_workspace (hratios ws hws) ?_
    intro e he t ht
    refine hkinds t (List.mem_flatMap.mpr ⟨ws, hws, List.mem_flatMap.mpr ⟨e.2, ?_, ht⟩⟩)
    exact List.mem_map_of_mem he
  have hstate : AppState.fromValue s.toValue = some s := by
    simp [AppState.toValue, AppState.fromValue, AppState.fromFields, field, fieldOption,
      get_ofFields, List.lookup_cons, asList, hworkspaces]
  simp [PersistedState.toValue, PersistedState.fromValue, PersistedState.fromFields, field,
    get_ofFields, List.lookup_cons, hstate, asUInt32_ofUInt64]

/-! ## What is read -/

theorem tab_eq_some {v : Value} {t : Tab} : Tab.fromFields v = some t ↔
    field "id" TabId.fromValue v = some t.id ∧ field "title" asString v = some t.title ∧
      field "kind" TabKind.fromValue v = some t.kind ∧
      field "notification" (asName NotificationState.names) v = some t.notification ∧
      fieldOption "lastActivityMs" asUInt64 v = some t.lastActivityMs := by
  obtain ⟨id, title, kind, notification, lastActivityMs⟩ := t
  simp only [Tab.fromFields, Option.bind_eq_bind, Option.bind_eq_some_iff, Option.some_inj,
    Tab.mk.injEq]
  constructor
  · rintro ⟨_, hid, _, htitle, _, hkind, _, hread, _, hactivity, rfl, rfl, rfl, rfl, rfl⟩
    exact ⟨hid, htitle, hkind, hread, hactivity⟩
  · rintro ⟨hid, htitle, hkind, hread, hactivity⟩
    exact ⟨_, hid, _, htitle, _, hkind, _, hread, _, hactivity, rfl, rfl, rfl, rfl, rfl⟩

theorem pane_eq_some {v : Value} {p : Pane} : Pane.fromFields v = some p ↔
    field "id" PaneId.fromValue v = some p.id ∧
      field "tabs" (asList Tab.fromValue) v = some p.tabs ∧
      fieldOption "activeTab" TabId.fromValue v = some p.activeTab := by
  obtain ⟨id, tabs, activeTab⟩ := p
  simp only [Pane.fromFields, Option.bind_eq_bind, Option.bind_eq_some_iff, Option.some_inj,
    Pane.mk.injEq]
  constructor
  · rintro ⟨_, hid, _, htabs, _, hactive, rfl, rfl, rfl⟩
    exact ⟨hid, htabs, hactive⟩
  · rintro ⟨hid, htabs, hactive⟩
    exact ⟨_, hid, _, htabs, _, hactive, rfl, rfl, rfl⟩

theorem panes_of_workspace {v : Value} {ws : Workspace} (h : Workspace.fromFields v = some ws) :
    field "panes" (keyed PaneId.fromKey Pane.fromValue) v = some ws.panes := by
  -- The fields are read one after another, and the panes are the eighth.
  iterate 7 obtain ⟨_, -, h⟩ := Option.bind_eq_some_iff.mp h
  obtain ⟨panes, hpanes, h⟩ := Option.bind_eq_some_iff.mp h
  iterate 4 obtain ⟨_, -, h⟩ := Option.bind_eq_some_iff.mp h
  obtain rfl := Option.some_inj.mp h
  exact hpanes

theorem workspaces_of_appState {v : Value} {s : AppState} (h : AppState.fromFields v = some s) :
    field "workspaces" (asList Workspace.fromValue) v = some s.workspaces := by
  obtain ⟨workspaces, hworkspaces, h⟩ := Option.bind_eq_some_iff.mp h
  iterate 3 obtain ⟨_, -, h⟩ := Option.bind_eq_some_iff.mp h
  obtain rfl := Option.some_inj.mp h
  exact hworkspaces

theorem state_of_persisted {v : Value} {p : PersistedState}
    (h : PersistedState.fromFields v = some p) :
    field "state" AppState.fromValue v = some p.state := by
  obtain ⟨_, -, h⟩ := Option.bind_eq_some_iff.mp h
  obtain ⟨state, hstate, h⟩ := Option.bind_eq_some_iff.mp h
  obtain rfl := Option.some_inj.mp h
  exact hstate

theorem mem_tabs {s : AppState} {t : Tab} (h : t ∈ s.tabs) :
    ∃ ws ∈ s.workspaces, ∃ e ∈ ws.panes.entries, t ∈ e.2.tabs := by
  obtain ⟨ws, hws, htab⟩ := List.mem_flatMap.mp h
  obtain ⟨p, hp, ht⟩ := List.mem_flatMap.mp htab
  obtain ⟨e, he, rfl⟩ := List.mem_map.mp hp
  exact ⟨ws, hws, e, he, ht⟩

/-- A tab that is read from a document was one of its tabs. -/
theorem tab_of_fromValue {v : Value} {p : PersistedState} (hv : v.isArray = false)
    (hobjects : InObjects v) (h : PersistedState.fromValue v = some p) {t : Tab}
    (ht : t ∈ p.state.tabs) :
    ∃ pane ∈ panesOf v, ∃ tab ∈ tabsOf pane, Tab.fromFields tab = some t := by
  obtain ⟨ws, hws, e, he, ht⟩ := mem_tabs ht
  rw [PersistedState.fromValue, asStruct_of_not_array hv] at h
  obtain ⟨state, hget, hstate⟩ := field_eq_some.mp (state_of_persisted h)
  rw [AppState.fromValue, asStruct_of_not_array (hobjects.state state hget)] at hstate
  obtain ⟨list, hlist, hread⟩ := field_eq_some.mp (workspaces_of_appState hstate)
  obtain ⟨wsValue, hitem, hwsRead⟩ := mem_of_asList hread hws
  have hplace : wsValue ∈ workspacesOf v := by
    simp only [workspacesOf, List.mem_flatMap, Option.mem_toList]
    exact ⟨state, hget, list, hlist, hitem⟩
  rw [Workspace.fromValue, asStruct_of_not_array (hobjects.workspaces _ hplace)] at hwsRead
  obtain ⟨map, hmap, hpanes⟩ := field_eq_some.mp (panes_of_workspace hwsRead)
  obtain ⟨pane, hvalue, hpane⟩ := mem_of_keyed hpanes he
  have hpaneOf : pane ∈ panesOf v := by
    simp only [panesOf, List.mem_flatMap, Option.mem_toList]
    exact ⟨wsValue, hplace, map, hmap, hvalue⟩
  rw [Pane.fromValue, asStruct_of_not_array (hobjects.panes _ hpaneOf)] at hpane
  obtain ⟨tabs, htabs, hread⟩ := field_eq_some.mp (pane_eq_some.mp hpane).2.1
  obtain ⟨tab, hitem, htab⟩ := mem_of_asList hread ht
  have htabOf : tab ∈ tabsOf pane := by
    simp only [tabsOf, List.mem_flatMap, Option.mem_toList]
    exact ⟨tabs, htabs, hitem⟩
  rw [Tab.fromValue, asStruct_of_not_array (hobjects.tabs _ hpaneOf _ htabOf)] at htab
  exact ⟨pane, hpaneOf, tab, htabOf, htab⟩

/-! ### Positions -/

theorem finite_of_tabKind {v : Value} {kind : TabKind} (h : TabKind.fromValue v = some kind) :
    kind.Finite := by
  have hscroll {v : Value} {scrollTop : F64} (hfield : field "scrollTop" asF64 v = some scrollTop) :
      scrollTop.isFinite = true := by
    obtain ⟨w, -, hw⟩ := field_eq_some.mp hfield
    exact isFinite_of_asF64 hw
  simp only [TabKind.fromValue, Option.bind_eq_bind, Option.bind_eq_some_iff] at h
  obtain ⟨⟨name, content⟩, -, h⟩ := h
  dsimp only at h
  split at h
  case h_6 => cases h
  all_goals
    obtain ⟨_, h⟩ := fields_of_asStruct h
    simp only [Option.bind_eq_some_iff, Option.some_inj] at h
  · obtain ⟨_, -, _, -, _, -, rfl⟩ := h
    trivial
  · obtain ⟨_, -, rfl⟩ := h
    trivial
  · obtain ⟨_, -, rfl⟩ := h
    trivial
  · obtain ⟨_, -, _, hfield, rfl⟩ := h
    exact hscroll hfield
  · obtain ⟨_, -, _, hfield, rfl⟩ := h
    exact hscroll hfield

/-- However a document is written, the positions that are read are finite. -/
theorem finite_of_fromValue {v : Value} {p : PersistedState}
    (h : PersistedState.fromValue v = some p) {t : Tab} (ht : t ∈ p.state.tabs) :
    t.kind.Finite := by
  obtain ⟨ws, hws, e, he, ht⟩ := mem_tabs ht
  obtain ⟨_, h⟩ := fields_of_asStruct h
  obtain ⟨_, -, hstate⟩ := field_eq_some.mp (state_of_persisted h)
  obtain ⟨_, hstate⟩ := fields_of_asStruct hstate
  obtain ⟨_, -, hread⟩ := field_eq_some.mp (workspaces_of_appState hstate)
  obtain ⟨_, -, hws⟩ := mem_of_asList hread hws
  obtain ⟨_, hws⟩ := fields_of_asStruct hws
  obtain ⟨_, -, hpanes⟩ := field_eq_some.mp (panes_of_workspace hws)
  obtain ⟨_, -, hpane⟩ := mem_of_keyed hpanes he
  obtain ⟨_, hpane⟩ := fields_of_asStruct hpane
  obtain ⟨_, -, hread⟩ := field_eq_some.mp (pane_eq_some.mp hpane).2.1
  obtain ⟨_, -, htab⟩ := mem_of_asList hread ht
  obtain ⟨_, htab⟩ := fields_of_asStruct htab
  obtain ⟨_, -, hkind⟩ := field_eq_some.mp (tab_eq_some.mp htab).2.2.1
  exact finite_of_tabKind hkind

end DocumentLemmas

end Mast
