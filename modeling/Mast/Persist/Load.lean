import Mast.Persist.Document

/-!
# Loading and saving

`load` and `save_atomic` of `persist.rs`. The file is read, parsed, checked for its
version, relieved of tab kinds that this version does not know, and deserialised; what
becomes of the state then is `restore`. Every failure is a fresh start with its reason.

Reading and writing JSON text, and the deserialisation of a parsed document, are
parameters: `toVecPretty`, `fromSlice` and `fromValue`. Files that are moved out of the
way, and the texts of errors, are left out.
-/

namespace Mast

open Json Json.Value

/-! ## Tabs of an unknown kind -/

def isKnownTabKind (kind : String) : Bool :=
  kind ∈ ["terminal", "folderBrowser", "textViewer", "markdownViewer", "changesViewer"]

/-- The kind that takes the place of an unknown one. -/
def terminalPlaceholderKind : Value := TabKind.toValue (.terminal none .running none)

/-- The kind of a tab, if it is not known. -/
def unknownKind (tab : Value) : Option String :=
  ((tab.get "kind").bind fun kind => (kind.get "type").bind asString).filter fun kind =>
    !isKnownTabKind kind

def replaceTabKind (tab : Value) : Value × List RemovedUnknownTab :=
  match unknownKind tab, (tab.get "id").bind asUInt64 with
  | some kind, some id =>
    ((atField "kind" (fun _ => (terminalPlaceholderKind, ([] : List Unit))) tab).1, [⟨id, kind⟩])
  | _, _ => (tab, [])

/-- Change every pane of a document. -/
def eachPane {α : Type} (f : Value → Value × List α) : Value → Value × List α :=
  atField "state" (atField "workspaces" (eachItem (atField "panes" (eachField f))))

/-- Change every tab of a pane. -/
def eachTab {α : Type} (f : Value → Value × List α) : Value → Value × List α :=
  atField "tabs" (eachItem f)

/-- Only the kinds are replaced: everything else in such a tab, and the structure of the
app, is deserialised and validated as it is. -/
def replaceUnknownTabKinds : Value → Value × List RemovedUnknownTab :=
  eachPane (eachTab replaceTabKind)

/-! ## Loading -/

inductive FileContent
  | notFound
  | unreadable (error : String)
  | bytes (content : List UInt8)

/-- Why a file is corrupt. -/
inductive CorruptError
  | read (error : String)
  | parse
  | version
  | deserialize
  | invariant (violation : AppViolation)
  | noNextId (maxId : UInt64)
deriving DecidableEq, Repr

inductive FreshReason
  | noFile
  | corrupt (error : CorruptError)
  | unsupportedVersion (found : UInt64)
deriving DecidableEq, Repr

inductive LoadOutcome
  | restored (state : AppState) (repairs : List Repair)
  | fresh (reason : FreshReason)
deriving DecidableEq

/-- `load`, for a document that was parsed. -/
def loadDocument (fromValue : Value → Option PersistedState) (document : Value) : LoadOutcome :=
  match (document.get "version").bind asUInt64 with
  | none => .fresh (.corrupt .version)
  | some found =>
    if found ≠ persistVersion.toUInt64 then .fresh (.unsupportedVersion found)
    else
      let (compatibility, removed) := replaceUnknownTabKinds document
      match fromValue compatibility with
      | none => .fresh (.corrupt .deserialize)
      | some persisted =>
        match restore persisted.state removed with
        | .ok (state, repairs) => .restored state repairs
        | .error (.invariant violation) => .fresh (.corrupt (.invariant violation))
        | .error (.noNextId maxId) => .fresh (.corrupt (.noNextId maxId))

def load (fromSlice : List UInt8 → Option Value) (fromValue : Value → Option PersistedState) :
    FileContent → LoadOutcome
  | .notFound => .fresh .noFile
  | .unreadable error => .fresh (.corrupt (.read error))
  | .bytes content =>
    match fromSlice content with
    | none => .fresh (.corrupt .parse)
    | some document => loadDocument fromValue document

/-- The file after `save_atomic`. -/
def saveAtomic (toVecPretty : PersistedState → List UInt8) (state : AppState) : FileContent :=
  .bytes (toVecPretty ⟨persistVersion, state⟩)

namespace LoadLemmas

open JsonLemmas

variable {fromSlice : List UInt8 → Option Value} {fromValue : Value → Option PersistedState}

/-- What a document went through that was restored. -/
theorem loadDocument_restored {document : Value} {s : AppState} {repairs : List Repair} :
    loadDocument fromValue document = .restored s repairs ↔
      (document.get "version").bind asUInt64 = some persistVersion.toUInt64 ∧
      ∃ persisted, fromValue (replaceUnknownTabKinds document).1 = some persisted ∧
        restore persisted.state (replaceUnknownTabKinds document).2 = .ok (s, repairs) := by
  unfold loadDocument
  cases hversion : (document.get "version").bind asUInt64 with
  | none => simp
  | some found =>
    by_cases hfound : found = persistVersion.toUInt64
    · subst hfound
      simp only [ne_eq, not_true_eq_false, if_false, true_and]
      cases fromValue (replaceUnknownTabKinds document).1 with
      | none => simp
      | some persisted =>
        cases hrestore : restore persisted.state (replaceUnknownTabKinds document).2 with
        | ok result => simp [Prod.ext_iff, hrestore]
        | error e => cases e <;> simp [hrestore]
    · simp [hfound]

theorem load_restored {file : FileContent} {s : AppState} {repairs : List Repair} :
    load fromSlice fromValue file = .restored s repairs ↔
      ∃ bytes document, file = .bytes bytes ∧ fromSlice bytes = some document ∧
        loadDocument fromValue document = .restored s repairs := by
  cases file with
  | bytes content =>
    cases h : fromSlice content with
    | none => simp [load, h]
    | some document => simp [load, h]
  | _ => simp [load]

end LoadLemmas

end Mast
