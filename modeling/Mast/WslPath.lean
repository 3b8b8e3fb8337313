import Mathlib.Data.List.Basic

/-!
# Linux path forms

The form check of `wslpath.rs` that viewer paths pass before a Windows path is
built from them. It looks at the text only.
-/

namespace Mast

/-- Why `validate_linux_path` rejects a path. -/
inductive PathError
  | notAbsolute (path : String)
  | nul
  | backslash (path : String)
  | dotComponent (path : String)
  | colon (component : String)
  | trailing (component : String)
deriving DecidableEq, Repr

/-- The text of the rejection. `quote` is the debug form of a string. -/
def PathError.message (quote : String → String) : PathError → String
  | .notAbsolute path => s!"path must be absolute: {quote path}"
  | .nul => "path must not contain a NUL byte"
  | .backslash path => s!"path must not contain a backslash (Windows separator): {quote path}"
  | .dotComponent path => s!"path must not contain a '.' or '..' component: {quote path}"
  | .colon component =>
    s!"path component must not contain ':' (Windows stream syntax): {quote component}"
  | .trailing component =>
    s!"path component must not end with a dot or space (Win32 truncates it): {quote component}"

/-- The parts of a path between slashes, empty ones included. -/
def pathComponents (path : String) : List (List Char) := path.toList.splitOn '/'

/-- The test of one component. An empty one (`//`, a trailing `/`) passes. -/
def validateComponent (path : String) (component : List Char) : Except PathError Unit :=
  if component = [] then .ok ()
  else if component = ['.'] ∨ component = ['.', '.'] then .error (.dotComponent path)
  else if ':' ∈ component then .error (.colon (String.ofList component))
  else if component.getLast? = some '.' ∨ component.getLast? = some ' ' then
    .error (.trailing (String.ofList component))
  else .ok ()

def validateLinuxPath (path : String) : Except PathError Unit :=
  if path.toList.head? ≠ some '/' then .error (.notAbsolute path)
  else if Char.ofNat 0 ∈ path.toList then .error .nul
  else if '\\' ∈ path.toList then .error (.backslash path)
  else (pathComponents path).forM (validateComponent path)

end Mast
