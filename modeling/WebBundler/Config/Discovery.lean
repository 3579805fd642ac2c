import WebBundler.Config.Layers
import WebBundler.FileTree.Disk
import WebBundler.Toml.Parser
set_option autoImplicit false

/-!
# Config: finding the settings of a project

The settings file of a project is its `cube.toml`, and else its `package.json` if that has a
field `cube` that is not `null`.  A file named `package.json` is always read for that field, and
any other file as TOML.  Relative paths in the settings are seen from the project directory,
wherever the file lies.
-/

namespace WebBundler.Config

def settingsFile : HostPath := ⟨"cube.toml"⟩

def packageFile : String := "package.json"

def packageField : String := "cube"

/-- The settings file of a project directory. -/
def findFile (t : FileTree) (dir : HostPath) : Option HostPath :=
  let toml := dir.join settingsFile
  let package := dir.join ⟨packageFile⟩
  if t.isPresent toml then some toml
  else
    match t.text package with
    | .error _ => none
    | .ok text =>
      match (Json.parse? text).bind (Json.field? packageField) with
      | none => none
      | some .null => none
      | some _ => some package

/-- The settings in a package description. -/
def packageSection (t : FileTree) (file : HostPath) : Except ConfigError Json :=
  match t.text file with
  | .error e => .error (.disk e)
  | .ok text =>
    match Json.parse? text with
    | none => .error (.invalid packageFile "Invalid JSON: not one well-formed value")
    | some parsed =>
      match parsed.field? packageField with
      | none => .error (.invalid packageField "Add a 'cube' field to your package.json")
      | some (.obj fields) => .ok (.obj fields)
      | some _ => .error (.invalid packageField "The 'cube' field must be an object")

/-- The settings in a file, before those of the environment. -/
def fileLayer (t : FileTree) (file : HostPath) : Except ConfigError Json :=
  if file.fileName? = some packageFile then packageSection t file
  else
    match t.text file with
    | .error _ => .error unusable
    | .ok text =>
      match Toml.parse? text with
      | some j => .ok j
      | none => .error unusable

/-- The settings of a project directory from a given file. -/
def loadFrom (t : FileTree) (env : Environment) (dir file : HostPath) :
    Except ConfigError Config := do
  let layer ← fileLayer t file
  return (← ofLayers layer env).resolve dir

/-- The settings of a project directory from its own file. -/
def load (t : FileTree) (env : Environment) (dir : HostPath) : Except ConfigError Config :=
  match findFile t dir with
  | some file => loadFrom t env dir file
  | none => .error .notFound

/-- The settings of a project directory from its own file, or without one. -/
def loadOrDefault (t : FileTree) (env : Environment) (dir : HostPath) :
    Except ConfigError Config :=
  match findFile t dir with
  | some file => loadFrom t env dir file
  | none => do return (← ofLayers (.obj []) env).resolve dir

end WebBundler.Config
