import WebBundler.HostPath
import WebBundler.Text.Blank
import WebBundler.Json.Mismatch
set_option autoImplicit false

/-!
# Config: the settings of a project

`Config` holds the settings of a project.  They are read from a JSON value (`ofJson`), where
every field may be left out, and written as one (`toJson`), where the optional fields are left
out when they are not set.  `resolve` makes the paths among them absolute.
-/

namespace WebBundler

/-- How the modules of a smart build are written. -/
inductive EmitMode where
  /-- One file a module, laid out like the sources. -/
  | modules
  /-- One file a root, and one for the shared modules. -/
  | bundles
  deriving DecidableEq, Repr, Inhabited

namespace EmitMode

def name : EmitMode → String
  | .modules => "modules"
  | .bundles => "bundles"

/-- The mode as it is shown to a user. -/
def title : EmitMode → String
  | .modules => "Modules"
  | .bundles => "Bundles"

def names : List String := ["modules", "bundles"]

def ofName? (s : String) : Option EmitMode :=
  if s = "modules" then some .modules else if s = "bundles" then some .bundles else none

end EmitMode

/-- The settings of a project. -/
structure Config where
  /-- The project root, from which modules are named. -/
  root : HostPath
  /-- The directory that output is written to. -/
  dest : Option HostPath
  /-- The directory of third-party packages, relative to the root. -/
  dependencyDir : String
  /-- Modules that become roots even if something requires them. -/
  exportModules : List String
  /-- How many third-party references are followed at once. -/
  concurrency : Nat
  /-- How many files are visited at once; without bound when not set. -/
  walkConcurrency : Option Nat
  emit : EmitMode
  /-- The path of the common bundle. -/
  commonBundle : String
  /-- A loader that takes the place of the built-in one. -/
  runtimeAsset : Option HostPath
  /-- Patterns of files that are left out. -/
  ignore : List String
  /-- Patterns of files that are copied as they are. -/
  skip : List String
  deriving DecidableEq, Repr, Inhabited

namespace Config

def defaultDependencyDir : String := "node_modules"

def defaultCommonBundle : String := "/cube.common.js"

/-- The settings of a project that sets none. -/
def default : Config where
  root := ⟨"."⟩
  dest := none
  dependencyDir := defaultDependencyDir
  exportModules := []
  concurrency := 10
  walkConcurrency := none
  emit := .modules
  commonBundle := defaultCommonBundle
  runtimeAsset := none
  ignore := []
  skip := []

/-- The directory of third-party packages as a path below the root. -/
def dependencyPrefix (c : Config) : String := "/" ++ Text.trimChar '/' c.dependencyDir

/-- An absolute path as it is, `.` as the base, and any other path as seen from the base. -/
def resolvePath (base p : HostPath) : HostPath :=
  if p.isAbsolute then p else if p.components = [.here] then base else base.join p

/-- The settings with their paths seen from a base directory. -/
def resolve (c : Config) (base : HostPath) : Config :=
  { c with
    root := resolvePath base c.root
    dest := c.dest.map (resolvePath base)
    runtimeAsset := c.runtimeAsset.map (resolvePath base) }

/-! ## Written form -/

/-- A field that is left out when it is not set. -/
def optionalField {α : Type} (name : String) (write : α → Json) :
    Option α → List (String × Json)
  | some a => [(name, write a)]
  | none => []

/-- The fields of the settings, in order. -/
def toFields (c : Config) : List (String × Json) :=
  [("root", .str c.root.text)] ++
  optionalField "dest" (fun p => .str p.text) c.dest ++
  [("dependency_dir", .str c.dependencyDir),
    ("export_modules", .ofTexts c.exportModules),
    ("concurrency", .ofNat c.concurrency)] ++
  optionalField "walk_concurrency" .ofNat c.walkConcurrency ++
  [("emit", .str c.emit.name),
    ("common_bundle", .str c.commonBundle)] ++
  optionalField "runtime_asset" (fun p => .str p.text) c.runtimeAsset ++
  [("ignore", .ofTexts c.ignore), ("skip", .ofTexts c.skip)]

/-- The settings as an object. -/
def toJson (c : Config) : Json := .object c.toFields

/-- The names of the fields, in order. -/
def fieldNames : List String :=
  ["root", "dest", "dependency_dir", "export_modules", "concurrency", "walk_concurrency",
    "emit", "common_bundle", "runtime_asset", "ignore", "skip"]

/-- The reader of a path. -/
def pathReader : Json.Reader HostPath := fun j => (Json.Reader.path j).map HostPath.mk

/-- The settings with one field read from a value; a name that is no field changes nothing. -/
def setField (c : Config) (name : String) (value : Json) : Except Json.Mismatch Config :=
  match name with
  | "root" => return { c with root := ← pathReader value }
  | "dest" => return { c with dest := ← Json.Reader.optional pathReader value }
  | "dependency_dir" => return { c with dependencyDir := ← Json.Reader.text value }
  | "export_modules" =>
    return { c with exportModules := ← Json.Reader.list Json.Reader.text value }
  | "concurrency" => return { c with concurrency := ← Json.Reader.count value }
  | "walk_concurrency" =>
    return { c with walkConcurrency := ← Json.Reader.optional Json.Reader.count value }
  | "emit" => return { c with emit := ← Json.Reader.word EmitMode.names EmitMode.ofName? value }
  | "common_bundle" => return { c with commonBundle := ← Json.Reader.text value }
  | "runtime_asset" => return { c with runtimeAsset := ← Json.Reader.optional pathReader value }
  | "ignore" => return { c with ignore := ← Json.Reader.list Json.Reader.text value }
  | "skip" => return { c with skip := ← Json.Reader.list Json.Reader.text value }
  | _ => return c

/-- The settings that some fields give; fields not given keep their defaults, and the first
field that cannot be read is reported. -/
def ofFields (fields : List (String × Json)) : Except Json.Mismatch Config :=
  fields.foldlM (fun c (name, value) => c.setField name value) default

/-- The settings that a value gives: an object of fields, or a list of their values in order. -/
def reader : Json.Reader Config
  | .obj fields => ofFields fields
  | .arr items => do
    let c ← ofFields (fieldNames.zip items)
    if items.length > fieldNames.length then
      .error (.length items.length "fewer elements in array")
    else return c
  | j => .error (.kind j "struct CubeConfig")

end Config

end WebBundler
