import WebBundler.Config.Error
import WebBundler.Config.Variable
set_option autoImplicit false

/-!
# Config: layers

Settings come in layers: the defaults, then the settings file, then the environment variables.
A later layer takes the place of an earlier one field by field; two tables are merged, all else
is replaced, lists too.  The fields of the topmost object are then taken as settings.
-/

namespace WebBundler.Config

mutual

/-- One value laid over another: tables are merged, and any other value is replaced. -/
def overlay : Json → Json → Json
  | .obj lower, .obj upper => .obj (overlayFields lower upper)
  | _, upper => upper

/-- The fields of one table laid over those of another. -/
def overlayFields (lower : List (String × Json)) : List (String × Json) → List (String × Json)
  | [] => lower
  | (key, value) :: rest =>
    let merged :=
      match lower.find? (·.1 = key) with
      | some (_, below) => overlay below value
      | none => value
    overlayFields (Json.setField key merged lower) rest

end

/-- A text. -/
def takeText : Json → Option String
  | .str s => some s
  | _ => none

/-- A path. -/
def takePath (j : Json) : Option HostPath := (takeText j).map HostPath.mk

/-- A count that fits a machine word of 64 bits. -/
def takeCount : Json → Option Nat
  | .num (.whole n) => if 0 ≤ n ∧ n < UInt64.size then some n.toNat else none
  | _ => none

/-- A list of texts. -/
def takeTexts : Json → Option (List String)
  | .arr items => items.mapM takeText
  | _ => none

/-- A value, or nothing for `null`. -/
def takeOptional {α : Type} (take : Json → Option α) : Json → Option (Option α)
  | .null => some none
  | j => (take j).map some

/-- A mode by its name, alone or as the first key of a table with the value `null`. -/
def takeMode : Json → Option EmitMode
  | .str s => EmitMode.ofName? s
  | .obj ((key, .null) :: _) => EmitMode.ofName? key
  | _ => none

/-- The settings that the topmost object gives; a field that is not given keeps its default. -/
def take (j : Json) : Option Config := do
  let fields ← j.fields?
  let field {α : Type} (name : String) (read : Json → Option α) (missing : α) : Option α :=
    match fields.find? (·.1 = name) with
    | some (_, value) => read value
    | none => some missing
  return {
    root := ← field "root" takePath default.root
    dest := ← field "dest" (takeOptional takePath) default.dest
    dependencyDir := ← field "dependency_dir" takeText default.dependencyDir
    exportModules := ← field "export_modules" takeTexts default.exportModules
    concurrency := ← field "concurrency" takeCount default.concurrency
    walkConcurrency :=
      ← field "walk_concurrency" (takeOptional takeCount) default.walkConcurrency
    emit := ← field "emit" takeMode default.emit
    commonBundle := ← field "common_bundle" takeText default.commonBundle
    runtimeAsset := ← field "runtime_asset" (takeOptional takePath) default.runtimeAsset
    ignore := ← field "ignore" takeTexts default.ignore
    skip := ← field "skip" takeTexts default.skip }

/-- The variables of a process, in order. -/
abbrev Environment := List (String × String)

/-- The layer that the variables make up. -/
def environmentLayer (env : Environment) : Json :=
  (env.filterMap fun (name, text) => Variable.layer? name text).foldl overlay (.obj [])

/-- What is reported when the layers do not make up settings. -/
def unusable : ConfigError := .invalidValue "configuration" none

/-- The settings of a settings file and the environment laid over the defaults; no settings when
there is no object to take them from, or a field cannot be used. -/
def ofLayers (file : Json) (env : Environment) : Except ConfigError Config :=
  match take (overlay (overlay default.toJson file) (environmentLayer env)) with
  | some c => .ok c
  | none => .error unusable

end WebBundler.Config
