import WebBundler.Config.Basic
import WebBundler.FileTree
set_option autoImplicit false

/-!
# Config: what can be wrong with the settings

The causes for which settings cannot be found, read or used, and their wording.
-/

namespace WebBundler

/-- Why there are no usable settings. -/
inductive ConfigError where
  /-- The project has no settings file. -/
  | notFound
  /-- A value that cannot be used, with the reason or a remedy. -/
  | invalidValue (field : String) (hint : Option String)
  /-- A build of a directory needs somewhere to write. -/
  | missingDestination
  | rootNotFound (path : HostPath)
  | disk (cause : DiskError)
  deriving DecidableEq, Repr, Inhabited

namespace ConfigError

/-- A value that cannot be used, with a reason. -/
def invalid (field hint : String) : ConfigError := .invalidValue field (some hint)

def message : ConfigError → String
  | .notFound => "config not found"
  | .invalidValue field hint =>
    "invalid config value for '" ++ field ++ "'" ++
      (match hint with
        | some h => ": " ++ h
        | none => "")
  | .missingDestination => "no destination directory configured"
  | .rootNotFound path => "source root not found: " ++ path.text
  | .disk cause => "I/O error: " ++ cause.message

end ConfigError

namespace Config

/-- The settings that a value gives. -/
def ofJson (j : Json) : Except ConfigError Config :=
  match reader j with
  | .ok c => .ok c
  | .error e => .error (.invalid "config" e.message)

end Config

end WebBundler
