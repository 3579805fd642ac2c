import WebBundler.Build.Error
import WebBundler.Config.Error
set_option autoImplicit false

/-!
# Command line: failures of a command

Why a command fails, and the report that is printed for it.
-/

namespace WebBundler.CommandLine

/-- Why a command fails. -/
inductive CommandError where
  /-- There are no usable settings. -/
  | config (e : ConfigError)
  /-- A build ended before it was done. -/
  | build (e : BuildError)
  /-- A build was done, but some files failed. -/
  | incomplete (count : Nat)
  | invalidArgument (reason : String)
  | fileNotFound (path : HostPath)
  /-- The surroundings of the process failed it. -/
  | system (reason : String)
  deriving DecidableEq, Repr, Inhabited

namespace CommandError

def message : CommandError → String
  | .config e => "Configuration error: " ++ e.message
  | .build e => e.message
  | .incomplete count => "Build finished with " ++ toString count ++ " error(s)"
  | .invalidArgument reason => "Invalid argument: " ++ reason
  | .fileNotFound path => "File not found: " ++ path.text
  | .system reason => "I/O error: " ++ reason

/-- What is reported to the user: a text, and perhaps a diagnostic code and a remedy. -/
structure Report where
  text : String
  code : Option String
  help : Option String
  deriving DecidableEq, Repr, Inhabited

/-- The report of a failure.  That of a build keeps its code and remedy. -/
def report (e : CommandError) : Report :=
  match e with
  | .build b => ⟨b.message, some b.code, b.help?⟩
  | .config .missingDestination =>
    ⟨"No destination directory configured", none,
      some "Pass --dest <DIR> or set `dest` in cube.toml"⟩
  | .config .notFound =>
    ⟨"Config file not found", none,
      some "Create a cube.toml or add a \"cube\" field to package.json"⟩
  | .incomplete _ =>
    ⟨e.message, none, some "Errors are listed above; files that failed were not written"⟩
  | _ => ⟨e.message, none, none⟩

end CommandError

end WebBundler.CommandLine
