import WebBundler.FileTree
import WebBundler.Ignore.Rule
set_option autoImplicit false

/-!
# Build: what can go wrong

The causes for which a file of a project, or a whole build, fails, with their wording.  Each has
a diagnostic code, and some have a remedy.
-/

namespace WebBundler

/-- Why a build, or the build of one file, fails. -/
inductive BuildError where
  /-- A file of a type that nothing compiles. -/
  | unknownFileType (path : String)
  /-- A file that does not compile. -/
  | transformFailure (path reason : String)
  /-- A file that cannot be written out. -/
  | writeFailure (path reason : String)
  /-- A build of a directory needs somewhere to write. -/
  | missingDestination
  /-- A part of the project that cannot be read. -/
  | walk (path : HostPath) (cause : StorageError)
  /-- A line that is no rule. -/
  | invalidRule (fault : IgnoreRule.Fault)
  deriving DecidableEq, Repr, Inhabited

namespace BuildError

def message : BuildError → String
  | .unknownFileType path => "unknown file type: " ++ path
  | .transformFailure path reason => "failed to transform " ++ path ++ ": " ++ reason
  | .writeFailure path reason => "failed to write " ++ path ++ ": " ++ reason
  | .missingDestination => "no destination directory configured"
  | .walk path cause => "failed to read " ++ path.text ++ ": " ++ cause.message
  | .invalidRule fault => "invalid ignore rule '" ++ fault.line ++ "': " ++ fault.message

/-- The file that the failure is about. -/
def file? : BuildError → Option String
  | .unknownFileType path => some path
  | .transformFailure path _ => some path
  | .writeFailure path _ => some path
  | .missingDestination => none
  | .walk path _ => some path.text
  | .invalidRule _ => none

/-- The diagnostic code. -/
def code : BuildError → String
  | .unknownFileType _ => "cube::unknown_file_type"
  | .transformFailure _ _ => "cube::transform_failure"
  | .writeFailure _ _ => "cube::write_failure"
  | .missingDestination => "cube::missing_destination"
  | .walk _ _ => "cube::walk"
  | .invalidRule _ => "cube::invalid_rule"

/-- The remedy that is proposed. -/
def help? : BuildError → Option String
  | .transformFailure _ _ =>
    some "Fix the source file, or list it under [skip] to copy it as-is"
  | .missingDestination => some "Pass a destination directory or set `dest` in cube.toml"
  | .invalidRule _ =>
    some "Check the patterns in .cubeignore and the `ignore`/`skip` config lists"
  | _ => none

end BuildError

end WebBundler
