import WebBundler.CommandLine.Error
import WebBundler.CommandLine.Invocation
import WebBundler.Config.Discovery
import WebBundler.Config.Validation
set_option autoImplicit false

/-!
# Command line: settings of a command

The settings that a command works with are those of its project directory.  The arguments of a
build take the place of settings one by one; paths in arguments are seen from the working
directory.
-/

namespace WebBundler.CommandLine

/-- Where a command runs. -/
structure Surroundings where
  /-- The working directory. -/
  cwd : HostPath
  /-- The variables of the process. -/
  environment : Config.Environment
  deriving Repr, Inhabited

/-- The path of an argument. -/
def Surroundings.absolute (s : Surroundings) (p : HostPath) : HostPath :=
  HostPath.absolute s.cwd p

/-- The project directory: the given one, or the working directory. -/
def Surroundings.projectDir (s : Surroundings) (root : Option HostPath) : HostPath :=
  match root with
  | some dir => s.absolute dir
  | none => s.cwd

/-- A result of reading settings, as one of a command. -/
def ofConfig {α : Type} : Except ConfigError α → Except CommandError α
  | .ok a => .ok a
  | .error e => .error (.config e)

/-- A result of a build, as one of a command. -/
def ofBuild {α : Type} : Except BuildError α → Except CommandError α
  | .ok a => .ok a
  | .error e => .error (.build e)

/-- The settings of a project directory, from the given file if there is one. -/
def loadSettings (s : Surroundings) (t : FileTree) (root file : Option HostPath) :
    Except CommandError Config :=
  let dir := s.projectDir root
  if !t.isDir dir then .error (.config (.rootNotFound dir))
  else
    match file with
    | some file => ofConfig (Config.loadFrom t s.environment dir (s.absolute file))
    | none => ofConfig (Config.loadOrDefault t s.environment dir)

/-- Settings with the arguments of a build in the place of what they set. -/
def BuildArguments.apply (args : BuildArguments) (s : Surroundings) (c : Config) : Config :=
  { c with
    dest := (args.dest.map s.absolute).or c.dest
    emit := args.emit.getD c.emit
    exportModules := if args.exportModules.isEmpty then c.exportModules else args.exportModules
    concurrency := args.concurrency.getD c.concurrency }

/-- The settings of a build. -/
def BuildArguments.settings (args : BuildArguments) (s : Surroundings) (t : FileTree) :
    Except CommandError Config := do
  return args.apply s (← loadSettings s t args.root args.config)

/-- The settings of the build of one file. -/
def FileArguments.settings (args : FileArguments) (s : Surroundings) (t : FileTree) :
    Except CommandError Config := do
  let c ← loadSettings s t args.root none
  return { c with dest := (args.dest.map s.absolute).or c.dest }

/-- What is logged: details of the program's own parts, errors alone, or what they do. -/
def logDirectives (isVerbose isQuiet : Bool) : List String :=
  let parts (level : String) : List String :=
    ["cube_cli", "cube_bundler", "cube_config", "cube_graph"].map (· ++ "=" ++ level)
  if isVerbose then parts "debug" else if isQuiet then ["error"] else parts "info"

end WebBundler.CommandLine
