import WebBundler.CommandLine.Usage
set_option autoImplicit false

/-!
# Command line: invocations

An invocation is a command with its arguments, and what is asked of the program as a whole.
`parse` reads one.  The options of the program can also be given after the command; two that
exclude each other may be given if one stands before the command and the other after it.
-/

namespace WebBundler.CommandLine

/-- Build a whole project. -/
structure BuildArguments where
  /-- The project directory. -/
  root : Option HostPath
  dest : Option HostPath
  /-- Compile only the third-party modules that are reached. -/
  smart : Bool
  emit : Option EmitMode
  /-- Modules that must become roots. -/
  exportModules : List String
  concurrency : Option Nat
  /-- The settings file. -/
  config : Option HostPath
  deriving DecidableEq, Repr, Inhabited

/-- Build one file. -/
structure FileArguments where
  file : HostPath
  root : Option HostPath
  dest : Option HostPath
  deriving DecidableEq, Repr, Inhabited

/-- Print an entry with all that it requires. -/
structure BundleArguments where
  entry : String
  root : Option HostPath
  /-- The entry is not wrapped. -/
  bareEntry : Bool
  /-- The file to write to. -/
  output : Option HostPath
  deriving DecidableEq, Repr, Inhabited

/-- Check the settings of a project. -/
structure CheckArguments where
  root : Option HostPath
  /-- The settings file. -/
  config : Option HostPath
  deriving DecidableEq, Repr, Inhabited

/-- The commands. -/
inductive Command where
  | build (args : BuildArguments)
  | file (args : FileArguments)
  | bundle (args : BundleArguments)
  | check (args : CheckArguments)
  deriving DecidableEq, Repr, Inhabited

/-- What a command line asks for. -/
structure Invocation where
  verbose : Bool
  quiet : Bool
  noColor : Bool
  command : Command
  deriving DecidableEq, Repr, Inhabited

/-! ## Arguments -/

def verbose : Argument := .flag "verbose" (some 'v')

def quiet : Argument := .flag "quiet" (some 'q')

def noColor : Argument := .flag "no-color" none

def help : Argument := ⟨"help", some 'h', .help, false⟩

def version : Argument := ⟨"version", some 'V', .version, false⟩

/-- The options that can stand at any level. -/
def globalOptions : List Argument := [verbose, quiet, noColor, help]

def destOption : Argument := .option "dest" (some 'o') .path

def smartFlag : Argument := .flag "smart" none

def emitOption : Argument := .option "emit" none .mode

def exportOption : Argument := ⟨"export", none, .value .text, true⟩

def concurrencyOption : Argument := .option "concurrency" none .count

def configOption : Argument := .option "config" (some 'c') .path

def rootOption : Argument := .option "root" (some 'r') .path

def bareEntryFlag : Argument := .flag "ignore-first-code-wrap" none

def outputOption : Argument := .option "output" (some 'o') .path

def dirPositional : Argument := .positional "DIR" .path

def filePositional : Argument := .positional "FILE" .path

def entryPositional : Argument := .positional "QUERY_PATH" .text

def helpCommand : String := "help"

/-- The arguments of the program. -/
def programLevel : Level :=
  ⟨globalOptions ++ [version], [], ["build", "file", "bundle", "check", helpCommand]⟩

/-- The arguments of a command. -/
def commandLevel (options positionals : List Argument) : Level :=
  ⟨options ++ globalOptions, positionals, []⟩

def buildLevel : Level :=
  commandLevel
    [destOption, smartFlag, emitOption, exportOption, concurrencyOption, configOption]
    [dirPositional]

def fileLevel : Level := commandLevel [rootOption, destOption] [filePositional]

def bundleLevel : Level :=
  commandLevel [rootOption, bareEntryFlag, outputOption] [entryPositional]

def checkLevel : Level := commandLevel [configOption] [dirPositional]

/-! ## Values -/

namespace Scan

/-- The values of an argument. -/
def values (scan : Scan) (a : Argument) : List Value :=
  (scan.taken.filter (·.1 = a)).map (·.2)

def path? (scan : Scan) (a : Argument) : Option HostPath :=
  (scan.values a).findSome? fun
    | .path p => some p
    | _ => none

def count? (scan : Scan) (a : Argument) : Option Nat :=
  (scan.values a).findSome? fun
    | .count n => some n
    | _ => none

def mode? (scan : Scan) (a : Argument) : Option EmitMode :=
  (scan.values a).findSome? fun
    | .mode m => some m
    | _ => none

def texts (scan : Scan) (a : Argument) : List String :=
  (scan.values a).filterMap fun
    | .text s => some s
    | _ => none

/-- No two arguments exclude each other. -/
def checkConflicts (scan : Scan) : Except UsageError Unit :=
  if scan.has verbose && scan.has quiet then .error .conflict else .ok ()

end Scan

/-! ## Reading -/

/-- Read the arguments of a command that has no commands of its own. -/
def scanCommand (level : Level) (args : List String) : Except UsageError Scan := do
  let (scan, _) ← level.scan (.start level) args
  scan.checkConflicts
  return scan

/-- Read a command: its arguments and the options of the program among them. -/
def parseCommand (name : String) (args : List String) : Except UsageError (Scan × Command) :=
  match name with
  | "build" => do
    let scan ← scanCommand buildLevel args
    if scan.has emitOption && !scan.has smartFlag then throw .missingArgument
    return (scan, .build {
      root := scan.path? dirPositional
      dest := scan.path? destOption
      smart := scan.has smartFlag
      emit := scan.mode? emitOption
      exportModules := scan.texts exportOption
      concurrency := scan.count? concurrencyOption
      config := scan.path? configOption })
  | "file" => do
    let scan ← scanCommand fileLevel args
    match scan.path? filePositional with
    | none => throw .missingArgument
    | some file => return (scan, .file ⟨file, scan.path? rootOption, scan.path? destOption⟩)
  | "bundle" => do
    let scan ← scanCommand bundleLevel args
    match (scan.texts entryPositional).head? with
    | none => throw .missingArgument
    | some entry =>
      return (scan,
        .bundle ⟨entry, scan.path? rootOption, scan.has bareEntryFlag, scan.path? outputOption⟩)
  | "check" => do
    let scan ← scanCommand checkLevel args
    return (scan, .check ⟨scan.path? dirPositional, scan.path? configOption⟩)
  | _ => .error .invalidCommand

/-- The answer to a request for help about the named command, or about all. -/
def helpAbout : List String → UsageError
  | [] => .help
  | [name] => if programLevel.commands.contains name then .help else .invalidCommand
  | _ => .invalidCommand

/-- Read a command line, less the name of the program. -/
def parse (args : List String) : Except UsageError Invocation := do
  let (scan, command) ← programLevel.scan (.start programLevel) args
  match command with
  | none => throw (if scan.taken.isEmpty then .helpInstead else .missingCommand)
  | some (name, rest) =>
    if name = helpCommand then throw (helpAbout rest)
    let (inner, command) ← parseCommand name rest
    scan.checkConflicts
    let given (a : Argument) : Bool := scan.has a || inner.has a
    return ⟨given verbose, given quiet, given noColor, command⟩

end WebBundler.CommandLine
