import WebBundler.CommandLine.Run
set_option autoImplicit false

/-!
# The program

Reads the part of the disk that a command is about into a file tree, runs the command on it, and
writes back the files that are new or changed.  Of a command that breaks off nothing is written
back.
-/

namespace WebBundler.CommandLine

/-- What was found on the disk: entries, and the accesses that failed. -/
abbrev Found := List (List String × FileTree.Node) × List FileTree.Fault

/-- A failed access, as a fault of the tree. -/
def faultOf (path : HostPath) (access : FileTree.Access) (e : IO.Error) : Found :=
  ([], [⟨access, path.location, .failed (toString e)⟩])

/-- Read what is at a path of the disk, and all below it. -/
partial def readDisk (path : HostPath) : IO Found := do
  try
    let real ← IO.FS.realPath path.text
    if !(← real.pathExists) then return ([], [])
    match (← real.metadata).type with
    | .dir =>
      try
        let mut found : Found := ([(path.location, .dir)], [])
        for entry in ← real.readDir do
          let (entries, faults) ← readDisk (path.join ⟨entry.fileName⟩)
          found := (found.1 ++ entries, found.2 ++ faults)
        return found
      catch e =>
        let (_, faults) := faultOf path .readDir e
        return ([(path.location, .dir)], faults)
    | .file =>
      try
        return ([(path.location, .file (← IO.FS.readBinFile path.text))], [])
      catch e =>
        let (_, faults) := faultOf path .read e
        return ([(path.location, .file ByteArray.empty)], faults)
    | _ => return ([(path.location, .special)], [])
  catch e => return faultOf path .metadata e

/-- Read what is at some paths of the disk into one tree. -/
def readTree (paths : List HostPath) : IO FileTree := do
  let mut tree := FileTree.empty
  for path in paths do
    if !(tree.isPresent path) then
      let (entries, faults) ← readDisk path
      let known := tree.entries
      let fresh := entries.filter fun e => !known.any (·.1 = e.1)
      tree := ⟨known ++ fresh, tree.faults ++ faults⟩
  return tree

/-- The paths that the arguments of a command name. -/
def Command.paths (s : Surroundings) : Command → List HostPath
  | .build args => [s.projectDir args.root] ++ args.config.toList.map s.absolute
  | .file args => [s.projectDir args.root, s.absolute args.file]
  | .bundle args => [s.projectDir args.root] ++ args.output.toList.map s.absolute
  | .check args => [s.projectDir args.root] ++ args.config.toList.map s.absolute

/-- The settings of a command, if it has usable ones. -/
def Command.settings? (s : Surroundings) (t : FileTree) : Command → Option Config
  | .build args => (args.settings s t).toOption
  | .file args => (args.settings s t).toOption
  | .bundle args => (loadSettings s t args.root none).toOption
  | .check args => (loadSettings s t args.root args.config).toOption

/-- The paths that settings name. -/
def settingPaths (c : Config) : List HostPath :=
  [c.root] ++ (c.dest.map HostPath.clean).toList ++ c.runtimeAsset.toList

/-- Write the files back that a command has changed. -/
def writeBack (before after : FileTree) : IO Unit := do
  for (place, content) in after.changedSince before do
    IO.FS.createDirAll ("/" ++ Text.joinText "/" place.dropLast)
    IO.FS.writeBinFile ("/" ++ Text.joinText "/" place) content

/-- The variables of the process that set fields. -/
def readEnvironment : IO Config.Environment := do
  let mut environment := []
  for field in Config.fieldNames do
    let name := "CUBE_" ++ String.ofList (field.toList.map Char.toUpper)
    if let some value ← IO.getEnv name then
      environment := environment ++ [(name, value)]
  return environment

/-- What is shown when a command line is refused. -/
def usageText (e : UsageError) : String :=
  let reason := match e with
    | .unknownArgument => "error: unexpected argument\n"
    | .conflict => "error: arguments cannot be used together\n"
    | .invalidValue => "error: invalid value\n"
    | .malformedValue => "error: malformed value\n"
    | .unneededValue => "error: unexpected value\n"
    | .missingArgument => "error: a required argument is missing\n"
    | .missingCommand => "error: a command is required\n"
    | .invalidCommand => "error: unrecognized command\n"
    | .help | .helpInstead | .version => ""
  reason ++ "Usage: cube [OPTIONS] <build|file|bundle|check>"

/-- Tell the user that a command line was refused, or what it asked for. -/
def refuse (e : UsageError) : IO UInt32 := do
  match e with
  | .help => IO.println (usageText e); return 0
  | .version => IO.println "cube"; return 0
  | _ => IO.eprintln (usageText e); return 2

/-- Run a command on the disk. -/
def perform (command : Command) (s : Surroundings) : IO UInt32 := do
  let started ← IO.monoNanosNow
  let first ← readTree (command.paths s)
  let more := ((command.settings? s first).map settingPaths).getD []
  let before ← if more.isEmpty then pure first else readTree (command.paths s ++ more)
  let outcome := command.run s before
  writeBack before outcome.tree
  let elapsed := elapsedText (.ofNanos ((← IO.monoNanosNow) - started))
  for status in outcome.told do
    IO.eprintln (status.line elapsed)
  IO.print outcome.printed
  match outcome.result with
  | .ok () => return 0
  | .error e =>
    IO.eprintln ("Error: " ++ e.report.text)
    if let some help := e.report.help then
      IO.eprintln ("  help: " ++ help)
    return 1

end WebBundler.CommandLine

/-- Run the command that the arguments ask for. -/
def main (args : List String) : IO UInt32 := do
  match WebBundler.CommandLine.parse args with
  | .error e => WebBundler.CommandLine.refuse e
  | .ok invocation =>
    let cwd ← IO.currentDir
    let environment ← WebBundler.CommandLine.readEnvironment
    WebBundler.CommandLine.perform invocation.command ⟨⟨toString cwd⟩, environment⟩
