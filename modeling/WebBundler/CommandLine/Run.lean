import WebBundler.Build.Full
import WebBundler.Build.Inline
import WebBundler.Build.Smart
import WebBundler.CommandLine.Settings
import WebBundler.Duration
set_option autoImplicit false

/-!
# Command line: commands

What each command does to a file tree, what it prints, and how it tells the user about it.  The
lines that a command told before it failed stand, and so does what it wrote.  Where a build that
breaks off has come to depends on the order in which its tasks settle, so that an outcome tells
nothing about the tree after a failure.
-/

namespace WebBundler.CommandLine

/-- A line that a command tells the user. -/
inductive Status where
  | success (text : String)
  | info (text : String)
  | warning (text : String)
  | failure (text : String)
  /-- How many files a build handled, and how many of its errors did not stop it. -/
  | totals (files errors : Nat)
  deriving DecidableEq, Repr, Inhabited

/-- The words for the time that a build took. -/
def elapsedText (d : Duration) : String :=
  toString d.roundedUp ++ "s (" ++ d.text ++ ")"

/-- The line as it is shown, for a build that took the given time. -/
def Status.line (elapsed : String) : Status → String
  | .success text => "✓ " ++ text
  | .info text => "ℹ " ++ text
  | .warning text => "⚠ " ++ text
  | .failure text => "✗ " ++ text
  | .totals files errors =>
    let summary := toString files ++ " files in " ++ elapsed
    if errors = 0 then "✓ " ++ summary
    else "⚠ " ++ summary ++ ", " ++ toString errors ++ " error(s)"

/-- What comes of a command. -/
structure Outcome where
  /-- What is printed. -/
  printed : String
  /-- What the user is told, in order. -/
  told : List Status
  result : Except CommandError Unit
  /-- The tree after a command that came to its end, be it with errors to report.  After any
  other failure it is left open what the command has written: the tree stands for the one that
  the command was given. -/
  tree : FileTree

namespace Outcome

/-- A command that failed after telling the user something, for the tree that it was given. -/
def failed (t : FileTree) (told : List Status) (e : CommandError) : Outcome :=
  ⟨"", told, .error e, t⟩

/-- A command that ended well. -/
def done (t : FileTree) (printed : String) (told : List Status) : Outcome :=
  ⟨printed, told, .ok (), t⟩

end Outcome

/-- What a build that came to its end tells the user. -/
def toldOf (report : BuildReport) : List Status :=
  report.errors.map (fun e => .failure e.message) ++ [.totals report.total report.errors.length]

namespace BuildArguments

/-- What a build announces. -/
def announcement (args : BuildArguments) (c : Config) : Status :=
  .info ("Building " ++ c.root.text ++ " -> " ++ (c.dest.getD ⟨""⟩).text ++
    if args.smart then " (smart)" else "")

/-- Build a project with the given settings. -/
def build (args : BuildArguments) (c : Config) (t : FileTree) :
    Except BuildError (BuildReport × Workspace) := do
  let p ← Project.of c t
  if args.smart then p.buildSmart (.of t) else p.buildAll (.of t)

/-- Build a project. -/
def run (args : BuildArguments) (s : Surroundings) (t : FileTree) : Outcome :=
  match args.settings s t with
  | .error e => .failed t [] e
  | .ok c =>
    match c.validate t with
    | .error e => .failed t [] (.config e)
    | .ok () =>
      let announced := [args.announcement c]
      match args.build c t with
      | .error e => .failed t announced (.build e)
      | .ok (report, ws) =>
        let result :=
          if report.isClean then .ok () else .error (.incomplete report.errors.length)
        ⟨"", announced ++ toldOf report, result, ws.tree⟩

end BuildArguments

namespace FileArguments

/-- The file to build: a regular file below the root. -/
def check (file : HostPath) (c : Config) (t : FileTree) : Except CommandError Unit :=
  if !t.isFile file then .error (.fileNotFound file)
  else if !HostPath.isBelow c.root file then
    .error (.invalidArgument (file.text ++ " is outside the project root " ++ c.root.text))
  else .ok ()

/-- Build one file; without a destination its output is printed. -/
def run (args : FileArguments) (s : Surroundings) (t : FileTree) : Outcome :=
  let file := s.absolute args.file
  let built : Except CommandError Outcome := do
    let c ← args.settings s t
    check file c t
    let p ← ofBuild (Project.of c t)
    match ← ofBuild (p.buildFile file (.of t)) with
    | (some m, ws) =>
      if c.dest.isNone then return .done ws.tree (m.outputCode ++ "\n") []
      else return .done ws.tree "" [.success ("Built " ++ m.path.text)]
    | (none, ws) => return .done ws.tree "" [.success ("Copied " ++ file.text)]
  match built with
  | .ok outcome => outcome
  | .error e => .failed t [] e

end FileArguments

namespace BundleArguments

/-- The path of the entry. -/
def entryPath (args : BundleArguments) : Except CommandError QueryPath :=
  match QueryPath.ofText args.entry with
  | .ok path => .ok path
  | .error e => .error (.invalidArgument ("entry '" ++ args.entry ++ "': " ++ e.message))

/-- Print or write an entry with all that it requires. -/
def run (args : BundleArguments) (s : Surroundings) (t : FileTree) : Outcome :=
  let bundled : Except CommandError Outcome := do
    let c ← loadSettings s t args.root none
    let entry ← args.entryPath
    let p ← ofBuild (Project.of c t)
    let request := { CompileRequest.of entry with wrap := !args.bareEntry }
    let codes ← ofBuild (p.inline t request)
    let text := Text.joinText "\n" codes
    match args.output with
    | none => return .done t (text ++ "\n") []
    | some output =>
      let output := s.absolute output
      match t.save output (Text.encode text) with
      | .error e => throw (.build (.writeFailure output.text e.message))
      | .ok written =>
        return .done written ""
          [.success ("Wrote " ++ toString codes.length ++ " modules to " ++ output.text)]
  match bundled with
  | .ok outcome => outcome
  | .error e => .failed t [] e

end BundleArguments

namespace CheckArguments

/-- Check the settings of a project. -/
def run (args : CheckArguments) (s : Surroundings) (t : FileTree) : Outcome :=
  let checked : Except CommandError Outcome := do
    let c ← loadSettings s t args.root args.config
    ofConfig c.validateSchema
    let dest : Status := match c.dest with
      | some dest => .info ("dest: " ++ dest.text)
      | none => .warning "no dest configured; `cube build` will need --dest"
    return .done t "" [
      .success ("Config for " ++ c.root.text ++ " is valid"),
      dest,
      .info ("dependency dir: " ++ c.dependencyDir ++ ", concurrency: " ++
        toString c.concurrency ++
        ", emit: " ++ c.emit.title)]
  match checked with
  | .ok outcome => outcome
  | .error e => .failed t [] e

end CheckArguments

/-- Run a command. -/
def Command.run (command : Command) (s : Surroundings) (t : FileTree) : Outcome :=
  match command with
  | .build args => args.run s t
  | .file args => args.run s t
  | .bundle args => args.run s t
  | .check args => args.run s t

end WebBundler.CommandLine
