import WebBundler.Compiler
import WebBundler.Ignore.Classification
import WebBundler.Output.Modules
import WebBundler.Walk.Basic
set_option autoImplicit false

/-!
# Build: projects and workspaces

A project is what a build is given: its settings, the directory that is walked, a compiler and
the rules about files.  A workspace is what a build changes: the file tree, with a record of the
files that were compiled and of the modules that were written out.

`Project.visitor` says what is done with a file that a walk finds.
-/

namespace WebBundler

/-- What a build is given. -/
structure Project where
  config : Config
  /-- The directory or file that is walked. -/
  source : HostPath
  compiler : Compiler
  rules : ProjectRules

/-- What a build changes. -/
structure Workspace where
  tree : FileTree
  /-- The requests that the compiler was given, in order. -/
  compiled : List CompileRequest
  /-- The modules that were written out by themselves, in order. -/
  emitted : List Module

namespace Workspace

/-- A file tree at the start of a build. -/
def of (t : FileTree) : Workspace := ⟨t, [], []⟩

end Workspace

namespace Project

/-- The project of some settings, with the standard compiler and the rules of the project; all
of it is walked. -/
def of (c : Config) (t : FileTree) : Except BuildError Project := do
  return ⟨c, c.root, .standard (.of c.root c.dependencyDir), ← ProjectRules.load c t⟩

/-- The path below the root of a destination inside the walked directory. -/
def destinationWithin (p : Project) : Option String :=
  match p.config.dest with
  | some dest =>
    if HostPath.isBelow p.source dest then some (HostPath.relativeTo p.config.root dest)
    else none
  | none => none

/-- Compile a file of the workspace. -/
def compile (p : Project) (request : CompileRequest) (ws : Workspace) :
    Except CompileError Module × Workspace :=
  (p.compiler ws.tree request, { ws with compiled := ws.compiled ++ [request] })

/-- Write a module out by itself. -/
def emit (d : Destination) (m : Module) (ws : Workspace) : Option BuildError × Workspace :=
  let (tree, failure) := d.writeGroup ws.tree m.outputs
  (failure, { ws with tree, emitted := ws.emitted ++ [m] })

/-- Copy a file. -/
def copy (d : Destination) (file : WalkedFile) (ws : Workspace) : VisitOutcome × Workspace :=
  match d.copy ws.tree file.path file.relPath with
  | .ok tree => (.copied, { ws with tree })
  | .error e => (.failed e, ws)

/-- What a visit does with a module. -/
inductive VisitMode where
  /-- It is written out. -/
  | emit
  /-- It is kept. -/
  | collect
  deriving DecidableEq, Repr, Inhabited

/-- Take in what a compiler makes of a file: a module is dealt with as the mode says, and a file
of unknown type is copied. -/
def finish (d : Destination) (mode : VisitMode) (file : WalkedFile) (ws : Workspace) :
    Except CompileError Module → VisitOutcome × Workspace
  | .error (.unknownType _) => copy d file ws
  | .error e => (.failed e.toBuildError, ws)
  | .ok m =>
    match mode with
    | .collect => (.processed m, ws)
    | .emit =>
      match emit d m ws with
      | (some e, ws) => (.failed e, ws)
      | (none, ws) => (.processed m, ws)

/-- What is done with a file: it is left out or copied as the rules say, and else compiled. -/
def visitor (p : Project) (d : Destination) (mode : VisitMode) : Visitor Workspace :=
  fun file ws =>
  match p.rules.classify file.relPath with
  | .ignore => (.ignored, ws)
  | .skip => copy d file ws
  | .build =>
    match QueryPath.ofText file.relPath with
    | .error e => (.failed (.transformFailure file.relPath e.message), ws)
    | .ok path =>
      let (result, ws) := p.compile (.of path) ws
      finish d mode file ws result

/-- The walk over the source of a project. -/
def walk (p : Project) (enters : String → Bool) (visit : Visitor Workspace) :
    Walk Workspace where
  root := p.config.root
  source := p.source
  dependencyDir := p.config.dependencyDir
  enters := enters
  visit := visit
  tree := Workspace.tree

/-- Add the loader to the output. -/
def writeLoader (d : Destination) (ws : Workspace) : Option BuildError × Workspace :=
  match d.writeLoader ws.tree with
  | .ok tree => (none, { ws with tree })
  | .error e => (some e, ws)

end Project

end WebBundler
