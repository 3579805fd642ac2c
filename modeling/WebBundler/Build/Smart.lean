import WebBundler.Build.Report
import WebBundler.Build.Workspace
import WebBundler.Expansion
set_option autoImplicit false

/-!
# Build: what the application reaches

A smart build visits the files of the application, and of the dependency directory compiles only
what the application reaches.  All modules together are then divided into bundles, and written
out by themselves or in bundles as the settings say.
-/

namespace WebBundler.Project

/-- A smart build goes into a directory: all but the dependency directory, what lies below it,
and the destination. -/
def entersApplication (p : Project) (relPath : String) : Bool :=
  relPath != p.config.dependencyPrefix && !QueryPath.within relPath p.config.dependencyPrefix &&
    p.destinationWithin != some relPath

/-- The references of modules into the dependency directory. -/
def seeds (p : Project) (modules : List Module) : List String :=
  modules.flatMap (·.originsWithin p.config.dependencyDir)

/-- The paths of modules that were compiled already. -/
def visited (modules : List Module) : VisitedPaths :=
  VisitedPaths.empty.markAll (modules.map Module.realPath)

/-- Compile what modules reach of the dependency directory. -/
def expand (p : Project) (t : FileTree) (modules : List Module) : Expansion.Outcome :=
  Expansion.expand p.compiler p.config.root t (p.seeds modules) (visited modules)

/-- The modules that are to be roots of bundles. -/
def exported (p : Project) : List QueryPath :=
  p.config.exportModules.filterMap QueryPath.ofText?

/-- Divide modules into bundles. -/
def merge (p : Project) (set : ModuleSet) : Merged := set.merge p.exported

/-- Write the modules of a set out as the settings say. -/
def emitMerged (p : Project) (d : Destination) (set : ModuleSet) (merged : Merged)
    (ws : Workspace) :
    List BuildError × Workspace :=
  let (tree, errors) :=
    d.writeGroups ws.tree (set.outputs merged p.config.emit d.commonBundle)
  let alone :=
    match p.config.emit with
    | .modules => merged.modules.filterMap set.find?
    | .bundles => []
  (errors, { ws with tree, emitted := ws.emitted ++ alone })

/-- Build the application and what it reaches. -/
def buildSmart (p : Project) (ws : Workspace) :
    Except BuildError (BuildReport × Workspace) := do
  let d ← Destination.of p.config
  let summary ← (p.walk p.entersApplication (p.visitor d .collect)).run ws
  let ws := summary.store
  let expanded := p.expand ws.tree summary.modules
  let ws := { ws with compiled := ws.compiled ++ expanded.requests }
  let set := ModuleSet.ofList (summary.modules ++ expanded.modules)
  let (failures, ws) := p.emitMerged d set (p.merge set) ws
  let (failure, ws) := writeLoader d ws
  return (⟨summary.errors ++ expanded.errors ++ failures ++ failure.toList, set.size⟩, ws)

end WebBundler.Project
