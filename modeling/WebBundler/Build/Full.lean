import WebBundler.Build.Report
import WebBundler.Build.Workspace
set_option autoImplicit false

/-!
# Build: one file, and all files

`buildFile` compiles one file, and writes it out if there is somewhere to write.  `buildAll`
visits every file of the source and writes each module out by itself, third-party packages
included; only the destination is left out.
-/

namespace WebBundler.Project

/-- Build one file: its module, or nothing if the file was copied. -/
def buildFile (p : Project) (file : HostPath) (ws : Workspace) :
    Except BuildError (Option Module × Workspace) := do
  let relPath := HostPath.relativeTo p.config.root file
  let path ← match QueryPath.ofText relPath with
    | .ok path => .ok path
    | .error e => .error (.transformFailure relPath e.message)
  let (result, ws) := p.compile (.of path) ws
  match result, Destination.of p.config with
  | .ok m, .ok d =>
    match emit d m ws with
    | (some e, _) => .error e
    | (none, ws) => return (some m, ws)
  | .ok m, .error _ => return (some m, ws)
  | .error (.unknownType _), .ok d =>
    return (none, { ws with tree := ← d.copy ws.tree file relPath })
  | .error e, _ => .error e.toBuildError

/-- A full build goes into a directory: all but the destination. -/
def entersAll (p : Project) (relPath : String) : Bool := p.destinationWithin != some relPath

/-- Build every file of the source. -/
def buildAll (p : Project) (ws : Workspace) : Except BuildError (BuildReport × Workspace) := do
  let d ← Destination.of p.config
  let summary ← (p.walk p.entersAll (p.visitor d .emit)).run ws
  let (failure, ws) := writeLoader d summary.store
  return (⟨summary.errors ++ failure.toList, summary.total⟩, ws)

end WebBundler.Project
