import WebBundler.Build.Workspace
set_option autoImplicit false

/-!
# Build: an entry with all that it requires

An inline build compiles an entry and, again and again, whatever the modules compiled so far
require locally, and puts the codes in dependency-first order with the entry last.  The source
and the rendering of the entry are as requested; all other modules are read from their files and
wrapped.  The first failure ends the build.

Compilations can settle in any order, so the state offers the move `settle`; `run` settles them
in the order in which they were scheduled.
-/

namespace WebBundler

namespace Inline

/-- The state of an inline build. -/
structure State where
  /-- The requests that have not settled. -/
  pending : List CompileRequest
  /-- The modules that were requested so far. -/
  seen : List QueryPath
  /-- The modules compiled so far. -/
  modules : List Module
  deriving DecidableEq, Repr, Inhabited

/-- The state in which an entry is requested. -/
def start (entry : CompileRequest) : State := ⟨[entry], [entry.path], []⟩

/-- Claim what a module requires locally: the modules that were not requested before, and those
that were requested with them. -/
def claim : List QueryPath → List QueryPath → List QueryPath × List QueryPath
  | seen, [] => ([], seen)
  | seen, path :: paths =>
    if path.isRemote || seen.contains path then claim seen paths
    else
      let (claimed, seen) := claim (path :: seen) paths
      (path :: claimed, seen)

/-- Settle the request at a place among those that have not settled. -/
def settle (compile : CompileRequest → Except CompileError Module) (st : State) (i : Nat) :
    Except CompileError State :=
  match st.pending[i]? with
  | none => .ok st
  | some request => do
    let m ← compile request
    let (claimed, seen) := claim st.seen m.requires
    return ⟨st.pending.eraseIdx i ++ claimed.map CompileRequest.of, seen, st.modules ++ [m]⟩

/-- Settle requests, the oldest first, as many as are given at most, until none is left. -/
def settleAll (compile : CompileRequest → Except CompileError Module) :
    Nat → State → Except CompileError State
  | 0, st => .ok st
  | bound + 1, st =>
    if st.pending.isEmpty then .ok st
    else do settleAll compile bound (← settle compile st 0)

/-- The codes of the modules that an entry reaches, each after those that it requires. -/
def codes (entry : QueryPath) (modules : List Module) : List String :=
  let set := ModuleSet.ofList modules
  if set.contains entry then
    let order := (set.dependencyFirst entry (fun _ _ => (true, ())) ()).1
    (order.filterMap set.find?).map Module.outputCode
  else []

/-- A number of requests that no inline build in a tree exceeds: the entry, and one for each
file. -/
def requestBound (t : FileTree) : Nat := t.entries.length + 2

/-- Compile an entry and all that it requires locally. -/
def run (compiler : Compiler) (t : FileTree) (entry : CompileRequest) :
    Except BuildError (List String) :=
  match settleAll (compiler t) (requestBound t) (start entry) with
  | .ok st => .ok (codes entry.path st.modules)
  | .error e => .error e.toBuildError

end Inline

/-- The codes of an entry and of all that it requires locally. -/
def Project.inline (p : Project) (t : FileTree) (entry : CompileRequest) :
    Except BuildError (List String) :=
  Inline.run p.compiler t entry

end WebBundler
