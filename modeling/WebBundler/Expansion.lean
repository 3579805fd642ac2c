import WebBundler.Compiler
import WebBundler.Visited
set_option autoImplicit false

/-!
# Expansion

Third-party modules are compiled only when they are reached.  The references of the application
into the dependency directory are the seeds; each seed that was not claimed before opens a
closure, which compiles the seed and whatever its modules require from the project.  A path is
claimed before it is scheduled, in one set for all closures, so that none is compiled twice.

Closures run side by side, as many as there are permits, while the seeds are still being
claimed.  The state of an expansion offers its moves one access to the claimed paths at a time:
a seed is claimed, a closure is started, one of its tasks settles, one path that its last module
requires is looked at.  `run` claims all seeds and then works through the closures in turn.  A
failure is collected and stops nothing.
-/

namespace WebBundler

namespace Expansion

/-- What becomes of a path. -/
abbrev Task := String → Except BuildError Module

/-! ## Closures -/

/-- What a seed has opened. -/
structure Closure where
  /-- The seed, in canonical form. -/
  seed : String
  /-- It has a permit, or had one. -/
  begun : Bool
  /-- The paths that it has claimed and that have not settled. -/
  pending : List String
  /-- What the module that settled last requires from the project and was not looked at yet. -/
  origins : List String
  /-- The paths that were compiled, in the order in which they settled. -/
  settled : List String
  modules : List Module
  errors : List BuildError
  deriving DecidableEq, Repr, Inhabited

namespace Closure

/-- The closure of a seed before it is started. -/
def opened (seed : String) : Closure := ⟨seed, false, [seed], [], [], [], []⟩

/-- The closure holds a permit. -/
def isRunning (c : Closure) : Bool := c.begun && !(c.pending.isEmpty && c.origins.isEmpty)

def start (c : Closure) : Closure := { c with begun := true }

/-- A path was compiled. -/
def take (c : Closure) (path : String) : Except BuildError Module → Closure
  | .error e => { c with settled := c.settled ++ [path], errors := c.errors ++ [e] }
  | .ok m =>
    { c with
      settled := c.settled ++ [path]
      modules := c.modules ++ [m]
      origins := m.requiresOrigin }

/-- Settle a task of a closure that has looked at all that it knows to be required. -/
def settle? (task : Task) (c : Closure) (j : Nat) : Option Closure :=
  if c.begun && c.origins.isEmpty then
    match c.pending[j]? with
    | none => none
    | some path => some ({ c with pending := c.pending.eraseIdx j }.take path (task path))
  else none

/-- Look at the next path that the last module requires, and schedule it unless it was
claimed. -/
def look? (c : Closure) (visited : VisitedPaths) : Option (Closure × VisitedPaths) :=
  match c.origins with
  | [] => none
  | origin :: origins =>
    if visited.contains origin then some ({ c with origins }, visited)
    else some ({ c with origins, pending := c.pending ++ [origin] }, visited.mark origin)

end Closure

/-! ## Moves -/

/-- The state of an expansion. -/
structure State where
  /-- The seeds that are still to be claimed. -/
  seeds : List String
  /-- The closures that were opened, in the order of their seeds. -/
  closures : List Closure
  visited : VisitedPaths
  deriving Inhabited

namespace State

def initial (seeds : List String) (visited : VisitedPaths) : State := ⟨seeds, [], visited⟩

/-- The number of permits that are taken. -/
def running (st : State) : Nat := st.closures.countP Closure.isRunning

/-- Claim the next seed, and open its closure unless it was claimed before. -/
def claim? (st : State) : Option State :=
  match st.seeds with
  | [] => none
  | seed :: seeds =>
    let seed := QueryPath.normalize seed
    if st.visited.contains seed then some { st with seeds }
    else
      some { st with
        seeds
        visited := st.visited.mark seed
        closures := st.closures ++ [.opened seed] }

/-- Start a closure, if there is a permit left. -/
def start? (limit : Nat) (st : State) (i : Nat) : Option State :=
  match st.closures[i]? with
  | none => none
  | some c =>
    if c.begun || limit ≤ st.running then none
    else some { st with closures := st.closures.set i c.start }

/-- Settle a task of a closure. -/
def settle? (task : Task) (st : State) (i j : Nat) : Option State :=
  match st.closures[i]? with
  | none => none
  | some c => (c.settle? task j).map fun c => { st with closures := st.closures.set i c }

/-- Look at the next path that a closure knows to be required. -/
def look? (st : State) (i : Nat) : Option State :=
  match st.closures[i]? with
  | none => none
  | some c =>
    (c.look? st.visited).map fun (c, visited) =>
      { st with closures := st.closures.set i c, visited }

end State

/-- What an expansion can do next. -/
inductive Move where
  | claim
  | start (i : Nat)
  | settle (i j : Nat)
  | look (i : Nat)
  deriving DecidableEq, Repr

/-- The state after a move, if the move can be made. -/
def step? (task : Task) (limit : Nat) (st : State) : Move → Option State
  | .claim => st.claim?
  | .start i => st.start? limit i
  | .settle i j => st.settle? task i j
  | .look i => st.look? i

/-- The state after moves, if they can be made in turn. -/
def exec (task : Task) (limit : Nat) (st : State) (moves : List Move) : Option State :=
  moves.foldlM (step? task limit) st

/-! ## One run -/

/-- The state after a move, or as it is if the move cannot be made. -/
def perform (task : Task) (st : State) (move : Move) : State := (step? task 1 st move).getD st

/-- Claim all seeds. -/
def claimAll (task : Task) (st : State) : State :=
  st.seeds.foldl (fun st _ => perform task st .claim) st

/-- Settle the next task of a closure, and look at all that its module requires. -/
def settleNext (task : Task) (st : State) (i : Nat) : State :=
  let st := perform task st (.settle i 0)
  match st.closures[i]? with
  | none => st
  | some c => c.origins.foldl (fun st _ => perform task st (.look i)) st

/-- Settle the tasks of a closure, as many as are given at most, until none is left; what is
left of the number. -/
def settleClosure (task : Task) : Nat → State → Nat → Nat × State
  | 0, st, _ => (0, st)
  | bound + 1, st, i =>
    if (st.closures[i]?.map (·.pending.isEmpty)).getD true then (bound + 1, st)
    else settleClosure task bound (settleNext task st i) i

/-- Start the closures one after the other and settle their tasks, as many as are given at
most. -/
def settleAll (task : Task) (bound : Nat) (st : State) : State :=
  ((List.range st.closures.length).foldl
    (fun (bound, st) i => settleClosure task bound (perform task st (.start i)) i)
    (bound, st)).2

/-- What an expansion brings back. -/
structure Outcome where
  /-- The modules, grouped by their seeds, in the order of the seeds. -/
  modules : List Module
  errors : List BuildError
  visited : VisitedPaths
  /-- The paths that were compiled, grouped alike. -/
  settled : List String
  deriving Inhabited

/-- The requests that the compiler was given for the paths that were compiled. -/
def Outcome.requests (outcome : Outcome) : List CompileRequest :=
  (outcome.settled.filterMap QueryPath.ofText?).map CompileRequest.of

def State.outcome (st : State) : Outcome where
  modules := st.closures.flatMap Closure.modules
  errors := st.closures.flatMap Closure.errors
  visited := st.visited
  settled := st.closures.flatMap Closure.settled

/-- Expand seeds, by as many tasks as are given at most. -/
def run (task : Task) (bound : Nat) (seeds : List String) (visited : VisitedPaths) : Outcome :=
  (settleAll task bound (claimAll task (.initial seeds visited))).outcome

/-! ## Tasks -/

/-- A file of a type that nothing compiles, passed through untouched. -/
def passThrough (root : HostPath) (t : FileTree) (path : QueryPath) :
    Except BuildError Module :=
  let realPath := path.withoutScheme
  match t.read (root.below realPath) with
  | .error e => .error (.transformFailure realPath e.message)
  | .ok content =>
    match Text.decode? content with
    | none => .error (.transformFailure realPath "source is not valid UTF-8")
    | some code => .ok { Module.empty path .verbatim with realPath, code }

/-- Compile the file at a path. -/
def compileTask (compiler : Compiler) (root : HostPath) (t : FileTree) : Task := fun path =>
  match QueryPath.ofText path with
  | .error e => .error (.transformFailure path e.message)
  | .ok name =>
    match compiler t (.of name) with
    | .ok m => .ok m
    | .error (.unknownType _) => passThrough root t name
    | .error e => .error e.toBuildError

/-- A number of tasks that the expansion of seeds in a tree does not exceed with a compiler
whose modules require only files of the tree. -/
def taskBound (t : FileTree) (seeds : List String) : Nat := seeds.length + t.entries.length

/-- Compile seeds and all that they require from the project. -/
def expand (compiler : Compiler) (root : HostPath) (t : FileTree) (seeds : List String)
    (visited : VisitedPaths) : Outcome :=
  run (compileTask compiler root t) (taskBound t seeds) seeds visited

end Expansion

end WebBundler
