import WebBundler.Text.Split
set_option autoImplicit false

/-!
# Host paths

A host path is a path as the operating system spells it: `/`-separated, absolute or relative,
with any number of slashes and of `.` and `..` steps.  Its *components* are what the spelling
means: slashes in a row count once, and a `.` counts only at the start of a relative path.  Two
paths are compared, and one is taken off the front of another, by components; messages show the
spelling.

`clean` resolves `.` and `..` on the components alone, without looking at a disk.
-/

namespace WebBundler

/-- A path as the operating system spells it. -/
structure HostPath where
  text : String
  deriving DecidableEq, Repr, Inhabited

namespace HostPath

/-- One step of a path. -/
inductive Component where
  /-- The slash that an absolute path starts with. -/
  | root
  /-- A `.` at the start of a relative path. -/
  | here
  /-- A `..`. -/
  | up
  | name (s : String)
  deriving DecidableEq, Repr, Inhabited

/-- The texts between the slashes of a text. -/
def segments (s : String) : List String := (Text.splitOn '/' s.toList).map String.ofList

/-- The path starts at the root of the file system. -/
def isAbsolute (p : HostPath) : Bool := Text.startsWith p.text "/"

/-- The step that a segment stands for, other than at the start of a path. -/
def Component.ofSegment? (s : String) : Option Component :=
  if s = "" ∨ s = "." then none else if s = ".." then some .up else some (.name s)

/-- The steps of a path. -/
def components (p : HostPath) : List Component :=
  let segs := segments p.text
  if p.isAbsolute then .root :: segs.filterMap Component.ofSegment?
  else if segs.head? = some "." then .here :: segs.tail.filterMap Component.ofSegment?
  else segs.filterMap Component.ofSegment?

/-- The spelling of a step. -/
def Component.text : Component → String
  | .root => "/"
  | .here => "."
  | .up => ".."
  | .name s => s

/-- The plainest path with the given steps. -/
def ofComponents : List Component → HostPath
  | .root :: rest => ⟨"/" ++ String.intercalate "/" (rest.map Component.text)⟩
  | steps => ⟨String.intercalate "/" (steps.map Component.text)⟩

/-- The path `q` as seen from `p`: an absolute `q` is itself, a relative one is appended. -/
def join (p q : HostPath) : HostPath :=
  if q.isAbsolute then q
  else if p.text = "" ∨ Text.endsWith p.text "/" then ⟨p.text ++ q.text⟩
  else ⟨p.text ++ "/" ++ q.text⟩

/-- One step of cleaning, on the steps kept so far with the last one first: a `..` takes back a
name, stays at the root and is kept where there is nothing to take back. -/
def cleanStep (kept : List Component) : Component → List Component
  | .here => kept
  | .up =>
    match kept with
    | .root :: _ => kept
    | .name _ :: rest => rest
    | _ => .up :: kept
  | step => step :: kept

/-- The steps of a path with `.` and `..` resolved. -/
def cleanComponents (p : HostPath) : List Component :=
  (p.components.foldl cleanStep []).reverse

/-- The path with `.` and `..` resolved; `.` when nothing is left. -/
def clean (p : HostPath) : HostPath :=
  match p.cleanComponents with
  | [] => ⟨"."⟩
  | steps => ofComponents steps

/-- The steps of `p` that follow the steps of `start`, when `p` begins with them. -/
def stepsAfter? (start p : HostPath) : Option (List Component) :=
  let first := start.components
  let all := p.components
  if first.isPrefixOf all then some (all.drop first.length) else none

/-- `p` is `start` or lies below it. -/
def isBelow (start p : HostPath) : Bool := (stepsAfter? start p).isSome

/-- The name of the file or directory that a path ends in. -/
def fileName? (p : HostPath) : Option String :=
  match p.components.getLast? with
  | some (.name s) => some s
  | _ => none

/-- What follows the last dot of the file name; a dot at its start begins no extension. -/
def extension? (p : HostPath) : Option String :=
  match p.fileName? with
  | none => none
  | some name =>
    match Text.cutLast '.' name.toList with
    | some (stem, ext) => if stem.isEmpty then none else some (String.ofList ext)
    | none => none

/-- The path from the root of the file system, for a process working in `cwd`: `.` steps and
repeated slashes are dropped, `..` steps and a final slash are kept, and two slashes at the
start stay two. -/
def absolute (cwd p : HostPath) : HostPath :=
  let steps := p.components.filter (· ≠ .here)
  let twoSlashes := Text.startsWith p.text "//" && !Text.startsWith p.text "///"
  let base : HostPath := if twoSlashes then ⟨"//"⟩ else if p.isAbsolute then ⟨""⟩ else cwd
  let pushed := if twoSlashes then steps.tail else steps
  let full := pushed.foldl (fun acc step => acc.join ⟨step.text⟩) base
  if Text.endsWith p.text "/" then full.join ⟨""⟩ else full

/-- The names that lead from the root of the file system to what a path means: `.` and `..` are
resolved, and nothing lies above the root. -/
def location (p : HostPath) : List String :=
  p.cleanComponents.filterMap fun
    | .name s => some s
    | _ => none

end HostPath

end WebBundler
