import WebBundler.Build.Error
import WebBundler.Config.Basic
import WebBundler.Output.Loader
set_option autoImplicit false

/-!
# Output: the destination

All output of a build goes below one directory.  `place` is the only way to a path there: the
path of an output is resolved on its own, and refused if it climbs out.

Outputs come in groups.  A failed write ends its group and leaves the other groups alone.
-/

namespace WebBundler

/-- Where the output of a build goes. -/
structure Destination where
  /-- The directory, with `.` and `..` resolved. -/
  dir : HostPath
  /-- A loader that takes the place of the built-in one. -/
  loader : Option HostPath
  /-- The path of the common bundle. -/
  commonBundle : String
  deriving DecidableEq, Repr, Inhabited

/-- A file to write, at a path below the destination. -/
structure Output where
  path : String
  content : ByteArray
  deriving DecidableEq, Inhabited

/-- A text to write. -/
def Output.ofText (path text : String) : Output := ⟨path, Text.encode text⟩

namespace Destination

/-- The destination that settings name. -/
def of (c : Config) : Except BuildError Destination :=
  match c.dest with
  | some dest => .ok ⟨dest.clean, c.runtimeAsset, c.commonBundle⟩
  | none => .error .missingDestination

/-- A resolved path climbs out of the directory that it is seen from. -/
def climbsOut (path : HostPath) : Bool :=
  match path.components.head? with
  | some .up | some .root => true
  | _ => false

/-- Where an output goes. -/
def place (d : Destination) (path : String) : Except BuildError HostPath :=
  let slashed := Text.replaceChar '\\' '/' path
  let below := (HostPath.mk (Text.trimStartChar '/' slashed)).clean
  if climbsOut below then
    .error (.writeFailure path "path escapes the destination directory")
  else .ok (d.dir.join below)

/-- The tree after writing an output. -/
def write (d : Destination) (t : FileTree) (o : Output) : Except BuildError FileTree :=
  match d.place o.path with
  | .error e => .error e
  | .ok target =>
    match t.write target o.content with
    | .ok written => .ok written
    | .error e => .error (.writeFailure o.path e.message)

/-- The tree after writing the outputs of a group up to the first that fails, and its
failure. -/
def writeGroup (d : Destination) (t : FileTree) : List Output → FileTree × Option BuildError
  | [] => (t, none)
  | o :: group =>
    match d.write t o with
    | .ok written => d.writeGroup written group
    | .error e => (t, some e)

/-- The tree after writing groups of outputs, and all failures. -/
def writeGroups (d : Destination) (t : FileTree) :
    List (List Output) → FileTree × List BuildError
  | [] => (t, [])
  | group :: groups =>
    let (written, failure) := d.writeGroup t group
    let (done, failures) := d.writeGroups written groups
    (done, failure.toList ++ failures)

/-- The tree after writing the bytes of a file as an output. -/
def copy (d : Destination) (t : FileTree) (source : HostPath) (path : String) :
    Except BuildError FileTree :=
  match t.read source with
  | .error e => .error (.walk source e)
  | .ok content => d.write t ⟨path, content⟩

/-- The tree after writing the loader. -/
def writeLoader (d : Destination) (t : FileTree) : Except BuildError FileTree :=
  match d.loader with
  | some file => d.copy t file Loader.fileName
  | none => d.write t (.ofText Loader.fileName Loader.text)

end Destination

end WebBundler
