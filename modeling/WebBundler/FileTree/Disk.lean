import WebBundler.FileTree
set_option autoImplicit false

/-!
# File trees: a tree as a disk

A build takes a path for the place that its names lead to.  A disk goes along a path step by
step, so a `..` needs a directory to leave, and a slash at the end needs a directory before it.
Settings and the arguments of a command are looked up this way, past all faults.
-/

namespace WebBundler.FileTree

/-- Go along the steps of a path from a place. -/
def follow (t : FileTree) (place : List String) :
    List HostPath.Component → Except DiskError (List String)
  | [] => .ok place
  | .name s :: steps => t.follow (place ++ [s]) steps
  | .up :: steps =>
    match t.look place with
    | .ok .dir => t.follow place.dropLast steps
    | .ok _ => .error .notDirectory
    | .error e => .error e
  | .root :: steps => t.follow [] steps
  | .here :: steps => t.follow place steps

/-- What a disk finds at a path. -/
def find (t : FileTree) (path : HostPath) : Except DiskError Node :=
  match t.follow [] path.components with
  | .error e => .error e
  | .ok place =>
    match t.look place with
    | .error e => .error e
    | .ok .dir => .ok .dir
    | .ok node => if Text.endsWith path.text "/" then .error .notDirectory else .ok node

/-- Something is at a path. -/
def isPresent (t : FileTree) (path : HostPath) : Bool := (t.find path).isOk

/-- A directory is at a path. -/
def isDir (t : FileTree) (path : HostPath) : Bool :=
  match t.find path with
  | .ok .dir => true
  | _ => false

/-- A regular file is at a path. -/
def isFile (t : FileTree) (path : HostPath) : Bool :=
  match t.find path with
  | .ok (.file _) => true
  | _ => false

/-- The text of the file at a path. -/
def text (t : FileTree) (path : HostPath) : Except DiskError String :=
  match t.find path with
  | .error e => .error e
  | .ok .dir => .error .isDirectory
  | .ok .special => .ok ""
  | .ok (.file content) =>
    match Text.decode? content with
    | some s => .ok s
    | none => .error .notText

/-- Go along the steps of a path from a place, making the directories that are missing. -/
def followNew (t : FileTree) (place : List String) :
    List HostPath.Component → Except DiskError Unit
  | [] => .ok ()
  | .name s :: steps => t.followNew (place ++ [s]) steps
  | .up :: steps =>
    match t.look place with
    | .ok .dir | .error .noEntry => t.followNew place.dropLast steps
    | .ok _ => .error .notDirectory
    | .error e => .error e
  | .root :: steps => t.followNew [] steps
  | .here :: steps => t.followNew place steps

/-- The tree after a disk has written a file, whose missing directories are made. -/
def save (t : FileTree) (path : HostPath) (content : ByteArray) :
    Except StorageError FileTree :=
  match t.followNew [] path.components with
  | .error e => .error (e.at path)
  | .ok () =>
    match t.write path content with
    | .error e => .error e
    | .ok written =>
      if Text.endsWith path.text "/" then .error (DiskError.isDirectory.at path)
      else .ok written

end WebBundler.FileTree
