import WebBundler.HostPath
import WebBundler.Text.Utf8
set_option autoImplicit false

/-!
# File trees

A file tree is what a build reads and writes: files with their bytes, directories, and special
files that are neither.  A place is named by the names that lead to it from the root, so `.`,
`..` and repeated slashes are resolved on the path alone.  Every directory above an entry
exists.

An access can fail for a reason of the tree (`DiskError`) or because the tree says so: a *fault*
makes every access of one kind to one place fail.  Faults do not change what exists.
-/

namespace WebBundler

/-- The reasons for which the operating system refuses an access. -/
inductive DiskError where
  | occupied
  | noEntry
  | notDirectory
  | isDirectory
  /-- The bytes of a file that is read as text are not UTF-8. -/
  | notText
  deriving DecidableEq, Repr, Inhabited

def DiskError.message : DiskError → String
  | .occupied => "File exists (os error 17)"
  | .noEntry => "No such file or directory (os error 2)"
  | .notDirectory => "Not a directory (os error 20)"
  | .isDirectory => "Is a directory (os error 21)"
  | .notText => "stream did not contain valid UTF-8"

/-- Why an access fails. -/
inductive StorageError where
  | notFound (path : HostPath)
  | failed (path : HostPath) (reason : String)
  /-- The access was cut off before it had an outcome. -/
  | interrupted (reason : String)
  deriving DecidableEq, Repr, Inhabited

def StorageError.message : StorageError → String
  | .notFound path => path.text ++ " does not exist"
  | .failed path reason => path.text ++ ": " ++ reason
  | .interrupted reason => "filesystem task interrupted: " ++ reason

/-- A refusal, as the failure of an access to a path. -/
def DiskError.at (e : DiskError) (path : HostPath) : StorageError :=
  match e with
  | .noEntry => .notFound path
  | e => .failed path e.message

namespace FileTree

/-- What is found at a place. -/
inductive Node where
  | file (content : ByteArray)
  | dir
  | special
  deriving DecidableEq, Inhabited

/-- The kinds of access that can be made to fail. -/
inductive Access where
  | read
  | write
  | metadata
  | readDir
  deriving DecidableEq, Repr, Inhabited

/-- How an access is made to fail. -/
inductive FaultKind where
  | notFound
  | failed (reason : String)
  | interrupted (reason : String)
  deriving DecidableEq, Repr, Inhabited

/-- The failure of an access to a path. -/
def FaultKind.at (kind : FaultKind) (path : HostPath) : StorageError :=
  match kind with
  | .notFound => .notFound path
  | .failed reason => .failed path reason
  | .interrupted reason => .interrupted reason

/-- Accesses of one kind to one place fail. -/
structure Fault where
  access : Access
  place : List String
  kind : FaultKind
  deriving DecidableEq, Repr, Inhabited

end FileTree

/-- Files, directories and special files by their places, and the accesses that are made to
fail. -/
structure FileTree where
  entries : List (List String × FileTree.Node)
  faults : List FileTree.Fault
  deriving Inhabited

namespace FileTree

/-- The tree of the root alone. -/
def empty : FileTree := ⟨[], []⟩

/-- What is at a place, whatever lies above it.  A place above an entry is a directory. -/
def node? (t : FileTree) (place : List String) : Option Node :=
  match t.entries.find? (·.1 = place) with
  | some (_, node) => some node
  | none =>
    if place.isEmpty || t.entries.any fun e => place.isPrefixOf e.1 then some .dir else none

/-- The places above a place. -/
def above (place : List String) : List (List String) :=
  (List.range place.length).map (place.take ·)

/-- A place above is taken by something that is no directory. -/
def isBlocked (t : FileTree) (place : List String) : Bool :=
  (above place).any fun p =>
    match t.node? p with
    | some (.file _) | some .special => true
    | _ => false

/-- What is at a place. -/
def look (t : FileTree) (place : List String) : Except DiskError Node :=
  if t.isBlocked place then .error .notDirectory
  else
    match t.node? place with
    | some node => .ok node
    | none => .error .noEntry

/-- The tree with a node put at a place. -/
def put (t : FileTree) (place : List String) (node : Node) : FileTree :=
  { t with entries := t.entries.filter (·.1 ≠ place) ++ [(place, node)] }

/-- The bytes of the file at a place. -/
def contentAt (t : FileTree) (place : List String) : Except DiskError ByteArray :=
  match t.look place with
  | .error e => .error e
  | .ok (.file content) => .ok content
  | .ok .dir => .error .isDirectory
  | .ok .special => .ok ByteArray.empty

/-- The names of what lies directly in the directory at a place, in increasing order. -/
def namesAt (t : FileTree) (place : List String) : Except DiskError (List String) :=
  match t.look place with
  | .error e => .error e
  | .ok .dir =>
    let below := t.entries.filterMap fun e =>
      if place.isPrefixOf e.1 then (e.1.drop place.length).head? else none
    .ok (below.eraseDups.mergeSort fun a b => decide (a ≤ b))
  | .ok _ => .error .notDirectory

/-- The tree after writing a file, whose missing directories are made. -/
def writtenAt (t : FileTree) (place : List String) (content : ByteArray) :
    Except DiskError FileTree :=
  let parent := place.dropLast
  let parentTaken :=
    match t.node? parent with
    | some (.file _) | some .special => true
    | _ => false
  if t.isBlocked parent then .error .notDirectory
  else if parentTaken then .error .occupied
  else
    match t.node? place with
    | some .dir => .error .isDirectory
    | _ => .ok (t.put place (.file content))

/-- The outcome of an access to a path: a fault comes before anything else. -/
def attempt {α : Type} (t : FileTree) (access : Access) (path : HostPath)
    (outcome : Except DiskError α) : Except StorageError α :=
  match t.faults.find? fun f => f.access = access ∧ f.place = path.location with
  | some fault => .error (fault.kind.at path)
  | none =>
    match outcome with
    | .ok a => .ok a
    | .error e => .error (e.at path)

/-- Read a file. -/
def read (t : FileTree) (path : HostPath) : Except StorageError ByteArray :=
  t.attempt .read path (t.contentAt path.location)

/-- Ask what is at a path. -/
def metadata (t : FileTree) (path : HostPath) : Except StorageError Node :=
  t.attempt .metadata path (t.look path.location)

/-- The names of what lies in a directory, in increasing order. -/
def readDir (t : FileTree) (path : HostPath) : Except StorageError (List String) :=
  t.attempt .readDir path (t.namesAt path.location)

/-- The tree after writing a file, whose missing directories are made. -/
def write (t : FileTree) (path : HostPath) (content : ByteArray) :
    Except StorageError FileTree :=
  t.attempt .write path (t.writtenAt path.location content)

/-- Something is at a path. -/
def holds (t : FileTree) (path : HostPath) : Bool := (t.look path.location).isOk

/-- A number that the tree has no more directories than: each lies above an entry, or is one. -/
def directoryBound (t : FileTree) : Nat := t.entries.foldr (fun e n => e.1.length + n) 1

/-- The files of a tree that are new or changed since an earlier one. -/
def changedSince (t before : FileTree) : List (List String × ByteArray) :=
  t.entries.filterMap fun (place, node) =>
    match node with
    | .file content =>
      if before.entries.any fun e => e.1 = place && e.2 = .file content then none
      else some (place, content)
    | _ => none

end FileTree

end WebBundler
