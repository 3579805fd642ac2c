import WebBundler.Walk.File
set_option autoImplicit false

/-!
# Walk: the walk over a source tree

A walk enumerates directories one at a time and visits the files that it finds.  Files of a
directory come in the order of their names, then its subdirectories in the order of theirs.  A
visit can settle at any time after its file was found, so the state of a walk offers two moves,
`enumerate` and `settle`, and the result must not depend on how they alternate.  `run` is the
plainest alternation: it finds all files, then settles the visits in the order in which they
were found.
-/

namespace WebBundler

/-- What a walk is given, besides the store that its visits share. -/
structure Walk (σ : Type) where
  /-- The project root, which the paths that visitors see are relative to. -/
  root : HostPath
  /-- The directory or file that is walked. -/
  source : HostPath
  /-- Sources below this directory may fail to compile. -/
  dependencyDir : String
  /-- The walk goes into a directory, given by its path below the root. -/
  enters : String → Bool
  visit : Visitor σ
  /-- The file tree of a store. -/
  tree : σ → FileTree

namespace Walk

variable {σ : Type}

/-- The state of a walk. -/
structure State (σ : Type) where
  /-- The directories still to be enumerated, the next one first. -/
  stack : List HostPath
  /-- The files whose visits have not settled, each with its number in the order of
  discovery. -/
  waiting : List (Nat × WalkedFile)
  /-- How many files were found. -/
  found : Nat
  /-- The modules of settled visits with the numbers of their files. -/
  modules : List (Nat × Module)
  errors : List BuildError
  /-- How many settled visits count. -/
  total : Nat
  /-- The directories about which it was asked whether the walk enters them. -/
  asked : List String
  store : σ

/-- A file as the visitor sees it. -/
def fileAt (w : Walk σ) (path : HostPath) : WalkedFile :=
  ⟨path, HostPath.relativeTo w.root path⟩

/-- What a directory holds. -/
structure Listing where
  files : List WalkedFile
  dirs : List HostPath
  asked : List String
  errors : List BuildError

/-- Add what is at a path to a listing; what is neither a directory nor a regular file is left
out. -/
def list (w : Walk σ) (t : FileTree) (listing : Listing) (path : HostPath) : Listing :=
  match t.metadata path with
  | .error e => { listing with errors := listing.errors ++ [.walk path e] }
  | .ok (.file _) => { listing with files := listing.files ++ [w.fileAt path] }
  | .ok .special => listing
  | .ok .dir =>
    let relPath := HostPath.relativeTo w.root path
    { listing with
      dirs := if w.enters relPath then listing.dirs ++ [path] else listing.dirs
      asked := listing.asked ++ [relPath] }

/-- What the directory at a path holds. -/
def listDir (w : Walk σ) (t : FileTree) (dir : HostPath) : Except StorageError Listing := do
  let names ← t.readDir dir
  return names.foldl (fun listing name => w.list t listing (dir.join ⟨name⟩)) ⟨[], [], [], []⟩

/-- Enumerate the next directory.  One that cannot be read is noted, unless it is the source of
the walk. -/
def enumerate (w : Walk σ) (st : State σ) : Except BuildError (State σ) :=
  match st.stack with
  | [] => .ok st
  | dir :: stack =>
    match w.listDir (w.tree st.store) dir with
    | .error e =>
      if dir = w.source then .error (.walk dir e)
      else .ok { st with stack, errors := st.errors ++ [.walk dir e] }
    | .ok listing =>
      .ok { st with
        stack := listing.dirs ++ stack
        waiting := st.waiting ++ (listing.files.zipIdx st.found).map Prod.swap
        found := st.found + listing.files.length
        errors := st.errors ++ listing.errors
        asked := st.asked ++ listing.asked }

/-- Take in what became of a file. -/
def record (w : Walk σ) (st : State σ) (number : Nat) (file : WalkedFile)
    (outcome : VisitOutcome) :
    Except BuildError (State σ) :=
  match outcome with
  | .ignored => .ok st
  | .copied => .ok { st with total := st.total + 1 }
  | .processed m =>
    .ok { st with total := st.total + 1, modules := st.modules ++ [(number, m)] }
  | .failed e =>
    if outcome.isFatal file.relPath w.dependencyDir then .error e
    else .ok { st with total := st.total + 1, errors := st.errors ++ [e] }

/-- Visit a file and take in what became of it. -/
def visitFile (w : Walk σ) (st : State σ) (number : Nat) (file : WalkedFile) :
    Except BuildError (State σ) :=
  let (outcome, store) := w.visit file st.store
  w.record { st with store } number file outcome

/-- Settle the visit at a place among those that have not settled. -/
def settle (w : Walk σ) (st : State σ) (i : Nat) : Except BuildError (State σ) :=
  match st.waiting[i]? with
  | none => .ok st
  | some (number, file) => w.visitFile { st with waiting := st.waiting.eraseIdx i } number file

/-- The state in which a walk starts: a source that is no directory is the only file. -/
def start (w : Walk σ) (store : σ) : Except BuildError (State σ) :=
  match (w.tree store).metadata w.source with
  | .error e => .error (.walk w.source e)
  | .ok .dir => .ok ⟨[w.source], [], 0, [], [], 0, [], store⟩
  | .ok _ => .ok ⟨[], [(0, w.fileAt w.source)], 1, [], [], 0, [], store⟩

/-- Enumerate directories, as many as are given at most, until none is left. -/
def enumerateAll (w : Walk σ) : Nat → State σ → Except BuildError (State σ)
  | 0, st => .ok st
  | bound + 1, st =>
    if st.stack.isEmpty then .ok st
    else do w.enumerateAll bound (← w.enumerate st)

/-- Settle visits, the one that waits longest first, as many as are given at most. -/
def settleAll (w : Walk σ) : Nat → State σ → Except BuildError (State σ)
  | 0, st => .ok st
  | bound + 1, st =>
    if st.waiting.isEmpty then .ok st
    else do w.settleAll bound (← w.settle st 0)

/-- What a walk brings back. -/
structure Summary (σ : Type) where
  /-- The modules of the files, in the order of discovery. -/
  modules : List Module
  errors : List BuildError
  /-- How many files were copied, processed or failed. -/
  total : Nat
  /-- The directories about which it was asked whether the walk enters them. -/
  asked : List String
  store : σ

/-- What is brought back from the state that a walk ends in. -/
def State.summary (st : State σ) : Summary σ where
  modules := (st.modules.mergeSort fun a b => decide (a.1 ≤ b.1)).map (·.2)
  errors := st.errors
  total := st.total
  asked := st.asked
  store := st.store

/-- Walk a source tree. -/
def run (w : Walk σ) (store : σ) : Except BuildError (Summary σ) := do
  let found ← w.enumerateAll (w.tree store).directoryBound (← w.start store)
  return (← w.settleAll found.waiting.length found).summary

end Walk

end WebBundler
