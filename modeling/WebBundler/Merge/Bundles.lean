import WebBundler.Merge.Marks
import WebBundler.Merge.DependencyFirst
set_option autoImplicit false

/-!
# Merge: bundles

A merge places every module of a set once: in the bundle of the only root that reaches it, or in
the common bundle when two or more roots do.  Modules that no root reaches lie on cycles that
nothing enters, or below one; the first of them becomes a further root until all are reached.

Each bundle lists its modules dependency first.  The walk for a root stops at shared modules;
the order in which the walks first meet them is the order in which the common bundle starts from
them.
-/

namespace WebBundler

/-- The modules of one root, or the shared ones, in loading order. -/
structure Bundle where
  modules : List QueryPath
  /-- Modules of the common bundle are required, so it must be loaded first. -/
  usesCommon : Bool
  deriving DecidableEq, Repr, Inhabited

namespace Bundle

def size (b : Bundle) : Nat := b.modules.length

def isEmpty (b : Bundle) : Bool := b.modules.isEmpty

def contains (b : Bundle) (p : QueryPath) : Bool := b.modules.contains p

def toJson (b : Bundle) : Json :=
  .obj [("modules", .arr (b.modules.map QueryPath.toJson)), ("uses_common", .bool b.usesCommon)]

end Bundle

/-- A set of modules divided into bundles. -/
structure Merged where
  /-- One bundle per root, in the order of the roots. -/
  bundles : List (QueryPath × Bundle)
  /-- The modules that two or more roots reach. -/
  common : Option Bundle
  deriving DecidableEq, Repr, Inhabited

namespace Merged

def roots (m : Merged) : List QueryPath := m.bundles.map (·.1)

/-- The bundle of a root. -/
def bundle? (m : Merged) (root : QueryPath) : Option Bundle :=
  (m.bundles.find? (·.1 = root)).map (·.2)

/-- All modules placed, those of the common bundle first. -/
def modules (m : Merged) : List QueryPath :=
  (m.common.toList ++ m.bundles.map (·.2)).flatMap Bundle.modules

/-- The roots whose bundles hold a module. -/
def heldBy (m : Merged) (p : QueryPath) : List QueryPath :=
  (m.bundles.filter (·.2.contains p)).map (·.1)

/-- The written form: the bundles under the names of their roots, and the common one. -/
def toJson (m : Merged) : Json :=
  .obj [
    ("bundles", .obj (m.bundles.map fun (root, b) => (root.text, b.toJson))),
    ("common", .ofOption Bundle.toJson m.common)]

/-- The text of the manifest that is written beside the bundles. -/
def manifest (m : Merged) : String := m.toJson.pretty

end Merged

namespace ModuleSet

/-- The marks of all roots, with a further root for the first module that none reaches, until
all are reached. -/
def fullMarks (set : ModuleSet) (extra : List QueryPath) : RootMarks :=
  set.paths.foldl
    (fun marks p => if marks.reachCount p = 0 then marks.markFrom set p else marks)
    (RootMarks.ofRoots set (set.roots extra))

/-- What the walk for a root finds out about shared modules. -/
structure Frontier where
  /-- The walk met a shared module. -/
  usesCommon : Bool
  /-- The shared modules met by the walks so far, in the order in which each was first met. -/
  shared : List QueryPath
  deriving DecidableEq, Repr, Inhabited

/-- What is known while the roots are taken in turn. -/
structure Partition where
  marks : RootMarks
  /-- The modules already placed in a bundle. -/
  consumed : List QueryPath
  /-- The shared modules met so far. -/
  frontier : List QueryPath
  bundles : List (QueryPath × Bundle)

/-- Which modules the walk for a root enters: those that are not shared, carry the slot of the
root and are not placed yet.  A shared module is noted. -/
def enterOwn (isShared : QueryPath → Bool) (marks : RootMarks) (consumed : List QueryPath)
    (slot : Nat) (seen : Frontier) (p : QueryPath) : Bool × Frontier :=
  if isShared p then
    (false, ⟨true, if seen.shared.contains p then seen.shared else seen.shared ++ [p]⟩)
  else (marks.carries p slot && !consumed.contains p, seen)

/-- Take the slot off each module of a bundle; one that carries no other is placed for good. -/
def consume (slot : Nat) (order : List QueryPath) (marks : RootMarks)
    (consumed : List QueryPath) :
    RootMarks × List QueryPath :=
  order.foldl
    (fun (marks, consumed) p =>
      let released := marks.release p slot
      (released, if released.reachCount p = 0 then p :: consumed else consumed))
    (marks, consumed)

/-- Make the bundle of the root at a slot. -/
def takeRoot (set : ModuleSet) (isShared : QueryPath → Bool) (part : Partition) (slot : Nat)
    (root : QueryPath) : Partition :=
  let (order, seen) :=
    set.dependencyFirst root (enterOwn isShared part.marks part.consumed slot)
      ⟨false, part.frontier⟩
  let (marks, consumed) := consume slot order part.marks part.consumed
  { marks, consumed, frontier := seen.shared
    bundles := part.bundles ++ [(root, ⟨order, seen.usesCommon⟩)] }

/-- The modules of the common bundle: those reached from each shared module in turn. -/
def commonModules (set : ModuleSet) (isShared : QueryPath → Bool) (frontier : List QueryPath) :
    List QueryPath :=
  frontier.foldl
    (fun common start =>
      common ++
        (set.dependencyFirst start (fun _ p => (isShared p && !common.contains p, ())) ()).1)
    []

/-- Divide a set into the bundles of its roots and the common bundle. -/
def merge (set : ModuleSet) (extra : List QueryPath) : Merged :=
  let marks := set.fullMarks extra
  let isShared p := decide (2 ≤ marks.reachCount p)
  let part :=
    marks.roots.zipIdx.foldl (fun part (root, slot) => set.takeRoot isShared part slot root)
    ⟨marks, [], [], []⟩
  let common := set.commonModules isShared part.frontier
  ⟨part.bundles, if common.isEmpty then none else some ⟨common, false⟩⟩

end ModuleSet

end WebBundler
