import WebBundler.QueryPath
set_option autoImplicit false

/-!
# Paths that were claimed

Whoever is the first to mark a path claims it.  Paths are compared in canonical form, so each
spelling of a path stands for all.
-/

namespace WebBundler

/-- The canonical forms of the paths that were marked, each once. -/
structure VisitedPaths where
  paths : List String
  nodup : paths.Nodup := by simp
  deriving Repr

namespace VisitedPaths

/-- Nothing was marked. -/
def empty : VisitedPaths where
  paths := []

instance : Inhabited VisitedPaths := ⟨empty⟩

/-- The path was marked. -/
def contains (visited : VisitedPaths) (path : String) : Bool :=
  visited.paths.contains (QueryPath.normalize path)

def size (visited : VisitedPaths) : Nat := visited.paths.length

/-- Mark a path. -/
def mark (visited : VisitedPaths) (path : String) : VisitedPaths :=
  if h : QueryPath.normalize path ∈ visited.paths then visited
  else ⟨QueryPath.normalize path :: visited.paths, List.nodup_cons.2 ⟨h, visited.nodup⟩⟩

theorem contains_iff {visited : VisitedPaths} {path : String} :
    visited.contains path = true ↔ QueryPath.normalize path ∈ visited.paths := by
  simp [contains]

theorem mem_mark {visited : VisitedPaths} {path other : String} :
    other ∈ (visited.mark path).paths ↔ other = QueryPath.normalize path ∨
      other ∈ visited.paths := by
  unfold mark
  split
  · next h =>
    constructor
    · exact Or.inr
    · rintro (hother | hother)
      · rw [hother]
        exact h
      · exact hother
  · simp only [List.mem_cons]

/-- Mark paths in turn. -/
def markAll (visited : VisitedPaths) (paths : List String) : VisitedPaths :=
  paths.foldl mark visited

end VisitedPaths

end WebBundler
