import WebBundler.Build.Error
import WebBundler.Module
set_option autoImplicit false

/-!
# Walk: files and outcomes

A walk hands every file that it finds to a visitor, by its own path and by its path below the
project root, and collects what the visitor says became of it.
-/

namespace WebBundler

/-- The path of a file below a root, in canonical form.  A path outside of the root is taken as
it is. -/
def HostPath.relativeTo (root path : HostPath) : String :=
  match stepsAfter? root path with
  | some steps => QueryPath.normalize (ofComponents steps).text
  | none => QueryPath.normalize path.text

/-- A file that a walk finds. -/
structure WalkedFile where
  path : HostPath
  /-- The path below the project root. -/
  relPath : String
  deriving DecidableEq, Repr, Inhabited

/-- What became of a file. -/
inductive VisitOutcome where
  /-- It was left out, and does not count. -/
  | ignored
  /-- It was copied as it is. -/
  | copied
  | processed (m : Module)
  | failed (e : BuildError)
  deriving DecidableEq, Repr, Inhabited

/-- What is done with a file: its outcome, and the store that the visit leaves. -/
abbrev Visitor (σ : Type) := WalkedFile → σ → VisitOutcome × σ

/-- The outcome ends the walk: a source of the project itself, outside the dependency directory,
does not compile.  Every other failure is collected. -/
def VisitOutcome.isFatal (outcome : VisitOutcome) (relPath dependencyDir : String) : Bool :=
  match outcome with
  | .failed (.transformFailure _ _) => !QueryPath.within relPath dependencyDir
  | _ => false

end WebBundler
