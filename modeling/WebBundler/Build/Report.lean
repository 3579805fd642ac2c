import WebBundler.Build.Error
set_option autoImplicit false

/-!
# Build: reports

What the build of a whole directory brings back: the failures that did not stop it, and how many
files it handled.
-/

namespace WebBundler

/-- What the build of a directory brings back. -/
structure BuildReport where
  /-- The failures that did not stop the build. -/
  errors : List BuildError
  /-- The files that were copied or processed; in a build that follows references, the
  modules. -/
  total : Nat
  deriving DecidableEq, Repr, Inhabited

/-- Nothing failed. -/
def BuildReport.isClean (report : BuildReport) : Bool := report.errors.isEmpty

end WebBundler
