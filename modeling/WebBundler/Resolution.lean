import WebBundler.FileTree.Lookup
import WebBundler.Module
import WebBundler.Json.Parser
set_option autoImplicit false

/-!
# Resolution

A script names a module by a specifier.  One with a scheme is remote and kept as it is.  All
others name a place in the project: from the directory of the referrer when they start with a
dot, from the root when they start with a slash, and else a package in the dependency directory.
A place stands for the first regular file among the place itself, the place with `.js`, and its
`index.js`.

A package without a subpath is entered where the field `main` of its `package.json` says, and
else at its `index.js`.
-/

namespace WebBundler

/-- What is known of the module that a specifier names. -/
inductive ResolutionKind where
  /-- Its file is in the project. -/
  | found
  /-- It has a scheme, so its file is not looked for. -/
  | remote
  /-- No file was found. -/
  | missing
  deriving DecidableEq, Repr, Inhabited

/-- The module that a specifier names. -/
structure Resolution where
  path : QueryPath
  kind : ResolutionKind
  deriving DecidableEq, Repr, Inhabited

/-- Where specifiers are looked up. -/
structure Resolver where
  root : HostPath
  /-- The directory of packages below the root, without slashes around it. -/
  dependencyDir : String
  deriving DecidableEq, Repr, Inhabited

namespace Resolver

/-- A resolver for a root and its directory of packages, with or without slashes around it. -/
def of (root : HostPath) (dependencyDir : String) : Resolver :=
  ⟨root, Text.trimChar '/' dependencyDir⟩

/-- The places of the files that a place can stand for, in the order in which they are tried. -/
def forms (place : String) : List String :=
  [place, place ++ ".js", Text.trimEndChar '/' place ++ "/index.js"]

/-- The first of some places at which there is a file. -/
def firstFile (r : Resolver) : List String → Lookup (Option String)
  | [] => pure none
  | place :: places => do
    if ← Lookup.isFile (r.root.below place) then return some place
    r.firstFile places

/-- The file that a place stands for. -/
def probe (r : Resolver) (place : String) : Lookup (Option String) := r.firstFile (forms place)

/-- The module at a place: that of the file that was found for it, or one whose file is
missing. -/
def settle (place : String) : Option String → Option Resolution
  | some file => (QueryPath.ofText? file).map fun path => ⟨path, .found⟩
  | none => (QueryPath.ofText? place).map fun path => ⟨path, .missing⟩

/-- The module at a place. -/
def resolvePlace (r : Resolver) (place : String) : Lookup (Option Resolution) := do
  return settle place (← r.probe place)

/-- The name of a package and the path inside it: the name goes up to the first slash, and up to
the second one if it starts with `@`. -/
def splitPackage (specifier : String) : String × String :=
  match Text.cutFirst '/' specifier.toList with
  | none => (specifier, "")
  | some (first, rest) =>
    if first.head? = some '@' then
      match Text.cutFirst '/' rest with
      | none => (specifier, "")
      | some (name, subpath) => (String.ofList (first ++ '/' :: name), String.ofList subpath)
    else (String.ofList first, String.ofList rest)

/-- The entry that a package description names. -/
def entryOf (description : String) : Option String :=
  match ((Json.parse? description).bind (Json.field? "main")).bind Json.text? with
  | some entry => if Text.isAllBlank entry then none else some entry
  | none => none

/-- The entry that the description of a package names. -/
def packageEntry (r : Resolver) (packageDir : String) : Lookup (Option String) := do
  return (← Lookup.text? (r.root.below (packageDir ++ "/package.json"))).bind entryOf

/-- The module that a package is entered at. -/
def resolveEntry (r : Resolver) (packageDir : String) : Lookup (Option Resolution) := do
  match ← r.packageEntry packageDir with
  | some entry =>
    let place := QueryPath.normalize (packageDir ++ "/" ++ entry)
    match ← r.probe place with
    | some file => return settle place (some file)
    | none => r.resolvePlace (packageDir ++ "/index.js")
  | none => r.resolvePlace (packageDir ++ "/index.js")

/-- The module that the specifier of a package names. -/
def resolvePackage (r : Resolver) (specifier : String) : Lookup (Option Resolution) :=
  let (name, subpath) := splitPackage specifier
  let packageDir := QueryPath.normalize (r.dependencyDir ++ "/" ++ name)
  if subpath = "" then r.resolveEntry packageDir
  else r.resolvePlace (QueryPath.normalize (packageDir ++ "/" ++ subpath))

/-- The directory of a module as a path below the root. -/
def directoryOf (referrer : QueryPath) : String :=
  match Text.cutLast '/' referrer.withoutScheme.toList with
  | some (dir, _) => String.ofList dir
  | none => ""

/-- The module that a specifier names in the script of a referrer; a blank one names none. -/
def resolve (r : Resolver) (specifier : String) (referrer : QueryPath) :
    Lookup (Option Resolution) :=
  let specifier := Text.trim specifier
  if specifier = "" then pure none
  else if (QueryPath.schemeOf specifier).isSome then
    pure ((QueryPath.ofText? specifier).map fun path => ⟨path, .remote⟩)
  else if Text.startsWith specifier "." then
    r.resolvePlace (QueryPath.normalize (directoryOf referrer ++ "/" ++ specifier))
  else if Text.startsWith specifier "/" then r.resolvePlace (QueryPath.normalize specifier)
  else r.resolvePackage specifier

end Resolver

end WebBundler
