import WebBundler.HostPath
import WebBundler.Text.Blank
set_option autoImplicit false

/-!
# Query paths

A query path names a module.  A local module is named by its path below the project root, with
forward slashes and a slash at the start; a path that starts with a scheme such as `pkg:` names
a module that is never looked up in the project, and is kept as it is written.

`normalize` is the one function that makes local names canonical: backslashes are read as
slashes, and empty, `.` and `..` segments are resolved against the project root, above which
nothing lies.
-/

namespace WebBundler

/-- Where a path below a root lies; slashes at its start do not count. -/
def HostPath.below (root : HostPath) (path : String) : HostPath :=
  root.join ⟨Text.trimStartChar '/' path⟩

/-- The name of a module. -/
structure QueryPath where
  text : String
  deriving DecidableEq, Repr, Inhabited

namespace QueryPath

/-- The characters of a scheme: letters, digits and the underscore of ASCII. -/
def isSchemeChar (c : Char) : Bool := c.isAlphanum || c == '_'

/-- The scheme that a text starts with: one or more scheme characters before its first colon. -/
def schemeOf (raw : String) : Option String :=
  match Text.cutFirst ':' raw.toList with
  | some (scheme, _) =>
    if !scheme.isEmpty && scheme.all isSchemeChar then some (String.ofList scheme) else none
  | none => none

/-- The canonical local form of a text. -/
def normalize (raw : String) : String :=
  let slashed := Text.replaceChar '\\' '/' raw
  let rooted := if Text.startsWith slashed "/" then slashed else "/" ++ slashed
  (HostPath.clean ⟨rooted⟩).text

/-- The path lies below a directory given relative to the root, with or without slashes around
it.  Nothing lies below a directory of slashes alone. -/
def within (path dir : String) : Bool :=
  let dir := Text.trimChar '/' dir
  if dir = "" then false
  else
    match Text.dropPrefix? dir (Text.trimStartChar '/' path) with
    | some rest => Text.startsWith rest "/"
    | none => false

/-- Why a text names no module: nothing but blanks. -/
inductive Fault where
  | empty
  deriving DecidableEq, Repr, Inhabited

def Fault.message : Fault → String
  | .empty => "query path is empty"

/-- The module that a text names: blanks around it are dropped, a text with a scheme is kept,
and any other is made canonical. -/
def ofText (raw : String) : Except Fault QueryPath :=
  let raw := Text.trim raw
  if raw = "" then .error .empty
  else if (schemeOf raw).isSome then .ok ⟨raw⟩
  else .ok ⟨normalize raw⟩

/-- The module that a text names, if it names one. -/
def ofText? (raw : String) : Option QueryPath := (ofText raw).toOption

/-- The scheme of a name. -/
def scheme? (p : QueryPath) : Option String := schemeOf p.text

/-- The name has a scheme, so it is never looked up in the project. -/
def isRemote (p : QueryPath) : Bool := p.scheme?.isSome

/-- The name without its scheme, from which the place of its output is derived. -/
def withoutScheme (p : QueryPath) : String :=
  match p.scheme? with
  | some scheme => String.ofList (p.text.toList.drop (scheme.length + 1))
  | none => p.text

/-- The module lies below a directory of the project. -/
def isWithin (p : QueryPath) (dir : String) : Bool := within p.withoutScheme dir

end QueryPath

end WebBundler
