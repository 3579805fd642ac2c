import WebBundler.FileType
import WebBundler.Resolution
import WebBundler.Script.Reference
import WebBundler.Wrapping
import WebBundler.Build.Error
set_option autoImplicit false

/-!
# Compiling

A compiler turns the source of one file into a module.  The standard one goes by the type of the
file: in a script every specifier is replaced by the path of the module that it names, a
stylesheet is kept, and a template becomes a module that exports its text.
-/

namespace WebBundler

/-- One file to compile. -/
structure CompileRequest where
  path : QueryPath
  /-- Where the source lies, relative to the project root. -/
  realPath : String
  /-- The source, when it is not to be read from the file. -/
  source : Option String
  /-- The wrapped rendering is to be the output. -/
  wrap : Bool
  deriving DecidableEq, Repr, Inhabited

/-- The file that a path names, to be wrapped. -/
def CompileRequest.of (path : QueryPath) : CompileRequest :=
  ⟨path, path.withoutScheme, none, true⟩

/-- Why a file does not compile. -/
inductive CompileError where
  | unknownType (path : String)
  | failed (path reason : String)
  deriving DecidableEq, Repr, Inhabited

namespace CompileError

def message : CompileError → String
  | .unknownType path => "unknown file type: " ++ path
  | .failed path reason => path ++ ": " ++ reason

def path : CompileError → String
  | .unknownType path => path
  | .failed path _ => path

/-- The failure of a build that the error is. -/
def toBuildError : CompileError → BuildError
  | .unknownType path => .unknownFileType path
  | .failed path reason => .transformFailure path reason

end CompileError

/-- What compiles the files of a tree. -/
abbrev Compiler := FileTree → CompileRequest → Except CompileError Module

namespace Script

/-- What is known of the references of a script, in the order in which each was first met. -/
structure Requirements where
  /-- The modules that are required. -/
  paths : List QueryPath
  /-- The paths of those that were found in the project. -/
  origins : List String
  deriving DecidableEq, Repr, Inhabited

/-- One more item in a list without repetitions. -/
def addNew {α : Type} [BEq α] (items : List α) (a : α) : List α :=
  if items.contains a then items else items ++ [a]

/-- One more reference. -/
def Requirements.add (known : Requirements) (r : Resolution) : Requirements where
  paths := addNew known.paths r.path
  origins := if r.kind = .found then addNew known.origins r.path.text else known.origins

/-- What the references of a script require. -/
def requirements (resolve : String → Option Resolution) (source : String) : Requirements :=
  ((Cuts.of source).specifiers.filterMap resolve).foldl Requirements.add ⟨[], []⟩

/-- A specifier as it is written in the code: the path of its module, or itself if it names
none. -/
def written (resolve : String → Option Resolution) (specifier : List Char) : List Char :=
  match resolve (String.ofList specifier) with
  | some r => r.path.text.toList
  | none => specifier

/-- The source of a script with its specifiers replaced by paths. -/
def linkedCode (resolve : String → Option Resolution) (source : String) : String :=
  String.ofList ((Cuts.of source).textWith (written resolve))

end Script

namespace Compiler

/-- The module of a script. -/
def script (resolve : String → Option Resolution) (request : CompileRequest) (source : String) :
    Module :=
  let required := Script.requirements resolve source
  let code := Script.linkedCode resolve source
  { path := request.path
    realPath := request.realPath
    kind := .script
    requires := required.paths
    requiresOrigin := required.origins
    code
    wrappedCode := Wrapping.wrap request.path required.paths code
    wrap := request.wrap }

/-- The module of a stylesheet, whose bare code is the stylesheet itself. -/
def style (request : CompileRequest) (source : String) : Module :=
  { Module.empty request.path .style with
    realPath := request.realPath
    code := source
    wrappedCode := Wrapping.wrap request.path [] (Wrapping.exportText source)
    wrap := request.wrap }

/-- The module of a template. -/
def template (request : CompileRequest) (source : String) : Module :=
  let code := Wrapping.exportText source
  { Module.empty request.path .template with
    realPath := request.realPath
    code
    wrappedCode := Wrapping.wrap request.path [] code
    wrap := request.wrap }

/-- The source of a request. -/
def sourceOf (root : HostPath) (t : FileTree) (request : CompileRequest) :
    Except CompileError String :=
  match request.source with
  | some source => .ok source
  | none =>
    match t.read (root.below request.realPath) with
    | .error e => .error (.failed request.realPath e.message)
    | .ok content =>
      match Text.decode? content with
      | some source => .ok source
      | none => .error (.failed request.realPath "source is not valid UTF-8")

/-- The compiler for scripts, stylesheets and templates. -/
def standard (r : Resolver) : Compiler := fun t request =>
  match FileTypes.standard.kind? request.realPath with
  | none | some .verbatim => .error (.unknownType request.realPath)
  | some .script => do
    return script (fun specifier => (r.resolve specifier request.path).answer t) request
      (← sourceOf r.root t request)
  | some .style => do return style request (← sourceOf r.root t request)
  | some .template => do return template request (← sourceOf r.root t request)

end Compiler

end WebBundler
