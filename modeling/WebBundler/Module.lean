import WebBundler.QueryPath
import WebBundler.Json.Mismatch
set_option autoImplicit false

/-!
# Modules

A module is one compiled source file.  It carries both renderings of its code, the bare one and
the one wrapped for the loader, and says which of them is its output.  `toJson` and `ofJson` are
its written form: a record with one field per component.
-/

namespace WebBundler

/-- The kinds of modules. -/
inductive ModuleKind where
  | script
  | style
  | template
  /-- Passed through untouched. -/
  | verbatim
  deriving DecidableEq, Repr, Inhabited

namespace ModuleKind

def name : ModuleKind → String
  | .script => "script"
  | .style => "style"
  | .template => "template"
  | .verbatim => "verbatim"

def all : List ModuleKind := [.script, .style, .template, .verbatim]

/-- The kind with the given name. -/
def ofName? (s : String) : Option ModuleKind := all.find? (·.name = s)

theorem ofName?_name (k : ModuleKind) : ofName? k.name = some k := by cases k <;> decide

end ModuleKind

/-- One compiled source file. -/
structure Module where
  path : QueryPath
  /-- Where the source lies, relative to the project root. -/
  realPath : String
  kind : ModuleKind
  /-- The modules that it requires, in the order of the source. -/
  requires : List QueryPath
  /-- Where those of them lie that were found in the project. -/
  requiresOrigin : List String
  code : String
  wrappedCode : String
  /-- The wrapped rendering is the output. -/
  wrap : Bool
  deriving DecidableEq, Repr, Inhabited

namespace Module

/-- A module with no code that requires nothing, whose source lies where its name says.  All
kinds but `verbatim` are wrapped. -/
def empty (path : QueryPath) (kind : ModuleKind) : Module where
  path := path
  realPath := path.withoutScheme
  kind := kind
  requires := []
  requiresOrigin := []
  code := ""
  wrappedCode := ""
  wrap := kind ≠ .verbatim

/-- The rendering that is written out. -/
def outputCode (m : Module) : String := if m.wrap then m.wrappedCode else m.code

/-- The sources required in the project that lie below a directory. -/
def originsWithin (m : Module) (dir : String) : List String :=
  m.requiresOrigin.filter (QueryPath.within · dir)

end Module

namespace QueryPath

/-- A name from a text. -/
def reader : Json.Reader QueryPath := fun j => do
  match ofText (← Json.Reader.text j) with
  | .ok p => .ok p
  | .error e => .error (.refused e.message)

/-- The written form of a name. -/
def toJson (p : QueryPath) : Json := .str p.text

theorem arr_map_toJson (names : List QueryPath) :
    Json.arr (names.map toJson) = .ofTexts (names.map text) := by
  rw [Json.ofTexts, List.map_map]
  rfl

end QueryPath

namespace Module

/-- The record of a module. -/
def toJson (m : Module) : Json :=
  .obj [
    ("query_path", m.path.toJson),
    ("real_path", .str m.realPath),
    ("module_type", .str m.kind.name),
    ("requires", .arr (m.requires.map QueryPath.toJson)),
    ("requires_origin", .ofTexts m.requiresOrigin),
    ("code", .str m.code),
    ("wrapped_code", .str m.wrappedCode),
    ("wrap", .bool m.wrap)]

/-- The names of the fields of a record, in order. -/
def fieldNames : List String :=
  ["query_path", "real_path", "module_type", "requires", "requires_origin", "code",
    "wrapped_code", "wrap"]

/-- The reader of a kind. -/
def kindReader : Json.Reader ModuleKind :=
  Json.Reader.word (ModuleKind.all.map ModuleKind.name) ModuleKind.ofName?

/-- A value can be read as the field of the given name; a field of no module can be anything. -/
def checkField (name : String) (value : Json) : Except Json.Mismatch Unit :=
  match name with
  | "query_path" => (QueryPath.reader value).map fun _ => ()
  | "real_path" | "code" | "wrapped_code" => (Json.Reader.text value).map fun _ => ()
  | "module_type" => (kindReader value).map fun _ => ()
  | "requires" => (Json.Reader.list QueryPath.reader value).map fun _ => ()
  | "requires_origin" => (Json.Reader.list Json.Reader.text value).map fun _ => ()
  | "wrap" => (Json.Reader.bool value).map fun _ => ()
  | _ => .ok ()

/-- The value given under a name, read; a mismatch if there is none. -/
def takeField {α : Type} (given : List (String × Json)) (missing : String → Json.Mismatch)
    (name : String) (read : Json.Reader α) : Except Json.Mismatch α :=
  match given.find? (·.1 = name) with
  | some (_, value) => read value
  | none => .error (missing name)

/-- Read the fields that are given under their names.  The first one given that cannot be read
is reported, and otherwise the first one missing. -/
def ofFields (given : List (String × Json)) (missing : String → Json.Mismatch) :
    Except Json.Mismatch Module := do
  given.forM fun (name, value) => checkField name value
  return {
    path := ← takeField given missing "query_path" QueryPath.reader
    realPath := ← takeField given missing "real_path" Json.Reader.text
    kind := ← takeField given missing "module_type" kindReader
    requires := ← takeField given missing "requires" (Json.Reader.list QueryPath.reader)
    requiresOrigin :=
      ← takeField given missing "requires_origin" (Json.Reader.list Json.Reader.text)
    code := ← takeField given missing "code" Json.Reader.text
    wrappedCode := ← takeField given missing "wrapped_code" Json.Reader.text
    wrap := ← takeField given missing "wrap" Json.Reader.bool }

/-- A module from its record, or from the list of its fields in order. -/
def ofJson : Json.Reader Module
  | .obj fields => ofFields fields .missingField
  | .arr items => do
    let tooShort : Json.Mismatch :=
      .length items.length "struct ProcessedModule with 8 elements"
    let m ← ofFields (fieldNames.zip items) fun _ => tooShort
    if items.length > 8 then .error (.length items.length "fewer elements in array")
    else return m
  | j => .error (.kind j "struct ProcessedModule")

end Module

end WebBundler
