import WebBundler.Module
set_option autoImplicit false

/-!
# File types

The kind of a module is told by the extension of its file, in any case of ASCII.  Files whose
extension is not listed are of unknown type.
-/

namespace WebBundler

/-- Extensions in lower case with their dots, each with the kind of modules that it stands for;
of two entries for one extension the first counts. -/
structure FileTypes where
  kinds : List (String × ModuleKind)
  deriving DecidableEq, Repr, Inhabited

namespace FileTypes

/-- All files are of unknown type. -/
def empty : FileTypes := ⟨[]⟩

/-- An extension in lower case with a dot. -/
def dotted (extension : String) : String :=
  let lower := Text.lowerAscii extension
  if Text.startsWith extension "." then lower else "." ++ lower

/-- List an extension, given with or without its dot; it may have been listed before. -/
def register (types : FileTypes) (extension : String) (kind : ModuleKind) : FileTypes :=
  ⟨(dotted extension, kind) :: types.kinds⟩

/-- The kind of module that a file holds. -/
def kind? (types : FileTypes) (path : String) : Option ModuleKind :=
  match (HostPath.mk path).extension? with
  | none => none
  | some extension =>
    (types.kinds.find? (·.1 = "." ++ Text.lowerAscii extension)).map (·.2)

/-- Scripts, stylesheets and templates. -/
def standard : FileTypes :=
  [(".js", ModuleKind.script), (".mjs", .script), (".cjs", .script), (".css", .style),
    (".html", .template), (".htm", .template), (".tpl", .template)].foldl
    (fun types (extension, kind) => types.register extension kind) empty

end FileTypes

end WebBundler
