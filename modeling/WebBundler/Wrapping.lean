import WebBundler.Module
set_option autoImplicit false

/-!
# Wrapping

A wrapped module is a call of the loader, which names the module and those that it requires and
passes its code as a function body.  Names stand in it as JSON literals, so that any text can be
a name.
-/

namespace WebBundler.Wrapping

/-- The text between the names and the body of a module. -/
def bodyOpening : String :=
  ", function (module, exports, require, load, process, global) \x7b\n"

/-- The text after the body of a module. -/
def bodyClosing : String := "\nreturn module.exports;\x7d);"

/-- A module body wrapped for the loader. -/
def wrap (path : QueryPath) (requires : List QueryPath) (body : String) : String :=
  "Cube(" ++ Json.quote path.text ++ ", " ++
    (Json.arr (requires.map QueryPath.toJson)).compress ++
    bodyOpening ++ body ++ bodyClosing

/-- The body of a module that exports a text. -/
def exportText (text : String) : String := "module.exports = " ++ Json.quote text ++ ";"

end WebBundler.Wrapping
