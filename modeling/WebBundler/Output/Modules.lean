import WebBundler.Merge.Bundles
import WebBundler.Output.Destination
set_option autoImplicit false

/-!
# Output: modules and bundles

What is written for a module, and for a set of modules that has been divided into bundles.  A
module is written at its own path, or as a part of its bundle; a stylesheet is written as such
too, with the extension `.css`.  Modules that are passed through untouched are never part of a
bundle.
-/

namespace WebBundler

/-- The path of the plain stylesheet of a source: its extension, if there is one after the start
of the file name, becomes `.css`. -/
def cssPath (path : String) : String :=
  let (dir, name) :=
    match Text.cutLast '/' path.toList with
    | some (dir, name) => (dir ++ ['/'], name)
    | none => ([], path.toList)
  match Text.cutLast '.' name with
  | some (stem, _) =>
    if stem.isEmpty then path ++ ".css" else String.ofList (dir ++ stem) ++ ".css"
  | none => path ++ ".css"

namespace Module

/-- The plain stylesheet of a module. -/
def plainStyle (m : Module) : Output := .ofText (cssPath m.realPath) m.code

/-- The output of a module at its own path. -/
def ownOutput (m : Module) : Output := .ofText m.path.withoutScheme m.outputCode

/-- What is written for a module by itself.  Where the plain stylesheet of a stylesheet has the
path of the module, it is all that is written. -/
def outputs (m : Module) : List Output :=
  if m.kind = .style then
    if cssPath m.realPath = m.path.withoutScheme then [m.plainStyle]
    else [m.ownOutput, m.plainStyle]
  else [m.ownOutput]

/-- The outputs beside a bundle file for a module of the bundle. -/
def outputsBeside (m : Module) : List (List Output) :=
  match m.kind with
  | .verbatim => [m.outputs]
  | .style => [[m.plainStyle]]
  | _ => []

/-- The part of a bundle file that is a module: its wrapped code, unless the file is the plain
stylesheet of the module. -/
def bundlePart? (m : Module) (target : String) : Option String :=
  match m.kind with
  | .verbatim => none
  | .style => if cssPath m.realPath = target then none else some m.wrappedCode
  | _ => some m.wrappedCode

end Module

/-- The file that the manifest of a build in bundles is written to. -/
def manifestFile : String := "cube.bundles.json"

namespace ModuleSet

/-- What is written for a bundle: what goes beside its file, and the file with the code of its
modules, a line break between each two. -/
def bundleOutputs (set : ModuleSet) (target : String) (paths : List QueryPath) :
    List (List Output) :=
  let modules := paths.filterMap set.find?
  let parts := modules.filterMap (·.bundlePart? target)
  modules.flatMap Module.outputsBeside ++
    (if parts.isEmpty then [] else [[.ofText target (Text.joinText "\n" parts)]])

/-- What is written for a set of modules, each by itself. -/
def separateOutputs (set : ModuleSet) (merged : Merged) : List (List Output) :=
  (merged.modules.filterMap set.find?).map Module.outputs

/-- What is written for a set of modules in bundles: the common bundle, those of the roots that
are not empty, and the manifest. -/
def bundledOutputs (set : ModuleSet) (merged : Merged) (commonBundle : String) :
    List (List Output) :=
  (match merged.common with
    | some common => set.bundleOutputs commonBundle common.modules
    | none => []) ++
  (merged.bundles.filter (!·.2.isEmpty)).flatMap
    (fun (root, bundle) => set.bundleOutputs root.withoutScheme bundle.modules) ++
  [[.ofText manifestFile merged.manifest]]

/-- What is written for a set of modules that has been divided into bundles. -/
def outputs (set : ModuleSet) (merged : Merged) (mode : EmitMode) (commonBundle : String) :
    List (List Output) :=
  match mode with
  | .modules => set.separateOutputs merged
  | .bundles => set.bundledOutputs merged commonBundle

end ModuleSet

end WebBundler
