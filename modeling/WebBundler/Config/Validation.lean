import WebBundler.Config.Error
import WebBundler.FileTree.Disk
set_option autoImplicit false

/-!
# Config: checks before a build

`validateSchema` checks the settings by themselves, in a fixed order, and reports the first rule
that is broken.  `validate` goes on to what a build of a whole directory needs from the file
tree.
-/

namespace WebBundler.Config

/-- Check the settings by themselves. -/
def validateSchema (c : Config) : Except ConfigError Unit :=
  if c.concurrency = 0 then
    .error (.invalid "concurrency" "Use a concurrency of at least 1")
  else if c.walkConcurrency = some 0 then
    .error (.invalid "walk_concurrency"
      "Remove walk_concurrency for an unbounded walk, or set it to at least 1")
  else if Text.trimChar '/' c.dependencyDir = "" then
    .error (.invalid "dependency_dir"
      "Name the directory holding third-party packages, e.g. \"node_modules\"")
  else if !Text.endsWith c.commonBundle ".js" then
    .error (.invalid "common_bundle" "The common bundle must be a .js query path")
  else if (c.ignore ++ c.skip).any Text.isAllBlank then
    .error (.invalid "ignore" "Remove empty strings from the 'ignore' and 'skip' arrays")
  else .ok ()

/-- Check the settings for a build of a whole directory. -/
def validate (c : Config) (t : FileTree) : Except ConfigError Unit := do
  c.validateSchema
  if c.dest.isNone then throw .missingDestination
  if !t.isDir c.root then throw (.rootNotFound c.root)
  match c.runtimeAsset with
  | some asset =>
    if !t.isFile asset then throw (.invalid "runtime_asset" (asset.text ++ " does not exist"))
  | none => return ()

end WebBundler.Config
