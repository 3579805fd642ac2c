import WebBundler.Build.Error
import WebBundler.Config.Basic
set_option autoImplicit false

/-!
# Ignore: what becomes of a file

The rules of a project are two lists: files taken by the first are left out of a build, and of
the others those taken by the second are copied as they are.  The rules of the settings come
before those of the file `.cubeignore` at the root, which has sections for the two lists
(`readRuleFile`).
-/

namespace WebBundler

/-- What becomes of a file. -/
inductive Classification where
  /-- It is left out. -/
  | ignore
  /-- It is copied as it is. -/
  | skip
  /-- It is compiled. -/
  | build
  deriving DecidableEq, Repr, Inhabited

/-- The rules of a project. -/
structure ProjectRules where
  ignore : IgnoreRules
  skip : IgnoreRules
  deriving Repr, Inhabited

namespace ProjectRules

/-- The lines of the rules that hold in every project. -/
def builtIn : List String := [".git", ".svn", ".DS_Store"]

/-- The file of rules at the root of a project. -/
def fileName : HostPath := ⟨".cubeignore"⟩

/-- The rules that two lists of lines give, after the built-in ones. -/
def ofLines (root : HostPath) (ignore skip : List String) : Except BuildError ProjectRules :=
  match IgnoreRule.ofLines (builtIn ++ ignore) with
  | .error fault => .error (.invalidRule fault)
  | .ok ignoreRules =>
    match IgnoreRule.ofLines skip with
    | .error fault => .error (.invalidRule fault)
    | .ok skipRules => .ok ⟨.below root ignoreRules, .below root skipRules⟩

/-- What becomes of the file at a path below the root. -/
def classify (rules : ProjectRules) (path : String) : Classification :=
  let path := Text.trimStartChar '/' path
  if rules.ignore.takes path then .ignore
  else if rules.skip.takes path then .skip
  else .build

/-- The lines of a file of rules, for each of the two lists. -/
structure FileLines where
  ignore : List String
  skip : List String
  deriving DecidableEq, Repr, Inhabited

/-- One more line of a file of rules: a header of a section, or a line of the section that is
open. -/
def addLine (state : FileLines × Bool) (line : String) : FileLines × Bool :=
  let (lines, inSkip) := state
  if line = "" ∨ Text.startsWith line "#" then (lines, inSkip)
  else if line = "[ignore]" then (lines, false)
  else if line = "[skip]" then (lines, true)
  else if inSkip then (⟨lines.ignore, lines.skip ++ [line]⟩, inSkip)
  else (⟨lines.ignore ++ [line], lines.skip⟩, inSkip)

/-- Read a file of rules.  Blanks around a line do not count, blank lines and comments are left
out, and lines before the first header are in the section `[ignore]`. -/
def readRuleFile (content : String) : FileLines :=
  let lines := (Text.splitOn '\n' content.toList).map fun l => Text.trim (String.ofList l)
  (lines.foldl addLine (⟨[], []⟩, false)).1

/-- The rules of a project: those of its settings, then those of its file. -/
def load (c : Config) (t : FileTree) : Except BuildError ProjectRules :=
  let file := c.root.join fileName
  if t.holds file then
    match t.read file with
    | .error cause => .error (.walk file cause)
    | .ok content =>
      let lines := readRuleFile (Text.lossyText content)
      ofLines c.root (c.ignore ++ lines.ignore) (c.skip ++ lines.skip)
  else ofLines c.root c.ignore c.skip

end ProjectRules

end WebBundler
