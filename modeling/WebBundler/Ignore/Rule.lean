import WebBundler.Ignore.Glob
import WebBundler.HostPath
import WebBundler.Text.Blank
set_option autoImplicit false

/-!
# Ignore: rules

A rule is a line of text: a glob, perhaps with a `!` before it, a slash at its start or at its
end.  A rule with a slash in it, other than at its end, is about the whole of a path; any other
is about each of its segments.  A final slash keeps the rule to directories, and a `!` takes
back what earlier rules matched.

Of the rules that match a path the last one decides.  A path that no rule matches is decided by
the directory that it lies in, and so on up to the root itself.
-/

namespace WebBundler

/-- A rule about paths. -/
structure IgnoreRule where
  glob : Glob
  /-- Paths that match are not taken, whatever earlier rules say. -/
  takesBack : Bool
  /-- Only directories match. -/
  onlyDirs : Bool
  deriving Repr, Inhabited

namespace IgnoreRule

/-- A line that is no rule, and why its glob is none. -/
structure Fault where
  line : String
  /-- The line less the blanks that do not count. -/
  glob : String
  reason : Glob.Fault
  deriving DecidableEq, Repr, Inhabited

def Fault.message (e : Fault) : String :=
  "error parsing glob '" ++ e.glob ++ "': " ++ e.reason.message

/-- The signs before a glob: whether it takes back, whether it is about the whole of a path, and
what follows the signs.  A backslash takes the meaning from a `!` or a `#`. -/
def splitSigns (line : List Char) : Bool × Bool × List Char :=
  match line with
  | '\\' :: '!' :: rest => (false, false, '!' :: rest)
  | '\\' :: '#' :: rest => (false, false, '#' :: rest)
  | '!' :: '/' :: rest => (true, true, rest)
  | '!' :: rest => (true, false, rest)
  | '/' :: rest => (false, true, rest)
  | rest => (false, false, rest)

/-- The slash at the end of a glob, with the backslash before it. -/
def splitFinalSlash (glob : List Char) : Bool × List Char :=
  match glob.reverse with
  | '/' :: '\\' :: rest => (true, rest.reverse)
  | '/' :: rest => (true, rest.reverse)
  | _ => (false, glob)

/-- The glob that whole paths are compared with: one that is about segments may follow any
directories, and one that ends in `/**` leaves out the directory itself. -/
def completeGlob (isRooted : Bool) (glob : String) : String :=
  let hasStars := Text.startsWith glob "**/" || glob == "**"
  let whole := if isRooted || glob.contains '/' || hasStars then glob else "**/" ++ glob
  if Text.endsWith whole "/**" then whole ++ "/*" else whole

/-- Read a rule.  A blank line and a comment are no rules, and blanks at the end do not count
unless the last one is escaped. -/
def ofLine (line : String) : Except Fault (Option IgnoreRule) :=
  if Text.startsWith line "#" then .ok none
  else
    let stripped := if Text.endsWith line "\\ " then line else Text.trimEnd line
    if stripped = "" then .ok none
    else
      let (takesBack, isRooted, signless) := splitSigns stripped.toList
      let (onlyDirs, glob) := splitFinalSlash signless
      match Glob.parse (completeGlob isRooted (String.ofList glob)) with
      | .ok tokens => .ok (some ⟨tokens, takesBack, onlyDirs⟩)
      | .error reason => .error ⟨line, stripped, reason⟩

/-- Read a list of rules, up to the first line that is neither a rule nor left out. -/
def ofLines (lines : List String) : Except Fault (List IgnoreRule) := do
  return (← lines.mapM ofLine).filterMap id

/-- The rule is about a path. -/
def isAbout (rule : IgnoreRule) (path : String) (isDir : Bool) : Bool :=
  (isDir || !rule.onlyDirs) && rule.glob.accepts path

end IgnoreRule

/-- Rules about the paths below a root, in the order in which they were given. -/
structure IgnoreRules where
  root : HostPath
  rules : List IgnoreRule
  deriving Repr, Inhabited

namespace IgnoreRules

/-- Rules below a root; a `./` at its start does not count. -/
def below (root : HostPath) (rules : List IgnoreRule) : IgnoreRules :=
  ⟨⟨(Text.dropPrefix? "./" root.text).getD root.text⟩, rules⟩

/-- A path as the rules see it: less a `./` at its start, and less the root if it has a
slash. -/
def relative (set : IgnoreRules) (path : String) : String :=
  let plain := (Text.dropPrefix? "./" path).getD path
  if set.root.components ≠ [.here] ∧ plain.contains '/' then
    match Text.dropPrefix? set.root.text plain with
    | some rest => (Text.dropPrefix? "/" rest).getD rest
    | none => plain
  else plain

/-- A segment is no step of a path: it is empty, or a `.` that is not at the start. -/
def isNoStep (segment : String) (before : List String) : Bool :=
  segment = "" || (segment = "." && !before.isEmpty)

/-- The segments of a path, the last one first, less those at its end that are no steps. -/
def dropNoSteps : List String → List String
  | [] => []
  | segment :: before =>
    if isNoStep segment before then dropNoSteps before else segment :: before

/-- The directories above a path whose segments are given, the last one first: from the nearest
up to the root, whose path is empty. -/
def directoriesAbove : List String → List String
  | [] => []
  | segment :: before =>
    if isNoStep segment before then directoriesAbove before
    else Text.joinText "/" (dropNoSteps before).reverse :: directoriesAbove before

/-- What the last rule about a path says, if there is one: that it is taken or not. -/
def verdict? (set : IgnoreRules) (path : String) (isDir : Bool) : Option Bool :=
  (set.rules.reverse.find? (·.isAbout path isDir)).map (!·.takesBack)

/-- The rules take a file: by its own path, or else by the nearest directory above it that a
rule is about. -/
def takes (set : IgnoreRules) (path : String) : Bool :=
  let path := set.relative path
  match set.verdict? path false with
  | some taken => taken
  | none =>
    let above := directoriesAbove (HostPath.segments path).reverse
    (above.findSome? fun dir => set.verdict? dir true).getD false

end IgnoreRules

end WebBundler
