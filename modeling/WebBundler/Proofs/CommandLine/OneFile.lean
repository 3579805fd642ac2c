import WebBundler.CommandLine.Run
import WebBundler.Proofs.Build.OwnSource
import WebBundler.Proofs.Path.Absolute
set_option autoImplicit false

/-!
# The build of one file

The command for one file refuses a file outside of the project by the steps of its path, and
else asks for the file by a name in which `..` steps are resolved below the root.  Both agree
with where the file lies exactly if its path begins with the steps of the root where it lies
below it, and never climbs above the root again (`file_builds_its_argument_iff`).
-/

namespace WebBundler

namespace HostPath

theorem exists_steps_of_isBelow {start p : HostPath} (h : isBelow start p = true) :
    ∃ steps, stepsAfter? start p = some steps :=
  Option.isSome_iff_exists.1 h

/-- Behind the steps of the root no name of a path holds a backslash, and no blank ends the name
that it leads to. -/
structure NoBackslashOrEndBlank (root p : HostPath) : Prop where
  no_backslash : ∀ steps ∈ stepsAfter? root p, ∀ step ∈ steps, '\\' ∉ step.text.toList
  no_blank : ∀ steps ∈ stepsAfter? root p, ∀ name ∈ (steps.foldl descend []).getLast?,
    Text.trimEnd name = name

/-- A path to a place below the root begins with the steps of the root, and a path that begins
with them never climbs above the root again, unless this is the root of the file system. -/
structure BelowAsSpelled (root p : HostPath) : Prop where
  stays : ∀ steps ∈ stepsAfter? root p, staysBelow 0 steps = true ∨ root.location = []
  begins : root.location <+: p.location → isBelow root p = true

section Placed

variable {root p : HostPath} (hroot : root.isAbsolute = true) (hp : p.isAbsolute = true)
include hroot hp

/-- A path that lies below the root as its spelling says begins with the steps of the root
exactly if it leads below it. -/
theorem BelowAsSpelled.isBelow_iff (h : BelowAsSpelled root p) :
    isBelow root p = true ↔ root.location <+: p.location := by
  refine ⟨fun hbelow => ?_, h.begins⟩
  obtain ⟨steps, hsteps⟩ := exists_steps_of_isBelow hbelow
  have hplace := (append_foldl_descend_iff root.location steps).2 (h.stays steps hsteps)
  exact ⟨_, hplace.trans (Project.location_of_stepsAfter hroot hp hsteps).symm⟩

end Placed

end HostPath

namespace FileTree

open HostPath (Component descend)
open QueryPath (IsMove)

variable {t : FileTree} {path : HostPath}

/-- Without links, a disk goes where the names lead. -/
theorem follow_eq_ok {names place : List String} {steps : List Component}
    (hsteps : ∀ step ∈ steps, IsMove step) (h : t.follow names steps = .ok place) :
    place = steps.foldl descend names := by
  induction steps generalizing names with
  | nil => exact (Except.ok.inj h).symm
  | cons step steps ih =>
    rw [List.forall_mem_cons] at hsteps
    obtain ⟨rfl | ⟨name, -, rfl⟩, hlater⟩ := hsteps
    · rw [follow] at h
      split at h
      · exact ih hlater h
      · cases h
      · cases h
    · exact ih hlater h

theorem find_eq_ok {node : Node} (habsolute : path.isAbsolute = true)
    (h : t.find path = .ok node) :
    t.look path.location = .ok node := by
  obtain ⟨steps, hcomponents, hsteps⟩ := HostPath.exists_components habsolute
  unfold find at h
  rw [hcomponents, follow] at h
  split at h
  · cases h
  · next place hplace =>
    rw [HostPath.location_of_components hcomponents hsteps, ← follow_eq_ok hsteps hplace]
    split at h
    · cases h
    · next hdir =>
      cases h
      exact hdir
    · next hother =>
      split at h
      · cases h
      · cases h
        exact hother

theorem eq_of_read {content found : ByteArray}
    (hfound : t.look path.location = .ok (.file found)) (h : t.read path = .ok content) :
    content = found := by
  have hcontent := attempt_eq_ok h
  unfold contentAt at hcontent
  rw [hfound] at hcontent
  exact (Except.ok.inj hcontent).symm

end FileTree

namespace CommandLine

open HostPath (staysBelow descend)
open QueryPath (IsStep)

variable {args : FileArguments} {s : Surroundings} {t : FileTree} {c : Config}
  {file root : HostPath}

/-! ## Settings -/

theorem ofConfig_eq_ok {α : Type} {x : Except ConfigError α} {a : α} (h : ofConfig x = .ok a) :
    x = .ok a := by
  cases x with
  | error e => cases h
  | ok b =>
    cases h
    rfl

theorem Surroundings.isAbsolute_projectDir (hcwd : s.cwd.isAbsolute = true)
    (given : Option HostPath) :
    (s.projectDir given).isAbsolute = true := by
  unfold projectDir
  split
  · exact HostPath.isAbsolute_absolute hcwd _
  · exact hcwd

theorem isAbsolute_root_of_loadOrDefault {env : Config.Environment} {dir : HostPath}
    (hdir : dir.isAbsolute = true) (h : Config.loadOrDefault t env dir = .ok c) :
    c.root.isAbsolute = true := by
  have hlayers : ∀ layer,
      (Config.ofLayers layer env >>= fun taken => pure (taken.resolve dir)) = .ok c →
      c.root.isAbsolute = true := by
    intro layer htaken
    obtain ⟨taken, -, hresolved⟩ := bind_eq_ok htaken
    cases hresolved
    exact (Project.isAbsolute_resolve hdir).1
  unfold Config.loadOrDefault at h
  split at h
  · obtain ⟨layer, -, htaken⟩ := bind_eq_ok h
    exact hlayers layer htaken
  · exact hlayers _ h

theorem FileArguments.isAbsolute_root (hcwd : s.cwd.isAbsolute = true)
    (h : args.settings s t = .ok c) :
    c.root.isAbsolute = true := by
  have hdir := Surroundings.isAbsolute_projectDir hcwd args.root
  obtain ⟨loaded, hloaded, hresult⟩ := bind_eq_ok h
  cases hresult
  unfold loadSettings at hloaded
  dsimp only at hloaded
  split at hloaded
  · cases hloaded
  · have hroot := isAbsolute_root_of_loadOrDefault hdir (ofConfig_eq_ok hloaded)
    exact hroot

/-! ## What the command does -/

namespace FileArguments

/-- What the command makes of the answer of the compiler about a file. -/
def answered (file : HostPath) (c : Config) (t : FileTree)
    (answer : Except CompileError Module) : Outcome :=
  match answer, Destination.of c with
  | .ok m, .error _ => .done t (m.outputCode ++ "\n") []
  | .ok m, .ok d =>
    match d.writeGroup t m.outputs with
    | (written, none) => .done written "" [.success ("Built " ++ m.path.text)]
    | (_, some e) => .failed t [] (.build e)
  | .error (.unknownType _), .ok d =>
    match d.copy t file (HostPath.relativeTo c.root file) with
    | .ok written => .done written "" [.success ("Copied " ++ file.text)]
    | .error e => .failed t [] (.build e)
  | .error e, _ => .failed t [] (.build e.toBuildError)

/-- What comes of asking the compiler for a file by the name that its path is read as. -/
structure Asks (file : HostPath) (c : Config) (t : FileTree) (outcome : Outcome)
    (name : QueryPath) : Prop where
  named : QueryPath.ofText (HostPath.relativeTo c.root file) = .ok name
  unruled : ∀ e, Project.of c t = .error e → outcome = .failed t [] (.build e)
  answer : ∀ p, Project.of c t = .ok p → outcome = answered file c t (p.compiler t (.of name))

/-- The file is built: the name leads to the file, so that the source is the text of this very
file. -/
structure Builds (file : HostPath) (c : Config) (t : FileTree) (outcome : Outcome)
    (name : QueryPath) : Prop extends Asks file c t outcome name where
  place : (c.root.below (CompileRequest.of name).realPath).location = file.location
  source : ∀ source, Compiler.sourceOf c.root t (.of name) = .ok source ↔
    ∃ content, t.find file = .ok (.file content) ∧ t.read file = .ok content ∧
    Text.decode? content = some source

/-- The command builds the file that it is given if the file lies below the root, and refuses it
otherwise. -/
structure BuildsGiven (args : FileArguments) (s : Surroundings) (t : FileTree) (c : Config) :
    Prop where
  inside : c.root.location <+: (s.absolute args.file).location →
    ∃ name, Builds (s.absolute args.file) c t (args.run s t) name
  outside : ¬c.root.location <+: (s.absolute args.file).location →
    ∃ reason, args.run s t = .failed t [] (.invalidArgument reason)

/-- A command that asks the compiler has refused nothing. -/
theorem Asks.not_refused {outcome : Outcome} {name : QueryPath} (h : Asks file c t outcome name)
    (reason : String) :
    outcome ≠ .failed t [] (.invalidArgument reason) := by
  cases hproject : Project.of c t with
  | error e =>
    rw [h.unruled e hproject]
    exact fun hsame => nomatch congrArg Outcome.result hsame
  | ok p =>
    rw [h.answer p hproject]
    unfold answered
    intro hsame
    have hresult := congrArg Outcome.result hsame
    split at hresult
    · cases hresult
    · split at hresult <;> cases hresult
    · split at hresult <;> cases hresult
    · cases hresult

theorem asks_of_isBelow (hsettings : args.settings s t = .ok c)
    (hfile : t.isFile (s.absolute args.file) = true)
    (hbelow : HostPath.isBelow c.root (s.absolute args.file) = true) :
    ∃ name, Asks (s.absolute args.file) c t (args.run s t) name := by
  obtain ⟨name, -, hname, -, -⟩ :=
    Project.exists_name_of_relativeTo c.root (s.absolute args.file)
  have hcheck : check (s.absolute args.file) c t = .ok () := by
    unfold check
    rw [hfile, hbelow]
    rfl
  have hconfig : ∀ p, Project.of c t = .ok p → p.config = c := by
    intro p hp
    obtain ⟨rules, -, hproject⟩ := bind_eq_ok hp
    cases hproject
    rfl
  refine ⟨name, hname, fun e hproject => ?_, fun p hproject => ?_⟩
  · unfold run
    rw [hsettings]
    simp only [bind, Except.bind, hcheck, hproject, ofBuild]
  · -- The answer and the destination decide; past a destination,
    -- so does the first failure of the output.
    unfold run Project.buildFile Project.compile Project.emit answered
    rw [hsettings]
    simp only [bind, Except.bind, hcheck, hproject, ofBuild, hconfig p hproject, hname,
      Workspace.of]
    cases hdest : c.dest with
    | none =>
      unfold Destination.of
      rw [hdest]
      cases p.compiler t (.of name) with
      | ok m => rfl
      | error e => cases e <;> rfl
    | some dest =>
      unfold Destination.of
      rw [hdest]
      dsimp only
      cases p.compiler t (.of name) with
      | ok m =>
        dsimp only
        rcases Destination.writeGroup _ t m.outputs with ⟨written, _ | e⟩ <;> rfl
      | error e =>
        cases e with
        | unknownType path =>
          dsimp only
          cases Destination.copy _ t _ _ <;> rfl
        | failed path reason => rfl

theorem run_of_not_isBelow (hsettings : args.settings s t = .ok c)
    (hfile : t.isFile (s.absolute args.file) = true)
    (hbelow : HostPath.isBelow c.root (s.absolute args.file) = false) :
    ∃ reason, args.run s t = .failed t [] (.invalidArgument reason) := by
  refine ⟨(s.absolute args.file).text ++ " is outside the project root " ++ c.root.text, ?_⟩
  unfold run
  rw [hsettings]
  simp only [bind, Except.bind, check, hfile, hbelow]
  rfl

/-- The name of a file below the root by its steps leads to the file exactly if the steps never
climb above the root. -/
theorem place_eq_iff (hroot : root.isAbsolute = true) (habsolute : file.isAbsolute = true)
    (hread : HostPath.NoBackslashOrEndBlank root file) {steps : List HostPath.Component}
    (hsteps : HostPath.stepsAfter? root file = some steps) {name : QueryPath}
    (hname : QueryPath.ofText (HostPath.relativeTo root file) = .ok name) :
    (root.below (CompileRequest.of name).realPath).location = file.location ↔
      staysBelow 0 steps = true ∨ root.location = [] := by
  have hmoves := Project.isMove_of_stepsAfter hroot habsolute hsteps
  have hspelled : ∀ step ∈ steps.foldl descend [], IsStep step := by
    intro step hstep
    refine ⟨HostPath.isName_of_mem_foldl_descend hmoves step hstep, ?_⟩
    rcases HostPath.mem_foldl_descend hstep with hstart | hnamed
    · exact absurd hstart List.not_mem_nil
    · exact hread.no_backslash steps hsteps _ hnamed
  rw [HostPath.relativeTo_of_steps hsteps hmoves (hread.no_backslash steps hsteps)] at hname
  have hreal := (Project.realPath_of_pathOf_iff hspelled hname).2 (hread.no_blank steps hsteps)
  rw [hreal, QueryPath.location_below_pathOf root fun step hstep =>
    (hspelled step hstep).isName, Project.location_of_stepsAfter hroot habsolute hsteps]
  exact HostPath.append_foldl_descend_iff root.location steps

/-- The source of the name of a file is the text of the file. -/
theorem sourceOf_eq_ok_iff_of_place {name : QueryPath} {source : String}
    (habsolute : file.isAbsolute = true) (hfile : t.isFile file = true)
    (hplace : (root.below (CompileRequest.of name).realPath).location = file.location) :
    Compiler.sourceOf root t (.of name) = .ok source ↔
      ∃ content, t.find file = .ok (.file content) ∧ t.read file = .ok content ∧
        Text.decode? content = some source := by
  obtain ⟨found, hfound⟩ : ∃ found, t.find file = .ok (.file found) := by
    unfold FileTree.isFile at hfile
    split at hfile
    · next found hfound => exact ⟨found, hfound⟩
    · cases hfile
  rw [Compiler.sourceOf_eq_ok_iff rfl hplace]
  constructor
  · rintro ⟨content, hread, hdecoded⟩
    cases FileTree.eq_of_read (FileTree.find_eq_ok habsolute hfound) hread
    exact ⟨_, hfound, hread, hdecoded⟩
  · rintro ⟨content, -, hread, hdecoded⟩
    exact ⟨content, hread, hdecoded⟩

/-- **A file is built or refused by where it lies exactly if its spelling says where it lies.**
For every root and every file that exists, in whatever way they are spelled: a file below the
root is built from its own text and a file elsewhere is refused, exactly if a path to a place
below the root begins with the steps of the root, and the steps behind these never climb above
the root. -/
theorem file_builds_its_argument_iff (hcwd : s.cwd.isAbsolute = true)
    (hsettings : args.settings s t = .ok c) (hfile : t.isFile (s.absolute args.file) = true)
    (hread : HostPath.NoBackslashOrEndBlank c.root (s.absolute args.file)) :
    args.BuildsGiven s t c ↔ HostPath.BelowAsSpelled c.root (s.absolute args.file) := by
  have hroot := isAbsolute_root hcwd hsettings
  have habsolute : (s.absolute args.file).isAbsolute = true :=
    HostPath.isAbsolute_absolute hcwd args.file
  constructor
  · intro hgiven
    refine ⟨fun steps hsteps => ?_, fun hinside => ?_⟩
    · obtain ⟨_, hasks⟩ := asks_of_isBelow hsettings hfile (Option.isSome_of_eq_some hsteps)
      have hinside : c.root.location <+: (s.absolute args.file).location := by
        refine Classical.byContradiction fun houtside => ?_
        obtain ⟨reason, hrefused⟩ := hgiven.outside houtside
        exact hasks.not_refused reason hrefused
      obtain ⟨name, hbuilds⟩ := hgiven.inside hinside
      exact (place_eq_iff hroot habsolute hread hsteps hbuilds.named).1 hbuilds.place
    · obtain ⟨name, hbuilds⟩ := hgiven.inside hinside
      refine Classical.byContradiction fun hbelow => ?_
      obtain ⟨reason, hrefused⟩ :=
        run_of_not_isBelow hsettings hfile (Bool.eq_false_of_not_eq_true hbelow)
      exact hbuilds.not_refused reason hrefused
  · intro hspelled
    have hbuilds : HostPath.isBelow c.root (s.absolute args.file) = true →
        ∃ name, Builds (s.absolute args.file) c t (args.run s t) name := by
      intro hbelow
      obtain ⟨steps, hsteps⟩ := HostPath.exists_steps_of_isBelow hbelow
      obtain ⟨name, hasks⟩ := asks_of_isBelow hsettings hfile hbelow
      have hplace :=
        (place_eq_iff hroot habsolute hread hsteps hasks.named).2 (hspelled.stays steps hsteps)
      exact ⟨name, hasks, hplace, fun source =>
        sourceOf_eq_ok_iff_of_place habsolute hfile hplace⟩
    refine ⟨fun hinside => hbuilds (hspelled.begins hinside), fun houtside => ?_⟩
    have hbelow := mt (hspelled.isBelow_iff hroot habsolute).1 houtside
    exact run_of_not_isBelow hsettings hfile (Bool.eq_false_of_not_eq_true hbelow)

/-- A user who works in a project. -/
def inProject : Surroundings := ⟨⟨"/project"⟩, []⟩

/-- A project without settings of its own, with a script. -/
def scriptTree : FileTree :=
  ⟨[(["project", "src", "app.js"], .file (Text.encode "exports.a = 1;"))], []⟩

/-- A step up that stays below the root does no harm. -/
theorem file_built_through_step_up :
    scriptTree.isFile ⟨"/project/src/../src/app.js"⟩ = true ∧
      BuildsGiven ⟨⟨"src/../src/app.js"⟩, none, none⟩ inProject scriptTree
        (Config.default.resolve ⟨"/project"⟩) := by
  have hsettings : settings ⟨⟨"src/../src/app.js"⟩, none, none⟩ inProject scriptTree =
      .ok (Config.default.resolve ⟨"/project"⟩) := by decide
  have hpath : inProject.absolute ⟨"src/../src/app.js"⟩ = ⟨"/project/src/../src/app.js"⟩ := by
    decide
  have hfile : scriptTree.isFile ⟨"/project/src/../src/app.js"⟩ = true := by decide
  have hread : HostPath.NoBackslashOrEndBlank ⟨"/project"⟩ ⟨"/project/src/../src/app.js"⟩ :=
    ⟨by decide, by decide⟩
  have hplaced : HostPath.BelowAsSpelled ⟨"/project"⟩ ⟨"/project/src/../src/app.js"⟩ :=
    ⟨by decide, fun _ => by decide⟩
  rw [← hpath] at hfile hread hplaced
  exact ⟨hpath ▸ hfile, (file_builds_its_argument_iff rfl hsettings hfile hread).2 hplaced⟩

/-- A project, and a directory beside it that holds a file with the path of one of the
project. -/
def sidesTree : FileTree :=
  ⟨[(["out", "a.js"], .file (Text.encode "outside")),
    (["project", "out", "a.js"], .file (Text.encode "inside"))], []⟩

/-- A file outside of the project is not refused if its path climbs out of the root: what is
compiled is the file of the project that its steps lead to from the root of the file system, set
below the root. -/
theorem climbing_file_built_from_other :
    let args : FileArguments := ⟨⟨"../out/a.js"⟩, none, none⟩
    let c := Config.default.resolve ⟨"/project"⟩
    let file : HostPath := ⟨"/project/../out/a.js"⟩
    args.settings inProject sidesTree = .ok c ∧ inProject.absolute args.file = file ∧
      sidesTree.isFile file = true ∧
      ¬c.root.location <+: file.location ∧ sidesTree.text file = .ok "outside" ∧
      (∀ reason, args.run inProject sidesTree ≠
        .failed sidesTree [] (.invalidArgument reason)) ∧
      Asks file c sidesTree (args.run inProject sidesTree) ⟨"/out/a.js"⟩ ∧
      Compiler.sourceOf c.root sidesTree (.of ⟨"/out/a.js"⟩) = .ok "inside" := by
  intro args c file
  have hsettings : args.settings inProject sidesTree = .ok c := by decide
  have hpath : inProject.absolute args.file = file := by decide
  have hfile : sidesTree.isFile file = true := by decide
  obtain ⟨name, hasks⟩ := asks_of_isBelow hsettings (hpath ▸ hfile) (hpath ▸ by decide)
  have hname : QueryPath.ofText (HostPath.relativeTo c.root file) = .ok ⟨"/out/a.js"⟩ := by
    decide
  rw [hpath] at hasks
  cases hasks.named.symm.trans hname
  exact ⟨hsettings, hpath, hfile, by decide, by
    decide, hasks.not_refused, hasks, by decide⟩

end FileArguments

end CommandLine

end WebBundler
