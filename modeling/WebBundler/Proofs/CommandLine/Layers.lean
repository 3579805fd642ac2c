import WebBundler.Proofs.CommandLine.OneFile
import WebBundler.Proofs.Config.Layering
set_option autoImplicit false

/-!
# The settings of a build

A build is set up field by field: an argument comes before the variables, these before the
settings file, and this before the default (`settings_by_field`).  The layers below the
arguments are merged first, and their paths are seen from the project directory; the arguments
are applied last, and their paths are seen from the working directory.
-/

namespace WebBundler

namespace Config

open Json (Increasing)

variable {t : FileTree} {file base : HostPath} {layer : Json}

/-- A settings file says one thing about each field. -/
theorem increasing_of_fileLayer (h : fileLayer t file = .ok layer) :
    ∃ fields, layer = .obj fields ∧ Increasing fields := by
  unfold fileLayer at h
  split at h
  · unfold packageSection at h
    split at h
    · cases h
    · split at h
      · cases h
      · next parsed hparsed =>
        split at h
        · cases h
        · next fields hfields =>
          cases h
          cases (Json.tidy_of_parse? hparsed).field? hfields with
          | obj hkeys hvalues => exact ⟨fields, rfl, hkeys⟩
        · cases h
  · split at h
    · cases h
    · split at h
      · next hparsed =>
        cases h
        exact Toml.increasing_of_parse? hparsed
      · cases h

theorem loadFrom_eq (h : fileLayer t file = .ok layer) (env : Environment) (dir : HostPath) :
    loadFrom t env dir file = (do return (← ofLayers layer env).resolve dir) := by
  unfold loadFrom
  rw [h]
  rfl

theorem location_resolvePath (hbase : base.isAbsolute = true) (p : HostPath) :
    (resolvePath base p).location = base.placeFrom p := by
  unfold resolvePath
  split
  · next hp =>
    unfold HostPath.placeFrom
    rw [hp, if_pos rfl, HostPath.location_eq_foldl hp]
  · next hp =>
    split
    · next hhere =>
      unfold HostPath.placeFrom
      rw [if_neg hp, hhere]
      rfl
    · exact HostPath.location_join_of_isAbsolute hbase p

end Config

namespace CommandLine.BuildArguments

open Config (Field)

variable {args : BuildArguments} {s : Surroundings} {t : FileTree} {file : Json} {c : Config}

/-- The settings file of a build: the given one, and else that of the project directory. -/
def settingsFile? (args : BuildArguments) (s : Surroundings) (t : FileTree) : Option HostPath :=
  (args.config.map s.absolute).or (Config.findFile t (s.projectDir args.root))

/-- What the settings file says, and nothing without one. -/
def fileLayer (args : BuildArguments) (s : Surroundings) (t : FileTree) :
    Except ConfigError Json :=
  match args.settingsFile? s t with
  | some file => Config.fileLayer t file
  | none => .ok (.obj [])

/-- The settings of a build field by field: an argument comes before a variable, this before the
settings file, and this before the default. -/
structure Layered (args : BuildArguments) (s : Surroundings) (file : Json) (c : Config) :
    Prop where
  root : c.root = Config.resolvePath (s.projectDir args.root)
    (Field.root.layered file s.environment)
  dest : c.dest = (args.dest.map s.absolute).or
    ((Field.dest.layered file s.environment).map (Config.resolvePath (s.projectDir args.root)))
  dependencyDir : c.dependencyDir = Field.dependencyDir.layered file s.environment
  exportModules : c.exportModules =
    if args.exportModules = [] then Field.exportModules.layered file s.environment
    else args.exportModules
  concurrency : c.concurrency = args.concurrency.getD
    (Field.concurrency.layered file s.environment)
  walkConcurrency : c.walkConcurrency = Field.walkConcurrency.layered file s.environment
  emit : c.emit = args.emit.getD (Field.emit.layered file s.environment)
  commonBundle : c.commonBundle = Field.commonBundle.layered file s.environment
  runtimeAsset : c.runtimeAsset =
    (Field.runtimeAsset.layered file s.environment).map
      (Config.resolvePath (s.projectDir args.root))
  ignore : c.ignore = Field.ignore.layered file s.environment
  skip : c.skip = Field.skip.layered file s.environment

/-- The layers below the arguments. -/
theorem loadSettings_eq (hdir : t.isDir (s.projectDir args.root) = true)
    (hfile : args.fileLayer s t = .ok file) :
    loadSettings s t args.root args.config =
      ofConfig (do
        return (← Config.ofLayers file s.environment).resolve (s.projectDir args.root)) := by
  unfold fileLayer settingsFile? at hfile
  unfold loadSettings
  dsimp only
  rw [hdir, if_neg (by decide)]
  cases hconfig : args.config with
  | some path =>
    rw [hconfig] at hfile
    exact congrArg ofConfig (Config.loadFrom_eq hfile s.environment (s.projectDir args.root))
  | none =>
    rw [hconfig] at hfile
    unfold Config.loadOrDefault
    cases hfound : Config.findFile t (s.projectDir args.root) with
    | some path =>
      rw [hfound] at hfile
      exact congrArg ofConfig (Config.loadFrom_eq hfile s.environment (s.projectDir args.root))
    | none =>
      rw [hfound] at hfile
      cases hfile
      rfl

theorem increasing_of_fileLayer (hfile : args.fileLayer s t = .ok file) :
    ∃ fields, file = .obj fields ∧ Json.Increasing fields := by
  unfold fileLayer at hfile
  split at hfile
  · exact Config.increasing_of_fileLayer hfile
  · cases hfile
    exact ⟨[], rfl, Json.increasing_nil⟩

/-- Settings that are made up field by field, resolved, and with the arguments applied. -/
theorem layered_apply (args : BuildArguments) (s : Surroundings) (file : Json) :
    args.Layered s file
      (args.apply s ((Config.layered file s.environment).resolve
        (s.projectDir args.root))) where
  root := rfl
  dest := rfl
  dependencyDir := rfl
  exportModules := by
    unfold apply
    cases args.exportModules <;> rfl
  concurrency := rfl
  walkConcurrency := rfl
  emit := rfl
  commonBundle := rfl
  runtimeAsset := rfl
  ignore := rfl
  skip := rfl

/-- A build whose settings file and variables can be read is set up field by field.  A relative
path in the file, a variable or the default leads where it leads from the project directory, and
one in an argument where it leads from the working directory. -/
theorem settings_by_field (hcwd : s.cwd.isAbsolute = true)
    (hdir : t.isDir (s.projectDir args.root) = true) (hfile : args.fileLayer s t = .ok file)
    (htyped : Config.WellTyped file s.environment) :
    ∃ c, args.settings s t = .ok c ∧ args.Layered s file c ∧
      (∀ p, (Config.resolvePath (s.projectDir args.root) p).location =
        (s.projectDir args.root).placeFrom p) ∧
      ∀ p, (s.absolute p).location = s.cwd.placeFrom p := by
  obtain ⟨fields, rfl, hkeys⟩ := increasing_of_fileLayer hfile
  have hbase := Surroundings.isAbsolute_projectDir hcwd args.root
  refine ⟨_, ?_, layered_apply args s (.obj fields),
    fun p => Config.location_resolvePath hbase p, fun p => HostPath.location_absolute hcwd p⟩
  unfold settings
  rw [loadSettings_eq hdir hfile, Config.ofLayers_of_wellTyped hkeys htyped]
  rfl

/-- A project whose settings file sets three fields. -/
def layeredTree : FileTree :=
  ⟨[(["project", "cube.toml"],
    .file (Text.encode "concurrency = 4\ndest = \"dist\"\nruntime_asset = \"loader.js\"\n"))],
    []⟩

/-- A user above the project, with variables for two fields. -/
def aboveProject : Surroundings :=
  ⟨⟨"/"⟩, [("CUBE_CONCURRENCY", "2"), ("CUBE_EMIT", "bundles")]⟩

/-- A build of the project with another destination and a module that becomes a root. -/
def withDestination : BuildArguments :=
  ⟨some ⟨"project"⟩, some ⟨"out"⟩, false, none, ["/a.js"], none, none⟩

/-- A variable takes the place of a field of the file, and an argument that of another; the
third one stays. -/
theorem settings_from_file_variables_and_arguments :
    aboveProject.cwd.isAbsolute = true ∧
      layeredTree.isDir (aboveProject.projectDir withDestination.root) = true ∧
      ∃ file, withDestination.fileLayer aboveProject layeredTree = .ok file ∧
        Config.WellTyped file aboveProject.environment ∧
        ∃ c, withDestination.settings aboveProject layeredTree = .ok c ∧
          withDestination.Layered aboveProject file c ∧
          c.concurrency = 2 ∧ c.emit = .bundles ∧ c.dest = some ⟨"/out"⟩ ∧
          c.exportModules = ["/a.js"] ∧
          c.runtimeAsset = some ⟨"/project/loader.js"⟩ ∧ c.root = ⟨"/project"⟩ := by
  have hdir : layeredTree.isDir (aboveProject.projectDir withDestination.root) = true := by
    decide
  have hread : (match withDestination.fileLayer aboveProject layeredTree with
      | .ok file => decide (Config.WellTyped file aboveProject.environment)
      | .error _ => false) = true := by decide +kernel
  cases hfile : withDestination.fileLayer aboveProject layeredTree with
  | error e =>
    rw [hfile] at hread
    cases hread
  | ok file =>
    rw [hfile] at hread
    have htyped : Config.WellTyped file aboveProject.environment := of_decide_eq_true hread
    obtain ⟨c, hc, hlayered, -⟩ := settings_by_field rfl hdir hfile htyped
    have hsettings : withDestination.settings aboveProject layeredTree =
        .ok ⟨⟨"/project"⟩, some ⟨"/out"⟩, "node_modules", ["/a.js"], 2, none, .bundles,
          "/cube.common.js", some ⟨"/project/loader.js"⟩, [], []⟩ := by decide +kernel
    cases hc.symm.trans hsettings
    exact ⟨rfl, hdir, file, rfl, htyped, _, hc, hlayered, rfl, rfl, rfl, rfl, rfl, rfl⟩

end CommandLine.BuildArguments

end WebBundler
