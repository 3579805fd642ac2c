import WebBundler.Proofs.Build.Runs
import WebBundler.Proofs.Path.Absolute
set_option autoImplicit false

/-!
# Which directory a build leaves out on account of its destination

Output goes to the destination with its `..` steps resolved.  What is left out of the walk is
computed from the destination as it is spelled: it has to begin with the steps of the root, and
the steps that follow are resolved against the root as if nothing lay above it.  Both agree if
the spelling never climbs above the root, and then a directory is left out if and only if it is
the destination; every other spelling of a place below the root or beside it makes the walk
leave out a directory with nothing to do with the output, or enter the one that holds it
(`destination_left_out_iff`).
-/

namespace WebBundler

namespace FileTree

/-- A tree in which there is one directory. -/
def ofDirectory (place : List String) : FileTree := ⟨[(place, .dir)], []⟩

theorem metadata_ofDirectory (path : HostPath) :
    (ofDirectory path.location).metadata path = .ok .dir := by
  have hnode : (ofDirectory path.location).node? path.location = some .dir := by
    simp [ofDirectory, node?]
  have hblocked : (ofDirectory path.location).isBlocked path.location = false := by
    unfold isBlocked
    rw [List.any_eq_false]
    intro place _
    unfold node? ofDirectory
    by_cases hplace : path.location = place <;> simp [hplace]
  unfold metadata attempt look
  rw [hblocked, hnode]
  rfl

end FileTree

namespace Project

open HostPath (descend staysBelow)
open QueryPath (IsMove IsStep pathOf)

variable {p : Project} {d : Destination} {root dest : HostPath} {names : List String}

theorem isStep_of_mem_components {path : HostPath} (habsolute : path.isAbsolute = true)
    (hplain : '\\' ∉ path.text.toList) {name : String} (h : .name name ∈ path.components) :
    IsStep name := by
  rw [HostPath.components_eq, habsolute] at h
  rcases List.mem_cons.1 h with h | h
  · cases h
  · obtain ⟨seg, hseg, hname⟩ := List.mem_filterMap.1 h
    exact QueryPath.isStep_of_mem_segments hplain hseg hname

section Spelling

variable (hroot : root.isAbsolute = true) (hdest : dest.isAbsolute = true)
include hroot hdest

theorem isMove_of_stepsAfter {steps : List HostPath.Component}
    (hsteps : HostPath.stepsAfter? root dest = some steps) : ∀ step ∈ steps, IsMove step := by
  obtain ⟨first, hfirst, -⟩ := HostPath.exists_components hroot
  obtain ⟨all, hall, hmoves⟩ := HostPath.exists_components hdest
  rw [HostPath.stepsAfter?_eq_some, hall, hfirst, List.cons_append, List.cons_inj_right]
    at hsteps
  intro step hstep
  exact hmoves step (hsteps ▸ List.mem_append_right _ hstep)

/-- The place of a destination is where its steps lead from the root. -/
theorem location_of_stepsAfter {steps : List HostPath.Component}
    (hsteps : HostPath.stepsAfter? root dest = some steps) :
    dest.location = steps.foldl descend root.location := by
  obtain ⟨first, hfirst, hfirstMoves⟩ := HostPath.exists_components hroot
  obtain ⟨all, hall, hmoves⟩ := HostPath.exists_components hdest
  rw [HostPath.stepsAfter?_eq_some, hall, hfirst, List.cons_append, List.cons_inj_right]
    at hsteps
  rw [HostPath.location_of_components hall hmoves,
    HostPath.location_of_components hfirst hfirstMoves, hsteps, List.foldl_append]

theorem no_backslash_of_stepsAfter (hplain : '\\' ∉ dest.text.toList)
    {steps : List HostPath.Component} (hsteps : HostPath.stepsAfter? root dest = some steps) :
    ∀ step ∈ steps, '\\' ∉ step.text.toList := by
  intro step hstep
  obtain rfl | ⟨name, -, rfl⟩ := isMove_of_stepsAfter hroot hdest hsteps step hstep
  · decide
  · rw [HostPath.stepsAfter?_eq_some] at hsteps
    exact (isStep_of_mem_components hdest hplain
      (hsteps ▸ List.mem_append_right _ hstep)).no_backslash

end Spelling

theorem isAbsolute_resolvePath {base path : HostPath} (hbase : base.isAbsolute = true) :
    (Config.resolvePath base path).isAbsolute = true := by
  unfold Config.resolvePath
  split
  · next habsolute => exact habsolute
  · split
    · exact hbase
    · exact HostPath.isAbsolute_join hbase path

theorem isAbsolute_resolve {c : Config} {base : HostPath} (hbase : base.isAbsolute = true) :
    (c.resolve base).root.isAbsolute = true ∧
      ∀ dest, (c.resolve base).dest = some dest → dest.isAbsolute = true := by
  refine ⟨isAbsolute_resolvePath hbase, fun dest hdest => ?_⟩
  obtain ⟨path, -, rfl⟩ := Option.map_eq_some_iff.1 hdest
  exact isAbsolute_resolvePath hbase

/-! ## What is left out -/

/-- A full build leaves a directory out if the steps of the destination behind those of the root
lead to it from the root of the file system. -/
theorem entersAll_eq_false_iff (hdest : p.config.dest = some dest)
    (hsource : p.source = p.config.root) (hroot : p.config.root.isAbsolute = true)
    (habsolute : dest.isAbsolute = true) (hplain : '\\' ∉ dest.text.toList)
    (hnames : ∀ name ∈ names, IsStep name) :
    p.entersAll (HostPath.relativeTo p.config.root (p.config.root.under names)) = false ↔
      ∃ steps, HostPath.stepsAfter? p.config.root dest = some steps ∧
      names = steps.foldl descend [] := by
  unfold entersAll destinationWithin HostPath.isBelow
  rw [hdest, hsource, HostPath.relativeTo_under p.config.root hnames, bne_eq_false_iff_eq]
  dsimp only
  cases hsteps : HostPath.stepsAfter? p.config.root dest with
  | none => simp
  | some steps =>
    have hmoves := isMove_of_stepsAfter hroot habsolute hsteps
    rw [HostPath.relativeTo_of_steps hsteps hmoves
      (no_backslash_of_stepsAfter hroot habsolute hplain hsteps)]
    simp only [Option.isSome_some, if_true, Option.some_inj, exists_eq_left']
    rw [HostPath.pathOf_inj (HostPath.isName_of_mem_foldl_descend hmoves) fun name hname =>
      (hnames name hname).isName]
    exact eq_comm

/-- The spelling of a destination shows whether it lies below a root.  If it begins with the
steps of the root, what follows does not climb above the root, or there is nothing above it, or
no name is left in the end. -/
def InsideAsSpelled (root dest : HostPath) : Prop :=
  match HostPath.stepsAfter? root dest with
  | some steps => staysBelow 0 steps = true ∨ root.location = [] ∨ steps.foldl descend [] = []
  | none => ∀ names, names ≠ [] → dest.location ≠ root.location ++ names

/-- If a destination lies inside as its spelling says, its steps behind the root lead to it. -/
theorem InsideAsSpelled.steps_iff (h : InsideAsSpelled root dest)
    (hroot : root.isAbsolute = true) (habsolute : dest.isAbsolute = true) (hne : names ≠ []) :
    (∃ steps, HostPath.stepsAfter? root dest = some steps ∧ names = steps.foldl descend []) ↔
      root.location ++ names = dest.location := by
  unfold InsideAsSpelled at h
  split at h
  · next steps hsteps =>
    rw [location_of_stepsAfter hroot habsolute hsteps, hsteps]
    simp only [Option.some_inj, exists_eq_left']
    obtain ⟨start, hprefix, hfold, hstays, -⟩ :=
      HostPath.foldl_descend_append root.location [] steps
    rw [List.append_nil] at hfold
    rw [hfold]
    rcases h with hbelow | htop | hnone
    · rw [hstays hbelow, List.append_right_inj]
    · rw [htop, List.prefix_nil] at hprefix
      rw [htop, hprefix, List.append_right_inj]
    · rw [hnone, List.append_nil]
      refine iff_of_false hne fun hsame => hne ?_
      have hlength := hprefix.length_le
      rw [← hsame, List.length_append] at hlength
      exact List.eq_nil_of_length_eq_zero (by omega)
  · next hnone =>
    rw [hnone]
    exact iff_of_false (fun ⟨_, hsteps, _⟩ => nomatch hsteps) fun hsame =>
      h names hne hsame.symm

/-- If the steps of a destination behind the root lead to it and to nothing else below the root,
it lies inside as its spelling says. -/
theorem insideAsSpelled_of_steps (hroot : root.isAbsolute = true)
    (habsolute : dest.isAbsolute = true) (hplain : '\\' ∉ dest.text.toList)
    (h : ∀ names, names ≠ [] → (∀ name ∈ names, IsStep name) →
      ((∃ steps, HostPath.stepsAfter? root dest = some steps ∧ names = steps.foldl descend []) ↔
        root.location ++ names = dest.location)) : InsideAsSpelled root dest := by
  obtain ⟨all, hall, hmoves⟩ := HostPath.exists_components habsolute
  have hstep : ∀ name, .name name ∈ all → IsStep name := fun name hname =>
    isStep_of_mem_components habsolute hplain (hall ▸ List.mem_cons_of_mem _ hname)
  have hreached : ∀ (steps : List HostPath.Component), steps ⊆ all →
      ∀ name ∈ steps.foldl descend [], IsStep name := by
    intro steps hsubset name hname
    exact hstep name (hsubset
      ((HostPath.mem_foldl_descend hname).resolve_left List.not_mem_nil))
  unfold InsideAsSpelled
  split
  · next steps hsteps =>
    by_cases hbelow : staysBelow 0 steps = true
    · exact .inl hbelow
    by_cases htop : root.location = []
    · exact .inr (.inl htop)
    refine .inr (.inr (Classical.byContradiction fun hne => ?_))
    -- The way climbs, so it leads to its names from a place above the root.
    have hsubset : steps ⊆ all := by
      obtain ⟨first, hfirst, -⟩ := HostPath.exists_components hroot
      rw [HostPath.stepsAfter?_eq_some, hall, hfirst, List.cons_append, List.cons_inj_right]
        at hsteps
      exact hsteps ▸ List.subset_append_right first steps
    have hplace := (h _ hne (hreached steps hsubset)).1 ⟨steps, hsteps, rfl⟩
    rw [location_of_stepsAfter hroot habsolute hsteps, HostPath.append_foldl_descend_iff]
      at hplace
    exact hplace.elim hbelow htop
  · next hnone =>
    intro names hne hplace
    have hnames : ∀ name ∈ names, IsStep name := by
      intro name hname
      apply hreached all (List.Subset.refl _)
      rw [← HostPath.location_of_components hall hmoves, hplace]
      exact List.mem_append_right _ hname
    obtain ⟨steps, hsteps, -⟩ := (h names hne hnames).2 hplace.symm
    rw [hnone] at hsteps
    cases hsteps

/-- Of the directories below the root, a full build leaves out the destination and no other, if
and only if the spelling of the destination shows whether it lies below the root. -/
theorem destination_left_out_iff (hd : Destination.of p.config = .ok d)
    (hdest : p.config.dest = some dest) (hsource : p.source = p.config.root)
    (hroot : p.config.root.isAbsolute = true) (habsolute : dest.isAbsolute = true)
    (hplain : '\\' ∉ dest.text.toList) :
    (∀ t names, names ≠ [] → (∀ name ∈ names, IsStep name) →
        t.metadata (p.config.root.under names) = .ok .dir →
        ((p.fullWalk d).goesInto t (p.config.root.under names) = false ↔
          (p.config.root.under names).location = d.dir.location)) ↔
      InsideAsSpelled p.config.root dest := by
  have hplace : d.dir.location = dest.location := by
    unfold Destination.of at hd
    rw [hdest] at hd
    cases hd
    exact HostPath.location_clean habsolute
  have hunder : ∀ names, (∀ name ∈ names, IsStep name) →
      (p.config.root.under names).location = p.config.root.location ++ names :=
    fun names hnames => HostPath.location_under _ fun name hname => (hnames name hname).isName
  have hrefused : ∀ t names, (∀ name ∈ names, IsStep name) →
      t.metadata (p.config.root.under names) = .ok .dir →
      ((p.fullWalk d).goesInto t (p.config.root.under names) = false ↔
        ∃ steps, HostPath.stepsAfter? p.config.root dest = some steps ∧
        names = steps.foldl descend []) := by
    intro t names hnames hdir
    rw [← entersAll_eq_false_iff hdest hsource hroot habsolute hplain hnames, Walk.goesInto,
      hdir]
    rfl
  rw [hplace]
  constructor
  · intro h
    refine insideAsSpelled_of_steps hroot habsolute hplain fun names hne hnames => ?_
    have hdir := FileTree.metadata_ofDirectory (p.config.root.under names)
    rw [← hrefused _ names hnames hdir, h _ names hne hnames hdir, hunder names hnames]
  · intro h t names hne hnames hdir
    rw [hrefused t names hnames hdir, h.steps_iff hroot habsolute hne, hunder names hnames]

/-! ## Spellings with a step up -/

/-- A project that writes to a destination. -/
def writingTo (dest : String) : Project where
  config := { Config.default with root := ⟨"/project"⟩, dest := some ⟨dest⟩ }
  source := ⟨"/project"⟩
  compiler := .standard (.of ⟨"/project"⟩ Config.defaultDependencyDir)
  rules := default

/-- The destination of such a project. -/
def outputAt (dest : String) : Destination :=
  ⟨(HostPath.mk dest).clean, none, Config.defaultCommonBundle⟩

theorem classify_writingTo (dest path : String) :
    (writingTo dest).rules.classify path = .build :=
  ProjectRules.classify_of_no_rules

theorem compiler_writingTo (dest : String) : (writingTo dest).compiler =
    .standard (.of (writingTo dest).config.root Config.defaultDependencyDir) :=
  rfl

/-- A way up inside the root does no harm. -/
theorem destination_left_out_beside :
    ((writingTo "/project/src/../dist").fullWalk (outputAt "/project/src/../dist")).goesInto
        (.ofDirectory ["project", "dist"]) (HostPath.under ⟨"/project"⟩ ["dist"]) = false ∧
      ((writingTo "/project/src/../dist").fullWalk (outputAt "/project/src/../dist")).goesInto
        (.ofDirectory ["project", "src"]) (HostPath.under ⟨"/project"⟩ ["src"]) = true := by
  have hsteps : HostPath.stepsAfter? ⟨"/project"⟩ ⟨"/project/src/../dist"⟩ =
      some [.name "src", .up, .name "dist"] := by decide
  have hspelled : InsideAsSpelled ⟨"/project"⟩ ⟨"/project/src/../dist"⟩ := by
    unfold InsideAsSpelled
    rw [hsteps]
    exact .inl rfl
  have hexact := (destination_left_out_iff (p := writingTo "/project/src/../dist")
    (d := outputAt "/project/src/../dist") rfl rfl rfl (by decide) (by decide)
    (by decide)).2 hspelled
  constructor
  · exact (hexact _ ["dist"] (by decide) (by decide) (by decide)).2
      (by decide)
  · rw [← Bool.not_eq_false]
    exact fun hrefused => absurd
      ((hexact _ ["src"] (by decide) (by decide) (by decide)).1 hrefused)
      (by decide)

/-- A way up out of the root leads the build astray: on the way to `/dist` it leaves out a
directory of the source, and on the way back into the root it enters the directory that it
writes to. -/
theorem climbing_destination_mistaken :
    (((writingTo "/project/../dist").fullWalk (outputAt "/project/../dist")).goesInto
          (.ofDirectory ["project", "dist"]) (HostPath.under ⟨"/project"⟩ ["dist"]) = false ∧
        (HostPath.under ⟨"/project"⟩ ["dist"]).location ≠
          (outputAt "/project/../dist").dir.location) ∧
      ((writingTo "/project/../project/dist").fullWalk
          (outputAt "/project/../project/dist")).goesInto (.ofDirectory ["project", "dist"])
          (HostPath.under ⟨"/project"⟩ ["dist"]) = true ∧
        (HostPath.under ⟨"/project"⟩ ["dist"]).location =
          (outputAt "/project/../project/dist").dir.location := by
  decide +kernel

end Project

end WebBundler
