import WebBundler.Proofs.Build.Outputs
import WebBundler.Proofs.Walk.Orders
set_option autoImplicit false

/-!
# What a build keeps of every file

In a full build that reports no error every visit has written its outputs.  The main output of a
file has the path of the file, so no two files have theirs at one place.  What can take the
place of an output is only the loader, and an output of a file that intrudes (`Intrudes`).  All
else that is written stays (`clean_build_keeps_outputs`).
-/

namespace WebBundler.Project

open QueryPath (IsStep pathOf)

variable {p : Project} {d : Destination} {ws : Workspace} {t : FileTree} {names : List String}
  {dependencyDir : String}

/-! ## The whole build -/

/-- A build that reports no error has written the loader last. -/
theorem exists_loader_written {walked : Walk.Summary Workspace}
    (hclean : (concludeFull d walked).1.errors = []) :
    ∃ target content, target.location = d.dir.location ++ [Loader.fileName] ∧
      walked.store.tree.write target content = .ok (concludeFull d walked).2.tree ∧
      (d.loader = none → content = Text.encode Loader.text) := by
  obtain ⟨target, htarget, hlocation⟩ := d.location_place_loader
  have hwrite : ∀ {t : FileTree} {content : ByteArray},
      d.write walked.store.tree ⟨Loader.fileName, content⟩ = .ok t →
      walked.store.tree.write target content = .ok t := by
    intro t content hwritten
    obtain ⟨target', htarget', hwrite⟩ := Destination.write_eq_ok hwritten
    cases htarget.symm.trans htarget'
    exact hwrite
  unfold concludeFull writeLoader at hclean ⊢
  cases hwritten : d.writeLoader walked.store.tree with
  | error e =>
    rw [hwritten] at hclean
    exact absurd (List.append_eq_nil_iff.1 hclean).2 (List.cons_ne_nil _ _)
  | ok t =>
    unfold Destination.writeLoader at hwritten
    split at hwritten
    · next file hloader =>
      unfold Destination.copy at hwritten
      split at hwritten
      · cases hwritten
      · exact ⟨target, _, hlocation, hwrite hwritten,
          fun hnone => nomatch hloader.symm.trans hnone⟩
    · exact ⟨target, _, hlocation, hwrite hwritten, fun _ => rfl⟩

/-- The loader takes the place of one file only. -/
theorem look_concludeFull {walked : Walk.Summary Workspace} {bytes : ByteArray}
    (hclean : (concludeFull d walked).1.errors = []) (hloader : names ≠ [Loader.fileName])
    (hfile : walked.store.tree.look (d.dir.location ++ names) = .ok (.file bytes)) :
    (concludeFull d walked).2.tree.look (d.dir.location ++ names) = .ok (.file bytes) := by
  obtain ⟨target, content, hlocation, hwrite, -⟩ := exists_loader_written hclean
  refine FileTree.look_write_of_ne hwrite (fun hsame => ?_) hfile
  rw [hlocation, List.append_right_inj] at hsame
  exact hloader hsame.symm

/-- The built-in loader takes the place of that file. -/
theorem contentAt_loader {walked : Walk.Summary Workspace}
    (hclean : (concludeFull d walked).1.errors = []) (hbuiltIn : d.loader = none) :
    (concludeFull d walked).2.tree.contentAt (d.dir.location ++ [Loader.fileName]) =
      .ok (Text.encode Loader.text) := by
  obtain ⟨target, content, hlocation, hwrite, hcontent⟩ := exists_loader_written hclean
  have hlook := FileTree.look_write_self hwrite
  rw [hlocation, hcontent hbuiltIn] at hlook
  unfold FileTree.contentAt
  rw [hlook]

theorem errors_concludeFull {walked : Walk.Summary Workspace}
    (h : (concludeFull d walked).1.errors = []) :
    walked.errors = [] :=
  (List.append_eq_nil_iff.1 h).1

theorem exists_last_of_mem {α : Type} {l : List α} {a : α} (h : a ∈ l) :
    ∃ before after, l = before ++ a :: after ∧ a ∉ after := by
  obtain ⟨after, before, hsplit, hlast⟩ := List.eq_append_cons_of_mem (List.mem_reverse.2 h)
  refine ⟨before.reverse, after.reverse, ?_, by rwa [List.mem_reverse]⟩
  rw [← List.reverse_inj, hsplit]
  simp

/-- What a full build brings back, it makes of a walk with some visits. -/
theorem exists_visits_of_buildAll {result : BuildReport × Workspace} (hnamed : ws.tree.Named)
    (h : p.buildAll ws = .ok result) :
    ∃ d visits walked, Destination.of p.config = .ok d ∧
      (p.fullWalk d).Visits p.config.walkConcurrency ws visits walked ∧
      concludeFull d walked = result := by
  obtain ⟨d, walked, hd, hwalked, hresult⟩ := completes_of_buildAll hnamed h
  obtain ⟨visits, hvisits⟩ := Walk.completes_iff.1 hwalked
  exact ⟨d, visits, walked, hd, hvisits, hresult⟩

/-- **A clean build keeps what it makes.**  When a full build reports no error, every file below
the source that is not left out and to which only directories lead that the build enters was
visited, and at its path below the destination stands what was made of it, unless this is the
path of the loader or some visited file intrudes. -/
theorem clean_build_keeps_outputs
    (hcompiler : p.compiler = .standard (.of p.config.root dependencyDir)) {base : List String}
    (hsource : p.source = p.config.root.under base) {limit : Option Nat}
    {visits : List WalkedFile} {walked : Walk.Summary Workspace}
    (hrun : (p.fullWalk d).Visits limit ws visits walked)
    (hclean : (concludeFull d walked).1.errors = [])
    (hoffers : (p.fullWalk d).Offers ws.tree names) (hspelled : NamesItself (base ++ names))
    (hrule : p.rules.classify (pathOf (base ++ names)) ≠ .ignore)
    (hloader : base ++ names ≠ [Loader.fileName])
    (hfree : ∀ other ∈ visits, ¬p.Intrudes other (pathOf (base ++ names))) :
    ∃ file before after content, file = (p.fullWalk d).fileAt (p.source.under names) ∧
      visits = before ++ file :: after ∧
      p.Made ((p.fullWalk d).storeAfter ws before).tree file content ∧
      (concludeFull d walked).2.tree.contentAt (d.dir.location ++ (base ++ names)) =
        .ok content ∧
      (¬d.dir.location <+: p.source.location ++ names →
        ((p.fullWalk d).storeAfter ws before).tree.read file.path =
          ws.tree.read file.path) := by
  have herrors := errors_concludeFull hclean
  obtain ⟨hsucceed, hstore, hfound⟩ := hrun.succeed herrors
  have hmem := hrun.mem_of_offers (fun _ _ _ => hasFile_visit) herrors hoffers
  have hpath : p.source.under names = p.config.root.under (base ++ names) := by
    rw [hsource]
    exact (List.foldl_append).symm
  -- The last visit of the file counts.
  obtain ⟨before, after, hvisits, hlast⟩ := exists_last_of_mem hmem
  rw [hvisits, Walk.succeed_append] at hsucceed
  obtain ⟨hbefore, hvisit, hafter⟩ := hsucceed
  obtain ⟨content, hmade, hlook⟩ :=
    look_visit_self hcompiler hvisit hspelled (congrArg _ hpath) hrule
  refine ⟨_, before, after, content, rfl, hvisits, hmade, ?_, fun houtside => ?_⟩
  · have hkept := hafter.invariant
      (P := fun ws => ws.tree.look (d.dir.location ++ (base ++ names)) = .ok (.file content))
      (fun other hother ws hok hws => ?_) hlook
    · have hend : walked.store.tree.look (d.dir.location ++ (base ++ names)) =
          .ok (.file content) := by
        rw [hstore, hvisits, Walk.storeAfter_append_cons]
        exact hkept
      unfold FileTree.contentAt
      rw [look_concludeFull hclean hloader hend]
    · have hin : other ∈ visits := by
        rw [hvisits]
        exact List.mem_append_right _ (List.mem_cons_of_mem _ hother)
      refine look_visit_of_other hcompiler hok (hfound other hin) hspelled.steps
        (fun hsame => ?_) (hfree other hin) hws
      rw [hfound other hin, hsame, ← hpath] at hother
      exact hlast hother
  · obtain ⟨bytes, hbytes⟩ := hoffers.file
    have hplace : (p.source.under names).location = p.source.location ++ names :=
      HostPath.location_under p.source hoffers.isName
    have hread : (ws.tree.look (p.source.under names).location) = .ok (.file bytes) :=
      hplace.symm ▸ hbytes
    refine read_storeAfter_of_outside hcompiler hbefore (fun other hother => hfound other ?_)
      (hplace.symm ▸ houtside) hread
    rw [hvisits]
    exact List.mem_append_left _ hother

/-! ## Builds of a few scripts -/

/-- The loader differs from what the standard compiler makes of a file. -/
theorem outputCode_ne_loader {r : Resolver} {name : QueryPath} {m : Module}
    (h : Compiler.standard r t (.of name) = .ok m) : m.outputCode ≠ Loader.text := by
  obtain ⟨requires, body, hcode⟩ : ∃ requires body,
      m.outputCode = Wrapping.wrap name requires body := by
    obtain hunknown | ⟨e, -, hfailed⟩ | ⟨-, source, hscript | hstyle | htemplate⟩ :=
      Compiler.standard_cases r t (.of name)
    · cases hunknown.symm.trans h
    · cases hfailed.symm.trans h
    · cases hscript.symm.trans h
      exact ⟨_, _, rfl⟩
    · cases hstyle.symm.trans h
      exact ⟨_, _, rfl⟩
    · cases htemplate.symm.trans h
      exact ⟨_, _, rfl⟩
  have hloader : Loader.text.toList.head? = some '(' := by
    unfold Loader.text Text.joinText
    rw [String.toList_append, String.toList_intercalate]
    rfl
  have hwrapped : m.outputCode.toList.head? = some 'C' := by
    rw [hcode]
    unfold Wrapping.wrap
    simp only [String.toList_append, List.append_assoc]
    rfl
  intro hsame
  rw [← hsame, hwrapped] at hloader
  exact absurd hloader (by decide)

/-- A build whose visits do not fail reports nothing, if the tree can be read and there is room
for the built-in loader. -/
theorem exists_clean_of_perm {visits : List WalkedFile} (limit : Option Nat)
    (hnamed : ws.tree.Named) (hreadable : (p.fullWalk d).Readable ws.tree)
    (hvisits : visits.Perm ((p.fullWalk d).files ws.tree))
    (hfailures : (p.fullWalk d).failures ws.tree = []) (hok : (p.fullWalk d).Succeed ws visits)
    (hbuiltIn : d.loader = none)
    (hroom : (d.write ((p.fullWalk d).storeAfter ws visits).tree
      ⟨Loader.fileName, ByteArray.empty⟩).isOk = true) :
    ∃ walked, (p.fullWalk d).Visits limit ws visits walked ∧
      (concludeFull d walked).1.errors = [] := by
  obtain ⟨walked, hrun, herrors⟩ :=
    Walk.exists_visits_of_perm (p.fullWalk d) ws limit hnamed hreadable hvisits hok
  refine ⟨walked, hrun, ?_⟩
  rw [Destination.isOk_write d _ _ _ (Text.encode Loader.text), ← hrun.store_eq] at hroom
  have herrors : walked.errors = [] := herrors.trans hfailures
  unfold concludeFull writeLoader Destination.writeLoader Output.ofText
  rw [hbuiltIn, herrors]
  dsimp only
  split
  · rfl
  · next e hfailed =>
    rw [hfailed] at hroom
    cases hroom

/-- A script with the name of the loader. -/
def cubeTree : FileTree :=
  ⟨[(["project", "cube.js"], .file (Text.encode "exports.a = 1;"))], []⟩

/-- A script that requires a package. -/
def requiringTree : FileTree where
  entries := [
    (["project", "app.js"], .file (Text.encode "require('x');")),
    (["project", "node_modules", "x", "index.js"], .file (Text.encode "exports.a = 1;"))]
  faults := []

/-- The scripts of both trees. -/
def scripts : List (List String) :=
  [["app.js"], ["node_modules", "x", "index.js"], ["cube.js"]]

theorem scripts_named :
    ∀ names ∈ scripts,
      QueryPath.ofText (projectFile names).relPath = .ok ⟨(projectFile names).relPath⟩ ∧
        QueryPath.withoutScheme ⟨pathOf names⟩ = pathOf names ∧
        FileTypes.standard.kind? (pathOf names) = some .script ∧
        ∀ name ∈ names, IsStep name := by
  decide

theorem visit_script (hnames : names ∈ scripts) (ws : Workspace) :
    ((writingTo "/out").fullWalk (outputAt "/out")).visit (projectFile names) ws =
      (writingTo "/out").visitNamed (outputAt "/out") (projectFile names) ws :=
  visit_eq_visitNamed (classify_writingTo "/out" _) (scripts_named names hnames).1

theorem namesItself_of_script (hnames : names ∈ scripts) : NamesItself names := by
  obtain ⟨hname, hlocal, -, hsteps⟩ := scripts_named names hnames
  refine ⟨hsteps, fun other hother _ => ?_⟩
  cases hname.symm.trans hother
  exact hlocal

/-- A script has no plain stylesheet, so it does not intrude. -/
theorem not_intrudes_of_script {path : String} (hnames : names ∈ scripts) :
    ¬(writingTo "/out").Intrudes (projectFile names) path := by
  obtain ⟨hname, hlocal, hkind, -⟩ := scripts_named names hnames
  rintro (hsibling | ⟨-, hmisread⟩)
  · unfold siblingPath? at hsibling
    rw [classify_writingTo, hname] at hsibling
    dsimp only [projectFile] at hsibling
    rw [hlocal, hkind] at hsibling
    cases hsibling
  · exact hmisread ⟨names, namesItself_of_script hnames, rfl⟩

theorem location_outputAt : (outputAt "/out").dir.location = ["out"] := by decide

theorem readDir_requiring :
    requiringTree.readDir ⟨"/project"⟩ = .ok ["app.js", "node_modules"] := by
  unfold requiringTree
  generalize Text.encode "require('x');" = app
  generalize Text.encode "exports.a = 1;" = index
  cbv

theorem requiring_found :
    requiringTree.Named ∧
      ((writingTo "/out").fullWalk (outputAt "/out")).Readable requiringTree ∧
      ((writingTo "/out").fullWalk (outputAt "/out")).files requiringTree =
        [projectFile ["app.js"], projectFile ["node_modules", "x", "index.js"]] ∧
      ((writingTo "/out").fullWalk (outputAt "/out")).failures requiringTree = [] := by
  have hnamed : requiringTree.Named := by decide
  have hsource : requiringTree.metadata ⟨"/project"⟩ = .ok .dir := by decide
  have htop : ((writingTo "/out").fullWalk (outputAt "/out")).subdirsIn requiringTree
      ⟨"/project"⟩ = [⟨"/project/node_modules"⟩] := by
    unfold Walk.subdirsIn FileTree.namesIn
    rw [readDir_requiring]
    decide
  have hmiddle : ((writingTo "/out").fullWalk (outputAt "/out")).subdirsIn requiringTree
      ⟨"/project/node_modules"⟩ = [⟨"/project/node_modules/x"⟩] := by decide +kernel
  have hinner : ((writingTo "/out").fullWalk (outputAt "/out")).subdirsIn requiringTree
      ⟨"/project/node_modules/x"⟩ = [] := by decide +kernel
  have hdirectories :
      ((writingTo "/out").fullWalk (outputAt "/out")).directories requiringTree =
        [⟨"/project"⟩, ⟨"/project/node_modules"⟩, ⟨"/project/node_modules/x"⟩] := by
    rw [Walk.directories_of_dir hsource]
    show Walk.dirsBelow _ _ ⟨"/project"⟩ = _
    rw [Walk.dirsBelow_eq hnamed, htop, List.flatMap_singleton, Walk.dirsBelow_eq hnamed,
      hmiddle, List.flatMap_singleton, Walk.dirsBelow_of_flat hnamed hinner]
  refine ⟨hnamed, ⟨.dir, hsource, fun _ => congrArg Except.isOk readDir_requiring⟩, ?_, ?_⟩
  · rw [Walk.files_of_dir hsource, hdirectories]
    simp only [List.flatMap_cons, Walk.filesIn, FileTree.namesIn, readDir_requiring]
    decide +kernel
  · unfold Walk.failures
    rw [hdirectories]
    simp only [List.flatMap_cons, FileTree.failuresIn, readDir_requiring]
    decide +kernel

theorem requiring_written :
    let first := (writingTo "/out").visitNamed (outputAt "/out") (projectFile ["app.js"])
      (.of requiringTree)
    let second := (writingTo "/out").visitNamed (outputAt "/out")
      (projectFile ["node_modules", "x", "index.js"]) first.2
    (first.1.failure? = none ∧ second.1.failure? = none) ∧
      ((outputAt "/out").write second.2.tree ⟨Loader.fileName, ByteArray.empty⟩).isOk =
        true := by
  decide +kernel

/-- The build of the script and its package reports nothing. -/
theorem exists_clean_requiring :
    ∃ walked, ((writingTo "/out").fullWalk (outputAt "/out")).Visits none (.of requiringTree)
        [projectFile ["app.js"], projectFile ["node_modules", "x", "index.js"]] walked ∧
      (concludeFull (outputAt "/out") walked).1.errors = [] := by
  obtain ⟨hnamed, hreadable, hfiles, hfailures⟩ := requiring_found
  obtain ⟨⟨hok, hok'⟩, hroom⟩ := requiring_written
  have hfirst := @visit_script ["app.js"] (by decide)
  have hsecond := @visit_script ["node_modules", "x", "index.js"] (by decide)
  refine exists_clean_of_perm none hnamed hreadable (hfiles ▸ List.Perm.refl _) hfailures ?_ rfl
    ?_
  · simp only [Walk.Succeed, hfirst, hsecond]
    exact ⟨hok, hok', trivial⟩
  · simp only [Walk.storeAfter, List.foldl_cons, List.foldl_nil, hfirst, hsecond]
    exact hroom

theorem requiring_offered : ∀ names ∈ [["app.js"], ["node_modules", "x", "index.js"]],
    requiringTree.HasFile ((writingTo "/out").source.location ++ names) ∧
      [] ++ names ≠ [Loader.fileName] := by
  intro names hnames
  simp only [List.mem_cons, List.not_mem_nil, or_false] at hnames
  rcases hnames with rfl | rfl
  · exact ⟨⟨Text.encode "require('x');", by decide⟩, by decide⟩
  · exact ⟨⟨Text.encode "exports.a = 1;", by decide⟩, by decide⟩

theorem offers_requiring (hnames : names ∈ [["app.js"], ["node_modules", "x", "index.js"]]) :
    ((writingTo "/out").fullWalk (outputAt "/out")).Offers requiringTree names := by
  have hscript : names ∈ scripts := List.mem_append_left [["cube.js"]] hnames
  obtain ⟨-, -, -, hsteps⟩ := scripts_named names hscript
  have henters : ∀ names ∈ [["app.js"], ["node_modules", "x", "index.js"]], names ≠ [] ∧
      ∀ i < names.length, i ≠ 0 → (writingTo "/out").entersAll
        (HostPath.relativeTo ⟨"/project"⟩ (HostPath.under ⟨"/project"⟩ (names.take i))) =
          true := by
    decide
  exact Walk.offers_of_take (henters names hnames).1
    (fun name hname => (hsteps name hname).isName) (requiring_offered names hnames).1
    (henters names hnames).2

/-- The build of a script and its package keeps the outputs of both. -/
theorem requiring_scripts_kept :
    ∃ walked, ((writingTo "/out").fullWalk (outputAt "/out")).Visits none (.of requiringTree)
        [projectFile ["app.js"], projectFile ["node_modules", "x", "index.js"]] walked ∧
      (concludeFull (outputAt "/out") walked).1.errors = [] ∧
      ∀ names ∈ [["app.js"], ["node_modules", "x", "index.js"]], ∃ before content,
        (writingTo "/out").Made (((writingTo "/out").fullWalk (outputAt "/out")).storeAfter
          (.of requiringTree) before).tree (projectFile names) content ∧
        (concludeFull (outputAt "/out") walked).2.tree.contentAt (["out"] ++ names) =
          .ok content := by
  obtain ⟨walked, hrun, hclean⟩ := exists_clean_requiring
  refine ⟨walked, hrun, hclean, fun names hnames => ?_⟩
  have hscript : names ∈ scripts := List.mem_append_left [["cube.js"]] hnames
  have hfree : ∀ other ∈
      [projectFile ["app.js"], projectFile ["node_modules", "x", "index.js"]],
      ¬(writingTo "/out").Intrudes other (pathOf names) :=
    List.forall_mem_cons.2 ⟨not_intrudes_of_script (by decide),
      List.forall_mem_singleton.2 (not_intrudes_of_script (by decide))⟩
  have hrule : (writingTo "/out").rules.classify (pathOf ([] ++ names)) ≠ .ignore := by
    rw [classify_writingTo]
    decide
  obtain ⟨-, hloader⟩ := requiring_offered names hnames
  have hsource : (writingTo "/out").source = (writingTo "/out").config.root.under [] := rfl
  obtain ⟨-, -, -, hsteps⟩ := scripts_named names hscript
  obtain ⟨file, before, after, content, hfile, -, hmade, hcontent, -⟩ :=
    clean_build_keeps_outputs (compiler_writingTo "/out") hsource hrun hclean
      (offers_requiring hnames) (namesItself_of_script hscript) hrule hloader hfree
  have hself : file = projectFile names := by
    rw [hfile]
    unfold Walk.fileAt projectFile
    rw [← HostPath.relativeTo_under ⟨"/project"⟩ hsteps]
    rfl
  rw [location_outputAt] at hcontent
  exact ⟨before, content, hself ▸ hmade, hcontent⟩

theorem exists_clean_cube :
    ∃ walked, ((writingTo "/out").fullWalk (outputAt "/out")).Visits none (.of cubeTree)
        [projectFile ["cube.js"]] walked ∧
      (concludeFull (outputAt "/out") walked).1.errors = [] := by
  have hnamed : cubeTree.Named := by decide
  have hsource : cubeTree.metadata ⟨"/project"⟩ = .ok .dir := by decide
  have hflat : ((writingTo "/out").fullWalk (outputAt "/out")).subdirsIn cubeTree
      ⟨"/project"⟩ = [] := by
    decide +kernel
  have hfiles : ((writingTo "/out").fullWalk (outputAt "/out")).filesIn cubeTree ⟨"/project"⟩ =
      [projectFile ["cube.js"]] := by decide +kernel
  have hwritten :
      let visited := (writingTo "/out").visitNamed (outputAt "/out") (projectFile ["cube.js"])
        (.of cubeTree)
      visited.1.failure? = none ∧
        ((outputAt "/out").write visited.2.tree ⟨Loader.fileName, ByteArray.empty⟩).isOk =
          true := by
    decide +kernel
  have hvisit := @visit_script ["cube.js"] (by decide)
  have hall :=
    (Walk.files_of_flat (w := (writingTo "/out").fullWalk (outputAt "/out")) hnamed hsource
      hflat).trans hfiles
  have hfailures : ((writingTo "/out").fullWalk (outputAt "/out")).failures cubeTree = [] := by
    unfold Walk.failures
    rw [Walk.directories_of_flat hnamed hsource hflat]
    decide +kernel
  refine exists_clean_of_perm none hnamed ⟨.dir, hsource, fun _ => by decide⟩
    (hall ▸ List.Perm.refl _) hfailures ?_ rfl ?_
  · simp only [Walk.Succeed, hvisit]
    exact ⟨hwritten.1, trivial⟩
  · simp only [Walk.storeAfter, List.foldl_cons, List.foldl_nil, hvisit]
    exact hwritten.2

theorem ne_loader_of_made {content : ByteArray} (hnames : names ∈ scripts)
    (h : (writingTo "/out").Made t (projectFile names) content) :
    content ≠ Text.encode Loader.text := by
  obtain ⟨hname, hlocal, hkind, -⟩ := scripts_named names hnames
  cases h with
  | copied hcopied =>
    rcases hcopied with hskip | ⟨-, path, place, hpath, hunknown⟩
    · rw [classify_writingTo] at hskip
      cases hskip
    · cases hname.symm.trans hpath
      rw [compiler_writingTo] at hunknown
      have hnone := Compiler.kind?_of_unknownType hunknown
      dsimp only [CompileRequest.of, projectFile] at hnone
      rw [hlocal, hkind] at hnone
      cases hnone
  | stylesheet _ hstyle => cases hkind.symm.trans hstyle
  | compiled _ hmodule =>
    intro hsame
    have hdecoded := congrArg Text.decode? hsame
    rw [Text.decode?_encode, Text.decode?_encode] at hdecoded
    rw [compiler_writingTo] at hmodule
    exact outputCode_ne_loader hmodule (Option.some.inj hdecoded)

/-- A script with the name of the loader: the build reports nothing, and in the place of its
output stands the loader. -/
theorem loader_takes_place :
    ∃ walked, ((writingTo "/out").fullWalk (outputAt "/out")).Visits none (.of cubeTree)
        [projectFile ["cube.js"]] walked ∧
      (concludeFull (outputAt "/out") walked).1.errors = [] ∧
      ((writingTo "/out").fullWalk (outputAt "/out")).Offers cubeTree ["cube.js"] ∧
      (writingTo "/out").rules.classify (projectFile ["cube.js"]).relPath = .build ∧
      (∃ content, (writingTo "/out").Made cubeTree (projectFile ["cube.js"]) content) ∧
      ∀ content, (writingTo "/out").Made cubeTree (projectFile ["cube.js"]) content →
        (concludeFull (outputAt "/out") walked).2.tree.contentAt ["out", "cube.js"] ≠
          .ok content := by
  have hcube : ["cube.js"] ∈ scripts := by decide
  obtain ⟨-, -, -, hsteps⟩ := scripts_named ["cube.js"] hcube
  obtain ⟨walked, hvisits, hclean⟩ := exists_clean_cube
  have hoffers : ((writingTo "/out").fullWalk (outputAt "/out")).Offers cubeTree ["cube.js"] :=
    Walk.offers_of_take (by decide) (fun name hname => (hsteps name hname).isName)
      ⟨Text.encode "exports.a = 1;", by decide⟩ fun i hi hne => by
        rw [List.length_singleton] at hi
        omega
  have hrule : (writingTo "/out").rules.classify (pathOf ["cube.js"]) ≠ .ignore := by
    rw [classify_writingTo]
    decide
  have hself : projectFile ["cube.js"] = ((writingTo "/out").fullWalk (outputAt "/out")).fileAt
      ((writingTo "/out").config.root.under ["cube.js"]) := by decide
  obtain ⟨content, hmade, -⟩ := look_visit_self (compiler_writingTo "/out")
    (hvisits.succeed (errors_concludeFull hclean)).1.1 (namesItself_of_script hcube) hself hrule
  refine ⟨walked, hvisits, hclean, hoffers, classify_writingTo "/out" _, ⟨content, hmade⟩,
    fun other hother hstands => ?_⟩
  have hloader := contentAt_loader hclean rfl
  have hplace : ["out"] ++ [Loader.fileName] = ["out", "cube.js"] := rfl
  rw [location_outputAt, hplace, hstands] at hloader
  exact ne_loader_of_made hcube hother (Except.ok.inj hloader)

end WebBundler.Project
