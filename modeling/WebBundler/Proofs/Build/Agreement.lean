import WebBundler.Proofs.Build.Apart
import WebBundler.Proofs.Build.Reached
import WebBundler.Proofs.Build.Retention
import WebBundler.Proofs.Graph.OfList
import WebBundler.Proofs.Merge.Loading
import WebBundler.Proofs.Walk.Survey
set_option autoImplicit false

/-!
# Both builds agree on the application

A full build writes a module out when it visits the file.  A smart build keeps the modules of
its walk, adds what the expansion brings, divides all of them into bundles and writes those of
the bundles out.  With modules written out by themselves, each build writes one module for the
name of a file of the application, and both the same (`builds_agree`): no two files have one
name, the modules of the walk come first in the set, so none of them is taken for a duplicate,
and a merge places every module of the set once.
-/

namespace WebBundler.Project

open QueryPath (pathOf within)

variable {p : Project} {d : Destination} {t : FileTree} {ws : Workspace} {r : Resolver}
  {file : WalkedFile} {m : Module} {walked : Walk.Summary Workspace} {visits : List WalkedFile}

/-- The module that the compiler makes of a file, if the rules hand the file to the compiler. -/
def moduleOf? (p : Project) (t : FileTree) (file : WalkedFile) : Option Module :=
  match p.rules.classify file.relPath with
  | .build =>
    match QueryPath.ofText file.relPath with
    | .ok path => (p.compiler t (.of path)).toOption
    | .error _ => none
  | _ => none

theorem moduleOf?_eq_some :
    p.moduleOf? t file = some m ↔ p.rules.classify file.relPath = .build ∧
    ∃ path, QueryPath.ofText file.relPath = .ok path ∧ p.compiler t (.of path) = .ok m := by
  unfold moduleOf?
  cases p.rules.classify file.relPath with
  | ignore => simp
  | skip => simp
  | build =>
    cases QueryPath.ofText file.relPath with
    | error e => simp
    | ok path => cases hmodule : p.compiler t (.of path) <;> simp [Except.toOption, hmodule]

theorem Untouched.moduleOf?_eq {w : Walk Workspace} (h : p.Untouched w (.of t))
    (hvisits : (file :: visits).Subperm (w.files t)) :
    p.moduleOf? (w.storeAfter (.of t) visits).tree file = p.moduleOf? t file := by
  unfold moduleOf?
  cases hrule : p.rules.classify file.relPath with
  | ignore => rfl
  | skip => rfl
  | build =>
    cases hpath : QueryPath.ofText file.relPath with
    | error e => rfl
    | ok path => exact congrArg Except.toOption (h.answers visits file hvisits hrule path hpath)

/-! ## What visits write out and keep -/

/-- The module that a visit writes out by itself. -/
def VisitMode.written : VisitMode → Option Module → Option Module
  | .emit, m? => m?
  | .collect, _ => none

theorem append_written_none (mode : VisitMode) (ms : List Module) :
    ms ++ (mode.written none).toList = ms := by
  cases mode <;> exact List.append_nil ms

theorem emitted_copy (d : Destination) (file : WalkedFile) (ws : Workspace) :
    (copy d file ws).2.emitted = ws.emitted := by
  unfold copy
  cases d.copy ws.tree file.path file.relPath <;> rfl

/-- A module counts as written out whether or not there is room for it. -/
theorem emitted_finish (d : Destination) (mode : VisitMode) (file : WalkedFile) (ws : Workspace)
    (result : Except CompileError Module) :
    (finish d mode file ws result).2.emitted =
      ws.emitted ++ (mode.written result.toOption).toList := by
  cases result with
  | ok m =>
    cases mode with
    | collect => exact (List.append_nil _).symm
    | emit =>
      unfold finish emit
      cases hfailure : (d.writeGroup ws.tree m.outputs).2 <;>
        simp [hfailure, VisitMode.written, Except.toOption]
  | error e =>
    refine Eq.trans ?_ (append_written_none mode ws.emitted).symm
    cases e with
    | unknownType name => exact emitted_copy d file ws
    | failed name reason => rfl

theorem emitted_visitor (p : Project) (d : Destination) (mode : VisitMode) (file : WalkedFile)
    (ws : Workspace) :
    (p.visitor d mode file ws).2.emitted = ws.emitted ++
      (mode.written (p.moduleOf? ws.tree file)).toList := by
  have hnone := append_written_none mode ws.emitted
  unfold visitor moduleOf?
  cases p.rules.classify file.relPath with
  | ignore => exact hnone.symm
  | skip => exact (emitted_copy d file ws).trans hnone.symm
  | build =>
    cases QueryPath.ofText file.relPath with
    | error e => exact hnone.symm
    | ok path => exact emitted_finish d mode file _ _

theorem collectOutcome_of_compiled {path : QueryPath}
    (hrule : p.rules.classify file.relPath = .build)
    (hpath : QueryPath.ofText file.relPath = .ok path)
    (hmodule : p.compiler t (.of path) = .ok m) :
    p.collectOutcome d t file = .processed m := by
  unfold collectOutcome
  simp only [hrule, hpath, hmodule]

theorem module?_visit_smartWalk (p : Project) (d : Destination) (file : WalkedFile)
    (ws : Workspace) :
    ((p.smartWalk d).visit file ws).1.module? = p.moduleOf? ws.tree file := by
  rw [visit_smartWalk]
  refine Option.ext fun m => ⟨fun hkept => ?_, fun hmodule => ?_⟩
  · obtain ⟨path, hrule, hpath, hcompiled⟩ :=
      collectOutcome_eq_processed (VisitOutcome.eq_processed_of_module? hkept)
    exact moduleOf?_eq_some.2 ⟨hrule, path, hpath, hcompiled⟩
  · obtain ⟨hrule, path, hpath, hcompiled⟩ := moduleOf?_eq_some.1 hmodule
    exact congrArg VisitOutcome.module? (collectOutcome_of_compiled hrule hpath hcompiled)

/-! ## What builds write out -/

theorem emitted_writeLoader (d : Destination) (ws : Workspace) :
    (writeLoader d ws).2.emitted = ws.emitted := by
  unfold writeLoader
  cases d.writeLoader ws.tree <;> rfl

theorem emitted_concludeSmart {expanded : Expansion.Outcome}
    (hmode : p.config.emit = .modules) :
    (p.concludeSmart d walked expanded).2.emitted = walked.store.emitted ++
      (p.merge (smartSet walked expanded)).modules.filterMap
        (smartSet walked expanded).find? := by
  show (writeLoader d (p.emitMerged d _ _ _).2).2.emitted = _
  rw [emitted_writeLoader]
  unfold emitMerged
  rw [hmode]

/-- A full build writes out the modules of the files that it finds, in the order in which visits
settle. -/
theorem perm_emitted_concludeFull {limit : Option Nat} (hnamed : t.Named)
    (huntouched : p.Untouched (p.fullWalk d) (.of t))
    (hrun : (p.fullWalk d).Completes limit (.of t) walked) :
    (concludeFull d walked).2.emitted.Perm
      (((p.fullWalk d).files t).filterMap (p.moduleOf? t)) := by
  obtain ⟨visits, honce, hstore, -⟩ := hrun.surveyed hnamed huntouched.listings
  have hlog : walked.store.emitted = [] ++ visits.filterMap (p.moduleOf? t) := by
    rw [hstore]
    refine Walk.log_storeAfter (fun visited file hvisited => ?_) honce.subperm
    rw [← huntouched.moduleOf?_eq hvisited]
    exact emitted_visitor p d .emit file _
  show (writeLoader d walked.store).2.emitted.Perm _
  rw [emitted_writeLoader, hlog, List.nil_append]
  exact honce.filterMap _

/-- The walk of a smart build keeps the modules of the files that it finds, and writes none
out. -/
theorem perm_modules_smartWalk {limit : Option Nat} (hnamed : t.Named)
    (huntouched : p.Untouched (p.smartWalk d) (.of t))
    (hrun : (p.smartWalk d).Completes limit (.of t) walked) :
    walked.modules.Perm (((p.smartWalk d).files t).filterMap (p.moduleOf? t)) ∧
      walked.store.emitted = [] := by
  obtain ⟨visits, honce, hstore, hmodules⟩ := hrun.surveyed hnamed huntouched.listings
  refine ⟨(hmodules (p.moduleOf? t) fun visited file hvisited => ?_).trans (honce.filterMap _),
    ?_⟩
  · rw [module?_visit_smartWalk, huntouched.moduleOf?_eq hvisited]
  · have hlog : walked.store.emitted = [] ++ visits.filterMap fun _ => none := by
      rw [hstore]
      exact Walk.log_storeAfter (fun visited file _ => emitted_visitor p d .collect file _)
        honce.subperm
    rw [hlog, List.filterMap_none, List.nil_append]

/-! ## One module for a name -/

/-- The modules of the files that a walk finds bear different paths. -/
theorem nodup_paths_files {enters : String → Bool} {visit : Visitor Workspace}
    (hcompiler : p.compiler = .standard r) (hnamed : t.Named)
    (hplain : t.NoBackslashOrEndBlank p.config.root) (hinside : p.WalksInside) :
    ((((p.walk enters visit).files t).filterMap (p.moduleOf? t)).map Module.path).Nodup := by
  unfold List.Nodup
  rw [List.pairwise_map, List.pairwise_filterMap]
  refine (Walk.nodup_files hnamed).imp_of_mem
    fun {file other} hfile hother hne m hm m' hm' hsame => hne ?_
  obtain ⟨-, path, hpath, hmodule⟩ := moduleOf?_eq_some.1 hm
  obtain ⟨-, path', hpath', hmodule'⟩ := moduleOf?_eq_some.1 hm'
  rw [hcompiler] at hmodule hmodule'
  rw [(Compiler.standard_eq_ok hmodule).path, (Compiler.standard_eq_ok hmodule').path] at hsame
  change path = path' at hsame
  subst hsame
  exact eq_of_ofText hnamed hplain hinside ((Walk.mem_files_iff hnamed).1 hfile)
    ((Walk.mem_files_iff hnamed).1 hother) hpath hpath'

/-- No module of the walk gives way to one that was expanded. -/
theorem mem_smartSet_of_walked {expanded : Expansion.Outcome}
    (hnodup : (walked.modules.map Module.path).Nodup) (hm : m ∈ walked.modules) :
    m ∈ (smartSet walked expanded).modules := by
  have hfirst : m ∈ (ModuleSet.ofList walked.modules).modules :=
    ModuleSet.mem_ofList hm fun other hother hsame =>
      List.inj_on_of_nodup_map hnodup hother hm hsame
  unfold smartSet ModuleSet.ofList
  rw [List.foldl_append]
  exact ModuleSet.subset_foldl_insertNew _ _ hfirst

/-- **Both builds write the same module for a file of the application.**  The project has names
without backslashes that no blank ends and is walked from its root or from below, the builds do
not change what they read, and each of them comes to its end, in whatever order visits and tasks
settle and whatever the expansion brings.  Then for every file outside of the directory of
dependencies that is handed to the standard compiler and compiles, each build writes exactly one
module out that bears the name of the file: what the compiler makes of it. -/
theorem builds_agree (hmode : p.config.emit = .modules) (hcompiler : p.compiler = .standard r)
    (hnamed : t.Named) (hplain : t.NoBackslashOrEndBlank p.config.root)
    (hinside : p.WalksInside) (hfull : p.Untouched (p.fullWalk d) (.of t))
    (hsmart : p.Untouched (p.smartWalk d) (.of t)) {walked walked' : Walk.Summary Workspace}
    (hrun : (p.fullWalk d).Completes p.config.walkConcurrency (.of t) walked)
    (hrun' : (p.smartWalk d).Completes p.config.walkConcurrency (.of t) walked')
    (expanded : Expansion.Outcome) {path : QueryPath}
    (hfile : file ∈ (p.fullWalk d).files t ∨ file ∈ (p.smartWalk d).files t)
    (houtside : within file.relPath p.config.dependencyPrefix = false)
    (hrule : p.rules.classify file.relPath = .build)
    (hpath : QueryPath.ofText file.relPath = .ok path)
    (hmodule : p.compiler t (.of path) = .ok m) :
    (concludeFull d walked).2.emitted.filter (·.path = path) = [m] ∧
      (p.concludeSmart d walked' expanded).2.emitted.filter (·.path = path) = [m] := by
  have hname : m.path = path := (Compiler.standard_eq_ok (hcompiler ▸ hmodule)).path
  have hof : p.moduleOf? t file = some m := moduleOf?_eq_some.2 ⟨hrule, path, hpath, hmodule⟩
  have hfound := mem_files_smartWalk (d := d) hnamed hplain hinside houtside
  rw [← hname]
  constructor
  · have hemitted := perm_emitted_concludeFull hnamed hfull hrun
    have hmem := List.mem_filterMap.2 ⟨file, hfile.elim id hfound.2, hof⟩
    rw [← List.perm_singleton, ← ModuleSet.filter_path_eq_singleton
      (nodup_paths_files hcompiler hnamed hplain hinside) hmem]
    exact hemitted.filter _
  · obtain ⟨hmodules, hnone⟩ := perm_modules_smartWalk hnamed hsmart hrun'
    have hmem := hmodules.mem_iff.2 (List.mem_filterMap.2 ⟨file, hfile.elim hfound.1 id, hof⟩)
    have hnodup :=
      (hmodules.map Module.path).nodup_iff.2 (nodup_paths_files hcompiler hnamed hplain hinside)
    rw [emitted_concludeSmart hmode, hnone, List.nil_append, ← List.perm_singleton,
      ← ModuleSet.filter_path_eq_singleton (smartSet walked' expanded).nodup
      (mem_smartSet_of_walked hnodup hmem)]
    exact (ModuleSet.perm_find?_merge _ _).filter _

/-! ## A script and its package -/

theorem requiring_found_by_smartWalk :
    ((writingTo "/out").smartWalk (outputAt "/out")).files requiringTree =
      [projectFile ["app.js"]] ∧
      within (projectFile ["app.js"]).relPath (writingTo "/out").config.dependencyPrefix =
        false := by
  have hnamed := requiring_found.1
  have hsource : requiringTree.metadata ⟨"/project"⟩ = .ok .dir := by decide
  have hflat : ((writingTo "/out").smartWalk (outputAt "/out")).subdirsIn requiringTree
      ⟨"/project"⟩ = [] := by
    unfold Walk.subdirsIn FileTree.namesIn
    rw [readDir_requiring]
    decide
  refine ⟨?_, by decide⟩
  rw [Walk.files_of_flat hnamed hsource hflat]
  show Walk.filesIn _ _ ⟨"/project"⟩ = _
  unfold Walk.filesIn FileTree.namesIn
  rw [readDir_requiring]
  decide

/-- The script compiles, and what it requires is expanded. -/
theorem requiring_compiled :
    ((writingTo "/out").compiler requiringTree (.of ⟨"/app.js"⟩)).toOption.map (fun m =>
      (m.requires, ((writingTo "/out").expand requiringTree [m]).modules.map Module.path)) =
        some ([⟨"/node_modules/x/index.js"⟩], [⟨"/node_modules/x/index.js"⟩]) := by
  decide +kernel

/-- The output lies apart from the script and its package. -/
theorem untouched_requiring {enters : String → Bool} {mode : VisitMode} :
    (writingTo "/out").Untouched ((writingTo "/out").walk enters
      ((writingTo "/out").visitor (outputAt "/out") mode)) (.of requiringTree) :=
  untouched_of_apart requiring_found.1
    ⟨[], fun name hname => absurd hname List.not_mem_nil, rfl⟩ (by decide)
    (Compiler.readsBelow_standard (.of ⟨"/project"⟩ Config.defaultDependencyDir))

theorem noBackslashOrEndBlank_requiring :
    requiringTree.NoBackslashOrEndBlank (writingTo "/out").config.root :=
  FileTree.noBackslashOrEndBlank_of_entries _ (by decide)

/-- The walk of the smart build keeps the script, and leaves the tree as it is. -/
theorem exists_smartWalk_requiring {m : Module}
    (hm : (writingTo "/out").compiler requiringTree (.of ⟨"/app.js"⟩) = .ok m) :
    ∃ walked, ((writingTo "/out").smartWalk (outputAt "/out")).Completes none
      (.of requiringTree) walked ∧
      walked.modules = [m] ∧ walked.store.tree = requiringTree := by
  obtain ⟨hnamed, hreadable, -, -⟩ := requiring_found
  obtain ⟨hfiles, -⟩ := requiring_found_by_smartWalk
  obtain ⟨hname, -⟩ := scripts_named ["app.js"] (by decide)
  have hrule := classify_writingTo "/out" (projectFile ["app.js"]).relPath
  have hok : ((writingTo "/out").smartWalk (outputAt "/out")).Succeed (.of requiringTree)
      [projectFile ["app.js"]] := by
    refine ⟨?_, trivial⟩
    rw [visit_smartWalk]
    exact congrArg VisitOutcome.failure? (collectOutcome_of_compiled hrule hname hm)
  have hnone : ∀ file ∈ ((writingTo "/out").smartWalk (outputAt "/out")).files requiringTree,
      ¬(writingTo "/out").IsCopied requiringTree file := by
    rw [hfiles]
    refine List.forall_mem_singleton.2 ?_
    rintro (hskip | ⟨-, path, place, hpath, hunknown⟩)
    · cases hrule.symm.trans hskip
    · cases hname.symm.trans hpath
      cases hm.symm.trans hunknown
  obtain ⟨walked, hvisits, -⟩ :=
    Walk.exists_visits_of_perm ((writingTo "/out").smartWalk (outputAt "/out"))
      (.of requiringTree) none hnamed hreadable (hfiles ▸ List.Perm.refl _) hok
  have hrun := Walk.completes_iff.2 ⟨_, hvisits⟩
  refine ⟨walked, hrun, ?_, ?_⟩
  · have hkept := (perm_modules_smartWalk hnamed untouched_requiring hrun).1
    rw [hfiles, List.filterMap_cons_some (moduleOf?_eq_some.2 ⟨hrule, _, hname, hm⟩)] at hkept
    exact List.perm_singleton.1 hkept
  · rw [hvisits.store_eq]
    exact tree_storeAfter_of_no_copies hnone (hfiles ▸ List.Subset.refl _) rfl

/-- Both builds write the module of the script out. -/
theorem builds_agree_requiring :
    ∃ walked walked' expanded m,
      ((writingTo "/out").fullWalk (outputAt "/out")).Completes none (.of requiringTree)
        walked ∧
      (writingTo "/out").SmartRun (outputAt "/out") (.of requiringTree) walked' expanded ∧
      expanded.modules.map Module.path = [⟨"/node_modules/x/index.js"⟩] ∧
      m.path = ⟨"/app.js"⟩ ∧ m.requires = [⟨"/node_modules/x/index.js"⟩] ∧
      (concludeFull (outputAt "/out") walked).2.emitted.filter (·.path = ⟨"/app.js"⟩) = [m] ∧
      ((writingTo "/out").concludeSmart (outputAt "/out") walked' expanded).2.emitted.filter
        (·.path = ⟨"/app.js"⟩) = [m] := by
  obtain ⟨m, hm, hrequired⟩ :
      ∃ m, (writingTo "/out").compiler requiringTree (.of ⟨"/app.js"⟩) = .ok m ∧
        (m.requires, ((writingTo "/out").expand requiringTree [m]).modules.map Module.path) =
          ([⟨"/node_modules/x/index.js"⟩], [⟨"/node_modules/x/index.js"⟩]) := by
    obtain ⟨m, hm, hrequired⟩ := Option.map_eq_some_iff.1 requiring_compiled
    refine ⟨m, ?_, hrequired⟩
    cases hcompiled : (writingTo "/out").compiler requiringTree (.of ⟨"/app.js"⟩) with
    | ok other =>
      rw [hcompiled] at hm
      exact congrArg Except.ok (Option.some.inj hm)
    | error e =>
      rw [hcompiled] at hm
      cases hm
  obtain ⟨hrequires, hexpanded⟩ := Prod.mk.inj hrequired
  obtain ⟨hnamed, -, hfiles, -⟩ := requiring_found
  obtain ⟨-, houtside⟩ := requiring_found_by_smartWalk
  obtain ⟨hname, -⟩ := scripts_named ["app.js"] (by decide)
  obtain ⟨walked, hvisits, -⟩ := exists_clean_requiring
  obtain ⟨walked', hrun', hmodules, htree⟩ := exists_smartWalk_requiring hm
  have hrun := Walk.completes_iff.2 ⟨_, hvisits⟩
  have hfound : projectFile ["app.js"] ∈
      ((writingTo "/out").fullWalk (outputAt "/out")).files requiringTree := by
    rw [hfiles]
    exact List.mem_cons_self
  obtain ⟨hfull, hsmart⟩ := builds_agree (m := m) rfl (compiler_writingTo "/out") hnamed
    noBackslashOrEndBlank_requiring ⟨[], fun name hmem => absurd hmem List.not_mem_nil, rfl⟩
    untouched_requiring untouched_requiring hrun hrun'
    ((writingTo "/out").expand walked'.store.tree walked'.modules) (.inl hfound) houtside
    (classify_writingTo "/out" _) hname hm
  rw [compiler_writingTo] at hm
  refine ⟨walked, walked', _, m, hrun, ⟨hrun', completes_expand (compiler_writingTo "/out") _⟩,
    ?_, (Compiler.standard_eq_ok hm).path, hrequires, hfull, hsmart⟩
  rw [htree, hmodules, hexpanded]

end WebBundler.Project
