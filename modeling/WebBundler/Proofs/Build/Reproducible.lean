import WebBundler.Proofs.Build.Apart
import WebBundler.Proofs.Graph.OfList
import WebBundler.Proofs.Merge.Order
set_option autoImplicit false

/-!
# A smart build is reproducible

All modules that a smart build gets from third-party packages are required by something and
reached from the application.  So the order in which they come is lost when the modules are
divided into bundles, and as every run brings back the same modules, every run makes the same
bundles (`smart_build_reproducible`).
-/

namespace WebBundler

namespace Project

section Runs

variable {p : Project} {d : Destination} {walked : Walk.Summary Workspace}
  {expanded : Expansion.Outcome} {t : FileTree} {path : String} {m : Module}

/-! ## All modules together -/

theorem walked_mem_ofList (hregular : p.compiler.Regular) (hm : m ∈ p.walkedModules d t) :
    m ∈ (ModuleSet.ofList (p.walkedModules d t)).modules := by
  apply ModuleSet.mem_ofList hm
  intro other hother hpath
  have hcompiled := compiled_of_walked hregular hm
  rw [← hpath, compiled_of_walked hregular hother] at hcompiled
  exact Except.ok.inj hcompiled

theorem canonical_of_settled (h : p.Expanded d t expanded) (hregular : p.compiler.Regular)
    (hpath : path ∈ expanded.settled) : Expansion.Canonical path :=
  (reached_of_needed hregular (fun _ _ => rfl) ((h.mem_settled path).1 hpath)).1

theorem nodup_expanded_paths (h : p.Expanded d t expanded) (hregular : p.compiler.Regular) :
    (expanded.modules.map Module.path).Nodup := by
  rw [h.modules, List.map_filterMap]
  have hpath : ∀ path ∈ expanded.settled,
      (Expansion.compiled? (p.task t) path).map Module.path =
        if (Expansion.compiled? (p.task t) path).isSome then some (QueryPath.mk path)
        else none := by
    intro path hpath
    unfold Expansion.compiled?
    cases hm : p.task t path with
    | error e => rfl
    | ok m =>
      have hname := path_of_task hregular (canonical_of_settled h hregular hpath) hm
      simp [Except.toOption, hname]
  rw [List.filterMap_congr hpath]
  unfold List.Nodup
  rw [List.pairwise_filterMap]
  refine h.nodup.imp ?_
  intro a b hne a' ha b' hb hsame
  split at ha
  · split at hb
    · cases ha
      cases hb
      cases hsame
      exact hne rfl
    · cases hb
  · cases ha

/-- The modules of a smart build: those of the walk, and behind them those that were expanded
and whose paths were not taken. -/
theorem modules_smartSet (h : p.Expanded d t expanded) (hregular : p.compiler.Regular)
    (hwalked : walked.modules = p.walkedModules d t) :
    (smartSet walked expanded).modules =
      (ModuleSet.ofList (p.walkedModules d t)).modules ++
        expanded.modules.filter fun m =>
          decide (m.path ∉ (ModuleSet.ofList (p.walkedModules d t)).paths) := by
  unfold smartSet
  rw [hwalked]
  exact ModuleSet.modules_ofList_append (nodup_expanded_paths h hregular)

/-- A path that is needed and compiles has its module in the set. -/
theorem mem_smartSet (h : p.Expanded d t expanded) (hregular : p.compiler.Regular)
    (hwalked : walked.modules = p.walkedModules d t) (hpath : path ∈ expanded.settled)
    (hcompiled : p.compiler t (.of ⟨path⟩) = .ok m) :
    m ∈ (smartSet walked expanded).modules := by
  have hcanonical := canonical_of_settled h hregular hpath
  have htask : p.task t path = .ok m := by
    rw [task_eq hcanonical.2]
    exact compileName_of_compiler hcompiled
  rw [modules_smartSet h hregular hwalked, List.mem_append]
  by_cases htaken : m.path ∈ (ModuleSet.ofList (p.walkedModules d t)).paths
  · left
    obtain ⟨w, hw, hsame⟩ := List.mem_map.1 htaken
    have hwCompiled := compiled_of_walked hregular (ModuleSet.mem_of_mem_ofList hw)
    rw [hsame, hregular.path hcompiled] at hwCompiled
    have hequal : w = m := Except.ok.inj (hwCompiled.symm.trans hcompiled)
    exact hequal ▸ hw
  · right
    rw [List.mem_filter]
    exact ⟨h.mem_modules.2 ⟨path, hpath, htask⟩, by simpa using htaken⟩

theorem exists_walked_requiring (hregular : p.compiler.Regular) {seed : String}
    (hseed : seed ∈ p.seeds (p.walkedModules d t)) :
    ∃ w ∈ (ModuleSet.ofList (p.walkedModules d t)).modules,
      QueryPath.mk (QueryPath.normalize seed) ∈ w.requires := by
  obtain ⟨w, hw, hseed⟩ := List.mem_flatMap.1 hseed
  have hcompiled := compiled_of_walked hregular hw
  have horigin := (List.mem_filter.1 hseed).1
  rw [(hregular.canonical hcompiled seed horigin).1]
  exact ⟨w, walked_mem_ofList hregular hw, hregular.required hcompiled seed horigin⟩

/-- What a needed path requires from the project is required by a module of the set. -/
theorem exists_expanded_requiring (h : p.Expanded d t expanded)
    (hregular : p.compiler.Regular) (hwalked : walked.modules = p.walkedModules d t)
    {parent origin : String} (hparent : parent ∈ expanded.settled)
    (hrequires : Expansion.RequiresOrigin (p.task t) parent origin) :
    ∃ u ∈ (smartSet walked expanded).modules, u.path = ⟨parent⟩ ∧
      QueryPath.mk origin ∈ u.requires := by
  obtain ⟨m, hm, horigin⟩ := hrequires
  have hcanonical := canonical_of_settled h hregular hparent
  have hcompiled := compiled_of_requires hcanonical hm horigin
  exact ⟨m, mem_smartSet h hregular hwalked hparent hcompiled, hregular.path hcompiled,
    hregular.required hcompiled origin horigin⟩

theorem walked_subset_smartSet (h : p.Expanded d t expanded) (hregular : p.compiler.Regular)
    (hwalked : walked.modules = p.walkedModules d t) :
    (ModuleSet.ofList (p.walkedModules d t)).modules ⊆ (smartSet walked expanded).modules := by
  rw [modules_smartSet h hregular hwalked]
  exact List.subset_append_left _ _

/-- Whatever was expanded is required by a module of the set. -/
theorem requiredBy_ne_nil (h : p.Expanded d t expanded) (hregular : p.compiler.Regular)
    (hwalked : walked.modules = p.walkedModules d t) (hpath : path ∈ expanded.settled)
    (hmem : QueryPath.mk path ∈ (smartSet walked expanded).paths) :
    (smartSet walked expanded).requiredBy ⟨path⟩ ≠ [] := by
  have hrequirer : ∃ u ∈ (smartSet walked expanded).modules,
      QueryPath.mk path ∈ u.requires := by
    cases (h.mem_settled path).1 hpath with
    | seed hseed hfresh =>
      obtain ⟨w, hw, hrequires⟩ := exists_walked_requiring hregular hseed
      exact ⟨w, walked_subset_smartSet h hregular hwalked hw, hrequires⟩
    | origin hparent hrequires hfresh =>
      obtain ⟨u, hu, -, hrequired⟩ := exists_expanded_requiring h hregular hwalked
        ((h.mem_settled _).2 hparent) hrequires
      exact ⟨u, hu, hrequired⟩
  obtain ⟨u, hu, hrequires⟩ := hrequirer
  have hlocal :=
    (QueryPath.withoutScheme_of_normalized (canonical_of_settled h hregular hpath).1).1
  apply List.ne_nil_of_mem (a := u.path)
  rw [ModuleSet.requiredBy_eq hmem]
  refine List.mem_map.2 ⟨u, List.mem_filter.2 ⟨hu, ?_⟩, rfl⟩
  rw [List.any_eq_true]
  exact ⟨⟨path⟩, hrequires, by simp [hlocal]⟩

/-- Whatever was expanded is reached from a module of the walk, by induction on why it is
needed. -/
theorem exists_walked_reaching (h : p.Expanded d t expanded) (hregular : p.compiler.Regular)
    (hwalked : walked.modules = p.walkedModules d t) (hpath : path ∈ expanded.settled)
    (hmem : QueryPath.mk path ∈ (smartSet walked expanded).paths) :
    ∃ w ∈ (ModuleSet.ofList (p.walkedModules d t)).modules,
      (smartSet walked expanded).Reaches w.path ⟨path⟩ := by
  have hneeded := (h.mem_settled path).1 hpath
  clear hpath
  induction hneeded with
  | seed hseed hfresh =>
    obtain ⟨w, hw, hrequires⟩ := exists_walked_requiring hregular hseed
    exact ⟨w, hw, .single
      (ModuleSet.requires_of_mem (walked_subset_smartSet h hregular hwalked hw) hrequires hmem)⟩
  | origin hparent hrequires hfresh ih =>
    obtain ⟨u, hu, hname, hrequired⟩ := exists_expanded_requiring h hregular hwalked
      ((h.mem_settled _).2 hparent) hrequires
    obtain ⟨w, hw, hreach⟩ := ih (List.mem_map.2 ⟨u, hu, hname⟩)
    rw [← hname] at hreach
    exact ⟨w, hw, hreach.tail (ModuleSet.requires_of_mem hu hrequired hmem)⟩

/-- A smart build divides the same modules into the same bundles in each of its runs. -/
theorem merge_smartSet_eq {walked' : Walk.Summary Workspace} {expanded' : Expansion.Outcome}
    (hregular : p.compiler.Regular)
    (h : p.Expanded d t expanded) (h' : p.Expanded d t expanded')
    (hwalked : walked.modules = p.walkedModules d t)
    (hwalked' : walked'.modules = p.walkedModules d t) :
    p.merge (smartSet walked expanded) = p.merge (smartSet walked' expanded') := by
  have hadded : ∀ m ∈ expanded.modules.filter fun m =>
    m.path ∉ (ModuleSet.ofList (p.walkedModules d t)).paths,
      ∃ path ∈ expanded.settled, m.path = ⟨path⟩ ∧
      QueryPath.mk path ∈ (smartSet walked expanded).paths := by
    intro m hm
    obtain ⟨path, hpath, htask⟩ := h.mem_modules.1 (List.mem_filter.1 hm).1
    have hname : m.path = ⟨path⟩ :=
      path_of_task hregular (canonical_of_settled h hregular hpath) htask
    refine ⟨path, hpath, hname, List.mem_map.2 ⟨m, ?_, hname⟩⟩
    rw [modules_smartSet h hregular hwalked]
    exact List.mem_append_right _ hm
  apply ModuleSet.merge_eq_of_perm (modules_smartSet h hregular hwalked)
    (modules_smartSet h' hregular hwalked') ((h.perm h').1.filter _)
  · intro m hm
    obtain ⟨path, hpath, hname, hmem⟩ := hadded m hm
    rw [hname]
    exact requiredBy_ne_nil h hregular hwalked hpath hmem
  · intro m hm
    obtain ⟨path, hpath, hname, hmem⟩ := hadded m hm
    rw [hname]
    exact exists_walked_reaching h hregular hwalked hpath hmem

end Runs

/-- **A smart build is reproducible.**  Behind modules that reach them, modules that something
requires can come in any order: a merge makes the same bundles of them.  So when the compiler is
regular and nothing that the build writes changes what it reads, any two of its runs divide
their modules into the same bundles and bring back the same errors, in whatever order visits,
seeds and tasks were started and settled. -/
theorem smart_build_reproducible {p : Project} {d : Destination} {ws : Workspace}
    (hnamed : ws.tree.Named) (hregular : p.compiler.Regular)
    (hundisturbed : p.Undisturbed d ws) :
    (∀ walked expanded walked' expanded',
      p.SmartRun d ws walked expanded → p.SmartRun d ws walked' expanded' →
        p.merge (smartSet walked expanded) = p.merge (smartSet walked' expanded') ∧
          (walked.errors ++ expanded.errors).Perm (walked'.errors ++ expanded'.errors)) ∧
      ∀ (A B : ModuleSet) (walked others others' : List Module) (extra : List QueryPath),
        A.modules = walked ++ others → B.modules = walked ++ others' → others.Perm others' →
          (∀ m ∈ others, A.requiredBy m.path ≠ []) →
            (∀ m ∈ others, ∃ w ∈ walked, A.Reaches w.path m.path) →
            A.merge extra = B.merge extra := by
  refine ⟨?_, ?_⟩
  · intro walked expanded walked' expanded' h h'
    obtain ⟨hmodules, herrors, -⟩ := hundisturbed.walked_eq hnamed h.walk
    obtain ⟨hmodules', herrors', -⟩ := hundisturbed.walked_eq hnamed h'.walk
    have hsettled := h.expanded_eq hnamed hundisturbed hregular
    have hsettled' := h'.expanded_eq hnamed hundisturbed hregular
    exact ⟨merge_smartSet_eq hregular hsettled hsettled' hmodules hmodules',
      (herrors.trans herrors'.symm).append (hsettled.perm hsettled').2⟩
  · intro A B walked others others' extra hA hB hperm hrequired hreached
    exact ModuleSet.merge_eq_of_perm hA hB hperm hrequired hreached extra

/-! ## A diamond

Two files require packages that require a third, and a file of unknown type is copied
meanwhile. -/

/-- What the paths of the diamond require. -/
def diamondTable : List (String × List String) :=
  [("/a.js", ["/node_modules/x.js"]), ("/b.js", ["/node_modules/y.js"]),
    ("/node_modules/x.js", ["/node_modules/z.js"]),
      ("/node_modules/y.js", ["/node_modules/z.js"]),
    ("/node_modules/z.js", [])]

/-- A compiler that knows the paths of the diamond. -/
def diamondCompiler : Compiler := fun _ request =>
  match diamondTable.lookup request.path.text with
  | some origins =>
    .ok { Module.empty request.path .script with
      requires := origins.map QueryPath.mk
      requiresOrigin := origins }
  | none => .error (.unknownType request.realPath)

def diamondTree : FileTree where
  entries := [
    (["p", "a.js"], .file ByteArray.empty),
    (["p", "b.js"], .file ByteArray.empty),
    (["p", "logo"], .file ByteArray.empty)]
  faults := []

/-- The tree once the file of unknown type is copied. -/
def diamondCopied : FileTree where
  entries := diamondTree.entries ++ [(["out", "logo"], .file ByteArray.empty)]
  faults := []

def diamond : Project where
  config := { Config.default with root := ⟨"/p"⟩, dest := some ⟨"/out"⟩, concurrency := 2 }
  source := ⟨"/p"⟩
  compiler := diamondCompiler
  rules := ⟨⟨⟨"/p"⟩, []⟩, ⟨⟨"/p"⟩, []⟩⟩

def diamondDestination : Destination := ⟨⟨"/out"⟩, none, "/cube.common.js"⟩

abbrev diamondWalk : Walk Workspace := diamond.smartWalk diamondDestination

theorem diamondCompiler_eq_ok (t : FileTree) {request : CompileRequest} {m : Module}
    (h : diamondCompiler t request = .ok m) :
    m.path = request.path ∧ (request.path.text, m.requiresOrigin) ∈ diamondTable ∧
      m.requires = m.requiresOrigin.map QueryPath.mk := by
  unfold diamondCompiler at h
  split at h
  · next origins horigins =>
    cases h
    obtain ⟨before, after, htable, -⟩ := List.lookup_eq_some_iff.1 horigins
    rw [htable]
    exact ⟨rfl, List.mem_append_right _ List.mem_cons_self, rfl⟩
  · cases h

theorem regular_diamond : diamond.compiler.Regular where
  path := by
    intro t request m h
    exact (diamondCompiler_eq_ok t h).1
  canonical := by
    intro t request m h
    have hrows : ∀ row ∈ diamondTable, ∀ origin ∈ row.2, Expansion.Canonical origin := by
      decide
    exact hrows _ (diamondCompiler_eq_ok t h).2.1
  required := by
    intro t request m h origin horigin
    rw [(diamondCompiler_eq_ok t h).2.2]
    exact List.mem_map_of_mem horigin

theorem readDir_diamond : diamondTree.readDir ⟨"/p"⟩ = .ok ["a.js", "b.js", "logo"] := by
  unfold diamondTree
  generalize ByteArray.empty = content
  cbv

theorem named_diamond : diamondTree.Named := by decide

theorem source_diamond : diamondTree.metadata diamondWalk.source = .ok .dir := by decide

theorem subdirsIn_diamond : diamondWalk.subdirsIn diamondTree ⟨"/p"⟩ = [] := by
  unfold Walk.subdirsIn FileTree.namesIn
  rw [readDir_diamond]
  decide

theorem files_diamond :
    diamondWalk.files diamondTree =
      [⟨⟨"/p/a.js"⟩, "/a.js"⟩, ⟨⟨"/p/b.js"⟩, "/b.js"⟩, ⟨⟨"/p/logo"⟩, "/logo"⟩] := by
  rw [Walk.files_of_flat named_diamond source_diamond subdirsIn_diamond]
  show diamondWalk.filesIn diamondTree ⟨"/p"⟩ = _
  unfold Walk.filesIn FileTree.namesIn
  rw [readDir_diamond]
  decide

theorem ofText_diamond {file : WalkedFile} (hfile : file ∈ diamondWalk.files diamondTree) :
    QueryPath.ofText file.relPath = .ok ⟨file.relPath⟩ := by
  have hfiles : ∀ file ∈ diamondWalk.files diamondTree,
      QueryPath.ofText file.relPath = .ok ⟨file.relPath⟩ := by
    rw [files_diamond]
    decide
  exact hfiles file hfile

theorem eq_logo_of_copied {t : FileTree} {file : WalkedFile}
    (hfile : file ∈ diamondWalk.files diamondTree) (hcopied : diamond.IsCopied t file) :
    file = ⟨⟨"/p/logo"⟩, "/logo"⟩ := by
  have hrule : diamond.rules.classify file.relPath = .build := ProjectRules.classify_of_no_rules
  rcases hcopied with hskip | ⟨-, path, name, hname, hunknown⟩
  · rw [hrule] at hskip
    cases hskip
  · rw [ofText_diamond hfile] at hname
    cases hname
    rw [files_diamond] at hfile
    simp only [List.mem_cons, List.not_mem_nil, or_false] at hfile
    rcases hfile with rfl | rfl | rfl
    · cases hunknown
    · cases hunknown
    · rfl

theorem copy_diamond {t : FileTree} (ht : t = diamondTree ∨ t = diamondCopied) :
    diamondDestination.copy t ⟨"/p/logo"⟩ "/logo" = .ok diamondCopied := by
  rcases ht with rfl | rfl
  · rfl
  · rfl

theorem tree_storeAfter_diamond {visited : List WalkedFile}
    (hvisited : visited ⊆ diamondWalk.files diamondTree) {ws : Workspace}
    (hws : ws.tree = diamondTree ∨ ws.tree = diamondCopied) :
    (diamondWalk.storeAfter ws visited).tree = diamondTree ∨
      (diamondWalk.storeAfter ws visited).tree = diamondCopied := by
  induction visited generalizing ws with
  | nil => exact hws
  | cons file visited ih =>
    apply ih (fun f hf => hvisited (List.mem_cons_of_mem _ hf))
    obtain hkept | ⟨hcopied, hcopy⟩ := tree_visit_smartWalk diamond diamondDestination file ws
    · rwa [hkept]
    · right
      cases eq_logo_of_copied (hvisited List.mem_cons_self) hcopied
      exact (Except.ok.inj ((copy_diamond hws).symm.trans hcopy)).symm

/-- The output of the diamond lies apart from it, and its names are plain. -/
theorem undisturbed_diamond : diamond.Undisturbed diamondDestination (.of diamondTree) := by
  have hplain : diamondTree.NoBackslashOrEndBlank diamond.config.root :=
    FileTree.noBackslashOrEndBlank_of_entries _ (by decide)
  have hinside : diamond.WalksInside :=
    ⟨[], fun name hname => absurd hname List.not_mem_nil, rfl⟩
  have hapart : FileTree.Apart diamondDestination.dir.location
      diamond.config.root.location := by
    decide
  exact undisturbed_of_apart named_diamond hplain hinside hapart regular_diamond
    fun _ _ _ _ => rfl

/-- The modules that the walk of the diamond keeps. -/
def diamondModules : List Module := [
  { Module.empty ⟨"/a.js"⟩ .script with
    requires := [⟨"/node_modules/x.js"⟩], requiresOrigin := ["/node_modules/x.js"] },
  { Module.empty ⟨"/b.js"⟩ .script with
    requires := [⟨"/node_modules/y.js"⟩], requiresOrigin := ["/node_modules/y.js"] }]

theorem outcomes_diamond :
    (diamondWalk.files diamondTree).map
      (diamond.collectOutcome diamondDestination diamondTree) =
      diamondModules.map .processed ++ [.copied] := by
  have hrule : ∀ path, diamond.rules.classify path = .build := fun path =>
    ProjectRules.classify_of_no_rules
  have hofText : ∀ path ∈ ["/a.js", "/b.js", "/logo"], QueryPath.ofText path = .ok ⟨path⟩ := by
    decide
  rw [files_diamond]
  simp only [List.map_cons, List.map_nil, collectOutcome, hrule]
  rw [hofText _ (by simp), hofText _ (by simp), hofText _ (by simp)]
  rfl

theorem walkedModules_diamond :
    diamond.walkedModules diamondDestination diamondTree = diamondModules := by
  unfold walkedModules
  have hmap : ∀ files : List WalkedFile,
      (files.filterMap fun file =>
        (diamond.collectOutcome diamondDestination diamondTree file).module?) =
        (files.map (diamond.collectOutcome diamondDestination diamondTree)).filterMap
          VisitOutcome.module? := fun files => by
    rw [List.filterMap_map]
    rfl
  rw [hmap, outcomes_diamond]
  rfl

theorem exists_completes_diamond :
    ∃ walked, diamondWalk.Completes diamond.config.walkConcurrency (.of diamondTree)
      walked := by
  refine Walk.exists_completes _ undisturbed_diamond.steady named_diamond ?_ ?_
  · refine ⟨.dir, source_diamond, fun _ => ?_⟩
    exact congrArg Except.isOk readDir_diamond
  · intro file hfile
    have houtcome : diamond.collectOutcome diamondDestination diamondTree file ∈
        diamondModules.map .processed ++ [.copied] := by
      rw [← outcomes_diamond]
      exact List.mem_map_of_mem hfile
    have hfatal : ∀ outcome ∈ diamondModules.map VisitOutcome.processed ++ [.copied],
        outcome.isFatal file.relPath diamondWalk.dependencyDir = false := by
      intro outcome houtcome
      rw [List.mem_append, List.mem_map, List.mem_singleton] at houtcome
      rcases houtcome with ⟨m, -, rfl⟩ | rfl <;> rfl
    exact hfatal _ houtcome

/-- Moves by which the first of the two files comes to the package that both reach. -/
def earlyMoves : List Expansion.Move :=
  [.claim, .start 0, .settle 0 0, .look 0, .settle 0 0, .claim, .start 1, .settle 1 0, .look 1]

/-- Moves by which the second of the two files comes to it. -/
def lateMoves : List Expansion.Move :=
  [.claim, .claim, .start 0, .start 1, .settle 1 0, .look 1, .settle 1 0, .settle 0 0, .look 0]

instance (st : Expansion.State) : Decidable st.Done :=
  decidable_of_iff
    (st.seeds = [] ∧ (∀ c ∈ st.closures, c.pending = []) ∧ ∀ c ∈ st.closures, c.origins = [])
    ⟨fun h => ⟨h.1, h.2.1, h.2.2⟩, fun h => ⟨h.seeds, h.pending, h.origins⟩⟩

theorem completes_diamond {t : FileTree} (ht : t = diamondTree ∨ t = diamondCopied)
    {moves : List Expansion.Move} (hmoves : moves = earlyMoves ∨ moves = lateMoves) :
    ∃ expanded, Expansion.Completes (diamond.task t) 2 (diamond.seeds diamondModules)
        (visited diamondModules) expanded ∧
      expanded.modules.map (fun m => m.path.text) =
        if moves = earlyMoves then ["/node_modules/x.js", "/node_modules/z.js",
          "/node_modules/y.js"]
        else ["/node_modules/x.js", "/node_modules/y.js", "/node_modules/z.js"] := by
  have hexec : (Expansion.exec (diamond.task t) 2
      (.initial (diamond.seeds diamondModules) (visited diamondModules)) moves).map
        (fun st => (decide st.Done, st.outcome.modules.map fun m => m.path.text)) =
      some (true, if moves = earlyMoves then
        ["/node_modules/x.js", "/node_modules/z.js", "/node_modules/y.js"]
        else ["/node_modules/x.js", "/node_modules/y.js", "/node_modules/z.js"]) := by
    rcases ht with rfl | rfl
    all_goals
      rcases hmoves with rfl | rfl
      · decide
      · decide
  obtain ⟨st, hst, hresult⟩ := Option.map_eq_some_iff.1 hexec
  obtain ⟨hdone, hmodules⟩ := Prod.mk.inj hresult
  exact ⟨st.outcome, ⟨moves, st, hst, of_decide_eq_true hdone, rfl⟩, hmodules⟩

/-- In two runs of the diamond, the package that both files reach comes before and after
another.  The bundles are the same. -/
theorem smart_build_reproducible_diamond :
    ∃ walked early late,
      diamond.SmartRun diamondDestination (.of diamondTree) walked early ∧
      diamond.SmartRun diamondDestination (.of diamondTree) walked late ∧
      early.modules.map (fun m => m.path.text) =
        ["/node_modules/x.js", "/node_modules/z.js", "/node_modules/y.js"] ∧
      late.modules.map (fun m => m.path.text) =
        ["/node_modules/x.js", "/node_modules/y.js", "/node_modules/z.js"] ∧
      diamond.merge (smartSet walked early) = diamond.merge (smartSet walked late) := by
  obtain ⟨walked, hwalked⟩ := exists_completes_diamond
  obtain ⟨hmodules, -, visits, hvisits, hstore⟩ :=
    undisturbed_diamond.walked_eq named_diamond hwalked
  have hmodules : walked.modules = diamondModules := hmodules.trans walkedModules_diamond
  have htree : walked.store.tree = diamondTree ∨ walked.store.tree = diamondCopied := by
    rw [hstore]
    exact tree_storeAfter_diamond hvisits.subset (Or.inl rfl)
  obtain ⟨early, hearly, horder⟩ := completes_diamond htree (Or.inl rfl)
  obtain ⟨late, hlate, horder'⟩ := completes_diamond htree (Or.inr rfl)
  rw [← hmodules] at hearly hlate
  have hruns := (smart_build_reproducible named_diamond regular_diamond undisturbed_diamond).1
  exact ⟨walked, early, late, ⟨hwalked, hearly⟩, ⟨hwalked, hlate⟩, horder, horder',
    (hruns walked early walked late ⟨hwalked, hearly⟩ ⟨hwalked, hlate⟩).1⟩

end Project

end WebBundler
