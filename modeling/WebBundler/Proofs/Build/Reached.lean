import WebBundler.Proofs.Build.Undisturbed
import WebBundler.Proofs.Compiler.Standard
import WebBundler.Proofs.Graph.OfList
import WebBundler.Proofs.Path.Descent
import WebBundler.Proofs.Walk.Trace
set_option autoImplicit false

/-!
# No third-party module that is reached is lost

Whether a reference into the dependency directory is compiled is decided in three places: seeds
are picked from the modules of the walk, files of the walk are marked beforehand, and a closure
marks a path before it compiles it.  With the standard compiler a reference that is skipped,
because somebody had marked it, has its module or its failure from there, in every run
(`reached_compiled_or_reported`).  The tree may be any tree, and the build may change it while
it walks.
-/

namespace WebBundler

theorem VisitedPaths.mem_markAll {visited : VisitedPaths} {paths : List String}
    {path : String} :
    path ∈ (visited.markAll paths).paths ↔
      path ∈ visited.paths ∨ path ∈ paths.map QueryPath.normalize := by
  unfold markAll
  induction paths generalizing visited with
  | nil => simp
  | cons first paths ih =>
    rw [List.foldl_cons, ih, mem_mark, List.map_cons, List.mem_cons, or_assoc, or_left_comm]

theorem CompileError.file?_toBuildError (e : CompileError) :
    e.toBuildError.file? = some e.path := by
  cases e <;> rfl

theorem FileTree.exists_entry_of_isFile {t : FileTree} {path : HostPath}
    (h : (Lookup.isFile path).answer t = true) :
    ∃ entry ∈ t.entries, entry.1 = path.location := by
  rw [Lookup.isFile, Lookup.answer_look] at h
  split at h
  · next content hnode =>
    have hlook := attempt_eq_ok hnode
    unfold look at hlook
    split at hlook
    · cases hlook
    · split at hlook
      · next node hnode =>
        cases hlook
        unfold node? at hnode
        split at hnode
        · next place node hentry =>
          exact ⟨_, List.mem_of_find?_eq_some hentry, by simpa using List.find?_some hentry⟩
        · split at hnode
          · cases hnode
          · cases hnode
      · cases hlook
  · cases h

namespace Resolver

variable {r : Resolver} {t : FileTree}

/-- The name of the file at a place below the root. -/
def nameAt (r : Resolver) (place : List String) : Option QueryPath :=
  QueryPath.ofText? (QueryPath.pathOf (place.drop r.root.location.length))

theorem Finds.exists_entry {name : QueryPath} (h : r.Finds t name) :
    ∃ entry ∈ t.entries, r.nameAt entry.1 = some name := by
  obtain ⟨file, hcanonical, hthere, hname⟩ := h
  obtain ⟨names, hnames, hfile⟩ := QueryPath.exists_normalize_eq file
  rw [hcanonical] at hfile
  subst hfile
  obtain ⟨entry, hentry, hplace⟩ := FileTree.exists_entry_of_isFile hthere
  refine ⟨entry, hentry, ?_⟩
  unfold nameAt
  rw [hplace, QueryPath.location_below_pathOf _ fun name hname => (hnames name hname).isName,
    List.drop_left, hname]

end Resolver

namespace Project

variable {p : Project} {r : Resolver} {d : Destination} {ws : Workspace} {t : FileTree}

/-! ## What comes from the walk -/

/-- A module whose place is canonical and a name for it, and which names what it requires from
the project in canonical form. -/
structure Kept (m : Module) : Prop where
  canonical : QueryPath.normalize m.realPath = m.realPath
  named : QueryPath.ofText m.realPath = .ok m.path
  normal : ∀ origin ∈ m.requiresOrigin, QueryPath.normalize origin = origin

theorem kept_of_standard {path : String} {name : QueryPath} {m : Module}
    (hpath : QueryPath.normalize path = path) (hname : QueryPath.ofText path = .ok name)
    (h : Compiler.standard r t (.of name) = .ok m) : Kept m := by
  have hcanonical := QueryPath.normalize_of_ofText hpath hname
  have hplace : (CompileRequest.of name).realPath = name.text :=
    (QueryPath.withoutScheme_of_normalized hcanonical).2
  obtain ⟨hsame, hreal, htyped, hfound, -⟩ := Compiler.standard_eq_ok h
  rw [hplace] at hreal htyped
  refine ⟨?_, ?_, fun origin horigin => (hfound origin horigin).normalize_text⟩
  · rw [hreal, hcanonical]
  · rw [hreal, FileTypes.ofText_of_kind hcanonical htyped, hsame]
    rfl

theorem kept_of_walked {limit : Option Nat} {walked : Walk.Summary Workspace}
    (hcompiler : p.compiler = .standard r) (h : (p.smartWalk d).Completes limit ws walked)
    {m : Module} (hm : m ∈ walked.modules) : Kept m := by
  obtain ⟨visits, hvisits⟩ := Walk.completes_iff.1 h
  obtain ⟨before, file, after, rfl, hvisit⟩ := hvisits.processed m hm
  rw [visit_smartWalk] at hvisit
  obtain ⟨name, -, hname, hcompiled⟩ := collectOutcome_eq_processed hvisit
  rw [hcompiler] at hcompiled
  have hfile : file = (p.smartWalk d).fileAt file.path := (hvisits.met file (by simp)).eq_fileAt
  refine kept_of_standard ?_ hname hcompiled
  rw [hfile]
  exact HostPath.normalize_relativeTo _ _

/-! ## What comes from the expansion -/

/-- What the standard compiler brings back for a canonical path bears the name of the path: a
module has it for its path, and a failure for its file. -/
theorem task_standard (hcompiler : p.compiler = .standard r) {path : String}
    (hpath : QueryPath.normalize path = path) :
    ∃ name, QueryPath.ofText path = .ok name ∧
      (∀ m, p.task t path = .ok m → m.path = name) ∧
      ∀ e, p.task t path = .error e → e.file? = some name.text := by
  obtain ⟨rest, hrest⟩ := QueryPath.exists_toList_normalize path
  rw [hpath] at hrest
  obtain ⟨name, hname⟩ : ∃ name, QueryPath.ofText path = .ok name :=
    ⟨_, QueryPath.ofText_of_slash hrest⟩
  have hplace : name.withoutScheme = name.text :=
    (QueryPath.withoutScheme_of_normalized (QueryPath.normalize_of_ofText hpath hname)).2
  refine ⟨name, hname, ?_, ?_⟩
  · intro m hm
    rw [task_eq hname] at hm
    rcases compileName_eq_ok hm with hcompiled | hpassed
    · rw [hcompiler] at hcompiled
      exact (Compiler.standard_eq_ok hcompiled).path
    · exact path_passThrough hpassed
  · intro e he
    rw [task_eq hname] at he
    unfold compileName at he
    split at he
    · cases he
    · rw [file?_passThrough he, hplace]
    · next cause hunknown hfailed =>
      cases he
      rw [hcompiler] at hfailed
      rw [CompileError.file?_toBuildError, Compiler.path_of_standard_error hfailed]
      exact congrArg some hplace

theorem normalOrigins_standard (hcompiler : p.compiler = .standard r) :
    Expansion.NormalOrigins (p.task t) := by
  intro path origin hrequires
  obtain ⟨name, m, hm, horigin⟩ := Expansion.exists_of_requiresOrigin hrequires
  rw [hcompiler] at hm
  exact ((Compiler.standard_eq_ok hm).found origin horigin).normalize_text

theorem mem_visited_iff {modules : List Module} {path : String} :
    path ∈ (visited modules).paths ↔ ∃ m ∈ modules, QueryPath.normalize m.realPath = path := by
  unfold visited
  rw [VisitedPaths.mem_markAll, List.map_map, List.mem_map]
  exact or_iff_right List.not_mem_nil

theorem mem_errors_concludeSmart {walked : Walk.Summary Workspace}
    {expanded : Expansion.Outcome} {e : BuildError} (h : e ∈ walked.errors ++ expanded.errors) :
    e ∈ (p.concludeSmart d walked expanded).1.errors :=
  List.mem_append_left _ (List.mem_append_left _ h)

/-! ## What is run -/

/-- With the standard compiler, whatever is needed is a seed or a file of the tree. -/
theorem mem_of_needed_standard (hcompiler : p.compiler = .standard r) {seeds : List String}
    {visited : VisitedPaths} {path : String}
    (h : Expansion.Needed (p.task t) seeds visited path) :
    path ∈ seeds.map QueryPath.normalize ++
      t.entries.filterMap fun entry => (r.nameAt entry.1).map QueryPath.text := by
  rw [List.mem_append]
  cases h with
  | seed hseed hfresh => exact Or.inl (List.mem_map_of_mem hseed)
  | origin hparent hrequires hfresh =>
    right
    obtain ⟨name, m, hm, horigin⟩ := Expansion.exists_of_requiresOrigin hrequires
    rw [hcompiler] at hm
    obtain ⟨entry, hentry, hname⟩ :=
      ((Compiler.standard_eq_ok hm).found path horigin).exists_entry
    exact List.mem_filterMap.2 ⟨entry, hentry, by rw [hname]; rfl⟩

/-- With the standard compiler, the expansion that is run does all that there is to do. -/
theorem completes_expand (hcompiler : p.compiler = .standard r) (modules : List Module) :
    Expansion.Completes (p.task t) (max p.config.concurrency 1) (p.seeds modules)
      (visited modules) (p.expand t modules) := by
  have hlimit : 0 < max p.config.concurrency 1 :=
    Nat.lt_of_lt_of_le Nat.one_pos (Nat.le_max_right ..)
  have hall : ∀ path, Expansion.Needed (p.task t) (p.seeds modules) (visited modules) path →
      path ∈ ((p.seeds modules).map QueryPath.normalize ++
        t.entries.filterMap fun entry => (r.nameAt entry.1).map QueryPath.text).toFinset :=
    fun path hpath => List.mem_toFinset.2 (mem_of_needed_standard hcompiler hpath)
  refine Expansion.completes_run hlimit (normalOrigins_standard hcompiler)
    (fun seed _ => QueryPath.normalize_normalize seed) hall ?_
  refine (List.toFinset_card_le _).trans ?_
  rw [List.length_append, List.length_map]
  exact Nat.add_le_add_left (List.length_filterMap_le _ _) _

/-- With the standard compiler, what is built is one of the runs. -/
theorem smartRun_of_buildSmart (hcompiler : p.compiler = .standard r)
    {result : BuildReport × Workspace} (hnamed : ws.tree.Named)
    (h : p.buildSmart ws = .ok result) :
    ∃ d walked expanded, Destination.of p.config = .ok d ∧ p.SmartRun d ws walked expanded ∧
      result = p.concludeSmart d walked expanded := by
  rw [buildSmart_eq] at h
  obtain ⟨d, hd, hwalk⟩ := bind_eq_ok h
  obtain ⟨walked, hwalked, hresult⟩ := bind_eq_ok hwalk
  have hrun : p.SmartRun d ws walked (p.expand walked.store.tree walked.modules) :=
    ⟨Walk.completes_of_run _ hnamed hwalked, completes_expand hcompiler _⟩
  exact ⟨d, walked, _, hd, hrun, (Except.ok.inj hresult).symm⟩

/-! ## All modules together -/

/-- **No third-party module that is reached is lost.**  With the standard compiler, in every run
of a smart build over any tree, whatever a module of the build requires from the dependency
directory is a module of the build, or the report holds a failure for it. -/
theorem reached_compiled_or_reported {walked : Walk.Summary Workspace}
    {expanded : Expansion.Outcome} (hcompiler : p.compiler = .standard r)
    (h : p.SmartRun d ws walked expanded) :
    ∀ m ∈ (smartSet walked expanded).modules, ∀ origin ∈ m.requiresOrigin,
      QueryPath.within origin p.config.dependencyDir = true →
        ∃ name, QueryPath.ofText origin = .ok name ∧
          (name ∈ (smartSet walked expanded).paths ∨
            ∃ e ∈ (p.concludeSmart d walked expanded).1.errors, e.file? = some name.text) := by
  have hcompleted := h.expansion.completed (normalOrigins_standard hcompiler)
    fun seed _ => QueryPath.normalize_normalize seed
  intro m hm origin horigin hwithin
  have hreached : QueryPath.normalize origin = origin ∧
      (origin ∈ (visited walked.modules).paths ∨ origin ∈ expanded.settled) := by
    by_cases hmarked : origin ∈ (visited walked.modules).paths
    · obtain ⟨kept, -, hplace⟩ := mem_visited_iff.1 hmarked
      exact ⟨hplace ▸ QueryPath.normalize_normalize _, Or.inl hmarked⟩
    have hneeded : ∀ path, Expansion.Needed (p.task walked.store.tree) (p.seeds walked.modules)
        (visited walked.modules) path → path ∈ expanded.settled :=
          fun path => (hcompleted.mem_settled path).2
    rcases List.mem_append.1 (ModuleSet.mem_of_mem_ofList hm) with hwalked | hexpanded
    · -- What a module of the walk requires from there is a seed.
      have hnormal := (kept_of_walked hcompiler h.walk hwalked).normal origin horigin
      have hseed : origin ∈ p.seeds walked.modules :=
        List.mem_flatMap.2 ⟨m, hwalked, List.mem_filter.2 ⟨horigin, hwithin⟩⟩
      have hclaimed := hneeded _ (.seed hseed (hnormal.symm ▸ hmarked))
      rw [hnormal] at hclaimed
      exact ⟨hnormal, Or.inr hclaimed⟩
    · -- Whatever a module of the expansion requires was looked at.
      obtain ⟨path, hpath, htask⟩ := hcompleted.mem_modules.1 hexpanded
      have hrequires : Expansion.RequiresOrigin (p.task walked.store.tree) path origin :=
        ⟨m, htask, horigin⟩
      exact ⟨normalOrigins_standard hcompiler path origin hrequires,
        Or.inr (hneeded _ (.origin ((hcompleted.mem_settled path).1 hpath) hrequires hmarked))⟩
  obtain ⟨hnormal, hmarked | hsettled⟩ := hreached
  · obtain ⟨kept, hkept, hplace⟩ := mem_visited_iff.1 hmarked
    obtain ⟨hcanonical, hnamed, -⟩ := kept_of_walked hcompiler h.walk hkept
    rw [hcanonical] at hplace
    rw [← hplace]
    have hmem : kept ∈ walked.modules ++ expanded.modules := List.mem_append_left _ hkept
    exact ⟨kept.path, hnamed, Or.inl (ModuleSet.mem_paths_ofList.2 (List.mem_map_of_mem hmem))⟩
  · obtain ⟨name, hname, hmodule, hfailure⟩ :=
      task_standard (t := walked.store.tree) hcompiler hnormal
    refine ⟨name, hname, ?_⟩
    cases htask : p.task walked.store.tree origin with
    | ok found =>
      left
      have hmem : found ∈ walked.modules ++ expanded.modules :=
        List.mem_append_right _ (hcompleted.mem_modules.2 ⟨origin, hsettled, htask⟩)
      rw [← hmodule found htask]
      exact ModuleSet.mem_paths_ofList.2 (List.mem_map_of_mem hmem)
    | error e =>
      right
      have hmem : e ∈ expanded.errors := hcompleted.mem_errors.2 ⟨origin, hsettled, htask⟩
      exact ⟨e, mem_errors_concludeSmart (List.mem_append_right _ hmem), hfailure e htask⟩

/-! ## A broken package -/

/-- A file requires a package, and the entry of the package a file that is no text. -/
def brokenTree : FileTree where
  entries := [
    (["p", "a.js"], .file (Text.encode "require('x')")),
    (["p", "lib", "x", "y.js"], .file ⟨#[255]⟩),
    (["p", "lib", "x", "index.js"], .file (Text.encode "require('./y')"))]
  faults := []

def broken : Project where
  config :=
    { Config.default with root := ⟨"/p"⟩, dest := some ⟨"/out"⟩, dependencyDir := "lib" }
  source := ⟨"/p"⟩
  compiler := .standard ⟨⟨"/p"⟩, "lib"⟩
  rules := ⟨⟨⟨"/p"⟩, []⟩, ⟨⟨"/p"⟩, []⟩⟩

def brokenDestination : Destination := ⟨⟨"/out"⟩, none, "/cube.common.js"⟩

/-- The same project under some rules. -/
def brokenUnder (rules : ProjectRules) : Project := { broken with rules }

/-- The module of the file. -/
def brokenModule : Module :=
  Compiler.script
    (fun specifier => ((⟨⟨"/p"⟩, "lib"⟩ : Resolver).resolve specifier ⟨"/a.js"⟩).answer
      brokenTree)
    (.of ⟨"/a.js"⟩) "require('x')"

theorem named_broken : brokenTree.Named := by decide

theorem source_broken : brokenTree.metadata ⟨"/p"⟩ = .ok .dir := by decide

theorem readDir_broken : brokenTree.readDir ⟨"/p"⟩ = .ok ["a.js", "lib"] := by
  unfold brokenTree
  generalize Text.encode "require('x')" = entry, Text.encode "require('./y')" = index
  generalize (⟨#[255]⟩ : ByteArray) = broken
  cbv

theorem subdirsIn_broken :
    (broken.smartWalk brokenDestination).subdirsIn brokenTree ⟨"/p"⟩ = [] := by
  unfold Walk.subdirsIn FileTree.namesIn
  rw [readDir_broken]
  decide

theorem filesIn_broken :
    (broken.smartWalk brokenDestination).filesIn brokenTree ⟨"/p"⟩ =
      [⟨⟨"/p/a.js"⟩, "/a.js"⟩] := by
  unfold Walk.filesIn FileTree.namesIn
  rw [readDir_broken]
  decide

theorem compiler_broken : broken.compiler brokenTree (.of ⟨"/a.js"⟩) = .ok brokenModule := by
  have hkind : FileTypes.standard.kind? (CompileRequest.of ⟨"/a.js"⟩).realPath =
      some .script := by
    decide
  have hsource : Compiler.sourceOf ⟨"/p"⟩ brokenTree (.of ⟨"/a.js"⟩) = .ok "require('x')" := by
    decide
  show Compiler.standard ⟨⟨"/p"⟩, "lib"⟩ brokenTree (.of ⟨"/a.js"⟩) = _
  unfold Compiler.standard
  rw [hkind]
  dsimp only
  rw [hsource]
  rfl

theorem expand_broken :
    (broken.expand brokenTree [brokenModule]).modules.map
      (fun m => (m.path.text, m.requiresOrigin)) =
      [("/lib/x/index.js", ["/lib/x/y.js"])] := by
  decide +kernel

section Rules

variable {rules : ProjectRules}

theorem files_broken :
    ((brokenUnder rules).smartWalk brokenDestination).files brokenTree =
      [⟨⟨"/p/a.js"⟩, "/a.js"⟩] := by
  have hroot : ((brokenUnder rules).smartWalk brokenDestination).root =
      (broken.smartWalk brokenDestination).root := rfl
  have henters : ((brokenUnder rules).smartWalk brokenDestination).enters =
      (broken.smartWalk brokenDestination).enters := rfl
  have hflat := (Walk.subdirsIn_congr hroot henters brokenTree ⟨"/p"⟩).trans subdirsIn_broken
  rw [Walk.files_of_flat named_broken source_broken hflat]
  exact (Walk.filesIn_congr hroot brokenTree ⟨"/p"⟩).trans filesIn_broken

theorem collect_broken (hrule : rules.classify "/a.js" = .build) {file : WalkedFile}
    (hfile : file ∈ ((brokenUnder rules).smartWalk brokenDestination).files brokenTree) :
    ¬(brokenUnder rules).IsCopied brokenTree file ∧
      (brokenUnder rules).collectOutcome brokenDestination brokenTree file =
        .processed brokenModule := by
  rw [files_broken, List.mem_singleton] at hfile
  subst hfile
  have hrule : (brokenUnder rules).rules.classify "/a.js" = .build := hrule
  have hpath : QueryPath.ofText "/a.js" = .ok ⟨"/a.js"⟩ := by decide
  have hcompiled : (brokenUnder rules).compiler brokenTree (.of ⟨"/a.js"⟩) = .ok brokenModule :=
    compiler_broken
  constructor
  · rintro (hskip | ⟨-, path, name, hname, hunknown⟩)
    · cases hrule.symm.trans hskip
    · cases hpath.symm.trans hname
      cases hcompiled.symm.trans hunknown
  · unfold collectOutcome
    dsimp only
    rw [hrule, hpath]
    dsimp only
    rw [hcompiled]

/-- A walk under rules that let the file be compiled brings back its module and leaves the tree
as it is. -/
theorem exists_run_broken (hrule : rules.classify "/a.js" = .build) :
    ∃ walked expanded, (brokenUnder rules).SmartRun brokenDestination (.of brokenTree) walked
      expanded ∧
      walked.modules = [brokenModule] ∧ walked.store.tree = brokenTree ∧
      expanded = broken.expand brokenTree [brokenModule] := by
  have hnone : ∀ file ∈ ((brokenUnder rules).smartWalk brokenDestination).files brokenTree,
      ¬(brokenUnder rules).IsCopied brokenTree file :=
        fun file hfile => (collect_broken hrule hfile).1
  have hundisturbed : (brokenUnder rules).Undisturbed brokenDestination (.of brokenTree) :=
    undisturbed_of_no_copies hnone
  have hreadable : ((brokenUnder rules).smartWalk brokenDestination).Readable brokenTree :=
    ⟨.dir, source_broken, fun _ => congrArg Except.isOk readDir_broken⟩
  have hfatal : ∀ file ∈ ((brokenUnder rules).smartWalk brokenDestination).files brokenTree,
      ((brokenUnder rules).collectOutcome brokenDestination brokenTree file).isFatal
        file.relPath "lib" =
        false := by
    intro file hfile
    rw [(collect_broken hrule hfile).2]
    rfl
  obtain ⟨walked, hwalked⟩ :=
    Walk.exists_completes broken.config.walkConcurrency hundisturbed.steady named_broken
      hreadable hfatal
  obtain ⟨hmodules, -, visits, hvisits, hstore⟩ := hundisturbed.walked_eq named_broken hwalked
  have hmodules : walked.modules = [brokenModule] := by
    have hfile : (⟨⟨"/p/a.js"⟩, "/a.js"⟩ : WalkedFile) ∈
        ((brokenUnder rules).smartWalk brokenDestination).files brokenTree := by
      rw [files_broken]
      exact List.mem_cons_self
    rw [hmodules]
    show walkedModules (brokenUnder rules) brokenDestination brokenTree = _
    unfold walkedModules
    rw [files_broken, List.filterMap_cons_some (b := brokenModule), List.filterMap_nil]
    rw [(collect_broken hrule hfile).2]
    rfl
  have htree : walked.store.tree = brokenTree := by
    rw [hstore]
    exact tree_storeAfter_of_no_copies hnone hvisits.subset rfl
  have hexpanded :=
    completes_expand (p := brokenUnder rules) (t := walked.store.tree) rfl walked.modules
  refine ⟨walked, _, ⟨hwalked, ?_⟩, hmodules, htree, rfl⟩
  rw [htree, hmodules] at hexpanded ⊢
  exact hexpanded

end Rules

/-- The package that is reached is in the build, and what its entry requires is reported. -/
theorem reached_compiled_or_reported_broken :
    ∃ walked expanded, broken.SmartRun brokenDestination (.of brokenTree) walked expanded ∧
      ⟨"/lib/x/index.js"⟩ ∈ (smartSet walked expanded).paths ∧
      ∃ e ∈ (broken.concludeSmart brokenDestination walked expanded).1.errors,
        e.file? = some "/lib/x/y.js" := by
  have hrule : broken.rules.classify "/a.js" = .build := ProjectRules.classify_of_no_rules
  obtain ⟨walked, expanded, hrun, hmodules, -, hexpanded⟩ := exists_run_broken hrule
  have hrun : broken.SmartRun brokenDestination (.of brokenTree) walked expanded := hrun
  obtain ⟨index, hindex, hnames⟩ := List.map_eq_singleton_iff.1 expand_broken
  obtain ⟨hpath, horigins⟩ := Prod.mk.inj hnames
  have hset : smartSet walked expanded = .ofList [brokenModule, index] := by
    unfold smartSet
    rw [hmodules, hexpanded, hindex]
    rfl
  have hmem : index ∈ (ModuleSet.ofList [brokenModule, index]).modules := by
    apply ModuleSet.mem_ofList (by simp)
    intro other hother hsame
    simp only [List.mem_cons, List.not_mem_nil, or_false] at hother
    rcases hother with rfl | rfl
    · rw [← hsame] at hpath
      exact absurd hpath (by decide)
    · rfl
  refine ⟨walked, expanded, hrun, ?_, ?_⟩
  · rw [hset]
    refine ModuleSet.mem_paths_ofList.2 (List.mem_map.2 ⟨index, by simp, ?_⟩)
    exact congrArg QueryPath.mk hpath
  · have hreached := reached_compiled_or_reported rfl hrun index (hset ▸ hmem) "/lib/x/y.js"
      (horigins ▸ List.mem_cons_self) (by decide)
    obtain ⟨name, hname, hfound⟩ := hreached
    have hsame : name = ⟨"/lib/x/y.js"⟩ :=
      Except.ok.inj (hname.symm.trans (by decide))
    subst hsame
    refine hfound.resolve_left fun hfound => ?_
    rw [hset, ModuleSet.mem_paths_ofList, List.map_cons, List.map_singleton, List.mem_cons,
      List.mem_singleton] at hfound
    rcases hfound with hfound | hfound
    · exact absurd hfound (by decide)
    · rw [← hfound] at hpath
      exact absurd hpath (by decide)

end Project

end WebBundler
