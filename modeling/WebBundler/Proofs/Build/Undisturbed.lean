import WebBundler.Proofs.Build.Runs
set_option autoImplicit false

/-!
# Builds that do not disturb themselves

When nothing that a smart build writes changes what it reads (`Undisturbed`), each of its runs
brings back the same modules from the walk, in the order of discovery (`Undisturbed.walked_eq`),
and from the expansion what is needed of the third-party packages, in some order
(`SmartRun.expanded_eq`).
-/

namespace WebBundler

/-- The modules of a compiler bear the path of the request, and what they require from the
project is named in canonical form and listed with all that they require. -/
structure Compiler.Regular (c : Compiler) : Prop where
  path : ∀ {t request m}, c t request = .ok m → m.path = request.path
  canonical : ∀ {t request m}, c t request = .ok m →
    ∀ origin ∈ m.requiresOrigin, Expansion.Canonical origin
  required : ∀ {t request m}, c t request = .ok m →
    ∀ origin ∈ m.requiresOrigin, QueryPath.mk origin ∈ m.requires

namespace Project

/-- Nothing that the visits of a walk write changes what the walk sees in its directories, or
what the compiler makes of a file that is still to be visited. -/
structure Untouched (p : Project) (w : Walk Workspace) (ws : Workspace) : Prop where
  listings : w.SeesSame ws
  answers : ∀ visited file, (file :: visited).Subperm (w.files ws.tree) →
    p.rules.classify file.relPath = .build → ∀ path, QueryPath.ofText file.relPath = .ok path →
      p.compiler (w.storeAfter ws visited).tree (.of path) = p.compiler ws.tree (.of path)

/-- What is required from the project, directly or not, by the files that a smart build
compiles. -/
inductive Reached (p : Project) (d : Destination) (t : FileTree) : QueryPath → Prop where
  | file {file : WalkedFile} {path name : QueryPath} {m : Module} {origin : String}
      (hfile : file ∈ (p.smartWalk d).files t) (hrule : p.rules.classify file.relPath = .build)
      (hpath : QueryPath.ofText file.relPath = .ok path) (hm : p.compiler t (.of path) = .ok m)
      (horigin : origin ∈ m.requiresOrigin) (hname : QueryPath.ofText origin = .ok name) :
      Reached p d t name
  | package {parent name : QueryPath} {m : Module} {origin : String}
      (hparent : Reached p d t parent) (hm : p.compiler t (.of parent) = .ok m)
      (horigin : origin ∈ m.requiresOrigin) (hname : QueryPath.ofText origin = .ok name) :
      Reached p d t name

/-- Nothing that the visits of a smart build write changes what the build reads: of its walk, of
the files that it copies, and of all that it reaches from those that it compiles. -/
structure Undisturbed (p : Project) (d : Destination) (ws : Workspace) : Prop
    extends p.Untouched (p.smartWalk d) ws where
  copies : ∀ visited file, (file :: visited).Subperm ((p.smartWalk d).files ws.tree) →
    p.IsCopied ws.tree file →
    copyOutcome d ((p.smartWalk d).storeAfter ws visited).tree file = copyOutcome d ws.tree file
  reached : ∀ visited, visited.Subperm ((p.smartWalk d).files ws.tree) →
    ∀ name, p.Reached d ws.tree name →
      p.compileName ((p.smartWalk d).storeAfter ws visited).tree name =
        p.compileName ws.tree name

section Runs

variable {p : Project} {d : Destination} {ws : Workspace} {walked : Walk.Summary Workspace}
  {expanded : Expansion.Outcome} {visited : VisitedPaths} {t : FileTree} {path : String}
  {m : Module}

/-! ## The walk -/

theorem Undisturbed.steady (h : p.Undisturbed d ws) :
    (p.smartWalk d).Steady ws (p.collectOutcome d ws.tree) where
  outcomes := by
    intro visited file hvisited
    rw [visit_smartWalk]
    unfold collectOutcome
    cases hrule : p.rules.classify file.relPath with
    | ignore => rfl
    | skip => exact h.copies visited file hvisited (Or.inl hrule)
    | build =>
      cases hpath : QueryPath.ofText file.relPath with
      | error e => rfl
      | ok path =>
        simp only [h.answers visited file hvisited hrule path hpath]
        cases hcompiled : p.compiler ws.tree (.of path) with
        | ok m => rfl
        | error e =>
          cases e with
          | failed name reason => rfl
          | unknownType name =>
            exact h.copies visited file hvisited (Or.inr ⟨hrule, path, name, hpath, hcompiled⟩)
  listings := h.listings

/-- A walk whose files are not copied leaves the tree as it is. -/
theorem tree_storeAfter_of_no_copies (h : ∀ file ∈ (p.smartWalk d).files t, ¬p.IsCopied t file)
    {visits : List WalkedFile} (hvisits : visits ⊆ (p.smartWalk d).files t)
    (hws : ws.tree = t) :
    ((p.smartWalk d).storeAfter ws visits).tree = t := by
  induction visits generalizing ws with
  | nil => exact hws
  | cons file visits ih =>
    apply ih fun other hother => hvisits (List.mem_cons_of_mem _ hother)
    obtain hkept | ⟨hcopied, -⟩ := tree_visit_smartWalk p d file ws
    · exact hkept.trans hws
    · exact absurd (hws ▸ hcopied) (h file (hvisits List.mem_cons_self))

/-- A build that copies nothing while it walks does not disturb itself. -/
theorem undisturbed_of_no_copies
    (h : ∀ file ∈ (p.smartWalk d).files ws.tree, ¬p.IsCopied ws.tree file) :
    p.Undisturbed d ws := by
  have htree : ∀ visits : List WalkedFile, visits ⊆ (p.smartWalk d).files ws.tree →
      ((p.smartWalk d).storeAfter ws visits).tree = ws.tree :=
    fun visits hvisits => tree_storeAfter_of_no_copies h hvisits rfl
  constructor
  · constructor
    · intro visits hvisits dir hdir
      show Walk.SameListing _ _ ((p.smartWalk d).storeAfter ws visits).tree dir
      rw [htree visits hvisits.subset]
      exact ⟨rfl, rfl, rfl, rfl⟩
    · intro visits file hvisits _ path _
      rw [htree visits fun other hother => hvisits.subset (List.mem_cons_of_mem file hother)]
  · intro visits file hvisits hcopied
    exact absurd hcopied (h file (hvisits.subset List.mem_cons_self))
  · intro visits hvisits name _
    rw [htree visits hvisits.subset]

/-- The modules that the walk of a smart build keeps. -/
def walkedModules (p : Project) (d : Destination) (t : FileTree) : List Module :=
  ((p.smartWalk d).files t).filterMap fun file => (p.collectOutcome d t file).module?

/-- What the walk of a smart build cannot deal with. -/
def walkedErrors (p : Project) (d : Destination) (t : FileTree) : List BuildError :=
  ((p.smartWalk d).files t).filterMap (fun file => (p.collectOutcome d t file).failure?) ++
    (p.smartWalk d).failures t

/-- Every run of the walk brings back the same. -/
theorem Undisturbed.walked_eq (hundisturbed : p.Undisturbed d ws) (hnamed : ws.tree.Named)
    {limit : Option Nat} (h : (p.smartWalk d).Completes limit ws walked) :
    walked.modules = p.walkedModules d ws.tree ∧
      walked.errors.Perm (p.walkedErrors d ws.tree) ∧
      ∃ visits, visits.Subperm ((p.smartWalk d).files ws.tree) ∧
        walked.store = (p.smartWalk d).storeAfter ws visits := by
  obtain ⟨st, moves, final, hstart, hexec, hdone, rfl⟩ := h
  have hexact :=
    (Walk.exec_walking hundisturbed.steady hnamed (Walk.walking_start hstart) hexec).exact hdone
  exact ⟨hexact.modules, hexact.errors, _, hexact.once.subperm, hexact.visited⟩

/-- A module that the walk keeps is what the compiler makes of the path of a file. -/
theorem exists_file_of_walked (hregular : p.compiler.Regular) (hm : m ∈ p.walkedModules d t) :
    ∃ file ∈ (p.smartWalk d).files t, p.rules.classify file.relPath = .build ∧
      QueryPath.ofText file.relPath = .ok m.path ∧ p.compiler t (.of m.path) = .ok m := by
  obtain ⟨file, hfile, houtcome⟩ := List.mem_filterMap.1 hm
  obtain ⟨path, hrule, hpath, hcompiled⟩ :=
    collectOutcome_eq_processed (VisitOutcome.eq_processed_of_module? houtcome)
  have hname : m.path = path := hregular.path hcompiled
  subst hname
  exact ⟨file, hfile, hrule, hpath, hcompiled⟩

theorem compiled_of_walked (hregular : p.compiler.Regular) (hm : m ∈ p.walkedModules d t) :
    p.compiler t (.of m.path) = .ok m := by
  obtain ⟨-, -, -, -, hcompiled⟩ := exists_file_of_walked hregular hm
  exact hcompiled

/-! ## The expansion -/

/-- A tree of which the build makes the same of what it reaches. -/
def SameAnswers (p : Project) (d : Destination) (t later : FileTree) : Prop :=
  ∀ name, p.Reached d t name → p.compileName later name = p.compileName t name

theorem SameAnswers.task_eq {later : FileTree} (h : p.SameAnswers d t later)
    (hpath : Expansion.Canonical path) (hreached : p.Reached d t ⟨path⟩) :
    p.task later path = p.task t path := by
  rw [Project.task_eq hpath.2, Project.task_eq hpath.2, h ⟨path⟩ hreached]

/-- A path that requires something was compiled. -/
theorem compiled_of_requires (hpath : Expansion.Canonical path) (hm : p.task t path = .ok m)
    {origin : String} (horigin : origin ∈ m.requiresOrigin) :
    p.compiler t (.of ⟨path⟩) = .ok m := by
  rw [Project.task_eq hpath.2] at hm
  refine (compileName_eq_ok hm).resolve_right fun hpassed => ?_
  rw [Expansion.passThrough_requiresOrigin hpassed] at horigin
  cases horigin

/-- What the expansion needs is reached, wherever the build makes the same of what it
reaches. -/
theorem reached_of_needed {later : FileTree} (hregular : p.compiler.Regular)
    (hsame : p.SameAnswers d t later)
    (h : Expansion.Needed (p.task later) (p.seeds (p.walkedModules d t)) visited path) :
    Expansion.Canonical path ∧ p.Reached d t ⟨path⟩ := by
  induction h with
  | @seed seed hseed hfresh =>
    obtain ⟨w, hw, hseed⟩ := List.mem_flatMap.1 hseed
    obtain ⟨file, hfile, hrule, hpath, hcompiled⟩ := exists_file_of_walked hregular hw
    have horigin := (List.mem_filter.1 hseed).1
    have hcanonical := hregular.canonical hcompiled seed horigin
    rw [hcanonical.1]
    exact ⟨hcanonical, .file hfile hrule hpath hcompiled horigin hcanonical.2⟩
  | @origin parent origin hparent hrequires hfresh ih =>
    obtain ⟨m, hm, horigin⟩ := hrequires
    rw [hsame.task_eq ih.1 ih.2] at hm
    have hcompiled := compiled_of_requires ih.1 hm horigin
    have hcanonical := hregular.canonical hcompiled origin horigin
    exact ⟨hcanonical, .package ih.2 hcompiled horigin hcanonical.2⟩

/-- The expansion needs the same wherever the build makes the same of what it reaches. -/
theorem needed_iff {later : FileTree} (hregular : p.compiler.Regular)
    (hsame : p.SameAnswers d t later) :
    Expansion.Needed (p.task later) (p.seeds (p.walkedModules d t)) visited path ↔
      Expansion.Needed (p.task t) (p.seeds (p.walkedModules d t)) visited path := by
  constructor
  · intro h
    induction h with
    | seed hseed hfresh => exact .seed hseed hfresh
    | origin hparent hrequires hfresh ih =>
      obtain ⟨hcanonical, hreached⟩ := reached_of_needed hregular hsame hparent
      obtain ⟨m, hm, horigin⟩ := hrequires
      rw [hsame.task_eq hcanonical hreached] at hm
      exact .origin ih ⟨m, hm, horigin⟩ hfresh
  · intro h
    have hself : p.SameAnswers d t t := fun name _ => rfl
    induction h with
    | seed hseed hfresh => exact .seed hseed hfresh
    | origin hparent hrequires hfresh ih =>
      obtain ⟨hcanonical, hreached⟩ := reached_of_needed hregular hself hparent
      obtain ⟨m, hm, horigin⟩ := hrequires
      rw [← hsame.task_eq hcanonical hreached] at hm
      exact .origin ih ⟨m, hm, horigin⟩ hfresh

theorem path_of_task (hregular : p.compiler.Regular) (hpath : Expansion.Canonical path)
    (hm : p.task t path = .ok m) : m.path = ⟨path⟩ := by
  rw [Project.task_eq hpath.2] at hm
  rcases compileName_eq_ok hm with hcompiled | hpassed
  · exact hregular.path hcompiled
  · exact path_passThrough hpassed

/-- The expansion of a smart build brings back what is needed at the start. -/
abbrev Expanded (p : Project) (d : Destination) (t : FileTree) (expanded : Expansion.Outcome) :
    Prop :=
  Expansion.Completed (p.task t) (p.seeds (p.walkedModules d t))
    (Project.visited (p.walkedModules d t)) expanded

/-- Every run of the expansion brings back what is needed at the start. -/
theorem SmartRun.expanded_eq (h : p.SmartRun d ws walked expanded) (hnamed : ws.tree.Named)
    (hundisturbed : p.Undisturbed d ws) (hregular : p.compiler.Regular) :
    p.Expanded d ws.tree expanded := by
  obtain ⟨hmodules, -, visits, hvisits, hstore⟩ := hundisturbed.walked_eq hnamed h.walk
  have hsame : p.SameAnswers d ws.tree walked.store.tree := by
    intro name hname
    rw [hstore]
    exact hundisturbed.reached visits hvisits name hname
  have hnormal : Expansion.NormalOrigins (p.task walked.store.tree) := by
    intro path origin hrequires
    obtain ⟨name, m, hm, horigin⟩ := Expansion.exists_of_requiresOrigin hrequires
    exact (hregular.canonical hm origin horigin).1
  have hcompleted :=
    h.expansion.completed hnormal fun seed _ => QueryPath.normalize_normalize seed
  rw [hmodules] at hcompleted
  have htask : ∀ path ∈ expanded.settled, p.task walked.store.tree path =
      p.task ws.tree path := by
    intro path hpath
    obtain ⟨hcanonical, hreached⟩ :=
      reached_of_needed hregular hsame ((hcompleted.mem_settled path).1 hpath)
    exact hsame.task_eq hcanonical hreached
  refine ⟨hcompleted.nodup, ?_, ?_, ?_⟩
  · intro path
    rw [hcompleted.mem_settled, needed_iff hregular hsame]
  · rw [hcompleted.modules]
    apply List.filterMap_congr
    intro path hpath
    unfold Expansion.compiled?
    rw [htask path hpath]
  · rw [hcompleted.errors]
    apply List.filterMap_congr
    intro path hpath
    unfold Expansion.failure?
    rw [htask path hpath]

end Runs

end Project

end WebBundler
