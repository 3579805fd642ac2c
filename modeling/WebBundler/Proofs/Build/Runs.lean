import WebBundler.Build.Full
import WebBundler.Build.Smart
import WebBundler.Proofs.Expansion.Serial
import WebBundler.Proofs.Path.Canonical
import WebBundler.Proofs.Walk.Exactness
set_option autoImplicit false

/-!
# The runs of the builds

A full build walks, and `concludeFull` is what it makes of what the walk brought back.  A smart
build walks, expands what the modules of the walk reach, and deals with all modules together.
The visits of the walk settle in any order, and so do the tasks of the expansion: `SmartRun`
relates a build to whatever one of its runs brings back from both, and `concludeSmart` is what
the build makes of that.
-/

namespace WebBundler

/-- Steps that come to a result have each come to theirs. -/
theorem bind_eq_ok {ε α β : Type} {x : Except ε α} {f : α → Except ε β} {b : β}
    (h : (x >>= f) = .ok b) :
    ∃ a, x = .ok a ∧ f a = .ok b := by
  cases x with
  | error e => cases h
  | ok a => exact ⟨a, rfl, h⟩

theorem IgnoreRules.takes_of_no_rules {root : HostPath} {path : String} :
    (⟨root, []⟩ : IgnoreRules).takes path = false := by
  unfold takes verdict?
  simp [List.findSome?_eq_none_iff.2]

theorem ProjectRules.classify_of_no_rules {root root' : HostPath} {path : String} :
    (⟨⟨root, []⟩, ⟨root', []⟩⟩ : ProjectRules).classify path = .build := by
  unfold classify
  simp [IgnoreRules.takes_of_no_rules]

namespace Project

/-- The walk of a full build. -/
def fullWalk (p : Project) (d : Destination) : Walk Workspace :=
  p.walk p.entersAll (p.visitor d .emit)

/-- What a full build makes of what its walk brought back. -/
def concludeFull (d : Destination) (walked : Walk.Summary Workspace) :
    BuildReport × Workspace :=
  let (failure, ws) := writeLoader d walked.store
  (⟨walked.errors ++ failure.toList, walked.total⟩, ws)

theorem buildAll_eq (p : Project) (ws : Workspace) :
    p.buildAll ws = (do
      let d ← Destination.of p.config
      let walked ← (p.fullWalk d).run ws
      return concludeFull d walked) :=
  rfl

/-- What a full build brings back, it makes of a walk that ran to its end. -/
theorem completes_of_buildAll {p : Project} {ws : Workspace}
    {result : BuildReport × Workspace} (hnamed : ws.tree.Named)
    (h : p.buildAll ws = .ok result) :
    ∃ d walked, Destination.of p.config = .ok d ∧
      (p.fullWalk d).Completes p.config.walkConcurrency ws walked ∧
      concludeFull d walked = result := by
  rw [buildAll_eq] at h
  obtain ⟨d, hd, hwalk⟩ := bind_eq_ok h
  obtain ⟨walked, hwalked, hresult⟩ := bind_eq_ok hwalk
  exact ⟨d, walked, hd, Walk.completes_of_run _ hnamed hwalked, Except.ok.inj hresult⟩

/-- The walk of a smart build. -/
def smartWalk (p : Project) (d : Destination) : Walk Workspace :=
  p.walk p.entersApplication (p.visitor d .collect)

/-- What a smart build does with a path that it reaches. -/
def task (p : Project) (t : FileTree) : Expansion.Task :=
  Expansion.compileTask p.compiler p.config.root t

/-- What a smart build makes of a name: the module that the compiler makes of it, or the file as
it is. -/
def compileName (p : Project) (t : FileTree) (name : QueryPath) : Except BuildError Module :=
  match p.compiler t (.of name) with
  | .ok m => .ok m
  | .error (.unknownType _) => Expansion.passThrough p.config.root t name
  | .error e => .error e.toBuildError

theorem task_eq {p : Project} {t : FileTree} {path : String} {name : QueryPath}
    (h : QueryPath.ofText path = .ok name) : p.task t path = p.compileName t name := by
  unfold task Expansion.compileTask
  rw [h]
  rfl

theorem compileName_of_compiler {p : Project} {t : FileTree} {name : QueryPath} {m : Module}
    (h : p.compiler t (.of name) = .ok m) : p.compileName t name = .ok m := by
  unfold compileName
  rw [h]

theorem compileName_eq_ok {p : Project} {t : FileTree} {name : QueryPath} {m : Module}
    (h : p.compileName t name = .ok m) :
    p.compiler t (.of name) = .ok m ∨ Expansion.passThrough p.config.root t name = .ok m := by
  unfold compileName at h
  split at h
  · next hcompiled =>
    cases h
    exact Or.inl hcompiled
  · exact Or.inr h
  · cases h

theorem path_passThrough {root : HostPath} {t : FileTree} {name : QueryPath} {m : Module}
    (h : Expansion.passThrough root t name = .ok m) : m.path = name := by
  unfold Expansion.passThrough at h
  dsimp only at h
  split at h
  · cases h
  · split at h
    · cases h
    · cases h
      rfl

theorem file?_passThrough {root : HostPath} {t : FileTree} {name : QueryPath} {e : BuildError}
    (h : Expansion.passThrough root t name = .error e) : e.file? = some name.withoutScheme := by
  unfold Expansion.passThrough at h
  dsimp only at h
  split at h
  · cases h
    rfl
  · split at h
    · cases h
      rfl
    · cases h

/-- What a run of a smart build brings back from the walk and from the expansion. -/
structure SmartRun (p : Project) (d : Destination) (ws : Workspace)
    (walked : Walk.Summary Workspace) (expanded : Expansion.Outcome) : Prop where
  walk : (p.smartWalk d).Completes p.config.walkConcurrency ws walked
  expansion : Expansion.Completes (p.task walked.store.tree) (max p.config.concurrency 1)
    (p.seeds walked.modules) (visited walked.modules) expanded

/-- All modules of a smart build. -/
def smartSet (walked : Walk.Summary Workspace) (expanded : Expansion.Outcome) : ModuleSet :=
  ModuleSet.ofList (walked.modules ++ expanded.modules)

/-- What a smart build makes of what it brought back. -/
def concludeSmart (p : Project) (d : Destination) (walked : Walk.Summary Workspace)
    (expanded : Expansion.Outcome) : BuildReport × Workspace :=
  let set := smartSet walked expanded
  let ws := { walked.store with compiled := walked.store.compiled ++ expanded.requests }
  let (failures, ws) := p.emitMerged d set (p.merge set) ws
  let (failure, ws) := writeLoader d ws
  (⟨walked.errors ++ expanded.errors ++ failures ++ failure.toList, set.size⟩, ws)

theorem buildSmart_eq (p : Project) (ws : Workspace) :
    p.buildSmart ws = (do
      let d ← Destination.of p.config
      let walked ← (p.smartWalk d).run ws
      return p.concludeSmart d walked (p.expand walked.store.tree walked.modules)) :=
  rfl

/-! ## Visits -/

/-- The outcome of copying a file. -/
def copyOutcome (d : Destination) (t : FileTree) (file : WalkedFile) : VisitOutcome :=
  match d.copy t file.path file.relPath with
  | .ok _ => .copied
  | .error e => .failed e

/-- The outcome of a visit that keeps the module of a file. -/
def collectOutcome (p : Project) (d : Destination) (t : FileTree) (file : WalkedFile) :
    VisitOutcome :=
  match p.rules.classify file.relPath with
  | .ignore => .ignored
  | .skip => copyOutcome d t file
  | .build =>
    match QueryPath.ofText file.relPath with
    | .error e => .failed (.transformFailure file.relPath e.message)
    | .ok path =>
      match p.compiler t (.of path) with
      | .ok m => .processed m
      | .error (.unknownType _) => copyOutcome d t file
      | .error e => .failed e.toBuildError

/-- A module is kept of a file that is to be compiled, and is what the compiler makes of the
path. -/
theorem collectOutcome_eq_processed {p : Project} {d : Destination} {t : FileTree}
    {file : WalkedFile} {m : Module} (h : p.collectOutcome d t file = .processed m) :
    ∃ path, p.rules.classify file.relPath = .build ∧ QueryPath.ofText file.relPath = .ok path ∧
      p.compiler t (.of path) = .ok m := by
  have hcopy : copyOutcome d t file ≠ .processed m := by
    unfold copyOutcome
    split
    · exact fun h => nomatch h
    · exact fun h => nomatch h
  unfold collectOutcome at h
  split at h
  · cases h
  · exact absurd h hcopy
  · next hrule =>
    split at h
    · cases h
    · next path hpath =>
      split at h
      · next other hcompiled =>
        cases h
        exact ⟨path, hrule, hpath, hcompiled⟩
      · exact absurd h hcopy
      · cases h

/-- A visit copies a file as it is. -/
def IsCopied (p : Project) (t : FileTree) (file : WalkedFile) : Prop :=
  p.rules.classify file.relPath = .skip ∨
    p.rules.classify file.relPath = .build ∧
      ∃ path name, QueryPath.ofText file.relPath = .ok path ∧
      p.compiler t (.of path) = .error (.unknownType name)

theorem copy_fst (d : Destination) (file : WalkedFile) (ws : Workspace) :
    (copy d file ws).1 = copyOutcome d ws.tree file := by
  unfold copy copyOutcome
  cases d.copy ws.tree file.path file.relPath <;> rfl

/-- What a visit comes to is told by the file and the tree. -/
theorem visit_smartWalk (p : Project) (d : Destination) (file : WalkedFile) (ws : Workspace) :
    ((p.smartWalk d).visit file ws).1 = p.collectOutcome d ws.tree file := by
  show (p.visitor d .collect file ws).1 = _
  unfold visitor collectOutcome
  cases p.rules.classify file.relPath with
  | ignore => rfl
  | skip => exact copy_fst d file ws
  | build =>
    cases QueryPath.ofText file.relPath with
    | error e => rfl
    | ok path =>
      simp only [compile]
      cases p.compiler ws.tree (.of path) with
      | ok m => rfl
      | error e =>
        cases e with
        | unknownType name => exact copy_fst d file _
        | failed name reason => rfl

/-- A visit leaves the tree as it is, or copies its file. -/
theorem tree_visit_smartWalk (p : Project) (d : Destination) (file : WalkedFile)
    (ws : Workspace) :
    ((p.smartWalk d).visit file ws).2.tree = ws.tree ∨
      p.IsCopied ws.tree file ∧
        d.copy ws.tree file.path file.relPath = .ok ((p.smartWalk d).visit file ws).2.tree := by
  have hcopy : ∀ ws' : Workspace, ws'.tree = ws.tree → (copy d file ws').2.tree = ws.tree ∨
      d.copy ws.tree file.path file.relPath = .ok (copy d file ws').2.tree := by
    intro ws' htree
    unfold copy
    rw [htree]
    cases d.copy ws.tree file.path file.relPath with
    | ok t => exact Or.inr rfl
    | error e => exact Or.inl htree
  show (p.visitor d .collect file ws).2.tree = _ ∨ _ ∧
    _ = Except.ok (p.visitor d .collect file ws).2.tree
  unfold visitor
  cases hrule : p.rules.classify file.relPath with
  | ignore => exact Or.inl rfl
  | skip => exact (hcopy ws rfl).imp_right fun h => ⟨Or.inl hrule, h⟩
  | build =>
    cases hpath : QueryPath.ofText file.relPath with
    | error e => exact Or.inl rfl
    | ok path =>
      simp only [compile]
      cases hcompiled : p.compiler ws.tree (.of path) with
      | ok m => exact Or.inl rfl
      | error e =>
        cases e with
        | failed name reason => exact Or.inl rfl
        | unknownType name =>
          exact (hcopy { ws with compiled := ws.compiled ++ [.of path] } rfl).imp_right fun h =>
            ⟨Or.inr ⟨hrule, path, name, hpath, hcompiled⟩, h⟩

end Project

end WebBundler
