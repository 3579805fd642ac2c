import Mathlib.Data.List.Permutation
import WebBundler.Proofs.Walk.Serial
set_option autoImplicit false

/-!
# A walk is exact

Whatever moves a walk makes, it comes to an end, and then it has visited each file that it was
to find once; its summary lists what became of the files in the order of discovery
(`walk_exact`).  The plainest alternation, which finds all files first, is one of these walks
(`run_eq`).
-/

namespace WebBundler.Walk

variable {σ : Type}

/-! ## What is brought back -/

/-- What a walk brings back once it has made its visits. -/
structure Exact (w : Walk σ) (store : σ) (outcome : WalkedFile → VisitOutcome)
    (visits : List WalkedFile) (summary : Summary σ) : Prop where
  once : visits.Perm (w.files (w.tree store))
  modules : summary.modules = (w.files (w.tree store)).filterMap fun file =>
    (outcome file).module?
  total : summary.total = (w.files (w.tree store)).countP fun file => (outcome file).counts
  errors : summary.errors.Perm
    ((w.files (w.tree store)).filterMap (fun file => (outcome file).failure?) ++
      w.failures (w.tree store))
  visited : summary.store = w.storeAfter store visits

/-- Sorting by distinct numbers restores the order of the numbers. -/
theorem mergeSort_by_number {α : Type} {l sorted : List (Nat × α)} (hperm : l.Perm sorted)
    (hsorted : sorted.Pairwise fun a b => a.1 < b.1) :
    (l.mergeSort fun a b => decide (a.1 ≤ b.1)) = sorted := by
  have hmerge := (List.mergeSort_perm l fun a b => decide (a.1 ≤ b.1)).trans hperm
  have hpairwise : (l.mergeSort fun a b => decide (a.1 ≤ b.1)).Pairwise
      fun a b => decide (a.1 ≤ b.1) = true := List.pairwise_mergeSort
    (fun a b c hab hbc => by simp only [decide_eq_true_eq] at *; omega)
    (fun a b => by simp only [Bool.or_eq_true, decide_eq_true_eq]; omega) l
  have hle : (l.mergeSort fun a b => decide (a.1 ≤ b.1)).Pairwise fun a b => a.1 ≤ b.1 :=
    hpairwise.imp fun h => of_decide_eq_true h
  refine List.Perm.eq_of_pairwise ?_ hle ?_ hmerge
  · intro a b ha hb hab hba
    have hnodup : (sorted.map Prod.fst).Nodup :=
      List.pairwise_map.2 (hsorted.imp fun hlt => Nat.ne_of_lt hlt)
    exact List.inj_on_of_nodup_map hnodup (hmerge.subset ha) hb (Nat.le_antisymm hab hba)
  · exact hsorted.imp fun h => Nat.le_of_lt h

/-- Modules of files that settled in any order, sorted by the numbers of the files. -/
theorem mergeSort_numberedModule? {settled : List (Nat × WalkedFile)} {files : List WalkedFile}
    (outcome : WalkedFile → VisitOutcome) (hperm : settled.Perm (numbered 0 files)) :
    (((settled.filterMap (numberedModule? outcome)).mergeSort fun a b => decide (a.1 ≤ b.1)).map
      (·.2)) = files.filterMap fun file => (outcome file).module? := by
  have hsorted : ((numbered 0 files).filterMap (numberedModule? outcome)).Pairwise
      fun a b => a.1 < b.1 := by
    rw [List.pairwise_filterMap]
    refine (numbered_increasing 0 files).imp ?_
    intro a b hlt c hc d hd
    obtain ⟨m, -, rfl⟩ := Option.map_eq_some_iff.1 hc
    obtain ⟨m', -, rfl⟩ := Option.map_eq_some_iff.1 hd
    exact hlt
  rw [mergeSort_by_number (hperm.filterMap _) hsorted, List.map_filterMap]
  conv_rhs => rw [← map_snd_numbered 0 files]
  rw [List.filterMap_map]
  congr 1
  funext entry
  cases hmodule : (outcome entry.2).module? <;> simp [numberedModule?, hmodule]

section Exactness

variable {w : Walk σ} {store : σ} {outcome : WalkedFile → VisitOutcome} {limit : Option Nat}
  {s next final : Schedule σ} {moves : List Move}

theorem Walking.exact (h : w.Walking store outcome s) (hdone : s.Done) :
    w.Exact store outcome (s.settled.map Prod.snd) s.state.summary := by
  obtain ⟨found, hfiles, -, hfound⟩ := h.files
  obtain ⟨failed, hfailures, herrors⟩ := h.failures
  rw [hdone.stack, ahead_nil, List.flatMap_nil, List.append_nil] at hfiles hfailures
  rw [hdone.waiting, List.append_nil, ← hfiles] at hfound
  have hsettled : (s.settled.map Prod.snd).Perm (w.files (w.tree store)) := by
    have hperm := hfound.map Prod.snd
    rwa [map_snd_numbered] at hperm
  refine ⟨hsettled, ?_, ?_, ?_, h.store⟩
  · rw [← mergeSort_numberedModule? outcome hfound, ← h.modules]
    rfl
  · calc s.state.summary.total
        = s.settled.countP fun entry => (outcome entry.2).counts := h.total
      _ = (s.settled.map Prod.snd).countP fun file => (outcome file).counts := by
          rw [List.countP_map]
          rfl
      _ = (w.files (w.tree store)).countP fun file => (outcome file).counts :=
        hsettled.countP_eq _
  · have hfailed := hsettled.filterMap fun file => (outcome file).failure?
    rw [List.filterMap_map] at hfailed
    rw [hfailures]
    exact herrors.trans (hfailed.append_right failed)

/-- A walk that has stopped is exact. -/
theorem exact_of_finished (hsteady : w.Steady store outcome) (hnamed : (w.tree store).Named)
    {st : State σ} (hstart : w.start store = .ok st)
    (hexec : w.exec limit (.of st) moves = some (.ok final))
    (hfinished : w.Finished limit final) :
    w.Exact store outcome (final.settled.map Prod.snd) final.state.summary := by
  have hdone := hfinished.done (exec_permitted (Schedule.permitted_of st) hexec)
  exact (exec_walking hsteady hnamed (walking_start hstart) hexec).exact hdone

/-- No run fails while the source can be read and no outcome is fatal. -/
theorem exec_ok (hsteady : w.Steady store outcome) (hnamed : (w.tree store).Named)
    (hreadable : w.Readable (w.tree store))
    (hfatal : ∀ file ∈ w.files (w.tree store),
      (outcome file).isFatal file.relPath w.dependencyDir = false)
    {st : State σ} (hstart : w.start store = .ok st) {result : Except BuildError (Schedule σ)}
    (hexec : w.exec limit (.of st) moves = some result) : ∃ final, result = .ok final := by
  cases result with
  | ok final => exact ⟨final, rfl⟩
  | error e =>
    obtain ⟨moves', move, last, hlast, hfailed⟩ := exec_error hexec
    have hwalking := exec_walking hsteady hnamed (walking_start hstart) hlast
    obtain ⟨file, hfile, -, hends⟩ :=
      hwalking.fatal_of_step hsteady hnamed hreadable (step_of_step? hfailed)
    rw [hfatal file hfile] at hends
    cases hends

theorem exists_start (hreadable : w.Readable (w.tree store)) :
    ∃ st, w.start store = .ok st := by
  obtain ⟨node, hnode, -⟩ := hreadable
  unfold start
  rw [hnode]
  cases node with
  | dir => exact ⟨_, rfl⟩
  | file content => exact ⟨_, rfl⟩
  | special => exact ⟨_, rfl⟩

/-- A walk that visits do not disturb and that nothing stops has a run. -/
theorem exists_completes (limit : Option Nat) (hsteady : w.Steady store outcome)
    (hnamed : (w.tree store).Named) (hreadable : w.Readable (w.tree store))
    (hfatal : ∀ file ∈ w.files (w.tree store),
      (outcome file).isFatal file.relPath w.dependencyDir = false) :
    ∃ summary, w.Completes limit store summary := by
  obtain ⟨st, hstart⟩ := exists_start hreadable
  obtain ⟨moves, result, hexec, hrun, -⟩ := run_eq limit hnamed hstart
  obtain ⟨final, rfl⟩ := exec_ok hsteady hnamed hreadable hfatal hstart hexec
  exact ⟨_, completes_of_run limit hnamed hrun⟩

/-- **A walk visits the files of the directories that it enters, each once, and brings back the
same in whatever order the visits settle.**  The source can be read, no outcome is fatal, and
the visits do not disturb the walk.  Then no run fails, none makes more moves than there are
directories to enumerate and visits to start and to settle, and each that has stopped is exact:
so is the one that finds all files first. -/
theorem walk_exact {w : Walk σ} {store : σ} {outcome : WalkedFile → VisitOutcome}
    (hnamed : (w.tree store).Named) (hreadable : w.Readable (w.tree store))
    (hsteady : w.Steady store outcome)
    (hfatal : ∀ file ∈ w.files (w.tree store),
      (outcome file).isFatal file.relPath w.dependencyDir = false) :
    w.Discovery (w.tree store) ∧
      (∃ st, w.start store = .ok st ∧ ∀ limit moves result,
        w.exec limit (.of st) moves = some result → ∃ final, result = .ok final ∧
          moves.length ≤
            (w.directories (w.tree store)).length + 2 * (w.files (w.tree store)).length ∧
          (w.Finished limit final →
            w.Exact store outcome (final.settled.map Prod.snd) final.state.summary)) ∧
      ∃ visits summary, w.run store = .ok summary ∧ w.Exact store outcome visits summary := by
  obtain ⟨st, hstart⟩ := exists_start hreadable
  refine ⟨w.discovery hnamed, ⟨st, hstart, ?_⟩, ?_⟩
  · intro limit moves result hexec
    obtain ⟨final, rfl⟩ := exec_ok hsteady hnamed hreadable hfatal hstart hexec
    exact ⟨final, rfl, length_moves_le hsteady hnamed hstart hexec,
      exact_of_finished hsteady hnamed hstart hexec⟩
  · obtain ⟨moves, result, hexec, hrun, hend⟩ := run_eq none hnamed hstart
    obtain ⟨final, rfl⟩ := exec_ok hsteady hnamed hreadable hfatal hstart hexec
    exact ⟨_, _, hrun, exact_of_finished hsteady hnamed hstart hexec (hend final rfl)⟩

end Exactness

/-! ## An uneven tree -/

/-- A tree with a directory that cannot be read, a file that cannot be asked about and a special
file. -/
def unevenTree : FileTree where
  entries := [
    (["p", "b.js"], .file ByteArray.empty),
    (["p", "c.md"], .file ByteArray.empty),
    (["p", "dist", "old.js"], .file ByteArray.empty),
    (["p", "lib", "a.js"], .file ByteArray.empty),
    (["p", "locked", "x.js"], .file ByteArray.empty),
    (["p", "lost.js"], .file ByteArray.empty),
    (["p", "node_modules", "bad.js"], .file ByteArray.empty),
    (["p", "pipe"], .special)]
  faults :=
    [⟨.metadata, ["p", "lost.js"], .notFound⟩, ⟨.readDir, ["p", "locked"], .failed "denied"⟩]

/-- Third-party files fail, one file is left out, and all others become modules. -/
def unevenOutcome (file : WalkedFile) : VisitOutcome :=
  if QueryPath.within file.relPath "node_modules" then
    .failed (.transformFailure file.relPath "unexpected token")
  else if file.relPath = "/c.md" then .ignored
  else .processed (Module.empty ⟨file.relPath⟩ .script)

/-- A walk that does not go into `dist`; its store lists the files that were visited. -/
def unevenWalk : Walk (List String) where
  root := ⟨"/p"⟩
  source := ⟨"/p"⟩
  dependencyDir := "node_modules"
  enters := fun relPath => relPath != "/dist"
  visit := fun file visited => (unevenOutcome file, visited ++ [file.relPath])
  tree := fun _ => unevenTree

theorem unevenTree_named : unevenTree.Named := by decide

theorem readDir_unevenTree :
    unevenTree.readDir ⟨"/p"⟩ = .ok
        ["b.js", "c.md", "dist", "lib", "locked", "lost.js", "node_modules", "pipe"] ∧
      unevenTree.readDir ⟨"/p/lib"⟩ = .ok ["a.js"] ∧
      unevenTree.readDir ⟨"/p/locked"⟩ = .error (.failed ⟨"/p/locked"⟩ "denied") ∧
      unevenTree.readDir ⟨"/p/node_modules"⟩ = .ok ["bad.js"] := by
  unfold unevenTree
  generalize ByteArray.empty = content
  refine ⟨?_, ?_, ?_, ?_⟩
  all_goals cbv

theorem directories_unevenWalk :
    unevenWalk.directories unevenTree =
      [⟨"/p"⟩, ⟨"/p/lib"⟩, ⟨"/p/locked"⟩, ⟨"/p/node_modules"⟩] := by
  obtain ⟨hp, hlib, hlocked, hpackages⟩ := readDir_unevenTree
  have htop : unevenWalk.subdirsIn unevenTree ⟨"/p"⟩ =
      [⟨"/p/lib"⟩, ⟨"/p/locked"⟩, ⟨"/p/node_modules"⟩] := by
    unfold subdirsIn FileTree.namesIn
    rw [hp]
    decide
  have hbelow : ∀ dir ∈ [(⟨"/p/lib"⟩ : HostPath), ⟨"/p/locked"⟩, ⟨"/p/node_modules"⟩],
      unevenWalk.dirsBelow unevenTree dir = [dir] := by
    intro dir hdir
    have hnone : unevenWalk.subdirsIn unevenTree dir = [] := by
      unfold subdirsIn FileTree.namesIn
      simp only [List.mem_cons, List.not_mem_nil, or_false] at hdir
      rcases hdir with rfl | rfl | rfl
      · rw [hlib]
        decide
      · rw [hlocked]
        rfl
      · rw [hpackages]
        decide
    exact dirsBelow_of_flat unevenTree_named hnone
  have hsource : unevenTree.metadata ⟨"/p"⟩ = .ok .dir := by decide
  rw [directories_of_dir hsource]
  show unevenWalk.dirsBelow unevenTree ⟨"/p"⟩ = _
  rw [dirsBelow_eq unevenTree_named, htop, List.flatMap_congr hbelow]
  rfl

theorem files_unevenWalk :
    unevenWalk.files unevenTree =
      [⟨⟨"/p/b.js"⟩, "/b.js"⟩, ⟨⟨"/p/c.md"⟩, "/c.md"⟩, ⟨⟨"/p/lib/a.js"⟩, "/lib/a.js"⟩,
        ⟨⟨"/p/node_modules/bad.js"⟩, "/node_modules/bad.js"⟩] := by
  obtain ⟨hp, hlib, hlocked, hpackages⟩ := readDir_unevenTree
  have hsource : unevenTree.metadata unevenWalk.source = .ok .dir := by decide
  unfold files
  rw [hsource, directories_unevenWalk]
  simp only [List.flatMap_cons, List.flatMap_nil, filesIn, FileTree.namesIn, hp, hlib, hlocked,
    hpackages]
  decide

theorem failures_unevenWalk :
    unevenWalk.failures unevenTree =
      [.walk ⟨"/p/lost.js"⟩ (.notFound ⟨"/p/lost.js"⟩),
        .walk ⟨"/p/locked"⟩ (.failed ⟨"/p/locked"⟩ "denied")] := by
  obtain ⟨hp, hlib, hlocked, hpackages⟩ := readDir_unevenTree
  unfold failures
  rw [directories_unevenWalk]
  simp only [List.flatMap_cons, List.flatMap_nil, FileTree.failuresIn, hp, hlib, hlocked,
    hpackages]
  decide

/-- In every run over the uneven tree the two modules come in the order of discovery, the file
that is left out does not count, and there are three failures. -/
theorem walk_exact_uneven :
    (∃ st, unevenWalk.start [] = .ok st ∧ ∀ limit moves final,
      unevenWalk.exec limit (.of st) moves = some (.ok final) →
        unevenWalk.Finished limit final →
        final.state.summary.modules =
          [Module.empty ⟨"/b.js"⟩ .script, Module.empty ⟨"/lib/a.js"⟩ .script] ∧
        final.state.summary.total = 3) ∧
      ∃ summary, unevenWalk.run [] = .ok summary ∧
        summary.store.Perm ["/b.js", "/c.md", "/lib/a.js", "/node_modules/bad.js"] ∧
        summary.errors.Perm [
          .transformFailure "/node_modules/bad.js" "unexpected token",
          .walk ⟨"/p/lost.js"⟩ (.notFound ⟨"/p/lost.js"⟩),
          .walk ⟨"/p/locked"⟩ (.failed ⟨"/p/locked"⟩ "denied")] := by
  have hnamed : (unevenWalk.tree []).Named := unevenTree_named
  have hreadable : unevenWalk.Readable unevenTree :=
    ⟨.dir, by decide, fun _ => congrArg Except.isOk readDir_unevenTree.1⟩
  have hsteady : unevenWalk.Steady [] unevenOutcome := .of_const (fun _ _ => rfl) fun _ _ => rfl
  have hfatal : ∀ file ∈ unevenWalk.files unevenTree,
      (unevenOutcome file).isFatal file.relPath unevenWalk.dependencyDir = false := by
    rw [files_unevenWalk]
    decide
  obtain ⟨-, ⟨st, hstart, hruns⟩, visits, summary, hrun, hexact⟩ :=
    walk_exact hnamed hreadable hsteady hfatal
  have hfiles : unevenWalk.files (unevenWalk.tree []) = _ := files_unevenWalk
  have hfailures : unevenWalk.failures (unevenWalk.tree []) = _ := failures_unevenWalk
  refine ⟨⟨st, hstart, ?_⟩, summary, hrun, ?_, ?_⟩
  · intro limit moves final hexec hfinished
    obtain ⟨last, hlast, -, hend⟩ := hruns limit moves _ hexec
    cases hlast
    have hexact := hend hfinished
    rw [hexact.modules, hexact.total, hfiles]
    exact ⟨by decide, by decide⟩
  · have hlog : ∀ visits log, unevenWalk.storeAfter log visits =
        log ++ visits.map WalkedFile.relPath := by
      intro visits
      induction visits with
      | nil => exact fun log => (List.append_nil log).symm
      | cons file visits ih =>
        intro log
        exact (ih (log ++ [file.relPath])).trans (List.append_assoc log [file.relPath] _)
    rw [hexact.visited, hlog, List.nil_append]
    have honce := hexact.once.map WalkedFile.relPath
    rwa [hfiles] at honce
  · have herrors := hexact.errors
    rw [hfiles, hfailures] at herrors
    exact herrors

end WebBundler.Walk
