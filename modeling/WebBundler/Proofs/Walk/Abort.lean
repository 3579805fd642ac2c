import WebBundler.Proofs.Walk.Exactness
set_option autoImplicit false

/-!
# What breaks a walk off

One outcome breaks a walk off: a file outside the dependency directory that does not compile
(`BreaksAt`).  Every other failure is noted, and what there is to find stays in sight
(`Collecting`).  So a walk ends with a failure exactly if such a file is among the files that it
finds, in whatever order visits settle (`breaks_off_iff`): no run can end otherwise before this
file has settled, and when it settles the walk ends.
-/

namespace WebBundler

theorem VisitOutcome.isFatal_eq_true_iff {outcome : VisitOutcome}
    {relPath dependencyDir : String} :
    outcome.isFatal relPath dependencyDir = true ↔
      (∃ path reason, outcome = .failed (.transformFailure path reason)) ∧
        QueryPath.within relPath dependencyDir = false := by
  unfold isFatal
  split
  · next path reason =>
    rw [Bool.not_eq_true']
    exact ⟨fun hwithin => ⟨⟨path, reason, rfl⟩, hwithin⟩, fun h => h.2⟩
  · next hother =>
    refine ⟨fun h => absurd h Bool.false_ne_true, ?_⟩
    rintro ⟨⟨path, reason, houtcome⟩, -⟩
    exact (hother path reason houtcome).elim

namespace Walk

variable {σ : Type}

/-- A walk is broken off at a file that does not compile and does not lie below the dependency
directory. -/
def BreaksAt (w : Walk σ) (outcome : WalkedFile → VisitOutcome) (file : WalkedFile) : Prop :=
  (∃ path reason, outcome file = .failed (.transformFailure path reason)) ∧
    QueryPath.within file.relPath w.dependencyDir = false

/-- What a walk ends with: the failure that broke it off, or a summary when it has stopped. -/
def EndsWith (w : Walk σ) (limit : Option Nat) (store : σ)
    (answer : Except BuildError (Summary σ)) : Prop :=
  ∃ st moves result, w.start store = .ok st ∧ w.exec limit (.of st) moves = some result ∧
    (∀ final, result = .ok final → w.Finished limit final) ∧ answer = result.map fun final =>
      final.state.summary

/-- A walk under way that has lost nothing. -/
structure Collecting (w : Walk σ) (limit : Option Nat) (store : σ)
    (outcome : WalkedFile → VisitOutcome) (s : Schedule σ) : Prop where
  /-- Every file has settled, waits, or lies in a directory that is still to be enumerated. -/
  files : ((s.settled ++ s.state.waiting).map Prod.snd ++
    (w.ahead (w.tree store) s.state.stack).flatMap (w.filesIn (w.tree store))).Perm
    (w.files (w.tree store))
  /-- The failures of the visits that have settled and of the directories that were entered are
  noted. -/
  errors : ∃ entered, w.directories (w.tree store) =
    entered ++ w.ahead (w.tree store) s.state.stack ∧
    s.state.errors.Perm (s.settled.filterMap (fun entry => (outcome entry.2).failure?) ++
      entered.flatMap (w.tree store).failuresIn)
  /-- No directory breaks the walk off. -/
  enumerates : s.state.stack ≠ [] → ∃ next, w.step? limit s .enumerate = some (.ok next)
  /-- A visit that settles breaks it off at its file, or not at all. -/
  settles : ∀ i number file, s.state.waiting[i]? = some (number, file) → number ∈ s.visiting →
    ((∃ e, w.step? limit s (.settle i) = some (.error e)) ↔ w.BreaksAt outcome file)

section Abort

variable {w : Walk σ} {store : σ} {outcome : WalkedFile → VisitOutcome} {limit : Option Nat}
  {s next final : Schedule σ} {moves : List Move}

theorem breaksAt_iff {file : WalkedFile} :
    w.BreaksAt outcome file ↔ (outcome file).isFatal file.relPath w.dependencyDir = true :=
  VisitOutcome.isFatal_eq_true_iff.symm

/-! ## Failures that are noted -/

/-- The failures of the directories that were entered are all failures but those ahead. -/
theorem Walking.errors_perm (h : w.Walking store outcome s) :
    ∃ entered, w.directories (w.tree store) = entered ++ w.ahead (w.tree store) s.state.stack ∧
      s.state.errors.Perm (s.settled.filterMap (fun entry => (outcome entry.2).failure?) ++
        entered.flatMap (w.tree store).failuresIn) := by
  obtain ⟨entered, hdirectories⟩ := h.directories
  obtain ⟨failed, hfailures, herrors⟩ := h.failures
  have hfailed : failed = entered.flatMap (w.tree store).failuresIn := by
    unfold Walk.failures at hfailures
    rw [hdirectories, List.flatMap_append] at hfailures
    exact (List.append_cancel_right hfailures).symm
  exact ⟨entered, hdirectories, hfailed ▸ herrors⟩

/-- Whatever was found has settled or waits. -/
theorem Walking.files_perm (h : w.Walking store outcome s) :
    ((s.settled ++ s.state.waiting).map Prod.snd ++
      (w.ahead (w.tree store) s.state.stack).flatMap (w.filesIn (w.tree store))).Perm
        (w.files (w.tree store)) := by
  obtain ⟨found, hfiles, -, hfound⟩ := h.files
  have hperm := hfound.map Prod.snd
  rw [map_snd_numbered] at hperm
  rw [hfiles]
  exact hperm.append_right _

theorem Walking.collecting (h : w.Walking store outcome s) (hsteady : w.Steady store outcome)
    (hnamed : (w.tree store).Named) (hreadable : w.Readable (w.tree store)) :
    w.Collecting limit store outcome s where
  files := h.files_perm
  errors := h.errors_perm
  enumerates := by
    intro hne
    obtain ⟨dir, stack, hstack⟩ := List.exists_cons_of_ne_nil hne
    obtain ⟨state, hstate⟩ := h.exists_enumerate hsteady hnamed hreadable hstack
    refine ⟨{ s with state }, ?_⟩
    simp [step?, hstack, hstate, Except.map]
  settles := by
    intro i number file hwaiting hvisiting
    obtain ⟨before, after, hsplit, hsettle⟩ := exists_settle_eq (w := w) hwaiting
    have hstep : w.step? limit s (.settle i) = some
        ((w.visitFile { s.state with waiting := before ++ after } number file).map fun state =>
          ⟨state, s.visiting.erase number, s.settled ++ [(number, file)]⟩) := by
      simp only [step?, hwaiting, if_pos hvisiting, hsettle]
    rw [breaksAt_iff]
    constructor
    · rintro ⟨e, he⟩
      rw [hstep] at he
      cases hstate : w.visitFile { s.state with waiting := before ++ after } number file with
      | ok state =>
        rw [hstate] at he
        cases he
      | error cause => exact ((h.visitFile_eq_error_iff hsteady hsplit).1 hstate).2
    · intro hfatal
      obtain ⟨⟨path, reason, houtcome⟩, -⟩ := VisitOutcome.isFatal_eq_true_iff.1 hfatal
      refine ⟨.transformFailure path reason, ?_⟩
      rw [hstep, (h.visitFile_eq_error_iff hsteady hsplit).2 ⟨houtcome, hfatal⟩]
      rfl

/-! ## Failures that end the walk -/

/-- A walk goes on only behind visits that do not break it off. -/
theorem Walking.unbroken_step (h : w.Walking store outcome s) (hsteady : w.Steady store outcome)
    (hunbroken : ∀ entry ∈ s.settled, ¬ w.BreaksAt outcome entry.2) (hstep : GoesOn w s next) :
    ∀ entry ∈ next.settled, ¬ w.BreaksAt outcome entry.2 := by
  cases hstep with
  | enumerate dir stack state hstack hstate => exact hunbroken
  | start number file hwaiting hvisiting => exact hunbroken
  | settle before after number file state hwaiting hvisiting hstate =>
    intro entry hentry hbreaks
    rcases List.mem_append.1 hentry with hold | hnew
    · exact hunbroken entry hold hbreaks
    · rw [List.mem_singleton.1 hnew] at hbreaks
      obtain ⟨path, reason, houtcome⟩ := hbreaks.1
      have hended :=
        (h.visitFile_eq_error_iff hsteady hwaiting).2 ⟨houtcome, breaksAt_iff.1 hbreaks⟩
      cases hstate.symm.trans hended

theorem exec_unbroken (hsteady : w.Steady store outcome) (hnamed : (w.tree store).Named)
    {st : State σ} (hstart : w.start store = .ok st)
    (hexec : w.exec limit (.of st) moves = some (.ok final)) :
    ∀ entry ∈ final.settled, ¬ w.BreaksAt outcome entry.2 := by
  have hfinal := exec_invariant
    (P := fun s => w.Walking store outcome s ∧
      ∀ entry ∈ s.settled, ¬ w.BreaksAt outcome entry.2)
    (fun _ _ hs hstep => ⟨hs.1.step hsteady hnamed hstep,
      hs.1.unbroken_step hsteady hs.2 hstep⟩)
    ⟨walking_start hstart, fun _ hentry => absurd hentry List.not_mem_nil⟩ hexec
  exact hfinal.2

/-- A walk that has stopped has met no file at which it breaks off. -/
theorem unbroken_of_finished (hsteady : w.Steady store outcome) (hnamed : (w.tree store).Named)
    {st : State σ} (hstart : w.start store = .ok st)
    (hexec : w.exec limit (.of st) moves = some (.ok final))
    (hfinished : w.Finished limit final) :
    ∀ file ∈ w.files (w.tree store), ¬ w.BreaksAt outcome file := by
  intro file hfile
  have honce := (exact_of_finished hsteady hnamed hstart hexec hfinished).once
  obtain ⟨entry, hentry, rfl⟩ := List.mem_map.1 (honce.symm.subset hfile)
  exact exec_unbroken hsteady hnamed hstart hexec entry hentry

/-- A walk that fails was broken off at one of its files. -/
theorem exists_breaksAt_of_error (hsteady : w.Steady store outcome)
    (hnamed : (w.tree store).Named) (hreadable : w.Readable (w.tree store)) {st : State σ}
    (hstart : w.start store = .ok st) {e : BuildError}
    (hexec : w.exec limit (.of st) moves = some (.error e)) :
    ∃ file ∈ w.files (w.tree store), w.BreaksAt outcome file ∧ outcome file = .failed e := by
  obtain ⟨before, move, last, hlast, hfailed⟩ := exec_error hexec
  have hwalking := exec_walking hsteady hnamed (walking_start hstart) hlast
  obtain ⟨file, hfile, houtcome, hfatal⟩ :=
    hwalking.fatal_of_step hsteady hnamed hreadable (step_of_step? hfailed)
  exact ⟨file, hfile, breaksAt_iff.2 hfatal, houtcome⟩

/-- **A walk breaks off exactly on primary failures.**  The source can be read, and the visits
do not disturb the walk.  While a walk is under way, whatever fails is noted and nothing is lost
of what there is to find, and no run goes on for ever.  A walk ends with a failure exactly if a
file that it finds does not compile and does not lie below the dependency directory, and the
failure is that of such a file; else every file was visited once, and all failures are reported.
This holds of any order in which visits settle, and so of the run that finds all files first. -/
theorem breaks_off_iff {w : Walk σ} {store : σ} {outcome : WalkedFile → VisitOutcome}
    (hnamed : (w.tree store).Named) (hreadable : w.Readable (w.tree store))
    (hsteady : w.Steady store outcome) :
    w.Discovery (w.tree store) ∧
      (∃ st, w.start store = .ok st ∧ ∀ limit moves s,
        w.exec limit (.of st) moves = some (.ok s) →
        w.Collecting limit store outcome s ∧
          moves.length ≤ (w.directories (w.tree store)).length + 2 *
            (w.files (w.tree store)).length) ∧
      (∀ limit answer, w.EndsWith limit store answer →
        ((∃ e, answer = .error e) ↔ ∃ file ∈ w.files (w.tree store), w.BreaksAt outcome file) ∧
        (∀ e, answer = .error e →
          ∃ file ∈ w.files (w.tree store), w.BreaksAt outcome file ∧ outcome file = .failed e) ∧
        ∀ summary, answer = .ok summary → ∃ visits, w.Exact store outcome visits summary) ∧
      ∀ limit, w.EndsWith limit store (w.run store) := by
  obtain ⟨st, hstart⟩ := exists_start hreadable
  refine ⟨w.discovery hnamed, ⟨st, hstart, fun limit moves s hexec => ?_⟩, ?_, fun limit => ?_⟩
  · have hwalking := exec_walking hsteady hnamed (walking_start hstart) hexec
    exact ⟨hwalking.collecting hsteady hnamed hreadable,
      length_moves_le hsteady hnamed hstart hexec⟩
  · rintro limit answer ⟨st, moves, result, hstart, hexec, hstopped, rfl⟩
    cases result with
    | error e =>
      have hbroken := exists_breaksAt_of_error hsteady hnamed hreadable hstart hexec
      refine ⟨⟨fun _ => ?_, fun _ => ⟨e, rfl⟩⟩, ?_, fun summary hsummary => nomatch hsummary⟩
      · obtain ⟨file, hfile, hbreaks, -⟩ := hbroken
        exact ⟨file, hfile, hbreaks⟩
      · rintro _ ⟨⟩
        exact hbroken
    | ok final =>
      have hfinished := hstopped final rfl
      refine ⟨⟨fun ⟨e, he⟩ => (nomatch he), ?_⟩, fun e he => (nomatch he), ?_⟩
      · rintro ⟨file, hfile, hbreaks⟩
        exact absurd hbreaks (unbroken_of_finished hsteady hnamed hstart hexec hfinished file
          hfile)
      · rintro _ ⟨⟩
        exact ⟨_, exact_of_finished hsteady hnamed hstart hexec hfinished⟩
  · obtain ⟨moves, result, hexec, hrun, hend⟩ := run_eq limit hnamed hstart
    exact ⟨st, moves, result, hstart, hexec, hend, hrun⟩

end Abort

/-! ## A broken library -/

/-- In the uneven tree a library of the project does not compile, and neither does a third-party
file. -/
def brokenOutcome (file : WalkedFile) : VisitOutcome :=
  if file.relPath = "/lib/a.js" then .failed (.transformFailure file.relPath "unexpected end")
  else unevenOutcome file

/-- The walk over the uneven tree with the broken library. -/
def brokenWalk : Walk (List String) :=
  { unevenWalk with visit := fun file visited => (brokenOutcome file, visited ++ [file.relPath])
    }

/-- Every walk over this tree ends with the failure of the library, whatever else has failed
before it. -/
theorem breaks_off_at_library :
    (∀ limit answer, brokenWalk.EndsWith limit [] answer →
      answer = .error (.transformFailure "/lib/a.js" "unexpected end")) ∧
      brokenWalk.run [] = .error (.transformFailure "/lib/a.js" "unexpected end") := by
  have hnamed : (brokenWalk.tree []).Named := unevenTree_named
  have hreadable : brokenWalk.Readable unevenTree :=
    ⟨.dir, by decide, fun _ => congrArg Except.isOk readDir_unevenTree.1⟩
  have hsteady : brokenWalk.Steady [] brokenOutcome := .of_const (fun _ _ => rfl) fun _ _ => rfl
  have hroot : brokenWalk.root = unevenWalk.root := rfl
  have hsource : brokenWalk.source = unevenWalk.source := rfl
  have henters : brokenWalk.enters = unevenWalk.enters := rfl
  have hfiles : brokenWalk.files (brokenWalk.tree []) = _ :=
    (files_congr hroot hsource henters unevenTree).trans files_unevenWalk
  obtain ⟨-, -, hends, hrun⟩ := breaks_off_iff hnamed hreadable hsteady
  have hlibrary : ∃ file ∈ brokenWalk.files (brokenWalk.tree []),
      brokenWalk.BreaksAt brokenOutcome file := by
    rw [hfiles]
    simp only [breaksAt_iff]
    decide
  have honly : ∀ file ∈ brokenWalk.files (brokenWalk.tree []),
      brokenWalk.BreaksAt brokenOutcome file →
      brokenOutcome file = .failed (.transformFailure "/lib/a.js" "unexpected end") := by
    rw [hfiles]
    simp only [breaksAt_iff]
    decide
  have hends : ∀ limit answer, brokenWalk.EndsWith limit [] answer →
      answer = .error (.transformFailure "/lib/a.js" "unexpected end") := by
    intro limit answer hanswer
    obtain ⟨hbroken, hcause, -⟩ := hends limit answer hanswer
    obtain ⟨e, rfl⟩ := hbroken.2 hlibrary
    obtain ⟨file, hfile, hbreaks, houtcome⟩ := hcause e rfl
    rw [honly file hfile hbreaks] at houtcome
    exact congrArg Except.error (VisitOutcome.failed.inj houtcome).symm
  exact ⟨hends, hends none _ (hrun none)⟩

end Walk

end WebBundler
