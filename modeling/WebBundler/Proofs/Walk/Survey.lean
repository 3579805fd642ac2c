import Mathlib.Data.List.Induction
import WebBundler.Proofs.Walk.Trace
set_option autoImplicit false

/-!
# Walks that see what was there at the start

A walk whose visits change nothing of what it sees in its directories (`SeesSame`) visits every
file once, in whatever order visits settle and whatever they come to (`Completes.surveyed`).
`Walking` says more of walks in which every outcome is told by the file alone; here one visit
may fail because of another.  The modules that the walk brings back are the same in every run if
no visit keeps another module because of those before (`Keeps`).
-/

namespace WebBundler.Walk

variable {σ : Type} {w : Walk σ} {limit : Option Nat} {store : σ} {s next : Schedule σ}
  {kept : WalkedFile → Option Module}

/-- Whatever was visited before, the module that a visit keeps is told by its file. -/
def Keeps (w : Walk σ) (store : σ) (kept : WalkedFile → Option Module) : Prop :=
  ∀ visited file, (file :: visited).Subperm (w.files (w.tree store)) →
    (w.visit file (w.storeAfter store visited)).1.module? = kept file

/-- What holds while such a walk is under way: the files that have settled, those that wait and
those that lie ahead are all files. -/
structure Surveyed (w : Walk σ) (store : σ) (s : Schedule σ) : Prop where
  traced : w.Traced store s
  directories : ∃ entered, w.directories (w.tree store) =
    entered ++ w.ahead (w.tree store) s.state.stack
  files : ((s.settled ++ s.state.waiting).map Prod.snd ++
    (w.ahead (w.tree store) s.state.stack).flatMap (w.filesIn (w.tree store))).Perm
    (w.files (w.tree store))

theorem surveyed_start {st : State σ} (h : w.start store = .ok st) :
    w.Surveyed store (.of st) := by
  obtain ⟨hdirectories, found, hfiles, hst⟩ := start_eq_ok h
  refine ⟨traced_start h, ⟨[], hdirectories⟩, ?_⟩
  have hfound : (st.waiting).map Prod.snd = found := by
    rw [hst]
    exact map_snd_numbered 0 found
  rw [hfiles, ← hfound]
  exact List.Perm.refl _

theorem Surveyed.subperm (h : w.Surveyed store s) :
    ((s.settled ++ s.state.waiting).map Prod.snd).Subperm (w.files (w.tree store)) :=
  (List.sublist_append_left _ _).subperm.trans h.files.subperm

/-- A file that waits has not settled. -/
theorem Surveyed.subperm_cons (h : w.Surveyed store s) {before after : List (Nat × WalkedFile)}
    {number : Nat} {file : WalkedFile}
    (hwaiting : s.state.waiting = before ++ (number, file) :: after) :
    (file :: s.settled.map Prod.snd).Subperm (w.files (w.tree store)) := by
  refine List.Subperm.trans ?_ h.subperm
  rw [hwaiting, List.map_append, List.map_append, List.map_cons, ← List.append_assoc]
  refine List.Subperm.trans ?_ List.perm_middle.symm.subperm
  rw [List.append_assoc]
  exact ((List.sublist_append_left _ _).cons_cons file).subperm

/-- What lay ahead in the next directory is found. -/
theorem Surveyed.enumerate (h : w.Surveyed store s) (hnamed : (w.tree store).Named)
    (hsame : w.SeesSame store) {dir : HostPath} {stack : List HostPath}
    (hstack : s.state.stack = dir :: stack) {state : State σ}
    (hstate : w.enumerate s.state = .ok state) : w.Surveyed store { s with state } := by
  have htraced := h.traced.step (.enumerate dir stack state hstack hstate)
  obtain ⟨entered, hdirectories⟩ := h.directories
  have hahead : w.ahead (w.tree store) s.state.stack =
      dir :: w.ahead (w.tree store) (w.subdirsIn (w.tree store) dir ++ stack) := by
    rw [hstack, ahead_cons hnamed]
  rw [hahead] at hdirectories
  have hlisting : w.SameListing (w.tree store) (w.tree s.state.store) dir := by
    rw [h.traced.store]
    apply hsame
    · refine List.Subperm.trans ?_ h.subperm
      rw [List.map_append]
      exact (List.sublist_append_left _ _).subperm
    · rw [hdirectories]
      exact List.mem_append_right _ List.mem_cons_self
  cases enumerate_eq_ok hstack hstate
  rw [hlisting.files, hlisting.subdirs] at htraced ⊢
  refine ⟨htraced, ⟨entered ++ [dir], ?_⟩, ?_⟩
  · rw [hdirectories, List.append_assoc]
    rfl
  · have hfiles := h.files
    rw [hahead, List.flatMap_cons, ← List.append_assoc] at hfiles
    rw [← List.append_assoc, List.map_append, map_snd_numbered]
    exact hfiles

/-- A file that settles does not wait any more. -/
theorem Surveyed.settle (h : w.Surveyed store s) {before after : List (Nat × WalkedFile)}
    {number : Nat} {file : WalkedFile}
    (hwaiting : s.state.waiting = before ++ (number, file) :: after)
    (hvisiting : number ∈ s.visiting) {state : State σ}
    (hstate : w.visitFile { s.state with waiting := before ++ after } number file = .ok state) :
    w.Surveyed store ⟨state, s.visiting.erase number, s.settled ++ [(number, file)]⟩ := by
  refine ⟨h.traced.step (.settle before after number file state hwaiting hvisiting hstate), ?_,
    ?_⟩
  · rw [(waiting_visitFile hstate).2]
    exact h.directories
  · rw [(waiting_visitFile hstate).1, (waiting_visitFile hstate).2]
    refine List.Perm.trans (List.Perm.append_right _ (List.Perm.map _ ?_)) h.files
    rw [hwaiting, List.append_assoc, List.singleton_append]
    exact List.Perm.append_left _ List.perm_middle.symm

theorem Surveyed.step (h : w.Surveyed store s) (hnamed : (w.tree store).Named)
    (hsame : w.SeesSame store) (hstep : GoesOn w s next) : w.Surveyed store next := by
  cases hstep with
  | enumerate dir stack state hstack hstate => exact h.enumerate hnamed hsame hstack hstate
  | start number file hwaiting hvisiting =>
    exact ⟨h.traced.step (.start number file hwaiting hvisiting), h.directories, h.files⟩
  | settle before after number file state hwaiting hvisiting hstate =>
    exact h.settle hwaiting hvisiting hstate

/-- The modules so far are those that the visits keep. -/
theorem Surveyed.modules_step (h : w.Surveyed store s) (hkeeps : w.Keeps store kept)
    (hmodules : s.state.modules.map Prod.snd = (s.settled.map Prod.snd).filterMap kept)
    (hstep : GoesOn w s next) :
    next.state.modules.map Prod.snd = (next.settled.map Prod.snd).filterMap kept := by
  cases hstep with
  | start number file hwaiting hvisiting => exact hmodules
  | enumerate dir stack state hstack hstate =>
    cases enumerate_eq_ok hstack hstate
    exact hmodules
  | settle before after number file state hwaiting hvisiting hstate =>
    have hkept := hkeeps _ _ (h.subperm_cons hwaiting)
    rw [← h.traced.store] at hkept
    rw [visitFile_eq] at hstate
    cases record_eq_ok hstate
    dsimp only
    rw [hkept, List.map_append, List.map_append, List.filterMap_append, hmodules]
    congr 1
    cases hfile : kept file <;> simp [hfile]

/-- **A walk that sees what was there at the start visits every file once.** -/
theorem Completes.surveyed {summary : Summary σ} (hnamed : (w.tree store).Named)
    (hsame : w.SeesSame store) (h : w.Completes limit store summary) :
    ∃ visits, visits.Perm (w.files (w.tree store)) ∧ summary.store = w.storeAfter store visits ∧
      ∀ kept, w.Keeps store kept → summary.modules.Perm (visits.filterMap kept) := by
  obtain ⟨st, moves, final, hstart, hexec, hdone, rfl⟩ := h
  have hsurveyed : w.Surveyed store final :=
    exec_invariant (fun _ _ hs hstep => hs.step hnamed hsame hstep) (surveyed_start hstart)
      hexec
  refine ⟨final.settled.map Prod.snd, ?_, hsurveyed.traced.store, fun kept hkeeps => ?_⟩
  · have hfiles := hsurveyed.files
    rwa [hdone.stack, hdone.waiting, ahead_nil, List.flatMap_nil, List.append_nil,
      List.append_nil] at hfiles
  · have hmodules := exec_invariant
      (P := fun s => w.Surveyed store s ∧ s.state.modules.map Prod.snd =
        (s.settled.map Prod.snd).filterMap kept)
      (fun _ _ hs hstep => ⟨hs.1.step hnamed hsame hstep, hs.1.modules_step hkeeps hs.2 hstep⟩)
      ⟨surveyed_start hstart, ?_⟩ hexec
    · rw [← hmodules.2]
      exact (List.mergeSort_perm _ _).map Prod.snd
    · obtain ⟨-, found, -, hst⟩ := start_eq_ok hstart
      rw [hst]
      rfl

/-- What a log holds after some visits: what it held before, and behind it what each visit
adds. -/
theorem log_storeAfter {log : σ → List Module}
    (hadds : ∀ visited file, (file :: visited).Subperm (w.files (w.tree store)) →
      log (w.visit file (w.storeAfter store visited)).2 =
        log (w.storeAfter store visited) ++ (kept file).toList)
    {visits : List WalkedFile} (hvisits : visits.Subperm (w.files (w.tree store))) :
    log (w.storeAfter store visits) = log store ++ visits.filterMap kept := by
  induction visits using List.reverseRecOn with
  | nil => exact (List.append_nil _).symm
  | append_singleton visits file ih =>
    have hfirst : (file :: visits).Subperm (w.files (w.tree store)) :=
      (List.perm_append_singleton file visits).symm.subperm.trans hvisits
    rw [storeAfter_append, hadds visits file hfirst,
      ih ((List.sublist_cons_self file visits).subperm.trans hfirst), List.filterMap_append,
        Expansion.filterMap_singleton_toList, List.append_assoc]

end WebBundler.Walk
