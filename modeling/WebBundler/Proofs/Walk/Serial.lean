import WebBundler.Proofs.Walk.Progress
set_option autoImplicit false

/-!
# The walk that finds all files first

`run` enumerates all directories, and then settles the visits in the order in which the files
were found.  No visit settles while directories are enumerated, so the number of directories
that it allows for is enough, and it is one of the runs of the walk (`run_eq`).
-/

namespace WebBundler.Walk

variable {σ : Type}

section Serial

variable {w : Walk σ} {store : σ} (limit : Option Nat) {s : Schedule σ}

/-- Enumerating directories one after the other is a run, after which none is left.  No visit
settles meanwhile, so the tree stays as it is. -/
theorem exec_enumerateAll (hnamed : (w.tree s.state.store).Named) {bound : Nat}
    (hbound : (w.ahead (w.tree s.state.store) s.state.stack).length ≤ bound) :
    ∃ moves, w.exec limit s moves =
        some ((w.enumerateAll bound s.state).map fun state => { s with state }) ∧
      ∀ state, w.enumerateAll bound s.state = .ok state → state.stack = [] := by
  induction bound generalizing s with
  | zero =>
    refine ⟨[], rfl, ?_⟩
    rintro state hstate
    cases hstate
    cases hstack : s.state.stack with
    | nil => rfl
    | cons dir stack =>
      rw [hstack, ahead_cons hnamed] at hbound
      simp at hbound
  | succ bound ih =>
    unfold enumerateAll
    cases hstack : s.state.stack with
    | nil =>
      refine ⟨[], rfl, ?_⟩
      rintro state hstate
      cases hstate
      exact hstack
    | cons dir stack =>
      simp only [List.isEmpty_cons, Bool.false_eq_true, if_false, bind, Except.bind]
      have hmove : w.step? limit s .enumerate =
          some ((w.enumerate s.state).map fun state => { s with state }) := by
        simp [step?, hstack]
      cases hstate : w.enumerate s.state with
      | error e =>
        rw [hstate] at hmove
        refine ⟨[.enumerate], exec_last hmove, ?_⟩
        intro state hstate
        cases hstate
      | ok next =>
        rw [hstate] at hmove
        have hnext := enumerate_eq_ok hstack hstate
        have hstore : next.store = s.state.store := by rw [hnext]
        have hless : (w.ahead (w.tree next.store) next.stack).length ≤ bound := by
          rw [hstack, ahead_cons hnamed, List.length_cons] at hbound
          rw [hstore, hnext]
          exact Nat.le_of_succ_le_succ hbound
        obtain ⟨moves, hmoves, hend⟩ :=
          ih (s := { s with state := next }) (hstore ▸ hnamed) hless
        exact ⟨.enumerate :: moves, (exec_cons hmove).trans hmoves, hend⟩

/-- Settling visits one after the other is a run, after which none waits. -/
theorem exec_settleAll (hvisiting : s.visiting = []) {bound : Nat}
    (hbound : s.state.waiting.length = bound) :
    ∃ moves, w.exec limit s moves = some ((w.settleAll bound s.state).map fun state =>
      ⟨state, [], s.settled ++ s.state.waiting⟩) ∧
      ∀ state, w.settleAll bound s.state = .ok state →
        state.waiting = [] ∧ state.stack = s.state.stack := by
  induction bound generalizing s with
  | zero =>
    have hwaiting := List.eq_nil_of_length_eq_zero hbound
    refine ⟨[], ?_, ?_⟩
    · obtain ⟨state, visiting, settled⟩ := s
      obtain rfl : visiting = [] := hvisiting
      simp only at hwaiting
      simp [exec, settleAll, hwaiting, Except.map]
    · rintro state hstate
      cases hstate
      exact ⟨hwaiting, rfl⟩
  | succ bound ih =>
    unfold settleAll
    cases hwaiting : s.state.waiting with
    | nil =>
      rw [hwaiting] at hbound
      cases hbound
    | cons entry waiting =>
      obtain ⟨number, file⟩ := entry
      simp only [List.isEmpty_cons, Bool.false_eq_true, if_false, bind, Except.bind]
      have hstart : w.step? limit s (.start 0) =
          some (.ok { s with visiting := [number] }) := by
        simp [step?, hwaiting, hvisiting, permits_zero]
      have hsettle : w.step? limit { s with visiting := [number] } (.settle 0) =
          some ((w.settle s.state 0).map fun state =>
            ⟨state, [], s.settled ++ [(number, file)]⟩) := by
        simp [step?, hwaiting]
      cases hstate : w.settle s.state 0 with
      | error e =>
        rw [hstate] at hsettle
        refine ⟨[.start 0, .settle 0], (exec_cons hstart).trans (exec_last hsettle), ?_⟩
        intro state hstate
        cases hstate
      | ok next =>
        rw [hstate] at hsettle
        simp only [settle, hwaiting, List.getElem?_cons_zero, List.eraseIdx_cons_zero] at hstate
        obtain ⟨hrest, hstack⟩ := waiting_visitFile hstate
        have hlength : next.waiting.length = bound := by
          rw [hwaiting] at hbound
          rw [hrest]
          exact Nat.succ.inj hbound
        obtain ⟨moves, hmoves, hend⟩ :=
          ih (s := ⟨next, [], s.settled ++ [(number, file)]⟩) rfl hlength
        refine ⟨.start 0 :: .settle 0 :: moves, ?_, ?_⟩
        · rw [exec_cons hstart, exec_cons hsettle, hmoves]
          simp only [hrest, List.append_assoc, List.singleton_append]
        · intro state hstate
          obtain ⟨hwaiting, hsame⟩ := hend state hstate
          exact ⟨hwaiting, hsame.trans hstack⟩

/-- The walk that finds all files first is a run to the end. -/
theorem run_eq (hnamed : (w.tree store).Named) {st : State σ}
    (hstart : w.start store = .ok st) :
    ∃ moves result, w.exec limit (.of st) moves = some result ∧
      w.run store = result.map (fun final => final.state.summary) ∧
      ∀ final, result = .ok final → w.Finished limit final := by
  obtain ⟨hdirectories, found, -, hst⟩ := start_eq_ok hstart
  have hstore : st.store = store := by rw [hst]
  have hbound : (w.ahead (w.tree st.store) st.stack).length ≤
      (w.tree store).directoryBound := by
    rw [hstore, ← hdirectories]
    exact length_directories_le hnamed
  obtain ⟨moves, hmoves, hstack⟩ :=
    exec_enumerateAll limit (s := .of st) (hstore ▸ hnamed) hbound
  cases hfound : w.enumerateAll (w.tree store).directoryBound st with
  | error e =>
    have hrun : w.run store = .error e := by simp [run, bind, Except.bind, hstart, hfound]
    refine ⟨moves, .error e, ?_, hrun, ?_⟩
    · exact hmoves.trans (congrArg _ (congrArg _ hfound))
    · intro final hfinal
      cases hfinal
  | ok found =>
    have hexec : w.exec limit (.of st) moves = some (.ok ⟨found, [], []⟩) :=
      hmoves.trans (congrArg _ (congrArg _ hfound))
    obtain ⟨more, hmore, hend⟩ := exec_settleAll limit (w := w) (s := ⟨found, [], []⟩) rfl rfl
    refine ⟨moves ++ more, _, (exec_append hexec).trans hmore, ?_, ?_⟩
    · simp only [run, bind, Except.bind, hstart, hfound]
      cases w.settleAll found.waiting.length found <;> rfl
    · intro final hfinal
      cases hstate : w.settleAll found.waiting.length found with
      | error e =>
        rw [hstate] at hfinal
        cases hfinal
      | ok state =>
        rw [hstate] at hfinal
        cases hfinal
        obtain ⟨hwaiting, hsame⟩ := hend state hstate
        exact Schedule.Done.finished ⟨hsame.trans (hstack found hfound), hwaiting⟩

/-- A walk that is run to its end is one of the runs. -/
theorem completes_of_run {summary : Summary σ} (hnamed : (w.tree store).Named)
    (hrun : w.run store = .ok summary) :
    w.Completes limit store summary := by
  cases hstart : w.start store with
  | error e =>
    unfold run at hrun
    rw [hstart] at hrun
    cases hrun
  | ok st =>
    obtain ⟨moves, result, hexec, hresult, hend⟩ := run_eq limit hnamed hstart
    rw [hrun] at hresult
    cases result with
    | error e => cases hresult
    | ok final =>
      cases hresult
      have hpermitted := exec_permitted (Schedule.permitted_of st) hexec
      exact ⟨st, moves, final, hstart, hexec, (hend final rfl).done hpermitted, rfl⟩

end Serial

end WebBundler.Walk
