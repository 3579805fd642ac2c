import WebBundler.Proofs.Walk.Invariant
set_option autoImplicit false

/-!
# Every walk ends

Each directory takes one move and each file takes two, one to start its visit and one to settle
it.  A step uses up one of the moves that are left, so no run is longer than the number at the
start.
-/

namespace WebBundler.Walk

variable {σ : Type}

section Progress

variable {w : Walk σ} {store : σ} {outcome : WalkedFile → VisitOutcome} {limit : Option Nat}
  {s next final : Schedule σ} {moves : List Move}

theorem exec_walking (hsteady : w.Steady store outcome) (hnamed : (w.tree store).Named)
    (h : w.Walking store outcome s) (hexec : w.exec limit s moves = some (.ok final)) :
    w.Walking store outcome final :=
  exec_invariant (fun _ _ h hstep => h.step hsteady hnamed hstep) h hexec

theorem exec_permitted (h : s.Permitted) (hexec : w.exec limit s moves = some (.ok final)) :
    final.Permitted :=
  exec_invariant (fun _ _ h hstep => h.step hstep) h hexec

/-- What there is left to enumerate and to visit; a visit takes two moves. -/
def left (w : Walk σ) (t : FileTree) (st : State σ) : Nat :=
  (w.ahead t st.stack).length +
    2 * (((w.ahead t st.stack).flatMap (w.filesIn t)).length + st.waiting.length)

/-- Every step uses up a move; a visit that has started has one move left. -/
theorem Walking.left_step (h : w.Walking store outcome s) (hsteady : w.Steady store outcome)
    (hnamed : (w.tree store).Named) (hstep : GoesOn w s next) :
    w.left (w.tree store) next.state + s.visiting.length + 1 =
      w.left (w.tree store) s.state + next.visiting.length := by
  cases hstep with
  | enumerate dir stack state hstack hstate =>
    have hsame := h.sameListing hsteady hnamed hstack
    rw [enumerate_eq_ok hstack hstate, hsame.files, hsame.subdirs]
    unfold left
    rw [hstack, ahead_cons hnamed]
    simp only [List.length_cons, List.flatMap_cons, List.length_append, numbered,
      List.length_map, List.length_zipIdx]
    omega
  | start number file hwaiting hvisiting => exact Nat.add_assoc _ _ 1
  | settle before after number file state hwaiting hvisiting hstate =>
    have hpos := List.length_pos_of_mem hvisiting
    rw [visitFile_eq] at hstate
    rw [record_eq_ok hstate, List.length_erase_of_mem hvisiting]
    simp only [left, hwaiting, List.length_append, List.length_cons]
    omega

/-- A run and what it leaves to do make up what there was to do. -/
theorem Walking.length_add_left (h : w.Walking store outcome s)
    (hsteady : w.Steady store outcome) (hnamed : (w.tree store).Named)
    (hexec : w.exec limit s moves = some (.ok final)) :
    moves.length + w.left (w.tree store) final.state + s.visiting.length =
      w.left (w.tree store) s.state + final.visiting.length := by
  induction moves generalizing s with
  | nil =>
    cases hexec
    rw [List.length_nil, Nat.zero_add]
  | cons move moves ih =>
    rw [exec] at hexec
    split at hexec
    · cases hexec
    · next hnext =>
      have hstep := (step_of_step? hnext).goesOn
      have htail := ih (h.step hsteady hnamed hstep) hexec
      have hhead := h.left_step hsteady hnamed hstep
      rw [List.length_cons]
      omega
    · split at hexec
      · cases hexec
      · cases hexec

/-- At the start, all directories are to be enumerated and all files are to be visited. -/
theorem left_start {st : State σ} (h : w.start store = .ok st) :
    w.left (w.tree store) st =
      (w.directories (w.tree store)).length + 2 * (w.files (w.tree store)).length := by
  obtain ⟨hdirectories, found, hfiles, hst⟩ := start_eq_ok h
  have hwaiting : st.waiting.length = found.length := by
    rw [hst, ← List.length_map (f := Prod.snd), map_snd_numbered]
  unfold left
  rw [hdirectories, hfiles, List.length_append, hwaiting, Nat.add_comm found.length]

/-- No run makes more moves than there are directories to enumerate and visits to start and to
settle. -/
theorem length_moves_le {st : State σ} (hsteady : w.Steady store outcome)
    (hnamed : (w.tree store).Named) (hstart : w.start store = .ok st)
    (hexec : w.exec limit (.of st) moves = some (.ok final)) :
    moves.length ≤ (w.directories (w.tree store)).length + 2 *
      (w.files (w.tree store)).length := by
  have hcount := (walking_start hstart).length_add_left hsteady hnamed hexec
  have hpermits := (exec_permitted (Schedule.permitted_of st) hexec).length_le
  have hwaiting : final.state.waiting.length ≤ w.left (w.tree store) final.state := by
    unfold left
    omega
  have hnone : (Schedule.of st).visiting.length = 0 := rfl
  have hleft : w.left (w.tree store) (Schedule.of st).state = _ := left_start hstart
  omega

end Progress

end WebBundler.Walk
