import WebBundler.Proofs.Expansion.Steps
import WebBundler.Proofs.Walk.Discovery
set_option autoImplicit false

/-!
# The moves of a walk

A walk can enumerate its next directory, start the visit of a file that it found, if there is a
permit, and settle a visit that was started.  A visit that ends the walk leaves no state to move
on from.  `Step` says what a move does; `Finished.done` says that a walk does not stop while
anything is left to do.
-/

namespace WebBundler

namespace Walk

variable {σ : Type}

/-- A walk under way. -/
structure Schedule (σ : Type) where
  state : State σ
  /-- The numbers of the files whose visits hold a permit. -/
  visiting : List Nat
  /-- The visits that have settled, in order.  No move depends on them. -/
  settled : List (Nat × WalkedFile)

/-- What a walk can do next. -/
inductive Move where
  | enumerate
  | start (i : Nat)
  | settle (i : Nat)
  deriving DecidableEq, Repr

/-- One more permit can be given.  A limit of none at all is taken for a limit of one. -/
def permits (limit : Option Nat) (taken : Nat) : Bool :=
  match limit with
  | none => true
  | some n => decide (taken < max n 1)

/-- What a move leads to, if it can be made: a walk that goes on, or the failure that ends
it. -/
def step? (w : Walk σ) (limit : Option Nat) (s : Schedule σ) :
    Move → Option (Except BuildError (Schedule σ))
  | .enumerate =>
    if s.state.stack.isEmpty then none
    else some ((w.enumerate s.state).map fun state => { s with state })
  | .start i =>
    match s.state.waiting[i]? with
    | none => none
    | some (number, _) =>
      if number ∈ s.visiting ∨ permits limit s.visiting.length = false then none
      else some (.ok { s with visiting := number :: s.visiting })
  | .settle i =>
    match s.state.waiting[i]? with
    | none => none
    | some (number, file) =>
      if number ∈ s.visiting then
        some ((w.settle s.state i).map fun state =>
          ⟨state, s.visiting.erase number, s.settled ++ [(number, file)]⟩)
      else none

/-- What moves lead to, if they can be made in turn. -/
def exec (w : Walk σ) (limit : Option Nat) (s : Schedule σ) :
    List Move → Option (Except BuildError (Schedule σ))
  | [] => some (.ok s)
  | move :: moves =>
    match w.step? limit s move with
    | none => none
    | some (.ok next) => w.exec limit next moves
    | some (.error e) => if moves.isEmpty then some (.error e) else none

/-- The schedule at the start of a walk. -/
def Schedule.of (st : State σ) : Schedule σ := ⟨st, [], []⟩

/-- No move can be made. -/
def Finished (w : Walk σ) (limit : Option Nat) (s : Schedule σ) : Prop :=
  ∀ move, w.step? limit s move = none

/-! ## What a move does -/

/-- What a move leads to. -/
inductive Step (w : Walk σ) : Schedule σ → Except BuildError (Schedule σ) → Prop where
  | enumerate {s : Schedule σ} (dir : HostPath) (stack : List HostPath)
      (hstack : s.state.stack = dir :: stack) :
      Step w s ((w.enumerate s.state).map fun state => { s with state })
  | start {s : Schedule σ} (number : Nat) (file : WalkedFile)
      (hwaiting : (number, file) ∈ s.state.waiting) (hvisiting : number ∉ s.visiting) :
      Step w s (.ok { s with visiting := number :: s.visiting })
  | settle {s : Schedule σ} (before after : List (Nat × WalkedFile)) (number : Nat)
      (file : WalkedFile) (hwaiting : s.state.waiting = before ++ (number, file) :: after)
      (hvisiting : number ∈ s.visiting) :
      Step w s
        ((w.visitFile { s.state with waiting := before ++ after } number file).map fun state =>
          ⟨state, s.visiting.erase number, s.settled ++ [(number, file)]⟩)

section Steps

variable {w : Walk σ} {limit : Option Nat} {s next : Schedule σ} {move : Move}
  {moves : List Move} {result : Except BuildError (Schedule σ)}

theorem exec_cons (h : w.step? limit s move = some (.ok next)) :
    w.exec limit s (move :: moves) = w.exec limit next moves := by
  rw [exec, h]

theorem exec_last {e : BuildError} (h : w.step? limit s move = some (.error e)) :
    w.exec limit s [move] = some (.error e) := by
  rw [exec, h]
  rfl

/-- To settle a visit is to make it, with its file taken out of those that wait. -/
theorem exists_settle_eq {i number : Nat} {file : WalkedFile}
    (hwaiting : s.state.waiting[i]? = some (number, file)) :
    ∃ before after, s.state.waiting = before ++ (number, file) :: after ∧
      w.settle s.state i = w.visitFile { s.state with waiting := before ++ after } number
        file := by
  obtain ⟨before, after, hsplit, herase, -⟩ := Expansion.exists_split hwaiting
  refine ⟨before, after, hsplit, ?_⟩
  simp only [settle, hwaiting, herase]

theorem step_of_step? (h : w.step? limit s move = some result) : Step w s result := by
  cases move with
  | enumerate =>
    simp only [step?] at h
    split at h
    · cases h
    · next hstack =>
      cases h
      obtain ⟨dir, stack, hstack⟩ := List.exists_cons_of_ne_nil (mt List.isEmpty_iff.2 hstack)
      exact .enumerate dir stack hstack
  | start i =>
    simp only [step?] at h
    split at h
    · cases h
    · next number file hwaiting =>
      split at h
      · cases h
      · next hfree =>
        cases h
        exact .start number file (List.mem_of_getElem? hwaiting) (mt Or.inl hfree)
  | settle i =>
    simp only [step?] at h
    split at h
    · cases h
    · next number file hwaiting =>
      split at h
      · next hvisiting =>
        cases h
        obtain ⟨before, after, hsplit, hsettle⟩ := exists_settle_eq (w := w) hwaiting
        rw [hsettle]
        exact .settle before after number file hsplit hvisiting
      · cases h

/-- A step that goes on. -/
inductive GoesOn (w : Walk σ) (s : Schedule σ) : Schedule σ → Prop where
  | enumerate (dir : HostPath) (stack : List HostPath) (state : State σ)
      (hstack : s.state.stack = dir :: stack) (hstate : w.enumerate s.state = .ok state) :
      GoesOn w s { s with state }
  | start (number : Nat) (file : WalkedFile) (hwaiting : (number, file) ∈ s.state.waiting)
      (hvisiting : number ∉ s.visiting) : GoesOn w s { s with visiting := number :: s.visiting }
  | settle (before after : List (Nat × WalkedFile)) (number : Nat) (file : WalkedFile)
      (state : State σ) (hwaiting : s.state.waiting = before ++ (number, file) :: after)
      (hvisiting : number ∈ s.visiting) (hstate : w.visitFile
        { s.state with waiting := before ++ after } number file = .ok state) :
      GoesOn w s ⟨state, s.visiting.erase number, s.settled ++ [(number, file)]⟩

theorem Step.goesOn (h : Step w s (.ok next)) : GoesOn w s next := by
  generalize hresult : Except.ok next = result at h
  cases h with
  | enumerate dir stack hstack =>
    cases hstate : w.enumerate s.state with
    | error e =>
      rw [hstate] at hresult
      cases hresult
    | ok state =>
      rw [hstate] at hresult
      cases hresult
      exact .enumerate dir stack state hstack hstate
  | start number file hwaiting hvisiting =>
    cases hresult
    exact .start number file hwaiting hvisiting
  | settle before after number file hwaiting hvisiting =>
    cases hstate : w.visitFile { s.state with waiting := before ++ after } number file with
    | error e =>
      rw [hstate] at hresult
      cases hresult
    | ok state =>
      rw [hstate] at hresult
      cases hresult
      exact .settle before after number file state hwaiting hvisiting hstate

/-- What holds at the start and is kept by every step that goes on holds wherever moves lead. -/
theorem exec_invariant {P : Schedule σ → Prop}
    (hstep : ∀ s next, P s → GoesOn w s next → P next) (hs : P s)
    (h : w.exec limit s moves = some (.ok next)) : P next := by
  induction moves generalizing s with
  | nil =>
    cases h
    exact hs
  | cons move moves ih =>
    rw [exec] at h
    split at h
    · cases h
    · next hnext => exact ih (hstep _ _ hs (step_of_step? hnext).goesOn) h
    · split at h
      · cases h
      · cases h

/-- A walk that fails was under way before its last move. -/
theorem exec_error {e : BuildError} (h : w.exec limit s moves = some (.error e)) :
    ∃ moves' move last, w.exec limit s moves' = some (.ok last) ∧
      w.step? limit last move = some (.error e) := by
  induction moves generalizing s with
  | nil => cases h
  | cons move moves ih =>
    rw [exec] at h
    split at h
    · cases h
    · next next hnext =>
      obtain ⟨moves', move', last, hlast, herror⟩ := ih h
      exact ⟨move :: moves', move', last, by rw [exec, hnext]; exact hlast, herror⟩
    · next hfailed =>
      split at h
      · cases h
        exact ⟨[], move, s, rfl, hfailed⟩
      · cases h

theorem exec_append {more : List Move} (h : w.exec limit s moves = some (.ok next)) :
    w.exec limit s (moves ++ more) = w.exec limit next more := by
  induction moves generalizing s with
  | nil =>
    cases h
    rfl
  | cons move moves ih =>
    rw [exec] at h
    split at h
    · cases h
    · next hnext =>
      rw [List.cons_append, exec, hnext]
      exact ih h
    · split at h
      · cases h
      · cases h

end Steps

/-! ## Permits -/

/-- Permits are held for files that wait, one for each. -/
structure Schedule.Permitted (s : Schedule σ) : Prop where
  nodup : s.visiting.Nodup
  waiting : ∀ number ∈ s.visiting, number ∈ s.state.waiting.map Prod.fst

section Permits

variable {w : Walk σ} {limit : Option Nat} {s next : Schedule σ}

theorem Schedule.permitted_of (st : State σ) : (Schedule.of st).Permitted where
  nodup := List.nodup_nil
  waiting := by
    intro number hnumber
    cases hnumber

theorem Schedule.Permitted.length_le (h : s.Permitted) :
    s.visiting.length ≤ s.state.waiting.length := by
  have hlength := (List.subperm_of_subset h.nodup h.waiting).length_le
  rwa [List.length_map] at hlength

theorem waiting_enumerate {st st' : State σ} (h : w.enumerate st = .ok st') :
    ∃ more, st'.waiting = st.waiting ++ more := by
  unfold enumerate at h
  split at h
  · cases h
    exact ⟨[], (List.append_nil _).symm⟩
  · split at h
    · split at h
      · cases h
      · cases h
        exact ⟨[], (List.append_nil _).symm⟩
    · cases h
      exact ⟨_, rfl⟩

theorem waiting_record {st st' : State σ} {number : Nat} {file : WalkedFile}
    {outcome : VisitOutcome} (h : w.record st number file outcome = .ok st') :
    st'.waiting = st.waiting ∧ st'.stack = st.stack := by
  unfold record at h
  split at h
  · cases h
    exact ⟨rfl, rfl⟩
  · cases h
    exact ⟨rfl, rfl⟩
  · cases h
    exact ⟨rfl, rfl⟩
  · split at h
    · cases h
    · cases h
      exact ⟨rfl, rfl⟩

theorem visitFile_eq (w : Walk σ) (st : State σ) (number : Nat) (file : WalkedFile) :
    w.visitFile st number file =
      w.record { st with store := (w.visit file st.store).2 } number file
        (w.visit file st.store).1 :=
  rfl

theorem waiting_visitFile {st st' : State σ} {number : Nat} {file : WalkedFile}
    (h : w.visitFile st number file = .ok st') :
    st'.waiting = st.waiting ∧ st'.stack = st.stack := by
  rw [visitFile_eq] at h
  have hwaiting := waiting_record h
  exact hwaiting

theorem Schedule.Permitted.step (h : s.Permitted) (hstep : GoesOn w s next) :
    next.Permitted := by
  cases hstep with
  | enumerate dir stack state hstack hstate =>
    obtain ⟨more, hmore⟩ := waiting_enumerate hstate
    refine ⟨h.nodup, fun number hnumber => ?_⟩
    rw [hmore, List.map_append]
    exact List.mem_append_left _ (h.waiting number hnumber)
  | start number file hwaiting hvisiting =>
    refine ⟨List.nodup_cons.2 ⟨hvisiting, h.nodup⟩, fun other hother => ?_⟩
    rcases List.mem_cons.1 hother with rfl | hother
    · exact List.mem_map.2 ⟨_, hwaiting, rfl⟩
    · exact h.waiting other hother
  | settle before after number file state hwaiting hvisiting hstate =>
    refine ⟨h.nodup.erase number, fun other hother => ?_⟩
    obtain ⟨hne, hother⟩ := h.nodup.mem_erase_iff.1 hother
    have hmem := h.waiting other hother
    rw [hwaiting, List.map_append, List.map_cons, List.mem_append, List.mem_cons] at hmem
    rw [(waiting_visitFile hstate).1, List.map_append, List.mem_append]
    exact hmem.imp_right fun hmem => hmem.resolve_left hne

/-- All directories were enumerated, and all visits have settled. -/
structure Schedule.Done (s : Schedule σ) : Prop where
  stack : s.state.stack = []
  waiting : s.state.waiting = []

theorem permits_zero (limit : Option Nat) : permits limit 0 = true := by
  unfold permits
  split
  · rfl
  · exact decide_eq_true (by omega)

/-- A walk does not stop while anything is left to do: a visit that holds a permit can settle,
and when none does there is a permit to be had. -/
theorem Finished.done (h : w.Finished limit s) (hs : s.Permitted) : s.Done := by
  have hvisiting : s.visiting = [] := by
    rw [List.eq_nil_iff_forall_not_mem]
    intro number hnumber
    obtain ⟨⟨number, file⟩, hwaiting, rfl⟩ := List.mem_map.1 (hs.waiting _ hnumber)
    obtain ⟨i, hi⟩ := List.getElem?_of_mem hwaiting
    have hsettle := h (.settle i)
    simp only [step?, hi, if_pos hnumber] at hsettle
    cases hsettle
  constructor
  · have henumerate := h .enumerate
    simp only [step?] at henumerate
    split at henumerate
    · next hstack => exact List.isEmpty_iff.1 hstack
    · cases henumerate
  · cases hwaiting : s.state.waiting with
    | nil => rfl
    | cons entry waiting =>
      obtain ⟨number, file⟩ := entry
      have hstart := h (.start 0)
      simp [step?, hwaiting, hvisiting, permits_zero] at hstart

theorem Schedule.Done.finished (h : s.Done) : w.Finished limit s := by
  intro move
  cases move with
  | enumerate => simp [step?, h.stack]
  | start i => simp [step?, h.waiting]
  | settle i => simp [step?, h.waiting]

end Permits

/-- A run of a walk does all that there is to do, and ends with a summary. -/
def Completes (w : Walk σ) (limit : Option Nat) (store : σ) (summary : Summary σ) : Prop :=
  ∃ st moves final, w.start store = .ok st ∧ w.exec limit (.of st) moves = some (.ok final) ∧
    final.Done ∧ summary = final.state.summary

end Walk

end WebBundler
