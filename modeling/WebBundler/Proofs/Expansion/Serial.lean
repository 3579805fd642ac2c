import WebBundler.Proofs.Expansion.Exactness
set_option autoImplicit false

/-!
# The run that works through the closures in turn

`run` makes its moves in one fixed order: it claims all seeds, and then starts each closure when
the one before it has nothing left to do.  Whatever it does is one of the runs that the moves
allow, and it stops for no other reason than that its number of tasks is used up.  So with
enough tasks its outcome is exact.
-/

namespace WebBundler.Expansion

/-- A state comes about from another by moves, with one permit. -/
def Reached (task : Task) (st st' : State) : Prop := ∃ moves, exec task 1 st moves = some st'

theorem Reached.refl (task : Task) (st : State) : Reached task st st := ⟨[], rfl⟩

theorem Reached.trans {task : Task} {st st' st'' : State} (h : Reached task st st')
    (h' : Reached task st' st'') : Reached task st st'' := by
  obtain ⟨moves, hmoves⟩ := h
  obtain ⟨more, hmore⟩ := h'
  refine ⟨moves ++ more, ?_⟩
  unfold exec at hmoves hmore ⊢
  rw [List.foldlM_append, hmoves]
  exact hmore

theorem reached_perform (task : Task) (st : State) (move : Move) :
    Reached task st (perform task st move) := by
  unfold perform
  cases hstep : step? task 1 st move with
  | none => exact Reached.refl task st
  | some next => exact ⟨[move], exec_cons_eq_some.2 ⟨next, hstep, rfl⟩⟩

theorem reached_foldl {task : Task} {α : Type} {f : State → α → State}
    (hf : ∀ st a, Reached task st (f st a)) (l : List α) (st : State) :
    Reached task st (l.foldl f st) := by
  induction l generalizing st with
  | nil => exact Reached.refl task st
  | cons a l ih => exact (hf st a).trans (ih (f st a))

theorem reached_settleNext (task : Task) (st : State) (i : Nat) :
    Reached task st (settleNext task st i) := by
  unfold settleNext
  apply (reached_perform task st (.settle i 0)).trans
  dsimp only
  split
  · exact Reached.refl task _
  · exact reached_foldl (fun st _ => reached_perform task st (.look i)) _ _

theorem reached_settleClosure (task : Task) (bound : Nat) (st : State) (i : Nat) :
    Reached task st (settleClosure task bound st i).2 := by
  induction bound generalizing st with
  | zero => exact Reached.refl task st
  | succ bound ih =>
    unfold settleClosure
    split
    · exact Reached.refl task st
    · exact (reached_settleNext task st i).trans (ih _)

theorem reached_settleAll (task : Task) (bound : Nat) (st : State) :
    Reached task st (settleAll task bound st) := by
  unfold settleAll
  generalize List.range st.closures.length = indices
  induction indices generalizing bound st with
  | nil => exact Reached.refl task st
  | cons i indices ih =>
    have hstart := reached_perform task st (.start i)
    exact (hstart.trans (reached_settleClosure task bound _ i)).trans (ih _ _)

theorem reached_run (task : Task) (bound : Nat) (st : State) :
    Reached task st (settleAll task bound (claimAll task st)) :=
  (reached_foldl (fun st _ => reached_perform task st .claim) _ _).trans
    (reached_settleAll task bound _)

/-! ## What one closure comes to -/

theorem getElem?_middle {α : Type} (before after : List α) (a : α) :
    (before ++ a :: after)[before.length]? = some a := by
  rw [List.getElem?_append_right (Nat.le_refl _), Nat.sub_self]
  rfl

section Middle

variable (task : Task) (seeds : List String) (before after : List Closure)

/-- The work of one closure changes nothing of the others: it leaves the closure at its place
with nothing to look at. -/
structure Worked (c next : Closure) (tasks : Nat) : Prop where
  begun : next.begun = c.begun
  origins : next.origins = []
  settled : next.settled.length = c.settled.length + tasks

/-- Looking at all that a closure knows to be required. -/
theorem foldl_look (l : List String) (c : Closure) (visited : VisitedPaths)
    (horigins : c.origins = l) :
    ∃ next visited', Worked c next 0 ∧
      l.foldl (fun st _ => perform task st (.look before.length))
        ⟨seeds, before ++ c :: after, visited⟩ =
          ⟨seeds, before ++ next :: after, visited'⟩ := by
  induction l generalizing c visited with
  | nil => exact ⟨c, visited, ⟨rfl, horigins, rfl⟩, rfl⟩
  | cons origin origins ih =>
    rw [List.foldl_cons]
    have hlook : ∃ next visited', next.begun = c.begun ∧ next.origins = origins ∧
        next.settled = c.settled ∧
        perform task ⟨seeds, before ++ c :: after, visited⟩ (.look before.length) =
          ⟨seeds, before ++ next :: after, visited'⟩ := by
      simp only [perform, step?, State.look?, getElem?_middle, Closure.look?, horigins]
      split
      · exact ⟨{ c with origins }, visited, rfl, rfl, rfl, by simp⟩
      · exact ⟨{ c with origins, pending := c.pending ++ [origin] }, visited.mark origin, rfl,
          rfl, rfl, by simp⟩
    obtain ⟨middle, visited', hbegun, hleft, hsettled, hperform⟩ := hlook
    obtain ⟨next, visited'', hworked, hfold⟩ := ih middle visited' hleft
    refine ⟨next, visited'', ⟨?_, hworked.origins, ?_⟩, ?_⟩
    · rw [hworked.begun, hbegun]
    · rw [hworked.settled, hsettled]
    · rw [hperform, hfold]

/-- Settling the next task of a closure that has begun. -/
theorem settleNext_eq (c : Closure) (visited : VisitedPaths) (hbegun : c.begun = true)
    (horigins : c.origins = []) (hpending : c.pending ≠ []) :
    ∃ next visited', Worked c next 1 ∧
      settleNext task ⟨seeds, before ++ c :: after, visited⟩ before.length =
        ⟨seeds, before ++ next :: after, visited'⟩ := by
  obtain ⟨path, pending, hsplit⟩ := List.exists_cons_of_ne_nil hpending
  have hsettle : perform task ⟨seeds, before ++ c :: after, visited⟩ (.settle before.length 0) =
      ⟨seeds, before ++ { c with pending }.take path (task path) :: after, visited⟩ := by
    simp [perform, step?, State.settle?, Closure.settle?, hbegun, horigins, hsplit]
  unfold settleNext
  rw [hsettle]
  dsimp only
  rw [getElem?_middle]
  obtain ⟨next, visited', hworked, hfold⟩ := foldl_look task seeds before after
    ({ c with pending }.take path (task path)).origins _ visited rfl
  refine ⟨next, visited', ⟨?_, hworked.origins, ?_⟩, hfold⟩
  · rw [hworked.begun, Closure.take_begun]
  · rw [hworked.settled, Closure.take_settled, List.length_append]
    rfl

/-- Settling the tasks of a closure until none is left, or the number of tasks is used up. -/
theorem settleClosure_eq (bound : Nat) (c : Closure) (visited : VisitedPaths)
    (hbegun : c.begun = true) (horigins : c.origins = []) :
    ∃ left tasks next visited', Worked c next tasks ∧ left + tasks = bound ∧
      (left = 0 ∨ next.pending = []) ∧
      settleClosure task bound ⟨seeds, before ++ c :: after, visited⟩ before.length =
        (left, ⟨seeds, before ++ next :: after, visited'⟩) := by
  induction bound generalizing c visited with
  | zero => exact ⟨0, 0, c, visited, ⟨rfl, horigins, rfl⟩, rfl, Or.inl rfl, rfl⟩
  | succ bound ih =>
    unfold settleClosure
    dsimp only
    rw [getElem?_middle]
    cases hpending : c.pending with
    | nil =>
      refine ⟨bound + 1, 0, c, visited, ⟨rfl, horigins, rfl⟩, rfl, Or.inr hpending, ?_⟩
      simp [hpending]
    | cons path pending =>
      obtain ⟨middle, visited', hworked, hsettle⟩ :=
        settleNext_eq task seeds before after c visited hbegun horigins
          (by rw [hpending]; exact List.cons_ne_nil _ _)
      obtain ⟨left, tasks, next, visited'', hnext, hsum, hend, hrest⟩ := ih middle visited'
        (hworked.begun.trans hbegun) hworked.origins
      refine ⟨left, tasks + 1, next, visited'', ⟨?_, hnext.origins, ?_⟩, by omega, hend, ?_⟩
      · rw [hnext.begun, hworked.begun]
      · rw [hnext.settled, hworked.settled]
        omega
      · rw [hsettle]
        simpa [hpending] using hrest

/-- Starting a closure when those before it have nothing left to do, or trying to when the
number of tasks is used up. -/
theorem perform_start (bound : Nat) (c : Closure) (visited : VisitedPaths)
    (hidle : bound = 0 ∨ ∀ old ∈ before, old.isRunning = false)
    (hwaiting : ∀ other ∈ c :: after, other.begun = false) :
    ∃ next, (bound = 0 ∨ next.begun = true) ∧ next.origins = c.origins ∧
      next.settled = c.settled ∧
      perform task ⟨seeds, before ++ c :: after, visited⟩ (.start before.length) =
        ⟨seeds, before ++ next :: after, visited⟩ := by
  have hbegun : c.begun = false := hwaiting c List.mem_cons_self
  rcases hidle with hzero | hidle
  · by_cases hrunning : 1 ≤ State.running ⟨seeds, before ++ c :: after, visited⟩
    · refine ⟨c, Or.inl hzero, rfl, rfl, ?_⟩
      simp [perform, step?, State.start?, hrunning]
    · refine ⟨c.start, Or.inl hzero, rfl, rfl, ?_⟩
      simp [perform, step?, State.start?, hrunning, hbegun]
  · have hrunning : State.running ⟨seeds, before ++ c :: after, visited⟩ = 0 := by
      unfold State.running
      rw [List.countP_eq_zero]
      intro other hother
      rcases List.mem_append.1 hother with hold | hnew
      · simp [hidle other hold]
      · simp [Closure.isRunning, hwaiting other hnew]
    refine ⟨c.start, Or.inr rfl, rfl, rfl, ?_⟩
    simp [perform, step?, State.start?, hrunning, hbegun]

end Middle

/-! ## What all closures come to -/

/-- Closures that have nothing left to do, unless the tasks are used up. -/
structure Emptied (closures : List Closure) (left : Nat) : Prop where
  origins : ∀ c ∈ closures, c.origins = []
  pending : left = 0 ∨ ∀ c ∈ closures, c.pending = []

/-- Closures that were not started. -/
def Waiting (closures : List Closure) : Prop :=
  ∀ c ∈ closures, c.begun = false ∧ c.origins = []

theorem Emptied.append_singleton {closures : List Closure} {bound left : Nat} {c : Closure}
    (h : Emptied closures bound) (hleft : left ≤ bound) (horigins : c.origins = [])
    (hpending : left = 0 ∨ c.pending = []) : Emptied (closures ++ [c]) left := by
  constructor
  · intro other hother
    rcases List.mem_append.1 hother with hold | hnew
    · exact h.origins other hold
    · rw [List.mem_singleton.1 hnew]
      exact horigins
  · by_cases hzero : left = 0
    · exact Or.inl hzero
    · refine Or.inr fun other hother => ?_
      rcases List.mem_append.1 hother with hold | hnew
      · exact h.pending.resolve_left (by omega) other hold
      · rw [List.mem_singleton.1 hnew]
        exact hpending.resolve_left hzero

/-- Starting a closure and settling its tasks, after those before it. -/
theorem settleClosure_start (task : Task) (seeds : List String) (before after : List Closure)
    (bound : Nat) (c : Closure) (visited : VisitedPaths) (hbefore : Emptied before bound)
    (hwaiting : Waiting (c :: after)) :
    ∃ left tasks next visited', next.origins = [] ∧ (left = 0 ∨ next.pending = []) ∧
      left + tasks = bound ∧ next.settled.length = c.settled.length + tasks ∧
      settleClosure task bound
        (perform task ⟨seeds, before ++ c :: after, visited⟩ (.start before.length))
          before.length =
        (left, ⟨seeds, before ++ next :: after, visited'⟩) := by
  have hidle : bound = 0 ∨ ∀ old ∈ before, old.isRunning = false := by
    refine hbefore.pending.imp_right fun hpending old hold => ?_
    simp [Closure.isRunning, hpending old hold, hbefore.origins old hold]
  obtain ⟨started, hbegun, horigins, hsettled, hperform⟩ :=
    perform_start task seeds before after bound c visited hidle fun other hother =>
      (hwaiting other hother).1
  rw [(hwaiting c List.mem_cons_self).2] at horigins
  rw [hperform, ← hsettled]
  rcases hbegun with rfl | hbegun
  · exact ⟨0, 0, started, visited, horigins, Or.inl rfl, rfl, rfl, rfl⟩
  · obtain ⟨left, tasks, next, visited', hworked, hsum, hend, hsettle⟩ :=
      settleClosure_eq task seeds before after bound started visited hbegun horigins
    exact ⟨left, tasks, next, visited', hworked.origins, hend, hsum, hworked.settled, hsettle⟩

/-- The closures are worked through in turn, by induction on those that wait. -/
theorem foldl_settleClosure (task : Task) (seeds : List String) (waiting done : List Closure)
    (visited : VisitedPaths) (bound : Nat) (hdone : Emptied done bound)
    (hwaiting : Waiting waiting) :
    ∃ left closures visited', Emptied closures left ∧
      left + (closures.flatMap Closure.settled).length =
        bound + ((done ++ waiting).flatMap Closure.settled).length ∧
      (List.range' done.length waiting.length).foldl
        (fun (bound, st) i => settleClosure task bound (perform task st (.start i)) i)
        (bound, ⟨seeds, done ++ waiting, visited⟩) = (left, ⟨seeds, closures, visited'⟩) := by
  induction waiting generalizing done visited bound with
  | nil =>
    rw [List.append_nil]
    exact ⟨bound, done, visited, hdone, rfl, rfl⟩
  | cons c waiting ih =>
    obtain ⟨left, tasks, next, visited', horigins, hpending, hsum, hsettled, hsettle⟩ :=
      settleClosure_start task seeds done waiting bound c visited hdone hwaiting
    have hdone' := hdone.append_singleton (by omega : left ≤ bound) horigins hpending
    obtain ⟨left', closures, visited'', hend, hcount, hrest⟩ :=
      ih (done ++ [next]) visited' left hdone' fun other hother =>
        hwaiting other (List.mem_cons_of_mem _ hother)
    refine ⟨left', closures, visited'', hend, ?_, ?_⟩
    · rw [hcount]
      simp only [List.flatMap_append, List.flatMap_cons, List.flatMap_nil, List.length_append,
        hsettled, List.length_nil]
      omega
    · rw [List.length_cons, List.range'_succ, List.foldl_cons]
      dsimp only
      rw [hsettle]
      rw [List.length_append, List.append_assoc] at hrest
      exact hrest

/-- Claiming all seeds leaves closures that wait. -/
theorem claimAll_eq (task : Task) (seeds : List String) (closures : List Closure)
    (visited : VisitedPaths) (hwaiting : Waiting closures)
    (hsettled : closures.flatMap Closure.settled = []) :
    ∃ opened visited', Waiting opened ∧ opened.flatMap Closure.settled = [] ∧
      claimAll task ⟨seeds, closures, visited⟩ = ⟨[], opened, visited'⟩ := by
  unfold claimAll
  dsimp only
  induction seeds generalizing closures visited with
  | nil => exact ⟨closures, visited, hwaiting, hsettled, rfl⟩
  | cons seed seeds ih =>
    rw [List.foldl_cons]
    by_cases hknown : visited.contains (QueryPath.normalize seed) = true
    · have hclaim : perform task ⟨seed :: seeds, closures, visited⟩ .claim =
          ⟨seeds, closures, visited⟩ := by
        simp [perform, step?, State.claim?, hknown]
      rw [hclaim]
      exact ih closures visited hwaiting hsettled
    · have hclaim : perform task ⟨seed :: seeds, closures, visited⟩ .claim =
          ⟨seeds, closures ++ [.opened (QueryPath.normalize seed)],
            visited.mark (QueryPath.normalize seed)⟩ := by
        simp [perform, step?, State.claim?, hknown]
      rw [hclaim]
      apply ih
      · intro c hc
        rcases List.mem_append.1 hc with hold | hnew
        · exact hwaiting c hold
        · rw [List.mem_singleton.1 hnew]
          exact ⟨rfl, rfl⟩
      · rw [List.flatMap_append, hsettled, List.flatMap_singleton]
        rfl

section Run

variable {task : Task} {seeds : List String} {visited : VisitedPaths}

/-- Nothing has settled that is not needed, and nothing twice. -/
theorem Expanding.length_claimed_le {st : State} {all : Finset String}
    (hst : Expanding task seeds visited st)
    (hall : ∀ path, Needed task seeds visited path → path ∈ all) :
    st.claimed.length ≤ all.card := by
  rw [← List.toFinset_card_of_nodup hst.nodup]
  apply Finset.card_le_card
  intro path hpath
  exact hall path (hst.needed path (List.mem_toFinset.1 hpath))

/-- With as many tasks as there are needed paths, the run does everything. -/
theorem done_settleAll {all : Finset String} {bound : Nat} (hnormal : NormalOrigins task)
    (hseeds : NormalSeeds seeds) (hall : ∀ path, Needed task seeds visited path → path ∈ all)
    (hbound : all.card ≤ bound) :
    Expanding task seeds visited
      (settleAll task bound (claimAll task (.initial seeds visited))) ∧
      (settleAll task bound (claimAll task (.initial seeds visited))).Done := by
  obtain ⟨moves, hmoves⟩ := reached_run task bound (.initial seeds visited)
  have hst : Expanding task seeds visited
      (settleAll task bound (claimAll task (.initial seeds visited))) :=
    expanding_initial.of_exec hnormal hseeds hmoves
  refine ⟨hst, ?_⟩
  obtain ⟨opened, visited', hwaiting, hnone, hclaim⟩ :=
    claimAll_eq task seeds [] visited (fun c hc => absurd hc List.not_mem_nil) rfl
  obtain ⟨left, closures, visited'', hend, hcount, hfold⟩ :=
    foldl_settleClosure task [] opened [] visited' bound
      ⟨fun c hc => absurd hc List.not_mem_nil, Or.inr fun c hc => absurd hc List.not_mem_nil⟩
      hwaiting
  have hstate : settleAll task bound (claimAll task (.initial seeds visited)) =
      ⟨[], closures, visited''⟩ := by
    unfold State.initial settleAll
    rw [hclaim, List.range_eq_range']
    exact congrArg Prod.snd hfold
  rw [hstate] at hst ⊢
  refine ⟨rfl, ?_, hend.origins⟩
  rcases hend.pending with rfl | hpending
  · -- The tasks are used up, so as many paths have settled as were claimed.
    have hclaimed := hst.length_claimed_le hall
    rw [← (State.claimed_perm_settled _).length_eq, List.length_append] at hclaimed
    rw [List.nil_append, hnone, List.length_nil] at hcount
    unfold State.settled at hclaimed
    dsimp only at hclaimed
    have hempty : closures.flatMap Closure.pending = [] := by
      apply List.eq_nil_of_length_eq_zero
      omega
    exact List.flatMap_eq_nil_iff.1 hempty
  · exact hpending

/-! ## Runs -/

/-- A run of an expansion does all that there is to do, and ends with an outcome. -/
def Completes (task : Task) (limit : Nat) (seeds : List String)
    (visited : VisitedPaths) (outcome : Outcome) : Prop :=
  ∃ moves final, exec task limit (.initial seeds visited) moves = some final ∧
    final.Done ∧ outcome = final.outcome

theorem step?_mono {task : Task} {limit limit' : Nat} (hlimit : limit ≤ limit')
    {st st' : State} {move : Move}
    (h : step? task limit st move = some st') :
    step? task limit' st move = some st' := by
  cases move with
  | claim => exact h
  | settle i j => exact h
  | look i => exact h
  | start i =>
    simp only [step?, State.start?] at h ⊢
    split at h
    · cases h
    · next c hc =>
      split at h
      · cases h
      · next hfree =>
        rw [Bool.or_eq_true, decide_eq_true_eq, not_or, Nat.not_le] at hfree
        rw [if_neg]
        · exact h
        · rw [Bool.or_eq_true, decide_eq_true_eq, not_or, Nat.not_le]
          exact ⟨hfree.1, Nat.lt_of_lt_of_le hfree.2 hlimit⟩

theorem exec_mono {task : Task} {limit limit' : Nat} (hlimit : limit ≤ limit')
    {moves : List Move} {st final : State}
    (h : exec task limit st moves = some final) :
    exec task limit' st moves = some final := by
  induction moves generalizing st with
  | nil => exact h
  | cons move moves ih =>
    obtain ⟨next, hnext, hrest⟩ := exec_cons_eq_some.1 h
    exact exec_cons_eq_some.2 ⟨next, step?_mono hlimit hnext, ih hrest⟩

/-- With as many tasks as there are needed paths, what is run is one of the runs. -/
theorem completes_run {all : Finset String} {limit bound : Nat} (hlimit : 0 < limit)
    (hnormal : NormalOrigins task) (hseeds : NormalSeeds seeds)
    (hall : ∀ path, Needed task seeds visited path → path ∈ all) (hbound : all.card ≤ bound) :
    Completes task limit seeds visited (run task bound seeds visited) := by
  obtain ⟨-, hdone⟩ := done_settleAll hnormal hseeds hall hbound
  obtain ⟨moves, hmoves⟩ := reached_run task bound (.initial seeds visited)
  exact ⟨moves, _, exec_mono hlimit hmoves, hdone, rfl⟩

theorem Completes.completed {limit : Nat} {outcome : Outcome}
    (h : Completes task limit seeds visited outcome) (hnormal : NormalOrigins task)
    (hseeds : NormalSeeds seeds) : Completed task seeds visited outcome := by
  obtain ⟨moves, final, hexec, hdone, rfl⟩ := h
  exact (expanding_initial.of_exec hnormal hseeds hexec).completed hdone

/-! ## What comes back, whatever the task -/

end Run

end WebBundler.Expansion
