import WebBundler.Expansion
set_option autoImplicit false

/-!
# The moves of an expansion as a relation

`step?` says for each move whether it can be made and what the state is afterwards.  This module
says the same as relations, once for a closure and once for a state: `ClosureStep` has one case
for each thing that can happen to a closure, and a `Step` either handles a seed or lets one
closure do such a thing.  What holds of every run is proved from these cases alone.

The converse is progress: while a seed, a task or a path to look at is left, some move can be
made.
-/

namespace WebBundler.Expansion

/-- An item of a list at a known place, with what becomes of the list when the item is replaced
or taken out. -/
theorem exists_split {α : Type} {l : List α} {i : Nat} {a : α} (h : l[i]? = some a) :
    ∃ before after, l = before ++ a :: after ∧ l.eraseIdx i = before ++ after ∧
      ∀ b, l.set i b = before ++ b :: after := by
  obtain ⟨hi, rfl⟩ := List.getElem?_eq_some_iff.1 h
  refine ⟨l.take i, l.drop (i + 1), ?_, List.eraseIdx_eq_take_drop_succ .., ?_⟩
  · rw [List.getElem_cons_drop, List.take_append_drop]
  · intro b
    rw [List.set_eq_take_append_cons_drop, if_pos hi]

theorem mem_of_split {α : Type} {l before after : List α} {a : α}
    (h : l = before ++ a :: after) :
    a ∈ l := by
  rw [h]
  exact List.mem_append_right _ List.mem_cons_self

/-- What can happen to a closure: the closure before, the closure after, and the paths claimed
then. -/
inductive ClosureStep (task : Task) (visited : VisitedPaths) :
    Closure → Closure → VisitedPaths → Prop where
  | start (c : Closure) (hbegun : c.begun = false) : ClosureStep task visited c c.start visited
  | settle (c : Closure) (before after : List String) (path : String)
      (horigins : c.origins = []) (hpending : c.pending = before ++ path :: after) :
      ClosureStep task visited c
        ({ c with pending := before ++ after }.take path (task path)) visited
  | known (c : Closure) (origin : String) (origins : List String)
      (horigins : c.origins = origin :: origins)
      (hknown : QueryPath.normalize origin ∈ visited.paths) :
      ClosureStep task visited c { c with origins } visited
  | fresh (c : Closure) (origin : String) (origins : List String)
      (horigins : c.origins = origin :: origins)
      (hfresh : QueryPath.normalize origin ∉ visited.paths) :
      ClosureStep task visited c { c with origins, pending := c.pending ++ [origin] }
        (visited.mark origin)

/-- What can happen to a state. -/
inductive Step (task : Task) (st : State) : State → Prop where
  | known (seed : String) (seeds : List String) (hseeds : st.seeds = seed :: seeds)
      (hknown : QueryPath.normalize (QueryPath.normalize seed) ∈ st.visited.paths) :
      Step task st { st with seeds }
  | fresh (seed : String) (seeds : List String) (hseeds : st.seeds = seed :: seeds)
      (hfresh : QueryPath.normalize (QueryPath.normalize seed) ∉ st.visited.paths) :
      Step task st
        { seeds
          closures := st.closures ++ [.opened (QueryPath.normalize seed)]
          visited := st.visited.mark (QueryPath.normalize seed) }
  | closure (before after : List Closure) (c next : Closure) (visited : VisitedPaths)
      (hclosures : st.closures = before ++ c :: after)
      (hstep : ClosureStep task st.visited c next visited) :
      Step task st { st with closures := before ++ next :: after, visited }

theorem Closure.step_of_settle? {task : Task} {visited : VisitedPaths} {c next : Closure}
    {j : Nat} (h : c.settle? task j = some next) : ClosureStep task visited c next visited := by
  unfold Closure.settle? at h
  split at h
  · next hready =>
    rw [Bool.and_eq_true, List.isEmpty_iff] at hready
    cases hpath : c.pending[j]? with
    | none =>
      rw [hpath] at h
      cases h
    | some path =>
      rw [hpath] at h
      obtain ⟨before, after, hpending, herase, -⟩ := exists_split hpath
      cases h
      rw [herase]
      exact .settle c before after path hready.2 hpending
  · cases h

theorem Closure.step_of_look? {task : Task} {visited visited' : VisitedPaths} {c next : Closure}
    (h : c.look? visited = some (next, visited')) :
    ClosureStep task visited c next visited' := by
  unfold Closure.look? at h
  split at h
  · cases h
  · next origin origins horigins =>
    split at h
    · next hcontains =>
      cases h
      exact .known c origin origins horigins (VisitedPaths.contains_iff.1 hcontains)
    · next hcontains =>
      cases h
      exact .fresh c origin origins horigins (mt VisitedPaths.contains_iff.2 hcontains)

theorem State.step_of_claim? {task : Task} {st st' : State} (h : st.claim? = some st') :
    Step task st st' := by
  unfold State.claim? at h
  split at h
  · cases h
  · next seed seeds hseeds =>
    dsimp only at h
    split at h
    · next hcontains =>
      cases h
      exact .known seed seeds hseeds (VisitedPaths.contains_iff.1 hcontains)
    · next hcontains =>
      cases h
      exact .fresh seed seeds hseeds (mt VisitedPaths.contains_iff.2 hcontains)

/-- Whatever becomes of the closure at a place, the others stay. -/
theorem Step.of_set {task : Task} {st : State} {i : Nat} {c next : Closure}
    {visited : VisitedPaths} (hc : st.closures[i]? = some c)
    (hstep : ClosureStep task st.visited c next visited) :
    Step task st { st with closures := st.closures.set i next, visited } := by
  obtain ⟨before, after, hclosures, -, hset⟩ := exists_split hc
  rw [hset]
  exact .closure before after c next visited hclosures hstep

theorem step_of_step? {task : Task} {limit : Nat} {st st' : State} {move : Move}
    (h : step? task limit st move = some st') : Step task st st' := by
  cases move with
  | claim => exact State.step_of_claim? h
  | start i =>
    simp only [step?, State.start?] at h
    split at h
    · cases h
    · next c hc =>
      split at h
      · cases h
      · next hfree =>
        cases h
        exact .of_set hc (.start c (by simp_all))
  | settle i j =>
    simp only [step?, State.settle?] at h
    split at h
    · cases h
    · next c hc =>
      obtain ⟨next, hnext, rfl⟩ := Option.map_eq_some_iff.1 h
      exact .of_set hc (Closure.step_of_settle? hnext)
  | look i =>
    simp only [step?, State.look?] at h
    split at h
    · cases h
    · next c hc =>
      obtain ⟨⟨next, visited⟩, hnext, rfl⟩ := Option.map_eq_some_iff.1 h
      exact .of_set hc (Closure.step_of_look? hnext)

/-- A run makes its first move and goes on with the others. -/
theorem exec_cons_eq_some {task : Task} {limit : Nat} {st final : State} {move : Move}
    {moves : List Move} :
    exec task limit st (move :: moves) = some final ↔
      ∃ next, step? task limit st move = some next ∧
      exec task limit next moves = some final := by
  unfold exec
  rw [List.foldlM_cons]
  exact Option.bind_eq_some_iff

/-! ## Progress -/

/-- No move can be made. -/
def Finished (task : Task) (limit : Nat) (st : State) : Prop :=
  ∀ move, step? task limit st move = none

/-- All seeds were claimed, and in no closure anything is left to do. -/
structure State.Done (st : State) : Prop where
  seeds : st.seeds = []
  pending : ∀ c ∈ st.closures, c.pending = []
  origins : ∀ c ∈ st.closures, c.origins = []

theorem Closure.isRunning_iff {c : Closure} :
    c.isRunning = true ↔ c.begun = true ∧ (c.pending ≠ [] ∨ c.origins ≠ []) := by
  unfold Closure.isRunning
  rw [Bool.and_eq_true, Bool.not_eq_true', Bool.and_eq_false_iff]
  simp only [List.isEmpty_eq_false_iff, ne_eq]

/-- A closure that runs can settle a task, or has a path to look at. -/
theorem not_isRunning_of_finished {task : Task} {limit : Nat} {st : State}
    (h : Finished task limit st) {c : Closure} (hc : c ∈ st.closures) : c.isRunning ≠ true := by
  intro hrunning
  obtain ⟨hbegun, hleft⟩ := Closure.isRunning_iff.1 hrunning
  obtain ⟨i, hi⟩ := List.getElem?_of_mem hc
  cases horigins : c.origins with
  | nil =>
    cases hpending : c.pending with
    | nil => simp [hpending, horigins] at hleft
    | cons path pending =>
      have hsettle := h (.settle i 0)
      simp [step?, State.settle?, hi, Closure.settle?, hbegun, horigins, hpending] at hsettle
  | cons origin origins =>
    have hlook := h (.look i)
    simp only [step?, State.look?, hi, Closure.look?, horigins, Option.map_eq_none_iff] at hlook
    split at hlook <;> cases hlook

/-- When there is a permit and nothing runs, no closure waits to be started. -/
theorem Finished.begun {task : Task} {limit : Nat} {st : State} (h : Finished task limit st)
    (hlimit : 0 < limit) {c : Closure} (hc : c ∈ st.closures) : c.begun = true := by
  have hrunning : st.running = 0 := by
    unfold State.running
    rw [List.countP_eq_zero]
    intro c hc
    exact not_isRunning_of_finished h hc
  obtain ⟨i, hi⟩ := List.getElem?_of_mem hc
  have hstart := h (.start i)
  simp only [step?, State.start?, hi, hrunning] at hstart
  split at hstart
  · next hclosed =>
    rw [Bool.or_eq_true, decide_eq_true_eq] at hclosed
    exact hclosed.resolve_right (by omega)
  · cases hstart

/-- An expansion does not stop while anything is left to do. -/
theorem Finished.done {task : Task} {limit : Nat} {st : State} (h : Finished task limit st)
    (hlimit : 0 < limit) : st.Done := by
  have hidle : ∀ c ∈ st.closures, ¬(c.pending ≠ [] ∨ c.origins ≠ []) := by
    intro c hc hleft
    apply not_isRunning_of_finished h hc
    exact Closure.isRunning_iff.2 ⟨h.begun hlimit hc, hleft⟩
  constructor
  · cases hseeds : st.seeds with
    | nil => rfl
    | cons seed seeds =>
      have hclaim := h .claim
      simp only [step?, State.claim?, hseeds] at hclaim
      split at hclaim <;> cases hclaim
  · intro c hc
    exact Decidable.byContradiction fun hpending => hidle c hc (Or.inl hpending)
  · intro c hc
    exact Decidable.byContradiction fun horigins => hidle c hc (Or.inr horigins)

theorem State.Done.finished {task : Task} {limit : Nat} {st : State} (h : st.Done)
    (hbegun : ∀ c ∈ st.closures, c.begun = true) : Finished task limit st := by
  intro move
  cases move with
  | claim => simp [step?, State.claim?, h.seeds]
  | start i =>
    simp only [step?, State.start?]
    split
    · rfl
    · next c hc => simp [hbegun c (List.mem_of_getElem? hc)]
  | settle i j =>
    simp only [step?, State.settle?]
    split
    · rfl
    · next c hc => simp [Closure.settle?, h.pending c (List.mem_of_getElem? hc)]
  | look i =>
    simp only [step?, State.look?]
    split
    · rfl
    · next c hc => simp [Closure.look?, h.origins c (List.mem_of_getElem? hc)]

end WebBundler.Expansion
