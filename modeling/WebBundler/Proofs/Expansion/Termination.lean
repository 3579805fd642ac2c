import Mathlib.Algebra.BigOperators.Group.Finset.Basic
import Mathlib.Algebra.Ring.Nat
import WebBundler.Proofs.Expansion.Invariant
set_option autoImplicit false

/-!
# Every run of an expansion ends

The work that is left counts two moves for each seed, one for each closure that was not started
and for each path that is to be looked at, and, for each needed path that has not settled, one
move to settle it and one for each path that it requires.  Every step leaves less work, so when
only finitely many paths are needed no run is longer than the work at the start.
-/

namespace WebBundler.Expansion

/-- The moves that a closure can make without settling a task. -/
def Closure.slack (c : Closure) : Nat := (if c.begun then 0 else 1) + c.origins.length

/-- The paths that have settled in any closure. -/
def State.settled (st : State) : List String := st.closures.flatMap Closure.settled

/-- The work that is left when all that is needed lies in a finite set. -/
def work (task : Task) (all : Finset String) (st : State) : Nat :=
  2 * st.seeds.length + (st.closures.map Closure.slack).sum +
    ∑ path ∈ all \ st.settled.toFinset, ((originsOf task path).length + 1)

/-- A step of a closure uses up a move of it, or settles a task and finds what its module
requires. -/
theorem ClosureStep.slack {task : Task} {visited visited' : VisitedPaths} {c next : Closure}
    (h : ClosureStep task visited c next visited') :
    (next.settled = c.settled ∧ next.slack < c.slack) ∨
      ∃ path ∈ c.pending, next.settled = c.settled ++ [path] ∧
        next.slack = c.slack + (originsOf task path).length := by
  cases h with
  | start hbegun =>
    refine Or.inl ⟨rfl, ?_⟩
    simp [Closure.slack, Closure.start, hbegun]
  | settle before after path horigins hpending =>
    refine Or.inr ⟨path, mem_of_split hpending, Closure.take_settled .., ?_⟩
    · have hnext : ({ c with pending := before ++ after }.take path (task path)).origins =
          originsOf task path := Closure.take_origins task path horigins
      unfold Closure.slack
      rw [hnext, Closure.take_begun, horigins]
      rfl
  | known origin origins horigins hknown =>
    refine Or.inl ⟨rfl, ?_⟩
    simp [Closure.slack, horigins]
  | fresh origin origins horigins hfresh =>
    refine Or.inl ⟨rfl, ?_⟩
    simp [Closure.slack, horigins]

section Work

variable {task : Task} {seeds : List String} {visited : VisitedPaths} {st st' : State}
  {all : Finset String}

/-- What was claimed is pending or has settled. -/
theorem State.claimed_perm_settled (st : State) :
    (st.closures.flatMap Closure.pending ++ st.settled).Perm st.claimed :=
  List.flatMap_append_perm st.closures Closure.pending Closure.settled

theorem not_mem_settled_of_pending (hnodup : st.claimed.Nodup) {c : Closure}
    (hc : c ∈ st.closures) {path : String} (hpath : path ∈ c.pending) : path ∉ st.settled := by
  intro hsettled
  have hparts := st.claimed_perm_settled.nodup_iff.2 hnodup
  have hpending := List.mem_flatMap.2 ⟨c, hc, hpath⟩
  exact List.disjoint_of_nodup_append hparts hpending hsettled

theorem State.settled_perm {before after : List Closure} {c next : Closure} {path : String}
    (hclosures : st.closures = before ++ c :: after)
    (hsettled : next.settled = c.settled ++ [path]) :
    ((before ++ next :: after).flatMap Closure.settled).Perm (path :: st.settled) := by
  unfold State.settled
  rw [hclosures, List.flatMap_append, List.flatMap_append, List.flatMap_cons, List.flatMap_cons,
    hsettled, List.append_assoc, List.singleton_append, ← List.append_assoc,
      ← List.append_assoc]
  exact List.perm_middle

/-- When a path settles, its share of the work is done. -/
theorem sum_settle {path : String} {settled : List String} (hall : path ∈ all)
    (hpath : path ∉ settled) (f : String → Nat) :
    f path + ∑ other ∈ all \ (path :: settled).toFinset, f other =
      ∑ other ∈ all \ settled.toFinset, f other := by
  have hmem : path ∈ all \ settled.toFinset := by
    rw [Finset.mem_sdiff, List.mem_toFinset]
    exact ⟨hall, hpath⟩
  rw [List.toFinset_cons, Finset.sdiff_insert]
  exact Finset.add_sum_erase _ f hmem

/-- Every step leaves less work. -/
theorem Step.work_lt (h : Step task st st') (hst : Expanding task seeds visited st)
    (hall : ∀ path, Needed task seeds visited path → path ∈ all) :
    work task all st' < work task all st := by
  cases h with
  | known seed rest hrest hknown =>
    simp only [work, State.settled, hrest, List.length_cons]
    omega
  | fresh seed rest hrest hfresh =>
    have hslack : (Closure.opened (QueryPath.normalize seed)).slack = 1 := rfl
    have hsettled : (Closure.opened (QueryPath.normalize seed)).settled = [] := rfl
    simp only [work, State.settled, hrest, List.length_cons, List.map_append, List.sum_append,
      List.map_singleton, List.sum_singleton, List.flatMap_append, List.flatMap_singleton,
        hslack,
      hsettled, List.append_nil]
    omega
  | closure before after c next visited' hclosures hstep =>
    have hc : c ∈ st.closures := mem_of_split hclosures
    rcases hstep.slack with ⟨hsettled, hslack⟩ | ⟨path, hpath, hsettled, hslack⟩
    · simp only [work, State.settled, hclosures, List.map_append, List.map_cons,
        List.sum_append, List.sum_cons, List.flatMap_append, List.flatMap_cons, hsettled]
      omega
    · have hfresh : path ∉ st.settled := not_mem_settled_of_pending hst.nodup hc hpath
      have hneeded : path ∈ all := by
        apply hall
        apply hst.needed
        exact List.mem_flatMap.2 ⟨c, hc, Closure.mem_claimed.2 (Or.inl hpath)⟩
      have hperm := State.settled_perm hclosures hsettled
      have hshare := sum_settle hneeded hfresh fun other => (originsOf task other).length + 1
      unfold work
      rw [← hshare, ← List.toFinset_eq_of_perm _ _ hperm, hclosures]
      unfold State.settled
      simp only [List.map_append, List.map_cons, List.sum_append, List.sum_cons, hslack]
      omega

/-- A run and the work that it leaves make up no more than the work before it. -/
theorem Expanding.length_add_work_le {limit : Nat} {moves : List Move}
    (hst : Expanding task seeds visited st) (hnormal : NormalOrigins task)
    (hseeds : NormalSeeds seeds) (hall : ∀ path, Needed task seeds visited path → path ∈ all)
    (h : exec task limit st moves = some st') :
    moves.length + work task all st' ≤ work task all st := by
  induction moves generalizing st with
  | nil =>
    cases h
    rw [List.length_nil, Nat.zero_add]
  | cons move moves ih =>
    obtain ⟨next, hnext, hrest⟩ := exec_cons_eq_some.1 h
    have hstep := step_of_step? hnext
    have hless := hstep.work_lt hst hall
    have htail := ih (hst.step hnormal hseeds hstep) hrest
    rw [List.length_cons]
    omega

/-- A run that was begun comes to an end, by induction on the work that is left. -/
theorem Expanding.exists_finished (limit : Nat) (hnormal : NormalOrigins task)
    (hseeds : NormalSeeds seeds) (hall : ∀ path, Needed task seeds visited path → path ∈ all) :
    ∀ st, Expanding task seeds visited st →
      ∃ moves final, exec task limit st moves = some final ∧ Finished task limit final := by
  intro st
  induction hwork : work task all st using Nat.strongRecOn generalizing st with
  | ind left ih =>
    intro hst
    by_cases hfinished : Finished task limit st
    · exact ⟨[], st, rfl, hfinished⟩
    · obtain ⟨move, hmove⟩ := not_forall.1 hfinished
      obtain ⟨next, hnext⟩ := Option.ne_none_iff_exists'.1 hmove
      have hstep := step_of_step? hnext
      have hless := hstep.work_lt hst hall
      have hexpanding := hst.step hnormal hseeds hstep
      obtain ⟨moves, final, hrun, hend⟩ := ih _ (hwork ▸ hless) next rfl hexpanding
      exact ⟨move :: moves, final, exec_cons_eq_some.2 ⟨next, hnext, hrun⟩, hend⟩

end Work

end WebBundler.Expansion
