import Mathlib.Data.List.Nodup
import WebBundler.Merge.DependencyFirst
import WebBundler.Proofs.Graph.Reachability
set_option autoImplicit false

/-!
# What a dependency-first walk lists

A walk whose answers are fixed in advance, by `allowed`, lists the modules that its start
reaches through allowed modules, each once (`mem_walkOrder_iff`, `walkOrder_nodup`).  A module
stands after what it requires, except where a requirement closes a cycle (`walkOrder_before`).
A refused module is asked about if a listed module requires it (`mem_walkAsked_iff`).

The state that a walk carries from question to question does not influence such a walk, so all
of this is proved for the walk that records its questions (`recordAsked`) and carried over to
any other (`dependencyFirst_eq`).
-/

namespace WebBundler.ModuleSet

variable {σ : Type} {set : ModuleSet} {allowed : QueryPath → Bool}

/-! ## Walks with fixed answers -/

/-- Answer by a fixed rule, and keep the questions in order. -/
def recordAsked (allowed : QueryPath → Bool) (asked : List QueryPath) (p : QueryPath) :
    Bool × List QueryPath :=
  (allowed p, asked ++ [p])

/-- The modules that a walk with fixed answers lists. -/
def walkOrder (set : ModuleSet) (allowed : QueryPath → Bool) (start : QueryPath) :
    List QueryPath :=
  (set.dependencyFirst start (recordAsked allowed) []).1

/-- The modules that a walk with fixed answers asks about, in order. -/
def walkAsked (set : ModuleSet) (allowed : QueryPath → Bool) (start : QueryPath) :
    List QueryPath :=
  (set.dependencyFirst start (recordAsked allowed) []).2

theorem walkFrom_eq {enter : σ → QueryPath → Bool × σ}
    (hfixed : ∀ state p, (enter state p).1 = allowed p) (state : σ)
    (asked visited order : List QueryPath) (stack : List Frame) :
    walkFrom set enter (asked.foldl (fun s p => (enter s p).2) state) visited order stack =
      ((walkFrom set (recordAsked allowed) asked visited order stack).1,
        (walkFrom set (recordAsked allowed) asked visited order stack).2.foldl
          (fun s p => (enter s p).2) state) := by
  fun_induction walkFrom set (recordAsked allowed) asked visited order stack with
  | case1 asked visited order => rw [walkFrom]
  | case2 asked visited order node rest ih =>
    rw [walkFrom]
    exact ih
  | case3 asked visited order node p pending rest hnew hallowed ih =>
    rw [walkFrom, if_pos hnew, hfixed, if_pos (by simpa [recordAsked] using hallowed)]
    simpa [recordAsked] using ih
  | case4 asked visited order node p pending rest hnew hallowed ih =>
    rw [walkFrom, if_pos hnew, hfixed, if_neg (by simpa [recordAsked] using hallowed)]
    simpa [recordAsked] using ih
  | case5 asked visited order node p pending rest hold ih =>
    rw [walkFrom, if_neg hold]
    exact ih

/-- A walk with fixed answers lists what the recording walk lists, and its state has taken in
the same questions in the same order. -/
theorem dependencyFirst_eq {enter : σ → QueryPath → Bool × σ}
    (hfixed : ∀ state p, (enter state p).1 = allowed p) (start : QueryPath) (state : σ) :
    set.dependencyFirst start enter state =
      (set.walkOrder allowed start,
        (set.walkAsked allowed start).foldl (fun s p => (enter s p).2) state) := by
  unfold walkOrder walkAsked dependencyFirst
  rw [hfixed]
  by_cases hstart : allowed start = true
  · have h : walkFrom set enter _ _ _ _ = _ :=
      walkFrom_eq hfixed state [start] [start] [] [⟨start, set.requiresOf start⟩]
    simpa [recordAsked, hstart] using h
  · simp [recordAsked, hstart]

/-- A walk that carries no state lists what the recording walk lists. -/
theorem dependencyFirst_stateless (set : ModuleSet) (allowed : QueryPath → Bool)
    (start : QueryPath) :
    (set.dependencyFirst start (fun (_ : Unit) p => (allowed p, ())) ()).1 =
      set.walkOrder allowed start := by
  have hfixed : ∀ (state : Unit) (p : QueryPath),
      ((fun (_ : Unit) p => (allowed p, ())) state p).1 = allowed p := fun _ _ => rfl
  exact congrArg Prod.fst (dependencyFirst_eq hfixed start ())

/-! ## The invariant of a walk -/

/-- A module was entered, or was refused when the walk asked about it. -/
def Answered (allowed : QueryPath → Bool) (visited asked : List QueryPath) (p : QueryPath) :
    Prop :=
  p ∈ visited ∨ (allowed p = false ∧ p ∈ asked)

theorem Answered.mono {visited visited' asked asked' : List QueryPath} {p : QueryPath}
    (hvisited : visited ⊆ visited') (hasked : asked ⊆ asked')
    (h : Answered allowed visited asked p) :
    Answered allowed visited' asked' p :=
  h.imp (fun hp => hvisited hp) fun hp => ⟨hp.1, hasked hp.2⟩

/-- What holds of a walk that has asked `asked`, entered `visited`, left `order`, and is still
inside the modules of `stack`, the innermost first. -/
structure Walking (set : ModuleSet) (allowed : QueryPath → Bool) (start : QueryPath)
    (visited order asked : List QueryPath) (stack : List Frame) : Prop where
  /-- An entered module was left, or the walk is inside it. -/
  entered : ∀ p, p ∈ visited ↔ p ∈ order ∨ p ∈ stack.map Frame.node
  nodup : (order ++ stack.map Frame.node).Nodup
  start_mem : start ∈ visited
  reached : ∀ p ∈ visited, set.ReachesThrough allowed start p
  /-- The walk came to each module that it is inside through all those around it. -/
  inside : (stack.map Frame.node).Pairwise fun inner outer =>
    set.ReachesThrough allowed outer inner
  pending : ∀ f ∈ stack, ∀ q ∈ f.pending, q ∈ set.requiresOf f.node
  /-- What a module requires was answered, or is still to be looked at. -/
  seen : ∀ f ∈ stack, ∀ q, set.Requires f.node q →
    Answered allowed visited asked q ∨ q ∈ f.pending
  left : ∀ u ∈ order, ∀ q, set.Requires u q → Answered allowed visited asked q
  /-- When a module was left, an allowed one that it requires had been left before, or lies on
  the way to the module. -/
  before : ∀ listed u rest, order = listed ++ u :: rest →
    ∀ v, set.Requires u v → allowed v = true → v ∈ listed ∨ set.ReachesThrough allowed v u
  asked_required : ∀ p ∈ asked, p = start ∨ ∃ u ∈ visited, set.Requires u p

namespace Walking

variable {start node p : QueryPath} {visited order asked pending : List QueryPath}
  {rest : List Frame}

theorem initial :
    Walking set allowed start [start] [] [start] [⟨start, set.requiresOf start⟩] where
  entered p := by simp
  nodup := by simp
  start_mem := by simp
  reached p hp := by rw [List.mem_singleton.1 hp]; exact .refl
  inside := by simp
  pending f hf q hq := by rw [List.mem_singleton.1 hf] at hq ⊢; exact hq
  seen f hf q hq := by
    rw [List.mem_singleton.1 hf] at hq ⊢
    exact .inr (requires_iff.1 hq).1
  left u hu := by simp at hu
  before listed u rest h := by simp at h
  asked_required p hp := .inl (by simpa using hp)

/-- The module that the walk is inside requires what is next on its list, if that is in the
set. -/
theorem requires_next
    (h : Walking set allowed start visited order asked (⟨node, p :: pending⟩ :: rest))
    (hmem : p ∈ set.paths) : set.Requires node p :=
  requires_iff.2 ⟨h.pending _ List.mem_cons_self p List.mem_cons_self, hmem⟩

theorem node_mem (h : Walking set allowed start visited order asked (⟨node, pending⟩ :: rest)) :
    node ∈ visited :=
  (h.entered node).2 (.inr List.mem_cons_self)

/-- The walk leaves a module all of whose references were looked at. -/
theorem leave (h : Walking set allowed start visited order asked (⟨node, []⟩ :: rest)) :
    Walking set allowed start visited (order ++ [node]) asked rest where
  entered p := by
    have hp := h.entered p
    simp only [List.map_cons, List.mem_cons] at hp
    simp only [List.mem_append, List.mem_singleton, hp, or_assoc]
  nodup := by simpa using h.nodup
  start_mem := h.start_mem
  reached := h.reached
  inside := (List.pairwise_cons.1 h.inside).2
  pending f hf := h.pending f (List.mem_cons_of_mem _ hf)
  seen f hf := h.seen f (List.mem_cons_of_mem _ hf)
  left u hu q hq := by
    rcases List.mem_append.1 hu with hu | hu
    · exact h.left u hu q hq
    · rw [List.mem_singleton.1 hu] at hq
      simpa using h.seen _ List.mem_cons_self q hq
  before listed u after hsplit v hv hallowed := by
    rcases List.eq_nil_or_concat after with rfl | ⟨after, last, rfl⟩
    · -- The module just left: all that it requires and that is allowed was entered.
      obtain ⟨rfl, hu⟩ := List.append_inj' hsplit rfl
      obtain rfl : node = u := by simpa using hu
      have hentered : v ∈ visited := by
        simpa [Answered, hallowed] using h.seen _ List.mem_cons_self v hv
      rcases (h.entered v).1 hentered with hleft | hinside
      · exact .inl hleft
      · right
        rcases List.mem_cons.1 hinside with rfl | houter
        · exact .refl
        · exact (List.pairwise_cons.1 h.inside).1 v houter
    · have hsplit' : order ++ [node] = (listed ++ u :: after) ++ [last] := by simpa using hsplit
      exact h.before listed u after (List.append_inj' hsplit' rfl).1 v hv hallowed
  asked_required := h.asked_required

/-- The walk enters an allowed module that is required. -/
theorem enter (h : Walking set allowed start visited order asked (⟨node, p :: pending⟩ :: rest))
    (hmem : p ∈ set.paths) (hnew : p ∉ visited) (hallowed : allowed p = true) :
    Walking set allowed start (p :: visited) order (asked ++ [p])
      (⟨p, set.requiresOf p⟩ :: ⟨node, pending⟩ :: rest) := by
  have hedge := h.requires_next hmem
  have hanswered : ∀ q, Answered allowed visited asked q →
      Answered allowed (p :: visited) (asked ++ [p]) q :=
    fun q => Answered.mono (List.subset_cons_self _ _) (List.subset_append_left _ _)
  exact {
    entered := fun q => by
      have hq := h.entered q
      simp only [List.map_cons, List.mem_cons] at hq ⊢
      rw [hq, or_left_comm]
    nodup := by
      have hfresh : p ∉ order ++ node :: rest.map Frame.node := by
        simpa [h.entered p] using hnew
      simp only [List.map_cons]
      exact List.perm_middle.nodup_iff.2 (List.nodup_cons.2 ⟨hfresh, h.nodup⟩)
    start_mem := List.mem_cons_of_mem _ h.start_mem
    reached := fun q hq => by
      rcases List.mem_cons.1 hq with rfl | hq
      · exact (h.reached node h.node_mem).tail ⟨hedge, hallowed⟩
      · exact h.reached q hq
    inside := by
      refine List.pairwise_cons.2 ⟨fun q hq => ?_, h.inside⟩
      rcases List.mem_cons.1 hq with rfl | houter
      · exact .single ⟨hedge, hallowed⟩
      · exact ((List.pairwise_cons.1 h.inside).1 q houter).tail ⟨hedge, hallowed⟩
    pending := by
      have hpending := h.pending
      simp only [List.forall_mem_cons] at hpending ⊢
      exact ⟨fun q hq => hq, hpending.1.2, hpending.2⟩
    seen := by
      have hseen := h.seen
      simp only [List.forall_mem_cons] at hseen ⊢
      refine ⟨fun q hq => .inr (requires_iff.1 hq).1, fun q hq => ?_, fun f hf q hq => ?_⟩
      · rcases hseen.1 q hq with hq | hq
        · exact .inl (hanswered q hq)
        · rcases List.mem_cons.1 hq with rfl | hq
          · exact .inl (.inl List.mem_cons_self)
          · exact .inr hq
      · exact (hseen.2 f hf q hq).imp_left (hanswered q)
    left := fun u hu q hq => hanswered q (h.left u hu q hq)
    before := h.before
    asked_required := fun q hq => by
      rcases List.mem_append.1 hq with hq | hq
      · exact (h.asked_required q hq).imp_right fun ⟨u, hu, hedge⟩ =>
          ⟨u, List.mem_cons_of_mem _ hu, hedge⟩
      · rw [List.mem_singleton.1 hq]
        exact .inr ⟨node, List.mem_cons_of_mem _ h.node_mem, hedge⟩ }

/-- One more question, about a module that an entered one requires. -/
theorem ask {stack : List Frame} (h : Walking set allowed start visited order asked stack)
    (hnode : node ∈ visited) (hedge : set.Requires node p) :
    Walking set allowed start visited order (asked ++ [p]) stack :=
  have hanswered : ∀ q, Answered allowed visited asked q →
      Answered allowed visited (asked ++ [p]) q :=
    fun _ => Answered.mono (List.Subset.refl _) (List.subset_append_left _ _)
  { h with
    seen := fun f hf q hq => (h.seen f hf q hq).imp_left (hanswered q)
    left := fun u hu q hq => hanswered q (h.left u hu q hq)
    asked_required := fun q hq => by
      rcases List.mem_append.1 hq with hq | hq
      · exact h.asked_required q hq
      · rw [List.mem_singleton.1 hq]
        exact .inr ⟨node, hnode, hedge⟩ }

/-- The walk passes over a reference that leads out of the set or was answered. -/
theorem skip (h : Walking set allowed start visited order asked (⟨node, p :: pending⟩ :: rest))
    (hp : p ∈ set.paths → Answered allowed visited asked p) :
    Walking set allowed start visited order asked (⟨node, pending⟩ :: rest) where
  entered := h.entered
  nodup := h.nodup
  start_mem := h.start_mem
  reached := h.reached
  inside := h.inside
  pending := by
    have hpending := h.pending
    simp only [List.forall_mem_cons] at hpending ⊢
    exact ⟨hpending.1.2, hpending.2⟩
  seen := by
    have hseen := h.seen
    simp only [List.forall_mem_cons] at hseen ⊢
    refine ⟨fun q hq => ?_, hseen.2⟩
    rcases hseen.1 q hq with hanswered | hpending
    · exact .inl hanswered
    · rcases List.mem_cons.1 hpending with rfl | hpending
      · exact .inl (hp hq.mem_paths)
      · exact .inr hpending
  left := h.left
  before := h.before
  asked_required := h.asked_required

/-- The invariant holds at the end of a walk if it held on the way. -/
theorem finish {stack : List Frame} (h : Walking set allowed start visited order asked stack) :
    ∃ visited', Walking set allowed start visited'
      (walkFrom set (recordAsked allowed) asked visited order stack).1
      (walkFrom set (recordAsked allowed) asked visited order stack).2 [] := by
  fun_induction walkFrom set (recordAsked allowed) asked visited order stack with
  | case1 asked visited order => exact ⟨visited, h⟩
  | case2 asked visited order node rest ih => exact ih h.leave
  | case3 asked visited order node p pending rest hnew hallowed ih =>
    exact ih (h.enter hnew.1 hnew.2 hallowed)
  | case4 asked visited order node p pending rest hnew hrefused ih =>
    have hasked := h.ask h.node_mem (h.requires_next hnew.1)
    exact ih (hasked.skip fun _ =>
      .inr ⟨by simpa [recordAsked] using hrefused, List.mem_append_right _ (by simp)⟩)
  | case5 asked visited order node p pending rest hold ih =>
    exact ih (h.skip fun hmem => .inl (Classical.byContradiction fun hnew => hold ⟨hmem, hnew⟩))

end Walking

/-! ## What is listed, and what is asked -/

variable {start p u v : QueryPath}

theorem walkOrder_of_refused (hstart : allowed start = false) :
    set.walkOrder allowed start = [] := by
  simp [walkOrder, dependencyFirst, recordAsked, hstart]

theorem walkAsked_of_refused (hstart : allowed start = false) :
    set.walkAsked allowed start = [start] := by
  simp [walkAsked, dependencyFirst, recordAsked, hstart]

theorem exists_walking (set : ModuleSet) (hstart : allowed start = true) :
    ∃ visited, Walking set allowed start visited (set.walkOrder allowed start)
      (set.walkAsked allowed start) [] := by
  have h : Walking set allowed start _ _ _ _ := .initial
  simpa [walkOrder, walkAsked, dependencyFirst, recordAsked, hstart] using h.finish

/-- A walk lists the modules that its start reaches through allowed modules, the start among
them. -/
theorem mem_walkOrder_iff :
    p ∈ set.walkOrder allowed start ↔
      allowed start = true ∧ set.ReachesThrough allowed start p := by
  by_cases hstart : allowed start = true
  · obtain ⟨visited, h⟩ := exists_walking set hstart
    have hlisted : ∀ q, q ∈ visited ↔ q ∈ set.walkOrder allowed start := by
      simpa using h.entered
    constructor
    · intro hp
      exact ⟨hstart, h.reached p ((hlisted p).2 hp)⟩
    · rintro ⟨-, hreach⟩
      induction hreach with
      | refl => exact (hlisted start).1 h.start_mem
      | @tail u v hreach hstep ih =>
        have hanswered := h.left u ih v hstep.1
        have hentered : v ∈ visited := by simpa [Answered, hstep.2] using hanswered
        exact (hlisted v).1 hentered
  · have hrefused : allowed start = false := by simpa using hstart
    simp [walkOrder_of_refused hrefused, hrefused]

theorem walkOrder_nodup : (set.walkOrder allowed start).Nodup := by
  by_cases hstart : allowed start = true
  · obtain ⟨visited, h⟩ := exists_walking set hstart
    simpa using h.nodup
  · simp [walkOrder_of_refused (by simpa using hstart)]

/-- In the list of a walk, an allowed module stands before a module that requires it, unless it
lies on the way to that module. -/
theorem walkOrder_before {listed rest : List QueryPath}
    (hsplit : set.walkOrder allowed start = listed ++ u :: rest) (hv : set.Requires u v)
    (hallowed : allowed v = true) : v ∈ listed ∨ set.ReachesThrough allowed v u := by
  have hu : u ∈ set.walkOrder allowed start := by simp [hsplit]
  obtain ⟨visited, h⟩ := exists_walking set (mem_walkOrder_iff.1 hu).1
  exact h.before listed u rest hsplit v hv hallowed

theorem idxOf_lt_of_mem_before {listed rest : List QueryPath}
    (hnodup : (listed ++ u :: rest).Nodup) (hv : v ∈ listed) :
    (listed ++ u :: rest).idxOf v < (listed ++ u :: rest).idxOf u := by
  have hfresh : u ∉ listed := fun hu => (List.nodup_append'.1 hnodup).2.2 hu List.mem_cons_self
  rw [List.idxOf_append_of_mem hv, List.idxOf_append_of_notMem hfresh, List.idxOf_cons_self,
    Nat.add_zero]
  exact List.idxOf_lt_length_iff.2 hv

/-- A walk asks about nothing but its start and what the modules that it lists require. -/
theorem asked_required (hp : p ∈ set.walkAsked allowed start) :
    p = start ∨ ∃ u ∈ set.walkOrder allowed start, set.Requires u p := by
  by_cases hstart : allowed start = true
  · obtain ⟨visited, h⟩ := exists_walking set hstart
    simpa [h.entered] using h.asked_required p hp
  · rw [walkAsked_of_refused (by simpa using hstart)] at hp
    exact .inl (by simpa using hp)

/-- A refused module is asked about if it is the start or a listed module requires it. -/
theorem mem_walkAsked_iff (hp : allowed p = false) :
    p ∈ set.walkAsked allowed start ↔
      p = start ∨ ∃ u ∈ set.walkOrder allowed start, set.Requires u p := by
  constructor
  · exact asked_required
  · intro h
    by_cases hstart : allowed start = true
    · obtain ⟨visited, hwalk⟩ := exists_walking set hstart
      rcases h with rfl | ⟨u, hu, hedge⟩
      · rw [hp] at hstart
        contradiction
      · rcases hwalk.left u hu p hedge with hentered | ⟨-, hasked⟩
        · have hallowed := (hwalk.reached p hentered).allowed_of hstart
          rw [hp] at hallowed
          contradiction
        · exact hasked
    · have hrefused : allowed start = false := by simpa using hstart
      simpa [walkAsked_of_refused hrefused, walkOrder_of_refused hrefused] using h

end WebBundler.ModuleSet
