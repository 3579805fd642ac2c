import WebBundler.Proofs.Graph.DependencyFirst
set_option autoImplicit false

/-!
# The depth-first order

`DepthFirst next` describes a descent without a stack: what is met for the first time is
entered, all below it comes first, then it is listed itself, and what was entered before is
passed over.  The relation is about a function that says what comes next after a path, so two
module sets with the same references have the same order, whatever else they differ in.

The walk over a set, which keeps a stack of frames, lists what such a descent lists
(`depthFirst_walkOrder`).  So with answers that depend on the module alone, a walk lists what
the start reaches through allowed modules, each once, and a module stands behind what it
requires wherever no cycle forbids it (`dependencyFirst_lists_allowed`).
-/

namespace WebBundler

/-- A descent to paths in turn: what was entered before, the paths, what is listed on the way,
and what was entered afterwards. -/
inductive DepthFirst (next : QueryPath → List QueryPath) :
    List QueryPath → List QueryPath → List QueryPath → List QueryPath → Prop where
  | done (visited : List QueryPath) : DepthFirst next visited [] [] visited
  | known {p : QueryPath} {paths visited order visited' : List QueryPath} (hp : p ∈ visited)
      (hrest : DepthFirst next visited paths order visited') :
      DepthFirst next visited (p :: paths) order visited'
  | enter {p : QueryPath} {paths visited below inner order visited' : List QueryPath}
      (hp : p ∉ visited) (hbelow : DepthFirst next (p :: visited) (next p) below inner)
      (hrest : DepthFirst next inner paths order visited') :
      DepthFirst next visited (p :: paths) (below ++ p :: order) visited'

namespace DepthFirst

variable {next next' : QueryPath → List QueryPath}
  {visited visited' visited'' paths order order' : List QueryPath}

/-- A descent has one order only. -/
theorem unique (h : DepthFirst next visited paths order visited')
    (h' : DepthFirst next visited paths order' visited'') :
    order = order' ∧ visited' = visited'' := by
  induction h generalizing order' visited'' with
  | done => cases h'; exact ⟨rfl, rfl⟩
  | known hp _ ih =>
    cases h' with
    | known _ hrest => exact ih hrest
    | enter hnew => exact absurd hp hnew
  | enter hnew _ _ ihbelow ihrest =>
    cases h' with
    | known hp => exact absurd hp hnew
    | enter _ hbelow hrest =>
      obtain ⟨rfl, rfl⟩ := ihbelow hbelow
      obtain ⟨rfl, rfl⟩ := ihrest hrest
      exact ⟨rfl, rfl⟩

theorem visited_subset (h : DepthFirst next visited paths order visited') :
    visited ⊆ visited' := by
  induction h with
  | done => exact List.Subset.refl _
  | known _ _ ih => exact ih
  | enter _ _ _ ihbelow ihrest =>
    exact List.Subset.trans (List.subset_cons_self _ _) (List.Subset.trans ihbelow ihrest)

/-- A descent to one path lists it last. -/
theorem getLast?_order {p : QueryPath} (h : DepthFirst next [] [p] order visited') :
    order.getLast? = some p := by
  cases h with
  | known hp => exact absurd hp List.not_mem_nil
  | enter _ _ hrest =>
    cases hrest
    exact List.getLast?_concat

/-- References to what was entered from the start make no difference to a descent. -/
theorem of_filter (h : DepthFirst next visited paths order visited') {keep : QueryPath → Bool}
    {known : List QueryPath} (hknown : known ⊆ visited)
    (hpaths : ∀ q ∈ paths, keep q = false → q ∈ known)
    (hbelow : ∀ p ∈ order, ∀ q ∈ next p, keep q = false → q ∈ known)
    (hsame : ∀ p ∈ order, next' p = (next p).filter keep) :
    DepthFirst next' visited (paths.filter keep) order visited' := by
  induction h with
  | done => exact .done _
  | @known p paths visited order visited' hp _ ih =>
    rw [List.forall_mem_cons] at hpaths
    have hrest := ih hknown hpaths.2 hbelow hsame
    cases hkeep : keep p with
    | true =>
      rw [List.filter_cons_of_pos hkeep]
      exact .known hp hrest
    | false =>
      rw [List.filter_cons_of_neg (by simp [hkeep])]
      exact hrest
  | @enter p paths visited below inner order visited' hnew hdescent _ ihbelow ihrest =>
    rw [List.forall_mem_cons] at hpaths
    rw [List.forall_mem_append, List.forall_mem_cons] at hbelow hsame
    have hkeep : keep p = true := by
      rw [← Bool.not_eq_false]
      exact fun hdropped => hnew (hknown (hpaths.1 hdropped))
    have hinner : known ⊆ inner :=
      List.Subset.trans (List.subset_cons_of_subset p hknown) hdescent.visited_subset
    rw [List.filter_cons_of_pos hkeep]
    refine .enter hnew ?_ (ihrest hinner hpaths.2 hbelow.2.2 hsame.2.2)
    rw [hsame.2.1]
    exact ihbelow (List.subset_cons_of_subset p hknown) hbelow.2.1 hbelow.1 hsame.1

end DepthFirst

namespace ModuleSet

variable {set : ModuleSet} {allowed : QueryPath → Bool}

/-! ## The walk over a set -/

/-- Whether a walk with fixed answers may enter a path. -/
def mayEnter (set : ModuleSet) (allowed : QueryPath → Bool) (p : QueryPath) : Bool :=
  set.contains p && allowed p

/-- What a walk with fixed answers goes on to from a module. -/
def allowedNext (set : ModuleSet) (allowed : QueryPath → Bool) (p : QueryPath) :
    List QueryPath :=
  (set.requiresOf p).filter (set.mayEnter allowed)

theorem mayEnter_iff {p : QueryPath} :
    set.mayEnter allowed p = true ↔ p ∈ set.paths ∧ allowed p = true := by
  rw [mayEnter, Bool.and_eq_true, contains_iff]

/-- What is listed while the frames of a stack are left one after the other, the innermost
first. -/
inductive Unwinds (set : ModuleSet) (allowed : QueryPath → Bool) :
    List QueryPath → List Frame → List QueryPath → Prop where
  | done (visited : List QueryPath) : Unwinds set allowed visited [] []
  | leave {node : QueryPath} {pending : List QueryPath} {stack : List Frame}
      {visited below inner order : List QueryPath}
      (hbelow : DepthFirst (set.allowedNext allowed) visited
        (pending.filter (set.mayEnter allowed)) below inner)
      (hrest : Unwinds set allowed inner stack order) :
      Unwinds set allowed visited (⟨node, pending⟩ :: stack) (below ++ node :: order)

/-- A walk goes on from a stack as the frames are left. -/
theorem exists_unwinds (set : ModuleSet) (allowed : QueryPath → Bool)
    (asked visited order : List QueryPath) (stack : List Frame) :
    ∃ listed, Unwinds set allowed visited stack listed ∧
      (walkFrom set (recordAsked allowed) asked visited order stack).1 = order ++ listed := by
  fun_induction walkFrom set (recordAsked allowed) asked visited order stack with
  | case1 asked visited order => exact ⟨[], .done visited, (List.append_nil order).symm⟩
  | case2 asked visited order node rest ih =>
    obtain ⟨listed, hlisted, hwalk⟩ := ih
    have hleft : Unwinds set allowed visited (⟨node, []⟩ :: rest) ([] ++ node :: listed) :=
      .leave (.done visited) hlisted
    refine ⟨node :: listed, hleft, ?_⟩
    rw [hwalk, List.append_assoc, List.singleton_append]
  | case3 asked visited order node p pending rest hnew hallowed ih =>
    obtain ⟨listed, hlisted, hwalk⟩ := ih
    refine ⟨listed, ?_, hwalk⟩
    have hkeep : set.mayEnter allowed p = true := mayEnter_iff.2 ⟨hnew.1, hallowed⟩
    -- The frame of `p` and that of the module around it are left in turn.
    obtain _ | @⟨_, _, _, _, below, inner, _, hbelow, hrest⟩ := hlisted
    obtain _ | @⟨_, _, _, _, after, _, order', hafter, hrest⟩ := hrest
    have hjoined : Unwinds set allowed visited (⟨node, p :: pending⟩ :: rest)
        ((below ++ p :: after) ++ node :: order') := by
      refine .leave ?_ hrest
      rw [List.filter_cons_of_pos hkeep]
      exact .enter hnew.2 hbelow hafter
    rwa [List.append_assoc, List.cons_append] at hjoined
  | case4 asked visited order node p pending rest hnew hrefused ih =>
    obtain ⟨listed, hlisted, hwalk⟩ := ih
    refine ⟨listed, ?_, hwalk⟩
    have hkeep : ¬ set.mayEnter allowed p = true :=
      fun hkept => hrefused (mayEnter_iff.1 hkept).2
    obtain _ | ⟨hbelow, hrest⟩ := hlisted
    refine .leave ?_ hrest
    rw [List.filter_cons_of_neg hkeep]
    exact hbelow
  | case5 asked visited order node p pending rest hold ih =>
    obtain ⟨listed, hlisted, hwalk⟩ := ih
    refine ⟨listed, ?_, hwalk⟩
    obtain _ | ⟨hbelow, hrest⟩ := hlisted
    refine .leave ?_ hrest
    by_cases hkeep : set.mayEnter allowed p = true
    · rw [List.filter_cons_of_pos hkeep]
      exact .known (Classical.byContradiction fun hnew => hold ⟨(mayEnter_iff.1 hkeep).1, hnew⟩)
        hbelow
    · rw [List.filter_cons_of_neg hkeep]
      exact hbelow

/-- A walk that enters its start lists the depth-first order below it. -/
theorem depthFirst_walkOrder (set : ModuleSet) (allowed : QueryPath → Bool) (start : QueryPath)
    (hstart : allowed start = true) :
    ∃ visited, DepthFirst (set.allowedNext allowed) [] [start]
      (set.walkOrder allowed start) visited := by
  obtain ⟨listed, hlisted, hwalk⟩ :=
    set.exists_unwinds allowed [start] [start] [] [⟨start, set.requiresOf start⟩]
  have horder : set.walkOrder allowed start = listed := by
    simpa [walkOrder, dependencyFirst, recordAsked, hstart] using hwalk
  obtain _ | @⟨_, _, _, _, below, inner, order, hbelow, hrest⟩ := hlisted
  cases hrest
  rw [horder]
  exact ⟨inner, .enter List.not_mem_nil hbelow (.done inner)⟩

/-! ## Walks with fixed answers -/

/-- Between modules that a walk lists, every reference is an edge. -/
theorem requires_of_mem_walkOrder {start u v : QueryPath} (hu : u ∈ set.walkOrder allowed start)
    (hv : v ∈ set.walkOrder allowed start) (href : v ∈ set.requiresOf u) :
    set.Requires u v := by
  have hinside : u ∈ set.paths := by
    by_contra habsent
    rw [requiresOf_eq_nil_of_not_mem habsent] at href
    exact List.not_mem_nil href
  rw [requires_iff]
  refine ⟨href, ?_⟩
  obtain ⟨-, hreach⟩ := mem_walkOrder_iff.1 hv
  rcases Relation.ReflTransGen.cases_tail hreach with rfl | ⟨_, -, hedge, -⟩
  · -- The walk starts in the set, since it has come to a module of the set.
    obtain ⟨-, hway⟩ := mem_walkOrder_iff.1 hu
    rcases Relation.ReflTransGen.cases_head hway with rfl | ⟨_, ⟨hedge, -⟩, -⟩
    · exact hinside
    · exact hedge.source_mem_paths
  · exact hedge.mem_paths

/-- **What a walk lists whose answers depend on the module alone.**  If the start is refused,
nothing.  Otherwise the modules that the start reaches through allowed modules, each once, the
start last.  What a listed module requires and is listed too stands before it, unless it reaches
that module through allowed modules. -/
theorem dependencyFirst_lists_allowed {σ : Type} (set : ModuleSet) (allowed : QueryPath → Bool)
    (enter : σ → QueryPath → Bool × σ) (hfixed : ∀ state p, (enter state p).1 = allowed p)
    (start : QueryPath) (state : σ) :
    let order := (set.dependencyFirst start enter state).1
    (allowed start = false → order = []) ∧
      (allowed start = true →
        order.Nodup ∧ (∀ p, p ∈ order ↔ set.ReachesThrough allowed start p) ∧
          order.getLast? = some start) ∧
      ∀ u ∈ order, ∀ v ∈ order, v ∈ set.requiresOf u →
        order.idxOf v < order.idxOf u ∨ set.ReachesThrough allowed v u := by
  intro order
  have horder : order = set.walkOrder allowed start :=
    congrArg Prod.fst (dependencyFirst_eq hfixed start state)
  rw [horder]
  refine ⟨walkOrder_of_refused, ?_, ?_⟩
  · intro hstart
    obtain ⟨visited, hdescent⟩ := set.depthFirst_walkOrder allowed start hstart
    refine ⟨walkOrder_nodup, fun p => ?_, hdescent.getLast?_order⟩
    rw [mem_walkOrder_iff]
    exact and_iff_right hstart
  · intro u hu v hv href
    have hedge := requires_of_mem_walkOrder hu hv href
    obtain ⟨hstart, hreach⟩ := mem_walkOrder_iff.1 hv
    obtain ⟨listed, rest, hsplit⟩ := List.append_of_mem hu
    have hnodup : (listed ++ u :: rest).Nodup := hsplit ▸ walkOrder_nodup
    rw [hsplit]
    exact (walkOrder_before hsplit hedge (hreach.allowed_of hstart)).imp_left
      (idxOf_lt_of_mem_before hnodup)

/-- A cycle with a module below it, a module that is refused, and references that are repeated
or lead out of the set. -/
def looped : ModuleSet where
  modules := [
    { Module.empty ⟨"/a"⟩ .script with requires := [⟨"/b"⟩, ⟨"/b"⟩, ⟨"/absent"⟩, ⟨"/refused"⟩]
      },
    { Module.empty ⟨"/b"⟩ .script with requires := [⟨"/a"⟩, ⟨"/c"⟩] },
    { Module.empty ⟨"/c"⟩ .script with requires := [] },
    { Module.empty ⟨"/refused"⟩ .script with requires := [⟨"/c"⟩] }]
  nodup := by decide

theorem dependencyFirst_lists_loop :
    let allowed (p : QueryPath) : Bool := p ≠ ⟨"/refused"⟩
    let count (asked : Nat) (p : QueryPath) : Bool × Nat := (allowed p, asked + 1)
    let order := (looped.dependencyFirst ⟨"/a"⟩ count 0).1
    (∀ asked p, (count asked p).1 = allowed p) ∧ allowed ⟨"/a"⟩ = true ∧
      order.getLast? = some ⟨"/a"⟩ ∧
      ⟨"/b"⟩ ∈ order ∧ ⟨"/c"⟩ ∈ order ∧ ⟨"/refused"⟩ ∉ order ∧
      (order.idxOf ⟨"/c"⟩ < order.idxOf ⟨"/b"⟩ ∨
        looped.ReachesThrough allowed ⟨"/c"⟩ ⟨"/b"⟩) := by
  intro allowed count order
  have hfixed : ∀ asked p, (count asked p).1 = allowed p := fun _ _ => rfl
  obtain ⟨-, hlisted, hbefore⟩ :=
    dependencyFirst_lists_allowed looped allowed count hfixed ⟨"/a"⟩ 0
  obtain ⟨-, hmem, hlast⟩ := hlisted (by decide)
  have hab : looped.Requires ⟨"/a"⟩ ⟨"/b"⟩ := by unfold Requires; decide
  have hbc : looped.Requires ⟨"/b"⟩ ⟨"/c"⟩ := by unfold Requires; decide
  have hb : ⟨"/b"⟩ ∈ order := (hmem _).2 (.single ⟨hab, by decide⟩)
  have hc : ⟨"/c"⟩ ∈ order := (hmem _).2 (.tail (.single ⟨hab, by decide⟩) ⟨hbc, by decide⟩)
  refine ⟨hfixed, by decide, hlast, hb, hc, fun href => ?_, hbefore _ hb _ hc (by decide)⟩
  exact absurd (((hmem _).1 href).allowed_of (by decide)) (by decide)

end ModuleSet

end WebBundler
