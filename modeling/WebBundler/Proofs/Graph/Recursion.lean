import WebBundler.Proofs.Graph.DependencyFirst
set_option autoImplicit false

/-!
# The dependency-first walk by recursion

`descend` walks without a stack: it looks at paths in turn, and what it enters is listed behind
all that is listed from its references.  Like the walk that keeps a stack, it asks before it
enters a module, and carries a state from one question to the next.  Both list the same and ask
the same questions, whatever the answers are (`dependencyFirst_eq_descend`).

What a descent lists depends only on the part of a set that it can come to
(`SameWithin.descend_eq`).
-/

namespace WebBundler.ModuleSet

variable {σ : Type} {set : ModuleSet}

/-- Descend to paths in turn.  One that names a module of the set that was not entered before is
asked about; if it may be entered, it is listed behind all that is listed from its
references. -/
def descend (set : ModuleSet) (enter : σ → QueryPath → Bool × σ) (state : σ)
    (visited : List QueryPath) :
    List QueryPath → List QueryPath × σ
  | [] => ([], state)
  | p :: paths =>
    if p ∈ set.paths ∧ p ∉ visited then
      if (enter state p).1 then
        let below := descend set enter (enter state p).2 (p :: visited) (set.requiresOf p)
        let after := descend set enter below.2 (below.1 ++ p :: visited) paths
        (below.1 ++ p :: after.1, after.2)
      else descend set enter (enter state p).2 visited paths
    else descend set enter state visited paths
termination_by paths => (set.remaining (visited.contains ·), paths.length)
decreasing_by
  · next hnew _ =>
    refine Prod.Lex.left _ _ (remaining_lt (x := p) (fun q hq => ?_) hnew.1 ?_ ?_)
    · simp only [List.contains_cons, Bool.or_eq_true]; exact Or.inr hq
    · simpa using hnew.2
    · simp
  · next hnew _ =>
    refine Prod.Lex.left _ _ (remaining_lt (x := p) (fun q hq => ?_) hnew.1 ?_ ?_)
    · simp only [List.contains_eq_mem, List.mem_append, List.mem_cons, decide_eq_true_eq]
        at hq ⊢
      exact Or.inr (Or.inr hq)
    · simpa using hnew.2
    · simp
  · exact Prod.Lex.right _ (by simp)
  · exact Prod.Lex.right _ (by simp)

/-! ## Both walks list the same -/

/-- A walk with a stack depends on which modules were entered, not on their order. -/
theorem walkFrom_congr {enter : σ → QueryPath → Bool × σ} {state : σ}
    {visited visited' order : List QueryPath} {stack : List Frame}
    (hsame : ∀ p, p ∈ visited ↔ p ∈ visited') :
    set.walkFrom enter state visited order stack =
      set.walkFrom enter state visited' order stack := by
  fun_induction walkFrom set enter state visited order stack generalizing visited' with
  | case1 state visited order => rw [walkFrom]
  | case2 state visited order node rest ih => rw [walkFrom, ih hsame]
  | case3 state visited order node p pending rest hnew henter ih =>
    rw [hsame] at hnew
    rw [walkFrom, if_pos hnew, if_pos henter]
    exact ih fun q => by rw [List.mem_cons, List.mem_cons, hsame]
  | case4 state visited order node p pending rest hnew hrefused ih =>
    rw [hsame] at hnew
    rw [walkFrom, if_pos hnew, if_neg hrefused, ih hsame]
  | case5 state visited order node p pending rest hold ih =>
    rw [hsame] at hold
    rw [walkFrom, if_neg hold, ih hsame]

/-- The walk with a stack leaves a module after a descent to the pending references of it. -/
theorem walkFrom_leave (set : ModuleSet) (enter : σ → QueryPath → Bool × σ) (state : σ)
    (visited order : List QueryPath) (node : QueryPath) (pending : List QueryPath)
    (rest : List Frame) :
    set.walkFrom enter state visited order (⟨node, pending⟩ :: rest) =
      set.walkFrom enter (set.descend enter state visited pending).2
        ((set.descend enter state visited pending).1 ++ visited)
        (order ++ (set.descend enter state visited pending).1 ++ [node]) rest := by
  fun_induction descend set enter state visited pending generalizing order node rest with
  | case1 state visited => rw [walkFrom, List.nil_append, List.append_nil]
  | case2 state visited p paths hnew henter below after ihbelow ihafter =>
    -- The walk leaves the frame of `p` first, and then goes on behind `p`.
    rw [walkFrom, if_pos hnew, if_pos henter, ihbelow, ihafter]
    have horder : order ++ below.1 ++ [p] ++ after.1 ++ [node] =
        order ++ (below.1 ++ p :: after.1) ++ [node] := by
      simp
    rw [← horder]
    apply walkFrom_congr
    intro q
    simp only [List.mem_append, List.mem_cons]
    tauto
  | case3 state visited p paths hnew hrefused ih =>
    rw [walkFrom, if_pos hnew, if_neg hrefused, ih]
  | case4 state visited p paths hold ih => rw [walkFrom, if_neg hold, ih]

/-- **A walk with a stack is a descent.**  From a module of the set it lists what the descent to
it lists, and its state has taken in the same questions in the same order, whatever the answers
are. -/
theorem dependencyFirst_eq_descend {start : QueryPath} (hstart : start ∈ set.paths)
    (enter : σ → QueryPath → Bool × σ) (state : σ) :
    set.dependencyFirst start enter state = set.descend enter state [] [start] := by
  have hnew : start ∈ set.paths ∧ start ∉ ([] : List QueryPath) := ⟨hstart, List.not_mem_nil⟩
  rw [dependencyFirst, descend, if_pos hnew]
  split
  · rw [walkFrom_leave, walkFrom, List.nil_append]
    simp only [descend]
  · rw [descend]

/-- A descent to a module with fixed answers: what it lists, and what it asks about. -/
def descentFrom (set : ModuleSet) (allowed : QueryPath → Bool) (start : QueryPath) :
    List QueryPath × List QueryPath :=
  set.descend (recordAsked allowed) [] [] [start]

theorem dependencyFirst_eq_descentFrom {allowed : QueryPath → Bool} {start : QueryPath}
    (hstart : start ∈ set.paths) :
    set.dependencyFirst start (recordAsked allowed) [] = set.descentFrom allowed start :=
  dependencyFirst_eq_descend hstart _ []

/-- It comes only to what the start reaches, be it listed or asked about. -/
theorem reaches_of_mem_descentFrom {allowed : QueryPath → Bool} {start p : QueryPath}
    (hstart : start ∈ set.paths)
    (hp : p ∈ (set.descentFrom allowed start).1 ∨ p ∈ (set.descentFrom allowed start).2) :
    set.Reaches start p := by
  rw [← dependencyFirst_eq_descentFrom hstart] at hp
  rcases hp with hlisted | hasked
  · exact (mem_walkOrder_iff.1 hlisted).2.reaches
  · rcases asked_required hasked with rfl | ⟨u, hu, hedge⟩
    · exact .refl
    · exact (mem_walkOrder_iff.1 hu).2.reaches.tail hedge

theorem mem_paths_of_mem_descentFrom {allowed : QueryPath → Bool} {start p : QueryPath}
    (hstart : start ∈ set.paths) (hp : p ∈ (set.descentFrom allowed start).1 ∨
      p ∈ (set.descentFrom allowed start).2) : p ∈ set.paths :=
  (reaches_of_mem_descentFrom hstart hp).mem_paths hstart

/-! ## What a descent depends on -/

/-- Inside a part that no reference leaves, the second set is as the first. -/
structure SameWithin (A B : ModuleSet) (inside : QueryPath → Prop) : Prop where
  subset : B.paths ⊆ A.paths
  paths : ∀ p, inside p → p ∈ A.paths → p ∈ B.paths
  requires : ∀ p, inside p → A.requiresOf p = B.requiresOf p
  closed : ∀ p q, inside p → A.Requires p q → inside q

theorem sameWithin_reaches (set : ModuleSet) (root : QueryPath) :
    SameWithin set set (set.Reaches root) where
  subset := List.Subset.refl _
  paths _ _ hp := hp
  requires _ _ := rfl
  closed _ _ hreach hedge := hreach.tail hedge

namespace SameWithin

variable {A B : ModuleSet} {inside : QueryPath → Prop} {p q : QueryPath}

theorem mem_paths_iff (h : SameWithin A B inside) (hp : inside p) : p ∈ A.paths ↔ p ∈ B.paths :=
  ⟨h.paths p hp, fun hmem => h.subset hmem⟩

/-- What is entered inside is asked about in the same way, so a descent lists the same in both
sets. -/
theorem descend_eq (h : SameWithin A B inside) {enter enter' : σ → QueryPath → Bool × σ}
    (henter : ∀ state p, inside p → enter state p = enter' state p) {state : σ}
    {visited paths : List QueryPath} (hpaths : ∀ p ∈ paths, p ∈ A.paths → inside p) :
    A.descend enter state visited paths = B.descend enter' state visited paths := by
  fun_induction descend A enter state visited paths with
  | case1 state visited => rw [descend]
  | case2 state visited p paths hnew hallowed below after ihbelow ihafter =>
    rw [List.forall_mem_cons] at hpaths
    have hinside := hpaths.1 hnew.1
    have hnew' : p ∈ B.paths ∧ p ∉ visited := ⟨h.paths p hinside hnew.1, hnew.2⟩
    have hrefs : ∀ q ∈ A.requiresOf p, q ∈ A.paths → inside q :=
      fun q href hq => h.closed p q hinside (requires_iff.2 ⟨href, hq⟩)
    rw [descend, if_pos hnew', ← henter state p hinside, if_pos hallowed]
    dsimp only
    rw [← h.requires p hinside, ← ihbelow hrefs, ← ihafter hpaths.2]
  | case3 state visited p paths hnew hrefused ih =>
    rw [List.forall_mem_cons] at hpaths
    have hinside := hpaths.1 hnew.1
    rw [h.mem_paths_iff hinside] at hnew
    rw [descend, if_pos hnew, ← henter state p hinside, if_neg hrefused]
    exact ih hpaths.2
  | case4 state visited p paths hold ih =>
    rw [List.forall_mem_cons] at hpaths
    have hold' : ¬ (p ∈ B.paths ∧ p ∉ visited) := fun hnew => hold ⟨h.subset hnew.1, hnew.2⟩
    rw [descend, if_neg hold']
    exact ih hpaths.2

/-- With the same answers inside, a descent from a module inside goes the same way in both
sets. -/
theorem descentFrom_eq (h : SameWithin A B inside) {allowed allowed' : QueryPath → Bool}
    (hsame : ∀ p, inside p → allowed p = allowed' p) {start : QueryPath}
    (hstart : inside start) :
    A.descentFrom allowed start = B.descentFrom allowed' start := by
  apply h.descend_eq
  · intro asked p hp
    rw [recordAsked, recordAsked, hsame p hp]
  · intro p hp _
    rwa [List.mem_singleton.1 hp]

end SameWithin

end WebBundler.ModuleSet
