import WebBundler.Merge.DependencyFirst
set_option autoImplicit false

/-!
# The stack of a walk and a recursion

`visitAll` is the depth-first walk written as a recursion: it marks a module as visited, goes
through all that the module requires, and lists it when that is done.  The walk that keeps a
stack of frames follows it step by step: a frame is a call under way, and its pending references
are what the call has still to go through (`runs_visitAll`).

So the walk with a stack comes to its end, lists what the recursion lists, and puts the same
questions in the same order, whatever the answers are and whatever they depend on
(`dependencyFirst_follows_recursion`).
-/

namespace WebBundler.ModuleSet

variable {σ : Type}

/-! ## The recursion -/

/-- What the recursion carries along. -/
structure Progress (σ : Type) where
  /-- The state of whoever answers. -/
  state : σ
  /-- The questions so far with their answers. -/
  asked : List (QueryPath × Bool)
  visited : List QueryPath
  order : List QueryPath

namespace Progress

/-- Ask whether a module may be entered. -/
def ask (s : Progress σ) (enter : σ → QueryPath → Bool × σ) (p : QueryPath) : Progress σ :=
  { s with state := (enter s.state p).2, asked := s.asked ++ [(p, (enter s.state p).1)] }

/-- Mark a module as visited. -/
def mark (s : Progress σ) (p : QueryPath) : Progress σ := { s with visited := p :: s.visited }

/-- List a module. -/
def list (s : Progress σ) (p : QueryPath) : Progress σ := { s with order := s.order ++ [p] }

end Progress

/-- Fewer modules remain when one more is visited. -/
theorem remaining_visited_lt {set : ModuleSet} {visited visited' : List QueryPath}
    {p : QueryPath} (hsubset : visited ⊆ visited') (hp : p ∈ set.paths) (hnew : p ∉ visited)
    (hmarked : p ∈ visited') :
    set.remaining (visited'.contains ·) < set.remaining (visited.contains ·) := by
  refine remaining_lt (x := p) (fun q hq => ?_) hp ?_ ?_
  · rw [List.contains_iff_mem] at hq ⊢
    exact hsubset hq
  · simpa using hnew
  · rwa [List.contains_iff_mem]

/-- Go through references in turn.  One that names no module of the set or a visited one is
skipped; about any other one a question is put, and if it may be entered, it is marked, all that
it requires is gone through, and it is listed, before what follows it.  What was visited stays
visited. -/
def visitAll (set : ModuleSet) (enter : σ → QueryPath → Bool × σ) (s : Progress σ) :
    List QueryPath → { t : Progress σ // s.visited ⊆ t.visited }
  | [] => ⟨s, List.Subset.refl _⟩
  | p :: refs =>
    if p ∈ set.paths ∧ p ∉ s.visited then
      if (enter s.state p).1 then
        let below := visitAll set enter ((s.ask enter p).mark p) (set.requiresOf p)
        let after := visitAll set enter (below.1.list p) refs
        ⟨after.1, fun _ hq => after.2 (below.2 (List.mem_cons_of_mem p hq))⟩
      else
        let after := visitAll set enter (s.ask enter p) refs
        ⟨after.1, after.2⟩
    else visitAll set enter s refs
termination_by refs => (set.remaining (s.visited.contains ·), refs.length)
decreasing_by
  · next hnew _ =>
    exact Prod.Lex.left _ _
      (remaining_visited_lt (List.subset_cons_self p s.visited) hnew.1 hnew.2
        List.mem_cons_self)
  · next hnew _ =>
    exact Prod.Lex.left _ _
      (remaining_visited_lt (fun _ hq => below.2 (List.mem_cons_of_mem p hq)) hnew.1 hnew.2
        (below.2 List.mem_cons_self))
  · exact Prod.Lex.right _ (Nat.lt_succ_self _)
  · exact Prod.Lex.right _ (Nat.lt_succ_self _)

/-- The whole walk: a question about the start, and if it may be entered, all below it. -/
def recursiveWalk (set : ModuleSet) (enter : σ → QueryPath → Bool × σ) (start : QueryPath)
    (state : σ) :
    Progress σ :=
  let asked := (⟨state, [], [], []⟩ : Progress σ).ask enter start
  if (enter state start).1
  then (set.visitAll enter (asked.mark start) (set.requiresOf start)).1.list start else asked

/-! ## The loop -/

/-- The walk with a stack between two of its steps. -/
structure Loop (σ : Type) where
  state : σ
  visited : List QueryPath
  order : List QueryPath
  stack : List Frame

namespace Loop

/-- One step of the loop: it leaves a module, or looks at one reference of the module it is
inside. -/
inductive Step (set : ModuleSet) (enter : σ → QueryPath → Bool × σ) :
    Loop σ → Loop σ → Prop where
  | leave (state : σ) (visited order : List QueryPath) (node : QueryPath) (rest : List Frame) :
      Step set enter ⟨state, visited, order, ⟨node, []⟩ :: rest⟩
        ⟨state, visited, order ++ [node], rest⟩
  | enter {state : σ} {visited : List QueryPath} {p : QueryPath}
      (hnew : p ∈ set.paths ∧ p ∉ visited) (hmay : (enter state p).1 = true)
      (order : List QueryPath) (node : QueryPath) (pending : List QueryPath)
      (rest : List Frame) :
      Step set enter ⟨state, visited, order, ⟨node, p :: pending⟩ :: rest⟩
        ⟨(enter state p).2, p :: visited, order,
          ⟨p, set.requiresOf p⟩ :: ⟨node, pending⟩ :: rest⟩
  | refuse {state : σ} {visited : List QueryPath} {p : QueryPath}
      (hnew : p ∈ set.paths ∧ p ∉ visited) (hrefused : ¬ (enter state p).1 = true)
      (order : List QueryPath) (node : QueryPath) (pending : List QueryPath)
      (rest : List Frame) :
      Step set enter ⟨state, visited, order, ⟨node, p :: pending⟩ :: rest⟩
        ⟨(enter state p).2, visited, order, ⟨node, pending⟩ :: rest⟩
  | skip {visited : List QueryPath} {p : QueryPath} (hold : ¬ (p ∈ set.paths ∧ p ∉ visited))
      (state : σ) (order : List QueryPath) (node : QueryPath) (pending : List QueryPath)
      (rest : List Frame) :
      Step set enter ⟨state, visited, order, ⟨node, p :: pending⟩ :: rest⟩
        ⟨state, visited, order, ⟨node, pending⟩ :: rest⟩

/-- The loop before its first step: it is inside the start, or at its end if the start is
refused. -/
def opened (set : ModuleSet) (enter : σ → QueryPath → Bool × σ) (start : QueryPath)
    (state : σ) : Loop σ :=
  if (enter state start).1
  then ⟨(enter state start).2, [start], [], [⟨start, set.requiresOf start⟩]⟩
  else ⟨(enter state start).2, [], [], []⟩

/-- The loop gets from one state to another in a number of steps. -/
inductive Runs (set : ModuleSet) (enter : σ → QueryPath → Bool × σ) :
    Nat → Loop σ → Loop σ → Prop where
  | done (l : Loop σ) : Runs set enter 0 l l
  | step {n : Nat} {l next last : Loop σ} (hstep : Step set enter l next)
      (hrest : Runs set enter n next last) :
      Runs set enter (n + 1) l last

variable {set : ModuleSet} {enter : σ → QueryPath → Bool × σ}

theorem Runs.append {m n : Nat} {l middle last : Loop σ} (h : Runs set enter m l middle)
    (hrest : Runs set enter n middle last) : Runs set enter (n + m) l last := by
  induction h with
  | done => exact hrest
  | step hstep _ ih => exact .step hstep (ih hrest)

/-- A step changes nothing about what the walk comes to. -/
theorem Step.walkFrom_eq {l next : Loop σ} (h : Step set enter l next) :
    set.walkFrom enter l.state l.visited l.order l.stack =
      set.walkFrom enter next.state next.visited next.order next.stack := by
  cases h with
  | leave => rw [walkFrom]
  | enter hnew hmay => rw [walkFrom, if_pos hnew, if_pos hmay]
  | refuse hnew hrefused => rw [walkFrom, if_pos hnew, if_neg hrefused]
  | skip hold => rw [walkFrom, if_neg hold]

/-- The walk comes to what the loop has when its stack is empty. -/
theorem Runs.walkFrom_eq {n : Nat} {l last : Loop σ} (h : Runs set enter n l last)
    (hend : last.stack = []) :
    set.walkFrom enter l.state l.visited l.order l.stack = (last.order, last.state) := by
  induction h with
  | done l => rw [hend, walkFrom]
  | step hstep _ ih => rw [hstep.walkFrom_eq, ih hend]

theorem Runs.dependencyFirst_eq {n : Nat} {start : QueryPath} {state : σ} {last : Loop σ}
    (h : Runs set enter n (opened set enter start state) last) (hend : last.stack = []) :
    set.dependencyFirst start enter state = (last.order, last.state) := by
  rw [← h.walkFrom_eq hend]
  unfold dependencyFirst opened
  split
  · rfl
  · rw [walkFrom]

end Loop

/-! ## Both walks put the same questions -/

/-- Answer as before, and keep the questions with their answers in order. -/
def noted (enter : σ → QueryPath → Bool × σ) (memory : σ × List (QueryPath × Bool))
    (p : QueryPath) :
    Bool × σ × List (QueryPath × Bool) :=
  ((enter memory.1 p).1, (enter memory.1 p).2, memory.2 ++ [(p, (enter memory.1 p).1)])

/-- The loop without the notes about its questions. -/
def Loop.forget {α : Type} (l : Loop (σ × α)) : Loop σ :=
  ⟨l.state.1, l.visited, l.order, l.stack⟩

/-- Taking notes changes nothing about a step. -/
theorem Loop.Step.forget {set : ModuleSet} {enter : σ → QueryPath → Bool × σ}
    {l next : Loop (σ × List (QueryPath × Bool))} (h : Step set (noted enter) l next) :
    Step set enter l.forget next.forget := by
  cases h with
  | leave state visited order node rest => exact .leave state.1 visited order node rest
  | @enter state _ p hnew hmay order node pending rest =>
    have hmay' : (enter state.1 p).1 = true := hmay
    exact .enter hnew hmay' order node pending rest
  | @refuse state _ p hnew hrefused order node pending rest =>
    have hrefused' : ¬ (enter state.1 p).1 = true := hrefused
    exact .refuse hnew hrefused' order node pending rest
  | skip hold state order node pending rest => exact .skip hold state.1 order node pending rest

theorem Loop.Runs.forget {set : ModuleSet} {enter : σ → QueryPath → Bool × σ} {n : Nat}
    {l last : Loop (σ × List (QueryPath × Bool))} (h : Runs set (noted enter) n l last) :
    Runs set enter n l.forget last.forget := by
  induction h with
  | done l => exact .done l.forget
  | step hstep _ ih => exact .step hstep.forget ih

theorem Loop.forget_opened (set : ModuleSet) (enter : σ → QueryPath → Bool × σ)
    (start : QueryPath) (state : σ) :
    (opened set (noted enter) start (state, [])).forget = opened set enter start state := by
  unfold opened noted
  dsimp only
  split <;> rfl

/-- The loop at a place of the recursion, with the calls under way on its stack. -/
def Progress.loop (s : Progress σ) (stack : List Frame) : Loop (σ × List (QueryPath × Bool)) :=
  ⟨(s.state, s.asked), s.visited, s.order, stack⟩

/-- The steps that listed modules have cost: one for each reference of theirs, and one to leave
each. -/
def cost (set : ModuleSet) (order : List QueryPath) : Nat :=
  order.length + (order.flatMap set.requiresOf).length

theorem cost_nil (set : ModuleSet) : set.cost [] = 0 := rfl

theorem cost_concat (set : ModuleSet) (order : List QueryPath) (p : QueryPath) :
    set.cost (order ++ [p]) = set.cost order + (set.requiresOf p).length + 1 := by
  unfold cost
  rw [List.flatMap_append, List.length_append, List.length_append, List.flatMap_singleton,
    List.length_singleton]
  omega

/-- While the recursion goes through the references of a module, the loop goes through those
pending in its frame, whatever lies below on the stack. -/
theorem runs_visitAll (set : ModuleSet) (enter : σ → QueryPath → Bool × σ) (s : Progress σ)
    (refs : List QueryPath) (node : QueryPath) (rest : List Frame) :
    ∃ n, n + set.cost s.order = refs.length + set.cost (set.visitAll enter s refs).1.order ∧
      Loop.Runs set (noted enter) n (s.loop (⟨node, refs⟩ :: rest))
        ((set.visitAll enter s refs).1.loop (⟨node, []⟩ :: rest)) := by
  fun_induction visitAll set enter s refs generalizing node rest with
  | case1 s => exact ⟨0, rfl, .done _⟩
  | case2 s p refs hnew hmay below after ihbelow ihafter =>
    -- The frame of `p` is pushed, worked off and left; then the loop goes on behind `p`.
    obtain ⟨m, hm, hbelow⟩ := ihbelow p (⟨node, refs⟩ :: rest)
    obtain ⟨n, hn, hafter⟩ := ihafter node rest
    have hmay' : (noted enter (s.state, s.asked) p).1 = true := hmay
    have hleave : Loop.Step set (noted enter) (below.1.loop (⟨p, []⟩ :: ⟨node, refs⟩ :: rest))
        ((below.1.list p).loop (⟨node, refs⟩ :: rest)) := .leave ..
    refine ⟨n + 1 + m + 1, ?_, .step (.enter hnew hmay' s.order node refs rest)
      (hbelow.append (.step hleave hafter))⟩
    have hcost : m + set.cost s.order = (set.requiresOf p).length + set.cost below.1.order := hm
    have hcost' : n + set.cost (below.1.order ++ [p]) = refs.length + set.cost after.1.order :=
      hn
    rw [cost_concat] at hcost'
    rw [List.length_cons]
    dsimp only
    omega
  | case3 s p refs hnew hrefused after ih =>
    obtain ⟨n, hn, hafter⟩ := ih node rest
    have hrefused' : ¬ (noted enter (s.state, s.asked) p).1 = true := hrefused
    refine ⟨n + 1, ?_, .step (.refuse hnew hrefused' s.order node refs rest) hafter⟩
    have hcost : n + set.cost s.order = refs.length + set.cost after.1.order := hn
    rw [List.length_cons]
    dsimp only
    omega
  | case4 s p refs hold ih =>
    obtain ⟨n, hn, hafter⟩ := ih node rest
    refine ⟨n + 1, ?_, .step (.skip hold (s.state, s.asked) s.order node refs rest) hafter⟩
    rw [List.length_cons]
    omega

/-- The loop follows the whole recursion. -/
theorem runs_recursiveWalk (set : ModuleSet) (enter : σ → QueryPath → Bool × σ)
    (start : QueryPath) (state : σ) :
    Loop.Runs set (noted enter) (set.cost (set.recursiveWalk enter start state).order)
      (Loop.opened set (noted enter) start (state, []))
      ((set.recursiveWalk enter start state).loop []) := by
  unfold recursiveWalk Loop.opened
  dsimp only
  by_cases hmay : (enter state start).1 = true
  · have hmay' : (noted enter (state, []) start).1 = true := hmay
    rw [if_pos hmay, if_pos hmay']
    obtain ⟨n, hn, hbelow⟩ := runs_visitAll set enter
      (((⟨state, [], [], []⟩ : Progress σ).ask enter start).mark start) (set.requiresOf start)
      start []
    generalize set.visitAll enter _ (set.requiresOf start) = below at hn hbelow ⊢
    have hleave : Loop.Step set (noted enter) (below.1.loop [⟨start, []⟩])
      ((below.1.list start).loop []) := .leave ..
    have hbelowCost : n + set.cost [] = (set.requiresOf start).length +
      set.cost below.1.order := hn
    have hcost : set.cost (below.1.list start).order = 0 + 1 + n := by
      rw [Progress.list, cost_concat]
      rw [cost_nil] at hbelowCost
      omega
    rw [hcost]
    exact hbelow.append (.step hleave (.done _))
  · have hrefused : ¬ (noted enter (state, []) start).1 = true := hmay
    rw [if_neg hmay, if_neg hrefused]
    exact .done _

/-- **A walk with a stack is a recursion, question by question.**  It lists what the recursion
lists, and puts the same questions in the same order and gets the same answers, whatever state
they depend on; the answers are not changed by being noted.  Its loop ends, after one step for
each module that is listed and each reference of such a module. -/
theorem dependencyFirst_follows_recursion (set : ModuleSet) (enter : σ → QueryPath → Bool × σ)
    (start : QueryPath) (state : σ) :
    let t := set.recursiveWalk enter start state
    set.dependencyFirst start (noted enter) (state, []) = (t.order, t.state, t.asked) ∧
      set.dependencyFirst start enter state = (t.order, t.state) ∧
      Loop.Runs set enter (t.order.length + (t.order.flatMap set.requiresOf).length)
        (Loop.opened set enter start state) ⟨t.state, t.visited, t.order, []⟩ := by
  intro t
  have hnoted := runs_recursiveWalk set enter start state
  have hplain := hnoted.forget
  rw [Loop.forget_opened] at hplain
  exact ⟨hnoted.dependencyFirst_eq rfl, hplain.dependencyFirst_eq rfl, hplain⟩

end WebBundler.ModuleSet
