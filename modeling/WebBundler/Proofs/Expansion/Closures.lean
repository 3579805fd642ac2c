import Mathlib.Logic.Relation
import WebBundler.Proofs.Expansion.Steps
set_option autoImplicit false

/-!
# What holds of every closure

A closure has claimed the paths that are pending or settled in it.  `Closure.Sound` says what it
has brought back so far, that it has reached its claims from its seed, and that whatever its
settled paths require was claimed, here or elsewhere, or is still to be looked at.  Each step of
a closure keeps this, and claims at most one path, which nobody has claimed yet (`Growth`).
-/

namespace WebBundler.Expansion

/-- A path compiles to a module that requires another path from the project. -/
def RequiresOrigin (task : Task) (path origin : String) : Prop :=
  ∃ m, task path = .ok m ∧ origin ∈ m.requiresOrigin

/-- What a path requires from the project; a path that does not compile requires nothing. -/
def originsOf (task : Task) (path : String) : List String :=
  match task path with
  | .ok m => m.requiresOrigin
  | .error _ => []

theorem mem_originsOf {task : Task} {path origin : String} :
    origin ∈ originsOf task path ↔ RequiresOrigin task path origin := by
  unfold originsOf RequiresOrigin
  cases task path with
  | error e => simp
  | ok m => simp

/-- The compiler names what is required in canonical form. -/
def NormalOrigins (task : Task) : Prop :=
  ∀ path origin, RequiresOrigin task path origin → QueryPath.normalize origin = origin

/-- The module of a path that compiles. -/
def compiled? (task : Task) (path : String) : Option Module := (task path).toOption

theorem compiled?_eq_some {task : Task} {path : String} {m : Module} :
    compiled? task path = some m ↔ task path = .ok m := by
  unfold compiled?
  cases task path <;> simp [Except.toOption]

/-- The failure of a path that does not compile. -/
def failure? (task : Task) (path : String) : Option BuildError :=
  match task path with
  | .error e => some e
  | .ok _ => none

/-- The paths that a closure has claimed. -/
def Closure.claimed (c : Closure) : List String := c.pending ++ c.settled

/-! ## What settles -/

theorem filterMap_singleton_toList {α β : Type} (f : α → Option β) (a : α) :
    [a].filterMap f = (f a).toList := by
  cases h : f a with
  | none => exact List.filterMap_cons_none h
  | some b => exact List.filterMap_cons_some h

section Take

variable (c : Closure) (task : Task) (path : String)

@[simp] theorem Closure.take_seed : (c.take path (task path)).seed = c.seed := by
  cases h : task path <;> rfl

@[simp] theorem Closure.take_begun : (c.take path (task path)).begun = c.begun := by
  cases h : task path <;> rfl

@[simp] theorem Closure.take_pending : (c.take path (task path)).pending = c.pending := by
  cases h : task path <;> rfl

@[simp] theorem Closure.take_settled :
    (c.take path (task path)).settled = c.settled ++ [path] := by
  cases h : task path <;> rfl

theorem Closure.take_modules :
    (c.take path (task path)).modules = c.modules ++ (compiled? task path).toList := by
  unfold compiled?
  cases h : task path with
  | error e => exact (List.append_nil _).symm
  | ok m => rfl

theorem Closure.take_errors :
    (c.take path (task path)).errors = c.errors ++ (failure? task path).toList := by
  unfold failure?
  cases h : task path with
  | error e => rfl
  | ok m => exact (List.append_nil _).symm

variable {c} in
theorem Closure.take_origins (horigins : c.origins = []) :
    (c.take path (task path)).origins = originsOf task path := by
  unfold originsOf
  cases h : task path with
  | error e => exact horigins
  | ok m => rfl

end Take

/-! ## Closures -/

/-- A closure leads from one path to another when the one has settled in it and requires the
other. -/
def Closure.Leads (task : Task) (c : Closure) (path origin : String) : Prop :=
  path ∈ c.settled ∧ RequiresOrigin task path origin

/-- What holds of a closure, given all that was claimed. -/
structure Closure.Sound (task : Task) (visited : VisitedPaths) (c : Closure) : Prop where
  modules : c.modules = c.settled.filterMap (compiled? task)
  errors : c.errors = c.settled.filterMap (failure? task)
  seed_mem : c.seed ∈ c.claimed
  reached : ∀ path ∈ c.claimed, Relation.ReflTransGen (c.Leads task) c.seed path
  origins : ∀ origin ∈ c.origins, ∃ path, c.Leads task path origin
  looked : ∀ path origin, c.Leads task path origin → origin ∈ visited.paths ∨ origin ∈ c.origins

theorem Closure.mem_claimed {c : Closure} {path : String} :
    path ∈ c.claimed ↔ path ∈ c.pending ∨ path ∈ c.settled := by
  unfold Closure.claimed
  exact List.mem_append

theorem Closure.Leads.mono {task : Task} {c next : Closure} {path origin : String}
    (h : c.Leads task path origin) (hsettled : c.settled ⊆ next.settled) :
    next.Leads task path origin :=
  ⟨hsettled h.1, h.2⟩

@[simp] theorem Closure.seed_opened (seed : String) : (Closure.opened seed).seed = seed := rfl

theorem Closure.sound_opened {task : Task} {visited : VisitedPaths} (seed : String) :
    (Closure.opened seed).Sound task visited := by
  constructor
  · rfl
  · rfl
  · exact Closure.mem_claimed.2 (Or.inl (List.mem_singleton_self seed))
  · intro path hpath
    rcases Closure.mem_claimed.1 hpath with hpending | hsettled
    · rw [List.mem_singleton.1 hpending]
      exact Relation.ReflTransGen.refl
    · cases hsettled
  · intro origin horigin
    cases horigin
  · intro path origin hleads
    cases hleads.1

/-- More may be claimed by others at any time. -/
theorem Closure.Sound.mono {task : Task} {visited visited' : VisitedPaths} {c : Closure}
    (h : c.Sound task visited) (hvisited : visited.paths ⊆ visited'.paths) :
    c.Sound task visited' := by
  refine ⟨h.modules, h.errors, h.seed_mem, h.reached, h.origins, ?_⟩
  intro path origin hleads
  rcases h.looked path origin hleads with hclaimed | horigin
  · exact Or.inl (hvisited hclaimed)
  · exact Or.inr horigin

theorem ClosureStep.seed_eq {task : Task} {visited visited' : VisitedPaths} {c next : Closure}
    (h : ClosureStep task visited c next visited') : next.seed = c.seed := by
  cases h with
  | start hbegun => rfl
  | settle before after path horigins hpending => exact Closure.take_seed ..
  | known origin origins horigins hknown => rfl
  | fresh origin origins horigins hfresh => rfl

theorem ClosureStep.settled_subset {task : Task} {visited visited' : VisitedPaths}
    {c next : Closure} (h : ClosureStep task visited c next visited') :
    c.settled ⊆ next.settled := by
  cases h with
  | start hbegun => exact List.Subset.refl _
  | settle before after path horigins hpending =>
    rw [Closure.take_settled]
    exact List.subset_append_left ..
  | known origin origins horigins hknown => exact List.Subset.refl _
  | fresh origin origins horigins hfresh => exact List.Subset.refl _

/-! ## Claims -/

/-- From one moment to the next, either nothing is claimed, or one path that nobody has claimed
yet. -/
inductive Growth (new : String → Prop) (visited : VisitedPaths) (claimed : List String) :
    VisitedPaths → List String → Prop where
  | same {claimed' : List String} (hperm : claimed'.Perm claimed) :
      Growth new visited claimed visited claimed'
  | claim {path : String} {claimed' : List String} (hnew : new path)
      (hnormal : QueryPath.normalize path = path) (hfresh : path ∉ visited.paths)
      (hperm : claimed'.Perm (path :: claimed)) :
      Growth new visited claimed (visited.mark path) claimed'

namespace Growth

variable {new : String → Prop} {visited visited' : VisitedPaths}
  {claimed claimed' : List String}

theorem imp {new' : String → Prop} (h : Growth new visited claimed visited' claimed')
    (hnew : ∀ path, path ∉ visited.paths → new path → new' path) :
    Growth new' visited claimed visited' claimed' := by
  cases h with
  | same hperm => exact .same hperm
  | claim hpath hnormal hfresh hperm => exact .claim (hnew _ hfresh hpath) hnormal hfresh hperm

theorem visited_subset (h : Growth new visited claimed visited' claimed') :
    visited.paths ⊆ visited'.paths := by
  intro path hpath
  cases h with
  | same hperm => exact hpath
  | claim hnew hnormal hfresh hperm => exact VisitedPaths.mem_mark.2 (Or.inr hpath)

theorem subset (h : Growth new visited claimed visited' claimed') : claimed ⊆ claimed' := by
  intro path hpath
  cases h with
  | same hperm => exact hperm.mem_iff.2 hpath
  | claim hnew hnormal hfresh hperm => exact hperm.mem_iff.2 (List.mem_cons_of_mem _ hpath)

/-- What was claimed before and what was claimed since are still all that is claimed. -/
theorem mem_visited {base : List String} (h : Growth new visited claimed visited' claimed')
    (hbase : ∀ path, path ∈ visited.paths ↔ path ∈ base ∨ path ∈ claimed) (path : String) :
    path ∈ visited'.paths ↔ path ∈ base ∨ path ∈ claimed' := by
  cases h with
  | same hperm => rw [hbase, hperm.mem_iff]
  | claim hnew hnormal hfresh hperm =>
    rw [VisitedPaths.mem_mark, hnormal, hbase, hperm.mem_iff, List.mem_cons, or_left_comm]

/-- Nothing is claimed twice. -/
theorem nodup (h : Growth new visited claimed visited' claimed')
    (hclaimed : claimed ⊆ visited.paths) (hnodup : claimed.Nodup) : claimed'.Nodup := by
  cases h with
  | same hperm => exact hperm.nodup_iff.2 hnodup
  | claim hnew hnormal hfresh hperm =>
    rw [hperm.nodup_iff, List.nodup_cons]
    exact ⟨fun hpath => hfresh (hclaimed hpath), hnodup⟩

theorem forall_mem (h : Growth new visited claimed visited' claimed')
    (hall : ∀ path ∈ claimed, new path) : ∀ path ∈ claimed', new path := by
  intro path hpath
  cases h with
  | same hperm => exact hall path (hperm.mem_iff.1 hpath)
  | claim hnew hnormal hfresh hperm =>
    rcases List.mem_cons.1 (hperm.mem_iff.1 hpath) with rfl | hold
    · exact hnew
    · exact hall path hold

/-- Beside other claims, the growth is the same. -/
theorem frame {all all' rest : List String} (h : Growth new visited claimed visited' claimed')
    (hall : all.Perm (claimed ++ rest)) (hall' : all'.Perm (claimed' ++ rest)) :
    Growth new visited all visited' all' := by
  cases h with
  | same hperm => exact .same (hall'.trans ((hperm.append_right rest).trans hall.symm))
  | claim hnew hnormal hfresh hperm =>
    refine .claim hnew hnormal hfresh (hall'.trans ((hperm.append_right rest).trans ?_))
    exact hall.symm.cons _

end Growth

/-- What a closure claims is required by something that has settled in it. -/
theorem ClosureStep.growth {task : Task} {visited visited' : VisitedPaths} {c next : Closure}
    (h : ClosureStep task visited c next visited') (hnormal : NormalOrigins task)
    (hsound : c.Sound task visited) :
    Growth (fun origin => ∃ path, c.Leads task path origin) visited c.claimed visited'
      next.claimed := by
  cases h with
  | start hbegun => exact .same (List.Perm.refl _)
  | settle before after path horigins hpending =>
    apply Growth.same
    unfold Closure.claimed
    rw [Closure.take_pending, Closure.take_settled, hpending, ← List.append_assoc]
    exact (List.perm_append_singleton ..).trans (List.perm_middle.append_right c.settled).symm
  | known origin origins horigins hknown => exact .same (List.Perm.refl _)
  | fresh origin origins horigins hfresh =>
    have horigin : origin ∈ c.origins := horigins ▸ List.mem_cons_self
    obtain ⟨path, hleads⟩ := hsound.origins origin horigin
    have hcanonical := hnormal path origin hleads.2
    refine .claim ⟨path, hleads⟩ hcanonical (hcanonical ▸ hfresh) ?_
    unfold Closure.claimed
    rw [List.append_assoc]
    exact List.perm_middle

/-- Whatever a closure has claimed, it has reached from its seed. -/
theorem ClosureStep.reached {task : Task} {visited visited' : VisitedPaths} {c next : Closure}
    (h : ClosureStep task visited c next visited') (hnormal : NormalOrigins task)
    (hsound : c.Sound task visited) {path : String} (hpath : path ∈ next.claimed) :
    Relation.ReflTransGen (next.Leads task) next.seed path := by
  have hmono : ∀ parent origin, c.Leads task parent origin → next.Leads task parent origin :=
    fun parent origin hleads => hleads.mono h.settled_subset
  have hold : ∀ old ∈ c.claimed, Relation.ReflTransGen (next.Leads task) next.seed old := by
    intro old hold
    rw [h.seed_eq]
    exact Relation.ReflTransGen.mono hmono _ _ (hsound.reached old hold)
  cases h.growth hnormal hsound with
  | same hperm => exact hold path (hperm.mem_iff.1 hpath)
  | claim hnew hcanonical hfresh hperm =>
    rcases List.mem_cons.1 (hperm.mem_iff.1 hpath) with rfl | hpath
    · obtain ⟨parent, hleads⟩ := hnew
      have hparent := hold parent (Closure.mem_claimed.2 (Or.inr hleads.1))
      exact hparent.tail (hmono parent path hleads)
    · exact hold path hpath

/-- What holds of a closure holds of it after each step. -/
theorem ClosureStep.sound {task : Task} {visited visited' : VisitedPaths} {c next : Closure}
    (h : ClosureStep task visited c next visited') (hnormal : NormalOrigins task)
    (hsound : c.Sound task visited) : next.Sound task visited' := by
  have hseed : next.seed ∈ next.claimed :=
    h.seed_eq ▸ (h.growth hnormal hsound).subset hsound.seed_mem
  have hreached : ∀ path ∈ next.claimed, Relation.ReflTransGen (next.Leads task) next.seed
      path :=
    fun path hpath => h.reached hnormal hsound hpath
  cases h with
  | start hbegun =>
    exact ⟨hsound.modules, hsound.errors, hseed, hreached, hsound.origins, hsound.looked⟩
  | settle before after path horigins hpending =>
    have hnext : ({ c with pending := before ++ after }.take path (task path)).origins =
        originsOf task path := Closure.take_origins task path horigins
    refine ⟨?_, ?_, hseed, hreached, ?_, ?_⟩
    · rw [Closure.take_modules, Closure.take_settled, List.filterMap_append, ← hsound.modules,
        filterMap_singleton_toList]
    · rw [Closure.take_errors, Closure.take_settled, List.filterMap_append, ← hsound.errors,
        filterMap_singleton_toList]
    · intro origin horigin
      rw [hnext, mem_originsOf] at horigin
      refine ⟨path, ?_, horigin⟩
      rw [Closure.take_settled]
      exact List.mem_append_right _ (List.mem_singleton_self path)
    · intro path' origin hleads
      obtain ⟨hpath', hrequires⟩ := hleads
      rw [Closure.take_settled, List.mem_append, List.mem_singleton] at hpath'
      rcases hpath' with hold | rfl
      · refine Or.inl ((hsound.looked path' origin ⟨hold, hrequires⟩).resolve_right ?_)
        rw [horigins]
        exact List.not_mem_nil
      · refine Or.inr ?_
        rw [hnext]
        exact mem_originsOf.2 hrequires
  | known origin origins horigins hknown =>
    refine ⟨hsound.modules, hsound.errors, hseed, hreached, ?_, ?_⟩
    · intro other hother
      exact hsound.origins other (horigins ▸ List.mem_cons_of_mem _ hother)
    · intro path other hleads
      rcases hsound.looked path other hleads with hclaimed | hother
      · exact Or.inl hclaimed
      · rw [horigins] at hother
        rcases List.mem_cons.1 hother with rfl | hlater
        · exact Or.inl (hnormal path other hleads.2 ▸ hknown)
        · exact Or.inr hlater
  | fresh origin origins horigins hfresh =>
    refine ⟨hsound.modules, hsound.errors, hseed, hreached, ?_, ?_⟩
    · intro other hother
      exact hsound.origins other (horigins ▸ List.mem_cons_of_mem _ hother)
    · intro path other hleads
      rcases hsound.looked path other hleads with hclaimed | hother
      · exact Or.inl (VisitedPaths.mem_mark.2 (Or.inr hclaimed))
      · rw [horigins] at hother
        rcases List.mem_cons.1 hother with rfl | hlater
        · exact Or.inl (VisitedPaths.mem_mark.2 (Or.inl (hnormal path other hleads.2).symm))
        · exact Or.inr hlater

end WebBundler.Expansion
