import WebBundler.ModuleSet
import Mathlib.Logic.Relation
set_option autoImplicit false

/-!
# Reachability between the modules of a set

`Requires` is the edge relation of a module set: references to modules outside the set are no
edges.  `Reaches` is its reflexive and transitive closure, and `ReachesThrough` the part of it
that enters only allowed modules, which is what a walk that refuses some modules can see.
-/

namespace WebBundler.ModuleSet

variable {set : ModuleSet} {p q r : QueryPath}

/-- The module at `p` requires the module at `q`, and both are in the set. -/
def Requires (set : ModuleSet) (p q : QueryPath) : Prop := q ∈ set.dependencies p

/-- A chain of references inside the set, possibly an empty one, leads from `p` to `q`. -/
def Reaches (set : ModuleSet) : QueryPath → QueryPath → Prop :=
  Relation.ReflTransGen set.Requires

/-- A chain of references inside the set leads from `p` to `q`, and all modules after `p` are
allowed. -/
def ReachesThrough (set : ModuleSet) (allowed : QueryPath → Bool) :
    QueryPath → QueryPath → Prop :=
  Relation.ReflTransGen fun a b => set.Requires a b ∧ allowed b = true

theorem requires_iff : set.Requires p q ↔ q ∈ set.requiresOf p ∧ q ∈ set.paths :=
  mem_dependencies

theorem Requires.mem_paths (h : set.Requires p q) : q ∈ set.paths :=
  (mem_dependencies.1 h).2

theorem Requires.source_mem_paths (h : set.Requires p q) : p ∈ set.paths := by
  refine Classical.byContradiction fun habsent => ?_
  rw [Requires, dependencies_eq_nil_of_not_mem habsent] at h
  exact List.not_mem_nil h

/-- What is reached from a part of the set that requires nothing outside it lies in this
part. -/
theorem Reaches.mem_of_closed (area : List QueryPath)
    (hclosed : ∀ a ∈ area, ∀ b ∈ set.dependencies a, b ∈ area) (h : set.Reaches p q)
    (hp : p ∈ area) : q ∈ area := by
  induction h with
  | refl => exact hp
  | tail _ hstep ih => exact hclosed _ ih _ hstep

/-- No reference leads out of the set. -/
theorem Reaches.mem_paths (h : set.Reaches p q) (hp : p ∈ set.paths) : q ∈ set.paths :=
  h.mem_of_closed set.paths (fun _ _ _ hb => (mem_dependencies.1 hb).2) hp

theorem ReachesThrough.reaches {allowed : QueryPath → Bool}
    (h : set.ReachesThrough allowed p q) :
    set.Reaches p q := by
  induction h with
  | refl => exact .refl
  | tail _ hstep ih => exact ih.tail hstep.1

theorem ReachesThrough.allowed_of {allowed : QueryPath → Bool}
    (h : set.ReachesThrough allowed p q) (hp : allowed p = true) : allowed q = true := by
  induction h with
  | refl => exact hp
  | tail _ hstep _ => exact hstep.2

/-- A property that holds at the end of a chain holds at its start, or the chain has a first
edge into it. -/
theorem Reaches.exists_entry {S : QueryPath → Prop} (h : set.Reaches p q) (hq : S q) :
    S p ∨ ∃ u f, set.Reaches p u ∧ ¬ S u ∧ set.Requires u f ∧ S f ∧ set.Reaches f q := by
  induction h using Relation.ReflTransGen.head_induction_on with
  | refl => exact Or.inl hq
  | @head p mid hstep hrest ih =>
    by_cases hp : S p
    · exact Or.inl hp
    right
    rcases ih with hmid | ⟨u, f, hreach, hu, hedge, hf, hend⟩
    · exact ⟨p, mid, .refl, hp, hstep, hmid, hrest⟩
    · exact ⟨u, f, .head hstep hreach, hu, hedge, hf, hend⟩

/-- Where permission can only be lost along the way from `p`, a chain from `p` to an allowed
module goes through allowed modules. -/
theorem Reaches.through {allowed : QueryPath → Bool}
    (hlost : ∀ a b, set.Reaches p a → set.Requires a b → allowed b = true → allowed a = true)
    (h : set.Reaches p q) (hq : allowed q = true) :
    allowed p = true ∧ set.ReachesThrough allowed p q := by
  induction h with
  | refl => exact ⟨hq, .refl⟩
  | tail hreach hstep ih =>
    obtain ⟨hp, hthrough⟩ := ih (hlost _ _ hreach hstep hq)
    exact ⟨hp, hthrough.tail ⟨hstep, hq⟩⟩

end WebBundler.ModuleSet
