import WebBundler.Merge.Remaining
set_option autoImplicit false

/-!
# Merge: dependency-first order

A depth-first walk over `requires`, which lists a module after all that it requires.  Whoever
walks decides which modules are entered: `enter` is asked about a module each time the walk
meets it and has not entered it, and may carry a state from one question to the next.

The walk keeps a stack of frames: a module that was entered, and those of its references that
were not looked at yet.  Each step looks at one reference or leaves a module, so the walk ends:
either a module is entered for the first time, or the references left on the stack become fewer.
-/

namespace WebBundler.ModuleSet

variable {σ : Type}

/-- A module that was entered, and the references of it that were not looked at yet. -/
structure Frame where
  node : QueryPath
  pending : List QueryPath
  deriving DecidableEq, Repr

/-- The work left on a stack: its frames and their pending references. -/
def work (stack : List Frame) : Nat := stack.foldr (fun f n => f.pending.length + 1 + n) 0

/-- Walk on from a stack: the modules left so far are `order`, those entered `visited`. -/
def walkFrom (set : ModuleSet) (enter : σ → QueryPath → Bool × σ) (state : σ)
    (visited order : List QueryPath) (stack : List Frame) : List QueryPath × σ :=
  match stack with
  | [] => (order, state)
  | ⟨node, []⟩ :: rest => walkFrom set enter state visited (order ++ [node]) rest
  | ⟨node, p :: pending⟩ :: rest =>
    if p ∈ set.paths ∧ p ∉ visited then
      if (enter state p).1 then
        walkFrom set enter (enter state p).2 (p :: visited) order
          (⟨p, set.requiresOf p⟩ :: ⟨node, pending⟩ :: rest)
      else walkFrom set enter (enter state p).2 visited order (⟨node, pending⟩ :: rest)
    else walkFrom set enter state visited order (⟨node, pending⟩ :: rest)
termination_by (set.remaining (visited.contains ·), work stack)
decreasing_by
  · exact Prod.Lex.right _ (by simp [work])
  · next h _ =>
    refine Prod.Lex.left _ _ (remaining_lt (x := p) (fun q hq => ?_) h.1 ?_ ?_)
    · simp only [List.contains_cons, Bool.or_eq_true]; exact Or.inr hq
    · simpa using h.2
    · simp
  · exact Prod.Lex.right _ (by simp [work])
  · exact Prod.Lex.right _ (by simp [work])

/-- The modules that a depth-first walk from `start` enters, each after those that it requires,
and the state after the last question. -/
def dependencyFirst (set : ModuleSet) (start : QueryPath) (enter : σ → QueryPath → Bool × σ)
    (state : σ) : List QueryPath × σ :=
  if (enter state start).1 then
    walkFrom set enter (enter state start).2 [start] [] [⟨start, set.requiresOf start⟩]
  else ([], (enter state start).2)

end WebBundler.ModuleSet
