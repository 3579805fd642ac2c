import WebBundler.Merge.Remaining
set_option autoImplicit false

/-!
# Merge: roots and the marks they leave

The roots of a set are the modules that no module requires, and those that are asked for by
name.  Marking gives each root a slot, in order, and leaves the slot on every module that the
root reaches.  A module's slots are kept in increasing order, so the newest one can only be the
last, and any one is found by bisection; `release` takes a slot off a module again.
-/

namespace WebBundler

namespace ModuleSet

/-- The modules that nothing requires, in order, then those of `extra` that are in the set and
not listed yet. -/
def roots (set : ModuleSet) (extra : List QueryPath) : List QueryPath :=
  let index := set.requirerIndex
  let entries :=
    (set.paths.zipIdx.filter fun (_, place) => (index.getD place []).isEmpty).map Prod.fst
  extra.foldl (fun acc p => if set.contains p && !acc.contains p then acc ++ [p] else acc)
    entries

end ModuleSet

/-- Which roots reach which modules. -/
structure RootMarks where
  /-- The roots, each at its slot. -/
  roots : List QueryPath
  /-- The slots of the roots that reach a module, in increasing order. -/
  slots : QueryPath → Array Nat

namespace RootMarks

/-- No roots and no marks. -/
def empty : RootMarks := ⟨[], fun _ => #[]⟩

/-- The roots that reach a module, in the order of their slots. -/
def rootsOf (marks : RootMarks) (p : QueryPath) : List QueryPath :=
  (marks.slots p).toList.filterMap (marks.roots[·]?)

/-- How many roots reach a module. -/
def reachCount (marks : RootMarks) (p : QueryPath) : Nat := (marks.slots p).size

/-- The slot is the last one of the module. -/
def carriesNewest (marks : RootMarks) (p : QueryPath) (slot : Nat) : Bool :=
  (marks.slots p).back? == some slot

/-- Bisection: a number is among those of an increasing array from `low` to before `high`. -/
def bisect (xs : Array Nat) (x low high : Nat) : Bool :=
  if low < high then
    let middle := (low + high) / 2
    match xs[middle]? with
    | none => false
    | some y =>
      if y = x then true
      else if y < x then bisect xs x (middle + 1) high
      else bisect xs x low middle
  else false
termination_by high - low

/-- The slot is among those of the module. -/
def carries (marks : RootMarks) (p : QueryPath) (slot : Nat) : Bool :=
  bisect (marks.slots p) slot 0 (marks.slots p).size

/-- Leave a slot on a module. -/
def mark (marks : RootMarks) (p : QueryPath) (slot : Nat) : RootMarks where
  roots := marks.roots
  slots q := if q = p then (marks.slots p).push slot else marks.slots q

/-- Take a slot off a module. -/
def release (marks : RootMarks) (p : QueryPath) (slot : Nat) : RootMarks where
  roots := marks.roots
  slots q := if q = p then (marks.slots p).filter (· != slot) else marks.slots q

theorem carriesNewest_mark_self (marks : RootMarks) (p : QueryPath) (slot : Nat) :
    (marks.mark p slot).carriesNewest p slot = true := by
  simp [carriesNewest, mark]

theorem carriesNewest_mark_of_carriesNewest {marks : RootMarks} {p q : QueryPath} {slot : Nat}
    (h : marks.carriesNewest q slot = true) :
    (marks.mark p slot).carriesNewest q slot = true := by
  by_cases hq : q = p
  · subst hq; exact carriesNewest_mark_self marks q slot
  · simpa [carriesNewest, mark, hq] using h

/-- Mark breadth first: take the modules of a queue in turn, leave the slot on each that does
not carry it, and queue what it requires. -/
def spread (set : ModuleSet) (slot : Nat) (marks : RootMarks) : List QueryPath → RootMarks
  | [] => marks
  | p :: queue =>
    if marks.carriesNewest p slot then spread set slot marks queue
    else
      let marked := marks.mark p slot
      spread set slot marked
        (queue ++ (set.dependencies p).filter fun q => !marked.carriesNewest q slot)
termination_by queue => (set.remaining (marks.carriesNewest · slot), queue.length)
decreasing_by
  · exact Prod.Lex.right _ (by simp)
  · next hnot =>
    have hle : ∀ q, marks.carriesNewest q slot = true →
        (marks.mark p slot).carriesNewest q slot = true :=
      fun q => carriesNewest_mark_of_carriesNewest
    by_cases hp : p ∈ set.paths
    · exact Prod.Lex.left _ _ (ModuleSet.remaining_lt hle hp (by simpa using hnot)
        (carriesNewest_mark_self marks p slot))
    · have hnil := ModuleSet.dependencies_eq_nil_of_not_mem hp
      have := @ModuleSet.remaining_le set _ _ hle
      rcases Nat.lt_or_eq_of_le this with hlt | heq
      · exact Prod.Lex.left _ _ hlt
      · simp only [hnil, List.filter_nil, List.append_nil]
        rw [heq]
        exact Prod.Lex.right _ (by simp)

/-- Give a root the next slot and mark all that it reaches. -/
def markFrom (set : ModuleSet) (marks : RootMarks) (root : QueryPath) : RootMarks :=
  spread set marks.roots.length ⟨marks.roots ++ [root], marks.slots⟩ [root]

/-- Mark what each of the given roots reaches. -/
def ofRoots (set : ModuleSet) (roots : List QueryPath) : RootMarks :=
  roots.foldl (markFrom set) empty

end RootMarks

end WebBundler
