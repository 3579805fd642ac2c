import WebBundler.Proofs.Merge.Marks
set_option autoImplicit false

/-!
# Marks name the roots that reach a module

After marking from a list of roots, the roots named by the marks of a module are those of the
list that reach it, in order and as often as they are listed (`rootsOf_ofRoots`).

Marks come about by changes of three kinds: a root takes the next slot, a module that does not
carry the newest slot gets it, and a slot is taken off a module.  Whatever changes were made,
slots increase along a module and none is beyond the newest (`Slotted`).  So the newest slot can
only stand last, and any one is found by bisection.
-/

namespace WebBundler

namespace ModuleSet

open Classical in
/-- Those of the roots that reach a module, in order and with repetitions. -/
noncomputable def rootsReaching (set : ModuleSet) (roots : List QueryPath) (p : QueryPath) :
    List QueryPath :=
  roots.filter fun root => set.Reaches root p

end ModuleSet

namespace RootMarks

variable {set : ModuleSet} {marks : RootMarks} {p root : QueryPath} {slot : Nat}

/-! ## The roots named by marks -/

theorem Exact.length_rootsOf (h : Exact set marks) (p : QueryPath) :
    (marks.rootsOf p).length = marks.reachCount p := by
  have hnamed : ∀ i ∈ (marks.slots p).toList, (marks.roots[i]?).isSome := by
    intro i hi
    rw [List.getElem?_eq_getElem (h.slot_lt (Array.mem_toList_iff.1 hi))]
    rfl
  rw [rootsOf, reachCount, ← Array.length_toList, List.length_filterMap_eq_countP,
    List.countP_eq_length]
  exact hnamed

theorem Exact.rootsOf_markFrom (h : Exact set marks) (root p : QueryPath) :
    (marks.markFrom set root).rootsOf p = marks.rootsOf p ++ set.rootsReaching [root] p := by
  have hearlier : (marks.slots p).toList.filterMap ((marks.roots ++ [root])[·]?) =
      marks.rootsOf p := by
    apply List.filterMap_congr
    intro i hi
    exact List.getElem?_append_left (h.slot_lt (Array.mem_toList_iff.1 hi))
  rw [rootsOf, roots_markFrom, h.slots_markFrom]
  by_cases hreach : set.Reaches root p
  · rw [if_pos hreach, Array.toList_push, List.filterMap_append, hearlier]
    simp [ModuleSet.rootsReaching, hreach]
  · rw [if_neg hreach, hearlier]
    simp [ModuleSet.rootsReaching, hreach]

theorem ofRoots_concat (set : ModuleSet) (roots : List QueryPath) (root : QueryPath) :
    ofRoots set (roots ++ [root]) = (ofRoots set roots).markFrom set root := by
  unfold ofRoots
  rw [List.foldl_append]
  rfl

/-- The marks left from some roots name those of them that reach a module. -/
theorem rootsOf_ofRoots (set : ModuleSet) (roots : List QueryPath) (p : QueryPath) :
    (ofRoots set roots).rootsOf p = set.rootsReaching roots p := by
  induction roots using List.reverseRecOn with
  | nil => rfl
  | append_singleton roots root ih =>
    rw [ofRoots_concat, (exact_ofRoots set roots).rootsOf_markFrom, ih]
    exact (List.filter_append ..).symm

theorem reachCount_ofRoots (set : ModuleSet) (roots : List QueryPath) (p : QueryPath) :
    (ofRoots set roots).reachCount p = (set.rootsReaching roots p).length := by
  rw [← (exact_ofRoots set roots).length_rootsOf, rootsOf_ofRoots]

/-! ## Changes to marks -/

/-- The slot of the root that was listed last. -/
def newest (marks : RootMarks) : Nat := marks.roots.length - 1

/-- What can happen to marks. -/
inductive Change where
  /-- A root takes the next slot. -/
  | root (p : QueryPath)
  /-- A module gets the newest slot, unless it carries it already. -/
  | mark (p : QueryPath)
  /-- A slot is taken off a module. -/
  | release (p : QueryPath) (slot : Nat)

/-- The marks after a change. -/
def Change.apply (marks : RootMarks) : Change → RootMarks
  | .root p => ⟨marks.roots ++ [p], marks.slots⟩
  | .mark p => if marks.carriesNewest p marks.newest then marks else marks.mark p marks.newest
  | .release p slot => marks.release p slot

/-- The marks after some changes in turn. -/
def after (marks : RootMarks) (changes : List Change) : RootMarks :=
  changes.foldl Change.apply marks

/-- Slots increase along each module, and none is beyond the newest. -/
structure Slotted (marks : RootMarks) : Prop where
  increasing : ∀ p, (marks.slots p).toList.Pairwise (· < ·)
  le_newest : ∀ p, ∀ i ∈ marks.slots p, i ≤ marks.newest

/-- The newest slot of a module can only be the last. -/
theorem Slotted.carriesNewest_iff (h : Slotted marks) :
    marks.carriesNewest p marks.newest = true ↔ marks.newest ∈ marks.slots p := by
  rw [carriesNewest, beq_iff_eq]
  constructor
  · exact Array.mem_of_back?
  · intro hmem
    have hlist := Array.mem_toList_iff.2 hmem
    rcases List.eq_nil_or_concat' (marks.slots p).toList with hnone | ⟨front, last, hsplit⟩
    · rw [hnone] at hlist
      exact absurd hlist List.not_mem_nil
    · have hincreasing := h.increasing p
      have hlast : last ∈ marks.slots p := by
        rw [← Array.mem_toList_iff, hsplit]
        exact List.mem_append_right _ List.mem_cons_self
      rw [hsplit] at hlist hincreasing
      -- A newest slot before the last one would be less than it.
      have hsame : last = marks.newest := by
        rcases List.mem_append.1 hlist with hfront | hback
        · have hlt := (List.pairwise_append.1 hincreasing).2.2 _ hfront last List.mem_cons_self
          exact absurd (h.le_newest p last hlast) (Nat.not_le_of_lt hlt)
        · exact (List.mem_singleton.1 hback).symm
      rw [← Array.getLast?_toList, hsplit, hsame]
      exact List.getLast?_concat

theorem slotted_empty : Slotted empty where
  increasing p := by simp [empty]
  le_newest p := by simp [empty]

theorem Slotted.apply (h : Slotted marks) (change : Change) : Slotted (change.apply marks) := by
  cases change with
  | root p =>
    refine ⟨h.increasing, fun q i hi => ?_⟩
    have hle := h.le_newest q i hi
    simp only [Change.apply, newest, List.length_append, List.length_singleton] at hle ⊢
    omega
  | mark p =>
    rw [Change.apply]
    split
    · exact h
    · next hnew =>
      rw [h.carriesNewest_iff] at hnew
      refine ⟨fun q => ?_, fun q i hi => ?_⟩
      · rw [slots_mark]
        split
        · rw [Array.toList_push, List.pairwise_append]
          refine ⟨h.increasing p, List.pairwise_singleton _ _, fun i hi j hj => ?_⟩
          rw [List.mem_singleton.1 hj]
          have hmem := Array.mem_toList_iff.1 hi
          exact Nat.lt_of_le_of_ne (h.le_newest p i hmem) fun hsame => hnew (hsame ▸ hmem)
        · exact h.increasing q
      · rw [slots_mark] at hi
        split at hi
        · rcases Array.mem_push.1 hi with hi | rfl
          · exact h.le_newest p i hi
          · exact Nat.le.refl
        · exact h.le_newest q i hi
  | release p slot =>
    exact ⟨fun q => increasing_release (h.increasing q),
      fun q i hi => h.le_newest q i (mem_slots_release.1 hi).1⟩

theorem Slotted.after (h : Slotted marks) (changes : List Change) :
    Slotted (marks.after changes) := by
  induction changes generalizing marks with
  | nil => exact h
  | cons change changes ih => exact ih (h.apply change)

/-! ## Marking is a sequence of changes -/

/-- Marking breadth first gives modules the newest slot, one at a time. -/
theorem exists_changes_spread (set : ModuleSet) (marks : RootMarks) (queue : List QueryPath)
    (hslot : slot = marks.newest) :
    ∃ marked : List QueryPath, spread set slot marks queue =
      marks.after (marked.map .mark) := by
  fun_induction spread set slot marks queue with
  | case1 marks => exact ⟨[], rfl⟩
  | case2 marks p queue hmarked ih => exact ih hslot
  | case3 marks p queue hnew next ih =>
    obtain ⟨marked, hmarked⟩ := ih hslot
    have hstep : Change.apply marks (.mark p) = next := by
      rw [Change.apply, ← hslot, if_neg hnew]
    refine ⟨p :: marked, ?_⟩
    rw [hmarked, ← hstep]
    rfl

/-- Marking from roots is a sequence of changes, none of which takes a slot off. -/
theorem exists_changes_ofRoots (set : ModuleSet) (roots : List QueryPath) :
    ∃ changes : List Change, (∀ p slot, .release p slot ∉ changes) ∧
      ofRoots set roots = empty.after changes := by
  induction roots using List.reverseRecOn with
  | nil => exact ⟨[], by simp, rfl⟩
  | append_singleton roots root ih =>
    obtain ⟨changes, hkept, hmarks⟩ := ih
    have hslot : (ofRoots set roots).roots.length =
        newest ⟨(ofRoots set roots).roots ++ [root], (ofRoots set roots).slots⟩ := by
      simp [newest]
    obtain ⟨marked, hmarked⟩ := exists_changes_spread set _ [root] hslot
    refine ⟨changes ++ .root root :: marked.map .mark, by simp [hkept], ?_⟩
    rw [ofRoots_concat, markFrom, hmarked, hmarks, after, after, after, List.foldl_append,
      List.foldl_cons]
    rfl

theorem slotted_ofRoots (set : ModuleSet) (roots : List QueryPath) :
    Slotted (ofRoots set roots) := by
  obtain ⟨changes, -, hmarks⟩ := exists_changes_ofRoots set roots
  rw [hmarks]
  exact slotted_empty.after changes

/-- **Marks name the roots that reach a module.**  After marking from a list of roots, the roots
named by the marks of a module are those of the list that reach it, in order and as often as
they are listed, and their number is the count.  Marking is a sequence of changes to no marks.
After it and after any further changes, slots that are taken off among them, a module carries
the newest slot last if it carries it at all, and bisection finds a slot if the module carries
it. -/
theorem marks_name_reaching_roots (set : ModuleSet) (roots : List QueryPath) :
    (∀ p, (ofRoots set roots).rootsOf p = set.rootsReaching roots p ∧
        (ofRoots set roots).reachCount p = (set.rootsReaching roots p).length) ∧
      (∃ changes : List Change, (∀ p slot, .release p slot ∉ changes) ∧
        ofRoots set roots = empty.after changes) ∧
      ∀ changes p, let marks := (ofRoots set roots).after changes
        (marks.carriesNewest p marks.newest = true ↔ marks.newest ∈ marks.slots p) ∧
          ∀ slot, marks.carries p slot = true ↔ slot ∈ marks.slots p := by
  refine ⟨fun p => ⟨rootsOf_ofRoots set roots p, reachCount_ofRoots set roots p⟩,
    exists_changes_ofRoots set roots, fun changes p => ?_⟩
  have h := (slotted_ofRoots set roots).after changes
  exact ⟨h.carriesNewest_iff, fun slot => carries_iff (h.increasing p)⟩

end RootMarks

end WebBundler
