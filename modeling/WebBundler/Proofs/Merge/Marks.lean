import WebBundler.Merge.Marks
import WebBundler.Proofs.Graph.Reachability
import Mathlib.Data.Finset.Card
set_option autoImplicit false

/-!
# The marks of a merge say which roots reach a module

Marking from a root leaves the newest slot on exactly the modules that the root reaches
(`slots_markFrom`), so by induction over the roots a module carries, in increasing order, the
slots of the roots that reach it (`Exact`).  On increasing slots the bisection that looks for
one agrees with membership (`carries_iff`).
-/

namespace WebBundler.RootMarks

variable {set : ModuleSet} {marks : RootMarks} {slot : Nat} {p q root : QueryPath}

/-! ## Marking breadth first -/

/-- What a marked module requires is marked or queued. -/
def ClosedUpTo (set : ModuleSet) (marks : RootMarks) (slot : Nat) (queue : List QueryPath) :
    Prop :=
  ∀ p, marks.carriesNewest p slot = true →
    ∀ q, set.Requires p q → marks.carriesNewest q slot = true ∨ q ∈ queue

/-- A chain from a marked module to one that is not marked goes through the queue. -/
theorem ClosedUpTo.exists_queued {queue : List QueryPath} (h : ClosedUpTo set marks slot queue)
    (hp : marks.carriesNewest p slot = true) (hq : ¬ marks.carriesNewest q slot = true)
    (hreach : set.Reaches p q) : ∃ r ∈ queue, set.Reaches r q := by
  rcases hreach.exists_entry (S := fun r => ¬ marks.carriesNewest r slot = true) hq with
    hp' | ⟨u, f, -, hu, hedge, hf, hend⟩
  · exact absurd hp hp'
  · have hu' : marks.carriesNewest u slot = true := Classical.not_not.1 hu
    exact ⟨f, (h u hu' f hedge).resolve_left hf, hend⟩

theorem slots_mark (marks : RootMarks) (p : QueryPath) (slot : Nat) (q : QueryPath) :
    (marks.mark p slot).slots q = if q = p then (marks.slots p).push slot else marks.slots q :=
      rfl

theorem carriesNewest_mark_iff :
    (marks.mark p slot).carriesNewest q slot = true ↔
      q = p ∨ marks.carriesNewest q slot = true := by
  by_cases hq : q = p
  · subst hq
    simp [carriesNewest_mark_self]
  · simp [carriesNewest, slots_mark, hq]

/-- Taking a module that is not marked from the queue, marking it and queueing what it requires
keeps marked modules closed up to the queue. -/
theorem ClosedUpTo.mark {queue : List QueryPath} (h : ClosedUpTo set marks slot (p :: queue)) :
    ClosedUpTo set (marks.mark p slot) slot
      (queue ++ (set.dependencies p).filter fun q =>
        !(marks.mark p slot).carriesNewest q slot) := by
  intro u hu q hedge
  by_cases hq : (marks.mark p slot).carriesNewest q slot = true
  · exact .inl hq
  right
  rcases carriesNewest_mark_iff.1 hu with rfl | hu
  · exact List.mem_append_right _ (List.mem_filter.2 ⟨hedge, by simpa using hq⟩)
  · rw [carriesNewest_mark_iff, not_or] at hq
    rcases h u hu q hedge with hmarked | hqueued
    · exact absurd hmarked hq.2
    · exact List.mem_append_left _ ((List.mem_cons.1 hqueued).resolve_left hq.1)

theorem roots_spread (queue : List QueryPath) :
    (spread set slot marks queue).roots = marks.roots := by
  fun_induction spread set slot marks queue with
  | case1 => rfl
  | case2 marks p queue hmarked ih => exact ih
  | case3 marks p queue hnew marked ih => exact ih

open Classical in
/-- Marking from a queue leaves the slot on what the queue reaches, where it was not left
before. -/
theorem slots_spread {queue : List QueryPath} (h : ClosedUpTo set marks slot queue)
    (q : QueryPath) :
    (spread set slot marks queue).slots q =
      if ¬ marks.carriesNewest q slot = true ∧ ∃ r ∈ queue, set.Reaches r q then
        (marks.slots q).push slot
      else marks.slots q := by
  fun_induction spread set slot marks queue with
  | case1 marks => simp
  | case2 marks p queue hmarked ih =>
    have hclosed : ClosedUpTo set marks slot queue := by
      intro u hu q hedge
      rcases h u hu q hedge with hq | hq
      · exact .inl hq
      · rcases List.mem_cons.1 hq with rfl | hq
        · exact .inl hmarked
        · exact .inr hq
    rw [ih hclosed]
    apply if_congr _ rfl rfl
    apply and_congr_right
    intro hq
    constructor
    · rintro ⟨r, hr, hreach⟩
      exact ⟨r, List.mem_cons_of_mem _ hr, hreach⟩
    · rintro ⟨r, hr, hreach⟩
      rcases List.mem_cons.1 hr with rfl | hr
      · exact hclosed.exists_queued hmarked hq hreach
      · exact ⟨r, hr, hreach⟩
  | case3 marks p queue hnew marked ih =>
    rw [ih h.mark]
    by_cases hqp : q = p
    · subst hqp
      have hself : marked.carriesNewest q slot = true := carriesNewest_mark_self marks q slot
      have hreach : ∃ r ∈ q :: queue, set.Reaches r q := ⟨q, List.mem_cons_self, .refl⟩
      rw [if_neg (fun hcond => hcond.1 hself), if_pos ⟨hnew, hreach⟩]
      simp [marked, slots_mark]
    · have hsame : marked.carriesNewest q slot = true ↔ marks.carriesNewest q slot = true := by
        simp [marked, carriesNewest_mark_iff, hqp]
      have hslots : marked.slots q = marks.slots q := by simp [marked, slots_mark, hqp]
      rw [hslots]
      apply if_congr _ rfl rfl
      rw [not_congr hsame]
      apply and_congr_right
      intro hq
      constructor
      · rintro ⟨r, hr, hreach⟩
        rcases List.mem_append.1 hr with hr | hr
        · exact ⟨r, List.mem_cons_of_mem _ hr, hreach⟩
        · exact ⟨p, List.mem_cons_self, .head (List.mem_filter.1 hr).1 hreach⟩
      · rintro ⟨r, hr, hreach⟩
        rcases List.mem_cons.1 hr with rfl | hr
        · exact h.mark.exists_queued (carriesNewest_mark_self marks r slot) (mt hsame.1 hq)
            hreach
        · exact ⟨r, List.mem_append_left _ hr, hreach⟩

/-! ## The slots of the roots that reach a module -/

/-- Each module carries, in increasing order, the slots of the roots that reach it. -/
structure Exact (set : ModuleSet) (marks : RootMarks) : Prop where
  increasing : ∀ p, (marks.slots p).toList.Pairwise (· < ·)
  mem_iff : ∀ p i, i ∈ marks.slots p ↔ ∃ root, marks.roots[i]? = some root ∧ set.Reaches root p

theorem exact_empty : Exact set RootMarks.empty where
  increasing p := by simp [RootMarks.empty]
  mem_iff p i := by simp [RootMarks.empty]

theorem Exact.slot_lt (h : Exact set marks) {i : Nat} (hi : i ∈ marks.slots p) :
    i < marks.roots.length := by
  obtain ⟨root, hroot, -⟩ := (h.mem_iff p i).1 hi
  exact (List.getElem?_eq_some_iff.1 hroot).1

theorem roots_markFrom (marks : RootMarks) (root : QueryPath) :
    (marks.markFrom set root).roots = marks.roots ++ [root] :=
  roots_spread [root]

open Classical in
/-- Marking from a root adds its slot to what the root reaches. -/
theorem Exact.slots_markFrom (h : Exact set marks) (root q : QueryPath) :
    (marks.markFrom set root).slots q =
      if set.Reaches root q then (marks.slots q).push marks.roots.length
      else marks.slots q := by
  have hnone : ∀ p, ¬ (⟨marks.roots ++ [root], marks.slots⟩ : RootMarks).carriesNewest p
      marks.roots.length = true := by
    intro p hp
    have hmem : marks.roots.length ∈ marks.slots p :=
      Array.mem_of_back? (by simpa [carriesNewest] using hp)
    exact absurd (h.slot_lt hmem) (Nat.lt_irrefl _)
  have hclosed : ClosedUpTo set ⟨marks.roots ++ [root], marks.slots⟩ marks.roots.length
      [root] :=
    fun p hp => absurd hp (hnone p)
  rw [markFrom, slots_spread hclosed]
  simp [hnone]

theorem Exact.markFrom (h : Exact set marks) (root : QueryPath) :
    Exact set (marks.markFrom set root) where
  increasing p := by
    rw [h.slots_markFrom]
    split
    · rw [Array.toList_push, List.pairwise_append]
      refine ⟨h.increasing p, List.pairwise_singleton _ _, ?_⟩
      intro i hi j hj
      rw [List.mem_singleton.1 hj]
      exact h.slot_lt (Array.mem_toList_iff.1 hi)
    · exact h.increasing p
  mem_iff p i := by
    rw [h.slots_markFrom, roots_markFrom]
    rcases Nat.lt_trichotomy i marks.roots.length with hlt | heq | hgt
    · rw [List.getElem?_append_left hlt, ← h.mem_iff p i]
      split
      · simp [Nat.ne_of_lt hlt]
      · exact Iff.rfl
    · subst heq
      have hnew : marks.roots.length ∉ marks.slots p := fun hi => Nat.lt_irrefl _ (h.slot_lt hi)
      split
      · next hreach => simpa using hreach
      · next hreach => simpa [hnew] using hreach
    · have hnone : (marks.roots ++ [root])[i]? = none := by
        rw [List.getElem?_eq_none_iff, List.length_append]
        exact hgt
      have hhigh : i ∉ marks.slots p := fun hi => Nat.lt_asymm hgt (h.slot_lt hi)
      split
      · simp [hnone, hhigh, Nat.ne_of_gt hgt]
      · simp [hnone, hhigh]

/-- Marks left from any list of roots are exact. -/
theorem exact_ofRoots (set : ModuleSet) (roots : List QueryPath) :
    Exact set (ofRoots set roots) := by
  unfold ofRoots
  generalize hmarks : RootMarks.empty = marks
  have h : Exact set marks := hmarks ▸ exact_empty
  clear hmarks
  induction roots generalizing marks with
  | nil => exact h
  | cons root roots ih => exact ih _ (h.markFrom root)

theorem roots_ofRoots (set : ModuleSet) (roots : List QueryPath) :
    (ofRoots set roots).roots = roots := by
  unfold ofRoots
  suffices h : ∀ marks : RootMarks,
      (roots.foldl (RootMarks.markFrom set) marks).roots = marks.roots ++ roots by
    simpa [RootMarks.empty] using h RootMarks.empty
  intro marks
  induction roots generalizing marks with
  | nil => simp
  | cons root roots ih => simp [ih, roots_markFrom]

/-! ## How many roots reach a module -/

theorem Exact.reachCount_eq_zero_iff (h : Exact set marks) :
    marks.reachCount p = 0 ↔ ∀ root ∈ marks.roots, ¬ set.Reaches root p := by
  rw [reachCount, Array.size_eq_zero_iff, Array.eq_empty_iff_forall_not_mem]
  simp only [h.mem_iff, not_exists, not_and, List.mem_iff_getElem?]
  constructor
  · rintro hnone root ⟨i, hi⟩
    exact hnone i root hi
  · rintro hnone i root hi
    exact hnone root ⟨i, hi⟩

theorem two_le_length_iff {l : List Nat} (h : l.Nodup) :
    2 ≤ l.length ↔ ∃ a ∈ l, ∃ b ∈ l, a ≠ b := by
  rw [← List.toFinset_card_of_nodup h]
  exact Nat.lt_iff_add_one_le.symm.trans (by simpa using Finset.one_lt_card (s := l.toFinset))

/-- Two slots on a module are two roots that reach it. -/
theorem Exact.two_le_reachCount_iff (h : Exact set marks) (hnodup : marks.roots.Nodup) :
    2 ≤ marks.reachCount p ↔
      ∃ a ∈ marks.roots, ∃ b ∈ marks.roots, a ≠ b ∧ set.Reaches a p ∧ set.Reaches b p := by
  have hslots : (marks.slots p).toList.Nodup := (h.increasing p).imp Nat.ne_of_lt
  rw [reachCount, ← Array.length_toList, two_le_length_iff hslots]
  simp only [Array.mem_toList_iff, h.mem_iff]
  constructor
  · rintro ⟨i, ⟨a, hi, ha⟩, j, ⟨b, hj, hb⟩, hij⟩
    refine ⟨a, List.mem_of_getElem? hi, b, List.mem_of_getElem? hj, ?_, ha, hb⟩
    rintro rfl
    have hlt : i < marks.roots.length := (List.getElem?_eq_some_iff.1 hi).1
    exact hij ((List.getElem?_inj hlt hnodup).1 (hi.trans hj.symm))
  · rintro ⟨a, ha, b, hb, hne, hreachA, hreachB⟩
    obtain ⟨i, hi⟩ := List.mem_iff_getElem?.1 ha
    obtain ⟨j, hj⟩ := List.mem_iff_getElem?.1 hb
    refine ⟨i, ⟨a, hi, hreachA⟩, j, ⟨b, hj, hreachB⟩, ?_⟩
    rintro rfl
    exact hne (Option.some.inj (hi.symm.trans hj))

/-! ## Looking for a slot -/

/-- On an increasing array, bisection finds a number between two places if it is there. -/
theorem bisect_iff {xs : Array Nat} (hxs : xs.toList.Pairwise (· < ·)) {x low high : Nat}
    (hhigh : high ≤ xs.size) :
    bisect xs x low high = true ↔ ∃ i, low ≤ i ∧ i < high ∧ xs[i]? = some x := by
  have hmono : ∀ {i j a b : Nat}, xs[i]? = some a → xs[j]? = some b → i < j → a < b := by
    intro i j a b hi hj hij
    obtain ⟨hlti, rfl⟩ := Array.getElem?_eq_some_iff.1 hi
    obtain ⟨hltj, rfl⟩ := Array.getElem?_eq_some_iff.1 hj
    exact List.pairwise_iff_getElem.1 hxs i j hlti hltj hij
  fun_induction bisect xs x low high with
  | case1 low high hlt middle hnone =>
    have := Array.getElem?_eq_none_iff.1 hnone
    omega
  | case2 low high hlt middle hfound =>
    exact iff_of_true rfl ⟨middle, by omega, by omega, hfound⟩
  | case3 low high hlt middle y hy hne hbelow ih =>
    -- The number can only be in the upper half.
    apply (ih hhigh).trans
    constructor
    · rintro ⟨i, hlow, hi, hfound⟩
      exact ⟨i, by omega, hi, hfound⟩
    · rintro ⟨i, hlow, hi, hfound⟩
      refine ⟨i, ?_, hi, hfound⟩
      rcases Nat.lt_trichotomy i middle with hlt | heq | hgt
      · exact absurd (hmono hfound hy hlt) (Nat.lt_asymm hbelow)
      · subst heq
        exact absurd (Option.some.inj (hy.symm.trans hfound)) hne
      · exact hgt
  | case4 low high hlt middle y hy hne hbelow ih =>
    -- The number can only be in the lower half.
    apply (ih (by omega)).trans
    constructor
    · rintro ⟨i, hlow, hi, hfound⟩
      exact ⟨i, hlow, by omega, hfound⟩
    · rintro ⟨i, hlow, hi, hfound⟩
      refine ⟨i, hlow, ?_, hfound⟩
      rcases Nat.lt_trichotomy i middle with hlt | heq | hgt
      · exact hlt
      · subst heq
        exact absurd (Option.some.inj (hy.symm.trans hfound)) hne
      · exact absurd (hmono hy hfound hgt) hbelow
  | case5 low high hempty =>
    refine iff_of_false (by simp) ?_
    rintro ⟨i, hlow, hi, -⟩
    omega

theorem carries_iff (h : (marks.slots p).toList.Pairwise (· < ·)) :
    marks.carries p slot = true ↔ slot ∈ marks.slots p := by
  rw [carries, bisect_iff h Nat.le.refl, Array.mem_iff_getElem?]
  constructor
  · rintro ⟨i, -, -, hi⟩
    exact ⟨i, hi⟩
  · rintro ⟨i, hi⟩
    exact ⟨i, Nat.zero_le i, (Array.getElem?_eq_some_iff.1 hi).1, hi⟩

/-! ## Releasing slots -/

theorem mem_slots_release {i : Nat} :
    i ∈ (marks.release p slot).slots q ↔ i ∈ marks.slots q ∧ ¬ (q = p ∧ i = slot) := by
  by_cases hq : q = p
  · subst hq
    simp [release]
  · simp [release, hq]

theorem increasing_release (h : (marks.slots q).toList.Pairwise (· < ·)) :
    ((marks.release p slot).slots q).toList.Pairwise (· < ·) := by
  by_cases hq : q = p
  · subst hq
    simpa [release] using h.filter _
  · simpa [release, hq] using h

end WebBundler.RootMarks
