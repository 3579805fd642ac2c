import WebBundler.Proofs.Graph.DependencyFirst
import WebBundler.Proofs.Merge.Roots
set_option autoImplicit false

/-!
# The partition of a merge without its bookkeeping

While a merge takes its roots in turn it releases the slots of finished roots and keeps a table
of the modules that are placed for good.  Neither ever changes an answer: the walk for the root
at a slot enters a module if the module is not shared and carries the slot
(`Kept.enterOwn_fst`).  So each bundle is the list of one walk with fixed answers, and what the
walks hand on to one another is nothing but the shared modules that they asked about
(`merge_eq`).
-/

namespace WebBundler

namespace RootMarks

/-- Two roots reach the module. -/
def isShared (marks : RootMarks) (p : QueryPath) : Bool := decide (2 ≤ marks.reachCount p)

/-- The root at the slot reaches the module, and no second one does. -/
def isOwn (marks : RootMarks) (slot : Nat) (p : QueryPath) : Bool :=
  !marks.isShared p && marks.carries p slot

end RootMarks

namespace ModuleSet

variable {set : ModuleSet} {marks : RootMarks} {slot : Nat}

/-- One more item in a list that keeps first occurrences. -/
def noteNew (noted : List QueryPath) (p : QueryPath) : List QueryPath :=
  if noted.contains p then noted else noted ++ [p]

/-- Noting items keeps the first of each, of those that were not noted before. -/
theorem foldl_noteNew (items noted : List QueryPath) :
    items.foldl noteNew noted = noted ++ (items.filter (· ∉ noted)).eraseDups := by
  induction items generalizing noted with
  | nil => exact (List.append_nil _).symm
  | cons p items ih =>
    rw [List.foldl_cons, ih]
    by_cases hp : p ∈ noted
    · rw [noteNew, if_pos (by simpa using hp), List.filter_cons_of_neg (by simpa using hp)]
    · have hlater : (items.filter fun q => decide (q ∉ noted ++ [p])) =
          (items.filter fun q => decide (q ∉ noted)).filter fun q => !q == p := by
        rw [List.filter_filter]
        apply List.filter_congr
        intro q _
        by_cases hq : q = p <;> simp [hq]
      rw [noteNew, if_neg (by simpa using hp), List.filter_cons_of_pos (by simpa using hp),
        List.eraseDups_cons, hlater, List.append_assoc, List.singleton_append]

/-- The bundle of the root at a slot: what the walk through its own modules lists. -/
def ownBundle (set : ModuleSet) (marks : RootMarks) (root : QueryPath) (slot : Nat) :
    Bundle where
  modules := set.walkOrder (marks.isOwn slot) root
  usesCommon := (set.walkAsked (marks.isOwn slot) root).any marks.isShared

/-- The shared modules that the walk for the root at a slot asks about. -/
def sharedAsked (set : ModuleSet) (marks : RootMarks) (root : QueryPath) (slot : Nat) :
    List QueryPath :=
  (set.walkAsked (marks.isOwn slot) root).filter marks.isShared

/-! ## One question -/

/-- What a walk knows of shared modules after some questions. -/
theorem foldl_enterOwn {isShared : QueryPath → Bool} {consumed : List QueryPath}
    (asked : List QueryPath) (seen : Frontier) :
    asked.foldl (fun seen p => (enterOwn isShared marks consumed slot seen p).2) seen =
      ⟨seen.usesCommon || asked.any isShared,
        (asked.filter isShared).foldl noteNew seen.shared⟩ := by
  induction asked generalizing seen with
  | nil => simp
  | cons p asked ih =>
    rw [List.foldl_cons, ih]
    by_cases hp : isShared p = true
    · simp [enterOwn, hp, noteNew]
    · simp [enterOwn, hp]

/-! ## One root -/

/-- Before the root at `slot` is taken, slots not taken yet are as they were left by marking,
and the modules placed for good carry an earlier one. -/
structure Kept (marks : RootMarks) (slot : Nat) (part : Partition) : Prop where
  increasing : ∀ p, (part.marks.slots p).toList.Pairwise (· < ·)
  mem_iff : ∀ p i, slot ≤ i → (i ∈ part.marks.slots p ↔ i ∈ marks.slots p)
  consumed_lt : ∀ p ∈ part.consumed, ∃ i < slot, i ∈ marks.slots p

/-- The bookkeeping does not change whether a module is entered. -/
theorem Kept.enterOwn_fst {part : Partition} (h : Kept marks slot part)
    (hmarks : marks.Exact set) (seen : Frontier) (p : QueryPath) :
    (enterOwn marks.isShared part.marks part.consumed slot seen p).1 = marks.isOwn slot p := by
  have hcarries : part.marks.carries p slot = marks.carries p slot := by
    rw [Bool.eq_iff_iff, RootMarks.carries_iff (h.increasing p),
      RootMarks.carries_iff (hmarks.increasing p)]
    exact h.mem_iff p slot Nat.le.refl
  by_cases hshared : marks.isShared p = true
  · simp [enterOwn, RootMarks.isOwn, hshared]
  · by_cases hcarried : marks.carries p slot = true
    · -- A module that was placed before would carry two slots.
      have hfree : p ∉ part.consumed := by
        intro hp
        obtain ⟨i, hi, hmem⟩ := h.consumed_lt p hp
        have hslot := (RootMarks.carries_iff (hmarks.increasing p)).1 hcarried
        have hnodup : (marks.slots p).toList.Nodup := (hmarks.increasing p).imp Nat.ne_of_lt
        apply hshared
        rw [RootMarks.isShared, decide_eq_true_iff, RootMarks.reachCount, ← Array.length_toList,
          RootMarks.two_le_length_iff hnodup]
        exact ⟨i, Array.mem_toList_iff.2 hmem, slot, Array.mem_toList_iff.2 hslot,
          Nat.ne_of_lt hi⟩
      simp [enterOwn, RootMarks.isOwn, hshared, hcarries, hcarried, hfree]
    · simp [enterOwn, RootMarks.isOwn, hshared, hcarries, hcarried]

/-- Placing the modules of a bundle touches no other slot, and places nothing but them. -/
theorem consume_spec (slot : Nat) (order : List QueryPath) (marks : RootMarks)
    (consumed : List QueryPath) :
    let after := consume slot order marks consumed
    (∀ p, (marks.slots p).toList.Pairwise (· < ·) → (after.1.slots p).toList.Pairwise (· < ·)) ∧
      (∀ p i, i ≠ slot → (i ∈ after.1.slots p ↔ i ∈ marks.slots p)) ∧
      ∀ p ∈ after.2, p ∈ consumed ∨ p ∈ order := by
  induction order generalizing marks consumed with
  | nil => exact ⟨fun _ h => h, fun _ _ _ => Iff.rfl, fun _ h => .inl h⟩
  | cons q order ih =>
    obtain ⟨hinc, hmem, hplaced⟩ := ih (marks.release q slot)
      (if (marks.release q slot).reachCount q = 0 then q :: consumed else consumed)
    refine ⟨?_, ?_, ?_⟩
    · intro p hp
      exact hinc p (RootMarks.increasing_release hp)
    · intro p i hi
      apply (hmem p i hi).trans
      simp [RootMarks.mem_slots_release, hi]
    · intro p hp
      rcases hplaced p hp with hp | hp
      · split at hp
        · rcases List.mem_cons.1 hp with rfl | hp
          · exact .inr List.mem_cons_self
          · exact .inl hp
        · exact .inl hp
      · exact .inr (List.mem_cons_of_mem _ hp)

/-- Taking a root makes its bundle, and notes the shared modules that its walk asked about. -/
theorem Kept.takeRoot {part : Partition} (h : Kept marks slot part) (hmarks : marks.Exact set)
    (root : QueryPath) :
    let next := set.takeRoot marks.isShared part slot root
    Kept marks (slot + 1) next ∧
      next.bundles = part.bundles ++ [(root, set.ownBundle marks root slot)] ∧
      next.frontier = (set.sharedAsked marks root slot).foldl noteNew part.frontier := by
  have hwalk : set.dependencyFirst root _ _ = _ :=
    dependencyFirst_eq (h.enterOwn_fst hmarks) root ⟨false, part.frontier⟩
  rw [foldl_enterOwn] at hwalk
  obtain ⟨hinc, hmem, hplaced⟩ := consume_spec slot (set.walkOrder (marks.isOwn slot) root)
    part.marks part.consumed
  simp only [ModuleSet.takeRoot, hwalk]
  refine ⟨⟨?_, ?_, ?_⟩, ?_, rfl⟩
  · intro p
    exact hinc p (h.increasing p)
  · intro p i hi
    exact (hmem p i (by omega)).trans (h.mem_iff p i (by omega))
  · intro p hp
    rcases hplaced p hp with hp | hp
    · obtain ⟨i, hi, hslot⟩ := h.consumed_lt p hp
      exact ⟨i, by omega, hslot⟩
    · obtain ⟨hroot, hreach⟩ := mem_walkOrder_iff.1 hp
      have hown := hreach.allowed_of hroot
      simp only [RootMarks.isOwn, Bool.and_eq_true] at hown
      exact ⟨slot, by omega, (RootMarks.carries_iff (hmarks.increasing p)).1 hown.2⟩
  · simp [ownBundle]

/-! ## All roots -/

theorem Kept.foldl_takeRoot {part : Partition} (h : Kept marks slot part)
    (hmarks : marks.Exact set) (roots : List QueryPath) :
    let final := (roots.zipIdx slot).foldl
      (fun part (root, slot) => set.takeRoot marks.isShared part slot root) part
    final.bundles = part.bundles ++
        (roots.zipIdx slot).map (fun (root, slot) => (root, set.ownBundle marks root slot)) ∧
      final.frontier =
        ((roots.zipIdx slot).flatMap fun (root, slot) => set.sharedAsked marks root slot).foldl
          noteNew part.frontier := by
  induction roots generalizing part slot with
  | nil => simp
  | cons root roots ih =>
    obtain ⟨hnext, hbundles, hfrontier⟩ := h.takeRoot hmarks root
    obtain ⟨hbundles', hfrontier'⟩ := ih hnext
    simp only [List.zipIdx_cons, List.foldl_cons, List.map_cons, List.flatMap_cons,
      List.foldl_append]
    refine ⟨?_, ?_⟩
    · rw [hbundles', hbundles, List.append_assoc, List.singleton_append]
    · rw [hfrontier', hfrontier]

/-- The shared modules from which the common bundle starts: those that the walks ask about, in
the order of the first question. -/
def sharedFrontier (set : ModuleSet) (marks : RootMarks) : List QueryPath :=
  (marks.roots.zipIdx.flatMap fun (root, slot) => set.sharedAsked marks root slot).foldl noteNew
    []

/-- A merge makes the bundle of each root by a walk through its own modules, and the common
bundle from the shared modules that these walks ask about. -/
theorem merge_eq (set : ModuleSet) (extra : List QueryPath) :
    set.merge extra =
      let marks := set.fullMarks extra
      let common := set.commonModules marks.isShared (set.sharedFrontier marks)
      ⟨marks.roots.zipIdx.map fun (root, slot) => (root, set.ownBundle marks root slot),
        if common.isEmpty then none else some ⟨common, false⟩⟩ := by
  have hmarks := (rooted_fullMarks set extra).exact
  have hstart : Kept (set.fullMarks extra) 0 ⟨set.fullMarks extra, [], [], []⟩ :=
    ⟨hmarks.increasing, fun _ _ _ => Iff.rfl, by simp⟩
  obtain ⟨hbundles, hfrontier⟩ := hstart.foldl_takeRoot hmarks (set.fullMarks extra).roots
  rw [List.nil_append] at hbundles
  dsimp only
  rw [sharedFrontier, ← hfrontier, ← hbundles]
  rfl

end ModuleSet

end WebBundler
