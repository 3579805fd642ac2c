import WebBundler.Proofs.Merge.Partition
import Mathlib.Data.List.Nodup
set_option autoImplicit false

/-!
# Where a merge places a module

A module goes to the common bundle if two roots reach it (`isShared_iff`), and to the bundle of
a root if this root alone does (`mem_ownBundle_iff`).  Everything rests on one closure fact:
what a shared module requires is shared as well (`Shared.of_requires`), so a walk that stops at
shared modules misses no module of its root, and a walk through shared modules needs no others.
-/

namespace WebBundler.ModuleSet

variable {set : ModuleSet} {extra : List QueryPath} {marks : RootMarks} {slot : Nat}
  {p q u v root : QueryPath}

/-- Two different ones of the roots reach the module. -/
def Shared (set : ModuleSet) (roots : List QueryPath) (p : QueryPath) : Prop :=
  ∃ a ∈ roots, ∃ b ∈ roots, a ≠ b ∧ set.Reaches a p ∧ set.Reaches b p

/-! ## Shared modules -/

/-- What is reached from a shared module is shared. -/
theorem Shared.of_reaches {roots : List QueryPath} (h : set.Shared roots p)
    (hreach : set.Reaches p q) : set.Shared roots q := by
  obtain ⟨a, ha, b, hb, hne, hreachA, hreachB⟩ := h
  exact ⟨a, ha, b, hb, hne, hreachA.trans hreach, hreachB.trans hreach⟩

theorem Shared.of_requires {roots : List QueryPath} (h : set.Shared roots p)
    (hedge : set.Requires p q) : set.Shared roots q :=
  h.of_reaches (.single hedge)

namespace Rooted

theorem isShared_iff (h : Rooted set marks) :
    marks.isShared p = true ↔ set.Shared marks.roots p := by
  rw [RootMarks.isShared, decide_eq_true_iff]
  exact h.exact.two_le_reachCount_iff h.nodup

theorem isShared_eq_false_iff (h : Rooted set marks) :
    marks.isShared p = false ↔ ¬ set.Shared marks.roots p := by
  rw [← h.isShared_iff, Bool.not_eq_true]

/-- The own modules of a root are those that it reaches and that are not shared. -/
theorem isOwn_iff (h : Rooted set marks) (hroot : marks.roots[slot]? = some root) :
    marks.isOwn slot p = true ↔ set.Reaches root p ∧ ¬ set.Shared marks.roots p := by
  rw [RootMarks.isOwn, Bool.and_eq_true, Bool.not_eq_true', h.isShared_eq_false_iff, and_comm,
    RootMarks.carries_iff (h.exact.increasing p), h.exact.mem_iff]
  simp [hroot]

/-! ## The bundle of a root -/

/-- The walk for a root lists the modules that the root reaches and that are not shared. -/
theorem mem_ownBundle_iff (h : Rooted set marks) (hroot : marks.roots[slot]? = some root) :
    p ∈ (set.ownBundle marks root slot).modules ↔
      set.Reaches root p ∧ ¬ set.Shared marks.roots p := by
  simp only [ownBundle, mem_walkOrder_iff]
  constructor
  · rintro ⟨hstart, hreach⟩
    exact (h.isOwn_iff hroot).1 (hreach.allowed_of hstart)
  · rintro ⟨hreach, hfree⟩
    -- No module on the way to one that is not shared is shared.
    have hp := (h.isOwn_iff hroot).2 ⟨hreach, hfree⟩
    apply hreach.through _ hp
    intro a b ha hedge hb
    obtain ⟨-, hfree'⟩ := (h.isOwn_iff hroot).1 hb
    apply (h.isOwn_iff hroot).2
    exact ⟨ha, fun hshared => hfree' (hshared.of_requires hedge)⟩

theorem reaches_of_mem_sharedAsked (h : Rooted set marks)
    (hroot : marks.roots[slot]? = some root) (hp : p ∈ set.sharedAsked marks root slot) :
    set.Reaches root p := by
  rcases asked_required (List.mem_filter.1 hp).1 with rfl | ⟨u, hu, hedge⟩
  · exact .refl
  · exact ((h.mem_ownBundle_iff hroot).1 hu).1.tail hedge

/-- Every shared module that a root reaches is reached from one that its walk asks about. -/
theorem exists_sharedAsked (h : Rooted set marks) (hroot : marks.roots[slot]? = some root)
    (hp : set.Shared marks.roots p) (hreach : set.Reaches root p) :
    ∃ f ∈ set.sharedAsked marks root slot, set.Reaches f p := by
  have hasked : ∀ f, set.Shared marks.roots f →
      (f = root ∨ ∃ u, set.Reaches root u ∧ ¬ set.Shared marks.roots u ∧ set.Requires u f) →
      f ∈ set.sharedAsked marks root slot := by
    intro f hf hmet
    have hrefused : marks.isOwn slot f = false := by
      rw [Bool.eq_false_iff]
      exact fun hown => ((h.isOwn_iff hroot).1 hown).2 hf
    apply List.mem_filter.2
    rw [mem_walkAsked_iff hrefused, h.isShared_iff]
    refine ⟨?_, hf⟩
    rcases hmet with hstart | ⟨u, hu, hfree, hedge⟩
    · exact Or.inl hstart
    · have hlisted := (h.mem_ownBundle_iff hroot).2 ⟨hu, hfree⟩
      exact Or.inr ⟨u, hlisted, hedge⟩
  rcases hreach.exists_entry (S := set.Shared marks.roots) hp with
    hstart | ⟨u, f, hu, hfree, hedge, hf, hend⟩
  · exact ⟨root, hasked root hstart (Or.inl rfl), hreach⟩
  · exact ⟨f, hasked f hf (Or.inr ⟨u, hu, hfree, hedge⟩), hend⟩

/-- A bundle says that it needs the common one if its root reaches a shared module. -/
theorem usesCommon_iff (h : Rooted set marks) (hroot : marks.roots[slot]? = some root) :
    (set.ownBundle marks root slot).usesCommon = true ↔
      ∃ p, set.Shared marks.roots p ∧ set.Reaches root p := by
  have hany : (set.ownBundle marks root slot).usesCommon = true ↔
      ∃ f, f ∈ set.sharedAsked marks root slot := by
    simp [ownBundle, sharedAsked, List.mem_filter]
  rw [hany]
  constructor
  · rintro ⟨f, hf⟩
    exact ⟨f, h.isShared_iff.1 (List.mem_filter.1 hf).2, h.reaches_of_mem_sharedAsked hroot hf⟩
  · rintro ⟨p, hp, hreach⟩
    obtain ⟨f, hf, -⟩ := h.exists_sharedAsked hroot hp hreach
    exact ⟨f, hf⟩

/-! ## The modules from which the common bundle starts -/

theorem mem_foldl_noteNew {items noted : List QueryPath} :
    p ∈ items.foldl noteNew noted ↔ p ∈ noted ∨ p ∈ items := by
  rw [foldl_noteNew, List.mem_append, List.mem_eraseDups, List.mem_filter, decide_eq_true_iff,
    and_comm]
  exact or_and_left.trans (and_iff_right (em (p ∈ noted)))

theorem shared_of_mem_sharedFrontier (h : Rooted set marks)
    (hp : p ∈ set.sharedFrontier marks) :
    set.Shared marks.roots p := by
  have hasked : ∃ e ∈ marks.roots.zipIdx, p ∈ set.sharedAsked marks e.1 e.2 := by
    simpa [sharedFrontier, mem_foldl_noteNew] using hp
  obtain ⟨e, -, hp⟩ := hasked
  exact h.isShared_iff.1 (List.mem_filter.1 hp).2

/-- Every shared module is reached from one that the common bundle starts from. -/
theorem exists_sharedFrontier (h : Rooted set marks) (hp : set.Shared marks.roots p) :
    ∃ f ∈ set.sharedFrontier marks, set.Reaches f p := by
  obtain ⟨root, hmem, -, -, -, hreach, -⟩ := id hp
  obtain ⟨slot, hroot⟩ := List.mem_iff_getElem?.1 hmem
  obtain ⟨f, hf, hend⟩ := h.exists_sharedAsked hroot hp hreach
  refine ⟨f, ?_, hend⟩
  have hslot : (root, slot) ∈ marks.roots.zipIdx := List.mem_zipIdx_iff_getElem?.2 hroot
  rw [sharedFrontier, mem_foldl_noteNew]
  exact Or.inr (List.mem_flatMap.2 ⟨(root, slot), hslot, hf⟩)

end Rooted

end WebBundler.ModuleSet
