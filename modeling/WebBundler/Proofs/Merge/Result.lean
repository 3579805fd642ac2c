import WebBundler.Proofs.Merge.Common
set_option autoImplicit false

/-!
# The result of a merge, in terms of reachability

The walks of a merge and their marks are gone from these statements: the roots of the result are
known (`roots_merge`), the bundle of a root holds what this root alone reaches
(`mem_modules_iff`), and the common bundle holds what two roots reach (`mem_shared_iff`).
-/

namespace WebBundler

namespace Merged

/-- The modules of the common bundle. -/
def shared (m : Merged) : List QueryPath := m.common.toList.flatMap Bundle.modules

/-- The module lists of all bundles, the common one first. -/
def lists (m : Merged) : List (List QueryPath) :=
  (m.common.toList ++ m.bundles.map (·.2)).map Bundle.modules

theorem modules_eq (m : Merged) : m.modules = m.shared ++ m.bundles.flatMap (·.2.modules) := by
  simp [modules, shared, List.flatMap_map]

theorem modules_eq_flatten (m : Merged) : m.modules = m.lists.flatten := by
  rw [modules, lists, List.flatMap_def]

theorem bundle?_eq_some {m : Merged} {root : QueryPath} (h : root ∈ m.roots) :
    ∃ b, m.bundle? root = some b ∧ (root, b) ∈ m.bundles := by
  obtain ⟨e, he, rfl⟩ := List.mem_map.1 h
  obtain ⟨found, hfound⟩ := Option.isSome_iff_exists.1
    (List.find?_isSome (p := fun other : QueryPath × Bundle => decide (other.1 = e.1)) |>.2
      ⟨e, he, by simp⟩)
  have hkey : found.1 = e.1 := by simpa using List.find?_some hfound
  refine ⟨found.2, by simp [bundle?, hfound], ?_⟩
  rw [← hkey]
  exact List.mem_of_find?_eq_some hfound

end Merged

namespace ModuleSet

variable {set : ModuleSet} {extra : List QueryPath} {p root : QueryPath} {b : Bundle}

theorem roots_merge (set : ModuleSet) (extra : List QueryPath) :
    (set.merge extra).roots = (set.fullMarks extra).roots := by
  rw [merge_eq]
  simp only [Merged.roots, List.map_map]
  exact List.zipIdx_map_fst 0 _

theorem nodup_roots_merge (set : ModuleSet) (extra : List QueryPath) :
    (set.merge extra).roots.Nodup := by
  rw [roots_merge]
  exact (rooted_fullMarks set extra).nodup

theorem mem_bundles_merge :
    (root, b) ∈ (set.merge extra).bundles ↔
      ∃ slot, (set.fullMarks extra).roots[slot]? = some root ∧
        b = set.ownBundle (set.fullMarks extra) root slot := by
  rw [merge_eq]
  simp only [List.mem_map, Prod.exists, Prod.mk.injEq, List.mem_zipIdx_iff_getElem?]
  constructor
  · rintro ⟨root', slot, hroot, rfl, rfl⟩
    exact ⟨slot, hroot, rfl⟩
  · rintro ⟨slot, hroot, rfl⟩
    exact ⟨root, slot, hroot, rfl, rfl⟩

theorem shared_merge (set : ModuleSet) (extra : List QueryPath) :
    (set.merge extra).shared =
      set.commonModules (set.fullMarks extra).isShared
        (set.sharedFrontier (set.fullMarks extra)) := by
  rw [merge_eq, Merged.shared]
  dsimp only
  split
  · next hempty => simpa using hempty.symm
  · simp

theorem common_merge_eq_none_iff :
    (set.merge extra).common = none ↔ (set.merge extra).shared = [] := by
  rw [shared_merge, merge_eq]
  simp

/-! ## Which modules a bundle holds -/

/-- What the common bundle is, and that two roots reach exactly its modules. -/
theorem commonList_merge (set : ModuleSet) (extra : List QueryPath) :
    CommonList set (set.fullMarks extra).isShared (set.merge extra).shared ∧
      ∀ p, p ∈ (set.merge extra).shared ↔ set.Shared (set.merge extra).roots p := by
  have h := rooted_fullMarks set extra
  have hclosed : Inherited set (set.fullMarks extra).isShared := by
    intro a b hedge ha
    rw [h.isShared_iff] at ha ⊢
    exact ha.of_requires hedge
  obtain ⟨hlist, hmem⟩ := commonModules_spec hclosed
    fun f hf => h.isShared_iff.2 (h.shared_of_mem_sharedFrontier hf)
  rw [shared_merge, roots_merge]
  refine ⟨hlist, ?_⟩
  intro p
  apply (hmem p).trans
  constructor
  · rintro ⟨f, hf, hreach⟩
    exact (h.shared_of_mem_sharedFrontier hf).of_reaches hreach
  · exact h.exists_sharedFrontier

theorem mem_shared_iff :
    p ∈ (set.merge extra).shared ↔ set.Shared (set.merge extra).roots p :=
  (commonList_merge set extra).2 p

/-- The bundle of a root holds the modules that the root reaches and that are not shared. -/
theorem mem_modules_iff (hb : (root, b) ∈ (set.merge extra).bundles) :
    p ∈ b.modules ↔ set.Reaches root p ∧ ¬ set.Shared (set.merge extra).roots p := by
  obtain ⟨slot, hroot, rfl⟩ := mem_bundles_merge.1 hb
  rw [roots_merge]
  exact (rooted_fullMarks set extra).mem_ownBundle_iff hroot

theorem root_mem_of_mem_bundles (hb : (root, b) ∈ (set.merge extra).bundles) :
    root ∈ (set.merge extra).roots :=
  List.mem_map_of_mem (f := Prod.fst) hb

/-- If two roots do not share a module, the one that reaches it is the only one. -/
theorem not_shared_iff (hroot : root ∈ (set.merge extra).roots) (hreach : set.Reaches root p) :
    ¬ set.Shared (set.merge extra).roots p ↔
      ∀ other ∈ (set.merge extra).roots, set.Reaches other p → other = root := by
  constructor
  · intro hfree other hother hreach'
    by_contra hne
    exact hfree ⟨other, hother, root, hroot, hne, hreach', hreach⟩
  · rintro honly ⟨a, ha, b, hb, hne, hreachA, hreachB⟩
    exact hne ((honly a ha hreachA).trans (honly b hb hreachB).symm)

/-- No two bundles share a module, and none lists one twice. -/
theorem nodup_modules_merge (set : ModuleSet) (extra : List QueryPath) :
    (set.merge extra).modules.Nodup := by
  have hroots := nodup_roots_merge set extra
  rw [Merged.modules_eq, List.nodup_append', List.nodup_flatMap]
  refine ⟨(commonList_merge set extra).1.nodup, ⟨?_, ?_⟩, ?_⟩
  · rintro ⟨root, b⟩ hb
    obtain ⟨slot, -, rfl⟩ := mem_bundles_merge.1 hb
    exact walkOrder_nodup
  · apply (List.pairwise_map.1 hroots).imp_of_mem
    rintro ⟨root, b⟩ ⟨other, c⟩ hb hc hne p hp hq
    obtain ⟨hreach, hfree⟩ := (mem_modules_iff hb).1 hp
    obtain ⟨hreach', -⟩ := (mem_modules_iff hc).1 hq
    have hroot := root_mem_of_mem_bundles hb
    have hother := root_mem_of_mem_bundles hc
    exact hfree ⟨root, hroot, other, hother, hne, hreach, hreach'⟩
  · intro p hshared hp
    obtain ⟨⟨root, b⟩, hb, hp⟩ := List.mem_flatMap.1 hp
    exact ((mem_modules_iff hb).1 hp).2 (mem_shared_iff.1 hshared)

/-! ## One module -/

/-- A module by itself. -/
def alone (m : Module) : ModuleSet where
  modules := [m]
  nodup := List.nodup_singleton _

theorem merge_alone {m : Module} (hrequires : m.requires = []) :
    (alone m).merge [] = ⟨[(m.path, ⟨[m.path], false⟩)], none⟩ := by
  have hpaths : (alone m).paths = [m.path] := rfl
  have hrequired : (alone m).requiredBy m.path = [] := by
    rw [requiredBy_eq (by simp [hpaths])]
    simp [alone, hrequires]
  have hroots : (alone m).roots [] = [m.path] := by simp [roots_eq_foldl, hpaths, hrequired]
  have hdependencies : (alone m).dependencies m.path = [] := by
    simp [dependencies, requiresOf, find?_eq, alone, hrequires]
  have hmarks : ((alone m).fullMarks []).roots = [m.path] ∧
      ((alone m).fullMarks []).isShared m.path = false ∧
      ((alone m).fullMarks []).isOwn 0 m.path = true := by
    simp [fullMarks, hroots, hpaths, hdependencies, RootMarks.ofRoots, RootMarks.empty,
      RootMarks.markFrom, RootMarks.spread, RootMarks.mark, RootMarks.carriesNewest,
        RootMarks.reachCount, RootMarks.isShared,
      RootMarks.isOwn, RootMarks.carries, RootMarks.bisect]
  rw [merge_eq]
  generalize (alone m).fullMarks [] = marks at hmarks ⊢
  obtain ⟨hroots, hshared, hown⟩ := hmarks
  simp [hroots, hshared, hown, hrequires, ownBundle, sharedFrontier, sharedAsked, walkAsked,
    walkOrder, dependencyFirst, recordAsked, walkFrom, requiresOf, find?_eq, alone,
      commonModules]

end ModuleSet

end WebBundler
