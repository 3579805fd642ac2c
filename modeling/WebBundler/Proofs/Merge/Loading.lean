import WebBundler.Proofs.Merge.Order
import WebBundler.Proofs.Merge.Result
set_option autoImplicit false

/-!
# What a loader can rely on

A merge places every module once, by the roots that reach it; lists a module after what it
requires, except around a cycle; and leaves no requirement of a bundle outside that bundle and
the common one.  None of this depends on what the modules require: cycles, modules that require
themselves and references to modules that are absent or have a scheme are all allowed.
-/

namespace WebBundler.ModuleSet

variable {set : ModuleSet} {extra : List QueryPath} {p q u v root other : QueryPath}
  {b c : Bundle} {modules : List QueryPath}

/-! ## Placement -/

theorem mem_paths_of_mem_roots (hroot : root ∈ (set.merge extra).roots) : root ∈ set.paths := by
  rw [roots_merge] at hroot
  exact (rooted_fullMarks set extra).mem_paths root hroot

theorem exists_root_merge (extra : List QueryPath) (hp : p ∈ set.paths) :
    ∃ root ∈ (set.merge extra).roots, set.Reaches root p := by
  rw [roots_merge]
  exact exists_root_reaches extra hp

theorem mem_modules_merge_iff : p ∈ (set.merge extra).modules ↔ p ∈ set.paths := by
  rw [Merged.modules_eq, List.mem_append, List.mem_flatMap]
  constructor
  · rintro (hp | ⟨⟨root, b⟩, hb, hp⟩)
    · obtain ⟨a, ha, -, -, -, hreach, -⟩ := mem_shared_iff.1 hp
      exact hreach.mem_paths (mem_paths_of_mem_roots ha)
    · have hroot := root_mem_of_mem_bundles hb
      obtain ⟨hreach, -⟩ := (mem_modules_iff hb).1 hp
      exact hreach.mem_paths (mem_paths_of_mem_roots hroot)
  · intro hp
    by_cases hshared : set.Shared (set.merge extra).roots p
    · exact Or.inl (mem_shared_iff.2 hshared)
    · obtain ⟨root, hroot, hreach⟩ := exists_root_merge extra hp
      obtain ⟨b, -, hb⟩ := Merged.bundle?_eq_some hroot
      have hmem := (mem_modules_iff hb).2 ⟨hreach, hshared⟩
      exact Or.inr ⟨(root, b), hb, hmem⟩

/-- Found by the paths that a merge lists, the modules are those of the set, each once. -/
theorem perm_find?_merge (set : ModuleSet) (extra : List QueryPath) :
    ((set.merge extra).modules.filterMap set.find?).Perm set.modules := by
  have hplaced : (set.merge extra).modules.Perm set.paths :=
    (List.perm_ext_iff_of_nodup (nodup_modules_merge set extra) set.nodup).2 fun _ =>
      mem_modules_merge_iff
  conv_rhs => rw [← filterMap_find?_paths]
  exact hplaced.filterMap set.find?

/-- A merge places each module of the set exactly once: in the common bundle if two roots reach
it, and in the bundle of a root if no other root reaches it.  Every module is reached by some
root, and there is no common bundle just when no module is reached by two. -/
theorem merge_places_each_module_once (set : ModuleSet) (extra : List QueryPath) :
    let merged := set.merge extra
    merged.roots.Nodup ∧
      merged.modules.Perm set.paths ∧
      (∀ p, p ∈ merged.shared ↔ set.Shared merged.roots p) ∧
      (∀ root ∈ merged.roots, ∃ b, merged.bundle? root = some b ∧
        ∀ p, p ∈ b.modules ↔
          set.Reaches root p ∧ ∀ other ∈ merged.roots, set.Reaches other p → other = root) ∧
      (∀ p ∈ set.paths, ∃ root ∈ merged.roots, set.Reaches root p) ∧
      (merged.common = none ↔ ∀ p, ¬ set.Shared merged.roots p) := by
  intro merged
  refine ⟨?_, ?_, ?_, ?_, ?_, ?_⟩
  · have hroots : merged.roots = (set.fullMarks extra).roots := roots_merge set extra
    rw [hroots]
    exact (rooted_fullMarks set extra).nodup
  · apply (List.perm_ext_iff_of_nodup (nodup_modules_merge set extra) set.nodup).2
    intro p
    exact mem_modules_merge_iff
  · intro p
    exact mem_shared_iff
  · intro root hroot
    obtain ⟨b, hfound, hb⟩ := Merged.bundle?_eq_some hroot
    refine ⟨b, hfound, ?_⟩
    intro p
    apply (mem_modules_iff hb).trans
    apply and_congr_right
    intro hreach
    exact not_shared_iff hroot hreach
  · intro p hp
    exact exists_root_merge extra hp
  · have hnone : merged.common = none ↔ merged.shared = [] := common_merge_eq_none_iff
    rw [hnone, List.eq_nil_iff_forall_not_mem]
    apply forall_congr'
    intro p
    exact not_congr mem_shared_iff

/-- A module with the given name and references. -/
def named (name : String) (requires : List String) : Module :=
  { Module.empty ⟨name⟩ .script with requires := requires.map QueryPath.mk }

/-- Two roots above a shared module that requires itself, and a cycle that nothing enters.  One
root requires a module of its own and a module that is absent. -/
def tangle : ModuleSet where
  modules := [named "/a" ["/b"], named "/b" ["/b"], named "/c" ["/b", "/f", "/absent"],
    named "/d" ["/e"], named "/e" ["/d"], named "/f" []]
  nodup := by decide

theorem roots_tangle : (tangle.merge []).roots = [⟨"/a"⟩, ⟨"/c"⟩, ⟨"/d"⟩] := by
  rw [roots_merge]
  cbv

theorem tangle_own {other : QueryPath} (hother : other ∈ (tangle.merge []).roots)
    (h : tangle.Reaches other p) (hp : p = ⟨"/c"⟩ ∨ p = ⟨"/f"⟩) : other = ⟨"/c"⟩ := by
  rw [roots_tangle] at hother
  have hab := fun hmem => h.mem_of_closed [⟨"/a"⟩, ⟨"/b"⟩] (by decide) hmem
  have hde := fun hmem => h.mem_of_closed [⟨"/d"⟩, ⟨"/e"⟩] (by decide) hmem
  simp only [List.mem_cons, List.not_mem_nil, or_false] at hother
  rcases hother with rfl | rfl | rfl
  · exact absurd (hab (by decide)) (by rcases hp with rfl | rfl <;> decide)
  · rfl
  · exact absurd (hde (by decide)) (by rcases hp with rfl | rfl <;> decide)

theorem tangle_shared : tangle.Shared (tangle.merge []).roots ⟨"/b"⟩ := by
  rw [roots_tangle]
  refine ⟨⟨"/a"⟩, by decide, ⟨"/c"⟩, by decide, by decide, .single ?_, .single ?_⟩
  · unfold Requires; decide
  · unfold Requires; decide

theorem tangle_edge : tangle.Requires ⟨"/c"⟩ ⟨"/f"⟩ := by
  unfold Requires; decide

theorem merge_places_tangle :
    tangle.Shared (tangle.merge []).roots ⟨"/b"⟩ ∧ ⟨"/b"⟩ ∈ (tangle.merge []).shared ∧
      ∃ b, (tangle.merge []).bundle? ⟨"/c"⟩ = some b ∧ ⟨"/f"⟩ ∈ b.modules := by
  obtain ⟨-, -, hshared, hbundle, -⟩ := merge_places_each_module_once tangle []
  obtain ⟨b, hfound, hmem⟩ := hbundle ⟨"/c"⟩ (by rw [roots_tangle]; decide)
  have hown : tangle.Reaches ⟨"/c"⟩ ⟨"/f"⟩ := .single tangle_edge
  exact ⟨tangle_shared, (hshared _).2 tangle_shared, b, hfound,
    (hmem _).2 ⟨hown, fun _ hother h => tangle_own hother h (.inr rfl)⟩⟩

theorem tangle_bundle : ∃ b, (⟨"/c"⟩, b) ∈ (tangle.merge []).bundles ∧ ⟨"/c"⟩ ∈ b.modules ∧
    ⟨"/f"⟩ ∈ b.modules := by
  have hroot : ⟨"/c"⟩ ∈ (tangle.merge []).roots := by rw [roots_tangle]; decide
  have hown : tangle.Reaches ⟨"/c"⟩ ⟨"/f"⟩ := .single tangle_edge
  obtain ⟨b, -, hb⟩ := Merged.bundle?_eq_some hroot
  refine ⟨b, hb, (mem_modules_iff hb).2 ⟨.refl, ?_⟩, (mem_modules_iff hb).2 ⟨hown, ?_⟩⟩
  · exact (not_shared_iff hroot .refl).2 fun _ hother h => tangle_own hother h (.inl rfl)
  · exact (not_shared_iff hroot hown).2 fun _ hother h => tangle_own hother h (.inr rfl)

/-! ## Loading order -/

theorem ordered_of_mem_lists (h : modules ∈ (set.merge extra).lists) :
    modules.Nodup ∧ set.Ordered modules := by
  simp only [Merged.lists, List.mem_map, List.mem_append, Option.mem_toList] at h
  obtain ⟨b, hcommon | ⟨⟨root, b'⟩, hb, rfl⟩, rfl⟩ := h
  · have hshared : (set.merge extra).shared = b.modules := by simp [Merged.shared, hcommon]
    have hlist := (commonList_merge set extra).1
    rw [hshared] at hlist
    exact ⟨hlist.nodup, hlist.ordered⟩
  · obtain ⟨slot, -, rfl⟩ := mem_bundles_merge.1 hb
    refine ⟨walkOrder_nodup, ?_⟩
    intro listed u rest hsplit v hv huv
    obtain ⟨hstart, hreach⟩ := mem_walkOrder_iff.1 hv
    rcases walkOrder_before hsplit huv (hreach.allowed_of hstart) with hbefore | hway
    · exact Or.inl hbefore
    · exact Or.inr hway.reaches

theorem Ordered.idxOf_lt (h : set.Ordered modules) (hnodup : modules.Nodup) (hu : u ∈ modules)
    (hv : v ∈ modules) (huv : set.Requires u v) :
    modules.idxOf v < modules.idxOf u ∨ set.Reaches v u := by
  obtain ⟨listed, rest, rfl⟩ := List.append_of_mem hu
  rcases h listed u rest rfl v hv huv with hlisted | hway
  · exact Or.inl (idxOf_lt_of_mem_before hnodup hlisted)
  · exact Or.inr hway

/-- In every module list of a merge, a module that another one requires stands before it, unless
it reaches the other one in turn.  So where no chain of references is closed, every list is a
topological order. -/
theorem merge_lists_requirements_first (set : ModuleSet) (extra : List QueryPath) :
    (∀ modules ∈ (set.merge extra).lists, ∀ u ∈ modules, ∀ v ∈ modules, u ≠ v →
        v ∈ set.requiresOf u →
        modules.idxOf v < modules.idxOf u ∨ set.Reaches v u) ∧
      ((∀ p, ¬ Relation.TransGen set.Requires p p) →
        ∀ modules ∈ (set.merge extra).lists, ∀ u ∈ modules, ∀ v ∈ modules,
          v ∈ set.requiresOf u → modules.idxOf v < modules.idxOf u) := by
  have hmain : ∀ modules ∈ (set.merge extra).lists, ∀ u ∈ modules, ∀ v ∈ modules,
      v ∈ set.requiresOf u →
      set.Requires u v ∧ (modules.idxOf v < modules.idxOf u ∨ set.Reaches v u) := by
    intro modules hlist u hu v hv hreq
    have hplaced : v ∈ (set.merge extra).modules := by
      rw [Merged.modules_eq_flatten]
      exact List.mem_flatten.2 ⟨modules, hlist, hv⟩
    have hedge : set.Requires u v := requires_iff.2 ⟨hreq, mem_modules_merge_iff.1 hplaced⟩
    obtain ⟨hnodup, hordered⟩ := ordered_of_mem_lists hlist
    exact ⟨hedge, hordered.idxOf_lt hnodup hu hv hedge⟩
  constructor
  · intro modules hlist u hu v hv _ hreq
    exact (hmain modules hlist u hu v hv hreq).2
  · intro hacyclic modules hlist u hu v hv hreq
    obtain ⟨hedge, hbefore | hback⟩ := hmain modules hlist u hu v hv hreq
    · exact hbefore
    · exact absurd (Relation.TransGen.head' hedge hback) (hacyclic u)

theorem merge_orders_tangle : ∃ modules ∈ (tangle.merge []).lists,
    ⟨"/c"⟩ ∈ modules ∧ ⟨"/f"⟩ ∈ modules ∧ ⟨"/f"⟩ ∈ tangle.requiresOf ⟨"/c"⟩ ∧
      modules.idxOf (⟨"/f"⟩ : QueryPath) < modules.idxOf ⟨"/c"⟩ := by
  obtain ⟨b, hb, hc, hf⟩ := tangle_bundle
  have hlist : b.modules ∈ (tangle.merge []).lists :=
    List.mem_map.2 ⟨b, List.mem_append_right _ (List.mem_map.2 ⟨_, hb, rfl⟩), rfl⟩
  have hreq : ⟨"/f"⟩ ∈ tangle.requiresOf ⟨"/c"⟩ := (requires_iff.1 tangle_edge).1
  refine ⟨b.modules, hlist, hc, hf, hreq, ?_⟩
  rcases (merge_lists_requirements_first tangle []).1 _ hlist _ hc _ hf (by decide) hreq with
    hbefore | hback
  · exact hbefore
  · exact absurd (hback.mem_of_closed [⟨"/f"⟩] (by decide) (by decide)) (by decide)

/-! ## Closure -/

/-- A merge is closed for loading: what a module in the bundle of a root requires in the set is
in that bundle or in the common one; what a module of the common bundle requires is there; no
bundle requires a module in that of another root; and the bundle of a root says that it needs
the common one if the root reaches, possibly by being one, a module of it. -/
theorem merge_closed_for_loading (set : ModuleSet) (extra : List QueryPath) :
    let merged := set.merge extra
    (∀ root b, (root, b) ∈ merged.bundles → ∀ p ∈ b.modules, ∀ q, set.Requires p q →
        q ∈ b.modules ∨ q ∈ merged.shared) ∧
      (∀ p ∈ merged.shared, ∀ q, set.Requires p q → q ∈ merged.shared) ∧
      (∀ root b other c, (root, b) ∈ merged.bundles → (other, c) ∈ merged.bundles →
        root ≠ other →
        ∀ p ∈ b.modules, ∀ q ∈ c.modules, ¬ set.Requires p q) ∧
      (∀ root b, (root, b) ∈ merged.bundles →
        (b.usesCommon = true ↔ ∃ p ∈ merged.shared, set.Reaches root p)) := by
  intro merged
  have hreached : ∀ root b, (root, b) ∈ merged.bundles →
      ∀ p ∈ b.modules, ∀ q, set.Requires p q →
      set.Reaches root q := by
    intro root b hb p hp q hedge
    obtain ⟨hreach, -⟩ := (mem_modules_iff hb).1 hp
    exact hreach.tail hedge
  refine ⟨?_, ?_, ?_, ?_⟩
  · intro root b hb p hp q hedge
    have hreach := hreached root b hb p hp q hedge
    by_cases hshared : set.Shared merged.roots q
    · exact Or.inr (mem_shared_iff.2 hshared)
    · exact Or.inl ((mem_modules_iff hb).2 ⟨hreach, hshared⟩)
  · intro p hp q hedge
    exact (commonList_merge set extra).1.closed p hp q hedge
  · intro root b other c hb hc hne p hp q hq hedge
    -- Both roots would reach the required module.
    have hreach := hreached root b hb p hp q hedge
    obtain ⟨hreach', hfree⟩ := (mem_modules_iff hc).1 hq
    have hroot := root_mem_of_mem_bundles hb
    have hother := root_mem_of_mem_bundles hc
    exact hfree ⟨root, hroot, other, hother, hne, hreach, hreach'⟩
  · intro root b hb
    obtain ⟨slot, hroot, rfl⟩ := mem_bundles_merge.1 hb
    have hshared : ∀ p, p ∈ merged.shared ↔ set.Shared (set.fullMarks extra).roots p := by
      intro p
      rw [← roots_merge]
      exact mem_shared_iff
    rw [(rooted_fullMarks set extra).usesCommon_iff hroot]
    simp only [hshared]

theorem merge_closes_tangle :
    ∃ b, (⟨"/c"⟩, b) ∈ (tangle.merge []).bundles ∧ ⟨"/c"⟩ ∈ b.modules ∧
    (⟨"/f"⟩ ∈ b.modules ∨ ⟨"/f"⟩ ∈ (tangle.merge []).shared) ∧ b.usesCommon = true := by
  obtain ⟨hinside, -, -, huses⟩ := merge_closed_for_loading tangle []
  obtain ⟨b, hb, hc, -⟩ := tangle_bundle
  have hneeds : tangle.Reaches ⟨"/c"⟩ ⟨"/b"⟩ := .single (by unfold Requires; decide)
  exact ⟨b, hb, hc, hinside _ b hb _ hc _ tangle_edge,
    (huses _ b hb).2 ⟨_, mem_shared_iff.2 tangle_shared, hneeds⟩⟩

end WebBundler.ModuleSet
