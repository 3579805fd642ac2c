import WebBundler.Proofs.Graph.Recursion
import WebBundler.Proofs.Merge.Attribution
import WebBundler.Proofs.Merge.Promotion
set_option autoImplicit false

/-!
# A merge by reach

A merge can be told from how many roots reach each module (`mergeByReach`).  The bundle of a
root is what a descent from it lists that enters modules of one root only; the common bundle is
listed by descents from the shared modules that the others ask about, in the order of the first
question.  No marks are taken off, and no table says what was placed or met before.

The slot that the root of a walk left on a module adds nothing: where the walk comes, its root
reaches (`isOwn_eq_of_reaches`).
-/

namespace WebBundler.ModuleSet

variable {set : ModuleSet} {extra : List QueryPath} {marks : RootMarks} {slot : Nat}
  {p root : QueryPath}

/-! ## The definition -/

/-- How many of the roots reach a module. -/
noncomputable def reach (set : ModuleSet) (roots : List QueryPath) (p : QueryPath) : Nat :=
  (set.rootsReaching roots p).length

/-- More than one of the roots reach the module. -/
noncomputable def isShared (set : ModuleSet) (roots : List QueryPath) (p : QueryPath) : Bool :=
  2 ≤ set.reach roots p

/-- A descent from a root through modules that one root reaches: what it lists, and what it asks
about. -/
noncomputable def ownDescent (set : ModuleSet) (roots : List QueryPath) (root : QueryPath) :
    List QueryPath × List QueryPath :=
  set.descentFrom (fun p => set.reach roots p = 1) root

/-- The bundle of a root lists the descent from it, and needs the common bundle if the descent
asks about a shared module. -/
noncomputable def bundleByReach (set : ModuleSet) (roots : List QueryPath) (root : QueryPath) :
    Bundle where
  modules := (set.ownDescent roots root).1
  usesCommon := (set.ownDescent roots root).2.any (set.isShared roots)

/-- The shared modules that the descent from a root asks about. -/
noncomputable def sharedAskedBy (set : ModuleSet) (roots : List QueryPath) (root : QueryPath) :
    List QueryPath :=
  (set.ownDescent roots root).2.filter (set.isShared roots)

/-- The shared modules that descents from the roots ask about, in the order in which each is
first asked about. -/
noncomputable def sharedMet (set : ModuleSet) (roots : List QueryPath) : List QueryPath :=
  (roots.flatMap (set.sharedAskedBy roots)).eraseDups

/-- Behind what is listed, what descents from further modules list in turn, each of which enters
the shared modules that are not listed yet. -/
def listInTurn (set : ModuleSet) (shared : QueryPath → Bool) (listed : List QueryPath) :
    List QueryPath → List QueryPath
  | [] => listed
  | start :: starts =>
    listInTurn set shared (listed ++ (set.descentFrom (unlisted shared listed) start).1) starts

/-- All roots: the entries, what is asked for, and the modules that no root listed before them
reaches. -/
noncomputable def allRoots (set : ModuleSet) (extra : List QueryPath) : List QueryPath :=
  let start := set.entries ++ set.askedFor extra
  start ++ set.promoted start set.paths

/-- The modules of the common bundle. -/
noncomputable def commonByReach (set : ModuleSet) (roots : List QueryPath) : List QueryPath :=
  set.listInTurn (set.isShared roots) [] (set.sharedMet roots)

/-- The bundles of all roots and the common bundle. -/
noncomputable def mergeByReach (set : ModuleSet) (extra : List QueryPath) : Merged :=
  let roots := set.allRoots extra
  let common := set.commonByReach roots
  ⟨roots.map fun root => (root, set.bundleByReach roots root),
    if common.isEmpty then none else some ⟨common, false⟩⟩

/-! ## Roots and their reach -/

theorem roots_merge_eq_allRoots (set : ModuleSet) (extra : List QueryPath) :
    (set.merge extra).roots = set.allRoots extra := by
  rw [roots_merge_eq, roots_eq]
  rfl

theorem promote_ofRoots (set : ModuleSet) (roots paths : List QueryPath) :
    set.promote (RootMarks.ofRoots set roots) paths =
      RootMarks.ofRoots set (set.promote (RootMarks.ofRoots set roots) paths).roots := by
  unfold promote
  induction paths generalizing roots with
  | nil => rw [List.foldl_nil, RootMarks.roots_ofRoots]
  | cons p paths ih =>
    rw [List.foldl_cons]
    split
    · rw [← RootMarks.ofRoots_concat]
      exact ih (roots ++ [p])
    · exact ih roots

/-- The final marks are those that all roots leave. -/
theorem fullMarks_eq_ofRoots (set : ModuleSet) (extra : List QueryPath) :
    set.fullMarks extra = RootMarks.ofRoots set (set.allRoots extra) := by
  rw [← roots_merge_eq_allRoots, roots_merge]
  exact promote_ofRoots set (set.roots extra) set.paths

theorem reachCount_fullMarks (set : ModuleSet) (extra : List QueryPath) (p : QueryPath) :
    (set.fullMarks extra).reachCount p = set.reach (set.allRoots extra) p := by
  rw [fullMarks_eq_ofRoots, RootMarks.reachCount_ofRoots, reach]

theorem isShared_fullMarks (set : ModuleSet) (extra : List QueryPath) :
    (set.fullMarks extra).isShared = set.isShared (set.allRoots extra) := by
  funext p
  rw [RootMarks.isShared, reachCount_fullMarks, isShared]

theorem roots_fullMarks (set : ModuleSet) (extra : List QueryPath) :
    (set.fullMarks extra).roots = set.allRoots extra := by
  rw [← roots_merge, roots_merge_eq_allRoots]

/-! ## The bundle of a root -/

/-- Where a root reaches, the modules of its bundle are those that one root reaches. -/
theorem isOwn_eq_of_reaches (hroot : (set.allRoots extra)[slot]? = some root)
    (hreach : set.Reaches root p) :
    (set.fullMarks extra).isOwn slot p = decide (set.reach (set.allRoots extra) p = 1) := by
  have hexact := (rooted_fullMarks set extra).exact
  have hcarries : (set.fullMarks extra).carries p slot = true := by
    rw [RootMarks.carries_iff (hexact.increasing p), hexact.mem_iff, roots_fullMarks]
    exact ⟨root, hroot, hreach⟩
  have hpositive : 0 < set.reach (set.allRoots extra) p := by
    apply List.length_pos_of_mem (a := root)
    exact List.mem_filter.2 ⟨List.mem_of_getElem? hroot, by simpa using hreach⟩
  rw [RootMarks.isOwn, hcarries, Bool.and_true, isShared_fullMarks, isShared, ← decide_not,
    decide_eq_decide]
  omega

theorem dependencyFirst_isOwn (hroot : (set.allRoots extra)[slot]? = some root) :
    set.dependencyFirst root (recordAsked ((set.fullMarks extra).isOwn slot)) [] =
      set.ownDescent (set.allRoots extra) root := by
  have hmem : root ∈ set.paths := by
    apply (rooted_fullMarks set extra).mem_paths
    rw [roots_fullMarks]
    exact List.mem_of_getElem? hroot
  rw [dependencyFirst_eq_descentFrom hmem]
  exact (sameWithin_reaches set root).descentFrom_eq
    (fun p hreach => isOwn_eq_of_reaches hroot hreach) .refl

theorem ownBundle_eq (hroot : (set.allRoots extra)[slot]? = some root) :
    set.ownBundle (set.fullMarks extra) root slot =
      set.bundleByReach (set.allRoots extra) root := by
  rw [ownBundle, walkOrder, walkAsked, dependencyFirst_isOwn hroot, isShared_fullMarks,
    bundleByReach]

theorem sharedAsked_eq (hroot : (set.allRoots extra)[slot]? = some root) :
    set.sharedAsked (set.fullMarks extra) root slot =
      set.sharedAskedBy (set.allRoots extra) root := by
  rw [sharedAsked, walkAsked, dependencyFirst_isOwn hroot, isShared_fullMarks, sharedAskedBy]

theorem bundles_merge_eq (set : ModuleSet) (extra : List QueryPath) :
    (set.merge extra).bundles =
      (set.allRoots extra).map fun root =>
        (root, set.bundleByReach (set.allRoots extra) root) := by
  have hbundle : ∀ e ∈ (set.allRoots extra).zipIdx,
      (e.1, set.ownBundle (set.fullMarks extra) e.1 e.2) =
      ((fun root => (root, set.bundleByReach (set.allRoots extra) root)) ∘ Prod.fst) e := by
    intro e he
    rw [ownBundle_eq (List.mem_zipIdx_iff_getElem?.1 he)]
    rfl
  rw [merge_eq]
  dsimp only
  rw [roots_fullMarks, List.map_congr_left hbundle, ← List.map_map, List.zipIdx_map_fst]

theorem bundle?_merge (hroot : root ∈ (set.merge extra).roots) :
    (set.merge extra).bundle? root = some (set.bundleByReach (set.allRoots extra) root) := by
  obtain ⟨b, hfound, hb⟩ := Merged.bundle?_eq_some hroot
  rw [bundles_merge_eq] at hb
  obtain ⟨_, -, hsame⟩ := List.mem_map.1 hb
  cases hsame
  exact hfound

/-! ## The common bundle -/

theorem sharedFrontier_eq (set : ModuleSet) (extra : List QueryPath) :
    set.sharedFrontier (set.fullMarks extra) = set.sharedMet (set.allRoots extra) := by
  have hasked : ∀ e ∈ (set.allRoots extra).zipIdx,
      set.sharedAsked (set.fullMarks extra) e.1 e.2 =
        set.sharedAskedBy (set.allRoots extra) e.1 :=
    fun e he => sharedAsked_eq (List.mem_zipIdx_iff_getElem?.1 he)
  rw [sharedFrontier, roots_fullMarks, foldl_noteNew, List.nil_append,
    List.filter_eq_self.2 (by simp), List.flatMap_congr hasked, ← List.flatMap_map,
      List.zipIdx_map_fst, sharedMet]

theorem commonModules_eq (set : ModuleSet) (shared : QueryPath → Bool) {starts : List QueryPath}
    (hstarts : starts ⊆ set.paths) :
    set.commonModules shared starts = set.listInTurn shared [] starts := by
  unfold commonModules
  generalize ([] : List QueryPath) = listed
  induction starts generalizing listed with
  | nil => rfl
  | cons start starts ih =>
    rw [List.cons_subset] at hstarts
    rw [List.foldl_cons, ih hstarts.2, listInTurn, ← dependencyFirst_eq_descentFrom hstarts.1,
      dependencyFirst_stateless]
    rfl

theorem sharedMet_subset (set : ModuleSet) (extra : List QueryPath) :
    set.sharedMet (set.allRoots extra) ⊆ set.paths := by
  intro p hp
  have h := rooted_fullMarks set extra
  rw [← sharedFrontier_eq] at hp
  obtain ⟨root, hroot, -, -, -, hreach, -⟩ := h.shared_of_mem_sharedFrontier hp
  exact hreach.mem_paths (h.mem_paths root hroot)

theorem shared_merge_eq (set : ModuleSet) (extra : List QueryPath) :
    (set.merge extra).shared = set.commonByReach (set.allRoots extra) := by
  rw [shared_merge, isShared_fullMarks, sharedFrontier_eq,
    commonModules_eq _ _ (sharedMet_subset set extra)]
  rfl

/-- **A merge is told by how many roots reach each module.**  Its roots are the entries, what is
asked for, and what no root listed before reaches.  The bundle of a root is the descent from it
through modules that one root reaches, and is empty if another root reaches the root.  The
common bundle is listed by descents through shared modules from those that the former descents
ask about, in the order of the first question.  What a merge takes down on its way never changes
the outcome. -/
theorem merge_eq_mergeByReach (set : ModuleSet) (extra : List QueryPath) :
    set.merge extra = set.mergeByReach extra := by
  have hparts : set.merge extra = ⟨(set.merge extra).bundles,
      if (set.merge extra).shared.isEmpty then none
      else some ⟨(set.merge extra).shared, false⟩⟩ := by
    rw [shared_merge, merge_eq]
  rw [hparts, bundles_merge_eq, shared_merge_eq]
  rfl

end WebBundler.ModuleSet
