import WebBundler.Proofs.Graph.OfList
import WebBundler.Proofs.Merge.ByReach
set_option autoImplicit false

/-!
# Unrelated parts of a set do not influence each other

A part of a set stands apart if no reference leads into it or out of it (`IsApart`).  Then only
its own modules reach its modules, so the roots of the whole set that lie in the part are the
roots of the part, in order (`filter_allRoots`), and each descent lists the same in both
(`IsApart.bundleByReach_eq`).  A merge of the whole set holds for the part what the merge of the
part alone holds.
-/

namespace WebBundler.ModuleSet

variable {part whole set : ModuleSet} {others : List Module} {roots : List QueryPath}
  {p q root start : QueryPath}

/-! ## Keeping some items of a list -/

theorem filter_eraseDups (keep : QueryPath → Bool) :
    ∀ items : List QueryPath, items.eraseDups.filter keep = (items.filter keep).eraseDups
  | [] => rfl
  | p :: items => by
    have hrest := filter_eraseDups keep (items.filter fun q => !q == p)
    rw [List.eraseDups_cons]
    cases hp : keep p with
    | true =>
      rw [List.filter_cons_of_pos hp, List.filter_cons_of_pos hp, List.eraseDups_cons, hrest,
        List.filter_comm]
    | false =>
      -- Leaving out what equals the first item takes nothing from what is kept.
      have hnone : (items.filter fun q => !q == p).filter keep = items.filter keep := by
        rw [List.filter_filter]
        apply List.filter_congr
        intro q _
        cases hq : keep q with
        | true => simp [show q ≠ p from fun hsame => by simp [hsame, hp] at hq]
        | false => rfl
      rw [List.filter_cons_of_neg (by simp [hp]), List.filter_cons_of_neg (by simp [hp]), hrest,
        hnone]
termination_by items => items.length
decreasing_by exact Nat.lt_succ_of_le (List.length_filter_le _ _)

/-- What is kept of lists put together, where the kept items give lists that are kept and the
others none. -/
theorem filter_flatMap_of_apart {keep : QueryPath → Bool} {f g : QueryPath → List QueryPath}
    (hkept : ∀ p, keep p = true → (f p).filter keep = g p) {items : List QueryPath}
    (hdropped : ∀ p ∈ items, keep p = false → (f p).filter keep = []) :
    (items.flatMap f).filter keep = (items.filter keep).flatMap g := by
  induction items with
  | nil => rfl
  | cons p items ih =>
    rw [List.forall_mem_cons] at hdropped
    rw [List.flatMap_cons, List.filter_append, ih hdropped.2]
    cases hp : keep p with
    | true => rw [hkept p hp, List.filter_cons_of_pos hp, List.flatMap_cons]
    | false => rw [hdropped.1 hp, List.nil_append, List.filter_cons_of_neg (by simp [hp])]

/-! ## Parts that stand apart -/

theorem namedLocally_iff_requires (hp : p ∈ set.paths) :
    set.NamedLocally p ↔ p.isRemote = false ∧ ∃ q, set.Requires q p := by
  constructor
  · rintro ⟨m, hm, r, hr, hlocal, rfl⟩
    exact ⟨hlocal, m.path, requires_of_mem hm hr hp⟩
  · rintro ⟨hlocal, q, hedge⟩
    obtain ⟨m, hm, -, hrequires⟩ := mem_requiresOf_iff.1 (requires_iff.1 hedge).1
    exact ⟨m, hm, p, hrequires, hlocal, rfl⟩

/-- The whole set holds the modules of the part in their order, and no reference leads into the
part or out of it. -/
structure IsApart (part whole : ModuleSet) : Prop where
  order : whole.paths.filter part.contains = part.paths
  requires : ∀ p ∈ part.paths, whole.requiresOf p = part.requiresOf p
  edge : ∀ p q, whole.Requires p q → (p ∈ part.paths ↔ q ∈ part.paths)

namespace IsApart

theorem subset (h : IsApart part whole) : part.paths ⊆ whole.paths := by
  intro p hp
  rw [← h.order] at hp
  exact (List.mem_filter.1 hp).1

theorem sameWithin (h : IsApart part whole) : SameWithin whole part (· ∈ part.paths) where
  subset := h.subset
  paths _ hp _ := hp
  requires := h.requires
  closed p q hp hedge := (h.edge p q hedge).1 hp

theorem requires_iff_of_mem (h : IsApart part whole) (hq : q ∈ part.paths) :
    whole.Requires p q ↔ part.Requires p q := by
  constructor
  · intro hedge
    have hp := (h.edge p q hedge).2 hq
    rw [requires_iff, h.requires p hp] at hedge
    exact requires_iff.2 ⟨hedge.1, hq⟩
  · intro hedge
    rw [requires_iff, h.requires p hedge.source_mem_paths]
    exact ⟨(requires_iff.1 hedge).1, h.subset hq⟩

/-- Reaching a module of the part is to be one, and what is reached from one is one. -/
theorem mem_iff_of_reaches (h : IsApart part whole) (hreach : whole.Reaches p q) :
    p ∈ part.paths ↔ q ∈ part.paths := by
  induction hreach with
  | refl => exact Iff.rfl
  | tail _ hedge ih => exact ih.trans (h.edge _ _ hedge)

theorem reaches_iff_of_mem (h : IsApart part whole) (hq : q ∈ part.paths) :
    whole.Reaches p q ↔ p ∈ part.paths ∧ part.Reaches p q := by
  constructor
  · intro hreach
    refine ⟨(h.mem_iff_of_reaches hreach).2 hq, ?_⟩
    induction hreach with
    | refl => exact .refl
    | tail _ hedge ih =>
      exact (ih ((h.edge _ _ hedge).2 hq)).tail ((h.requires_iff_of_mem hq).1 hedge)
  · rintro ⟨-, hreach⟩
    induction hreach with
    | refl => exact .refl
    | tail _ hedge ih =>
      exact (ih hedge.source_mem_paths).tail ((h.requires_iff_of_mem hq).2 hedge)

/-! ## Roots -/

theorem namedLocally_iff (h : IsApart part whole) (hp : p ∈ part.paths) :
    whole.NamedLocally p ↔ part.NamedLocally p := by
  rw [namedLocally_iff_requires (h.subset hp), namedLocally_iff_requires hp]
  simp only [h.requires_iff_of_mem hp]

theorem filter_entries (h : IsApart part whole) :
    whole.entries.filter part.contains = part.entries := by
  unfold entries
  rw [List.filter_comm, h.order]
  apply List.filter_congr
  intro p hp
  rw [decide_eq_decide]
  exact not_congr (h.namedLocally_iff hp)

theorem filter_askedFor (h : IsApart part whole) (extra : List QueryPath) :
    (whole.askedFor extra).filter part.contains = part.askedFor extra := by
  unfold askedFor
  rw [filter_eraseDups, List.filter_filter]
  congr 1
  apply List.filter_congr
  intro p _
  have hentries : p ∈ part.entries ↔ p ∈ whole.entries ∧ p ∈ part.paths := by
    rw [← h.filter_entries, List.mem_filter, contains_iff]
  rw [Bool.eq_iff_iff, Bool.and_eq_true, contains_iff, decide_eq_true_iff, decide_eq_true_iff,
    hentries]
  constructor
  · rintro ⟨hp, -, hnew⟩
    exact ⟨hp, fun hentry => hnew hentry.1⟩
  · rintro ⟨hp, hnew⟩
    exact ⟨hp, h.subset hp, fun hentry => hnew ⟨hentry, hp⟩⟩

/-- Whether a module of the part is promoted depends on the roots in the part. -/
theorem filter_promoted (h : IsApart part whole) (listed todo : List QueryPath) :
    (whole.promoted listed todo).filter part.contains =
      part.promoted (listed.filter part.contains) (todo.filter part.contains) := by
  induction todo generalizing listed with
  | nil => rfl
  | cons p todo ih =>
    rw [promoted]
    by_cases hp : p ∈ part.paths
    · have hkeep : part.contains p = true := contains_iff.2 hp
      have hreached : (∃ root ∈ listed, whole.Reaches root p) ↔
          ∃ root ∈ listed.filter part.contains, part.Reaches root p := by
        simp only [h.reaches_iff_of_mem hp, List.mem_filter, contains_iff, and_assoc]
      rw [List.filter_cons_of_pos hkeep, promoted]
      by_cases hroot : ∃ root ∈ listed, whole.Reaches root p
      · rw [if_pos hroot, if_pos (hreached.1 hroot), ih]
      · rw [if_neg hroot, if_neg (mt hreached.2 hroot), List.filter_cons_of_pos hkeep, ih,
          List.filter_append, List.filter_cons_of_pos hkeep, List.filter_nil]
    · have hdrop : ¬ part.contains p = true := mt contains_iff.1 hp
      rw [List.filter_cons_of_neg hdrop, ← ih]
      split
      · rfl
      · rw [List.filter_cons_of_neg hdrop, ih, ih, List.filter_append,
          List.filter_cons_of_neg hdrop, List.filter_nil, List.append_nil]

/-- The roots in the part are the roots of the part, in order. -/
theorem filter_allRoots (h : IsApart part whole) (extra : List QueryPath) :
    (whole.allRoots extra).filter part.contains = part.allRoots extra := by
  unfold allRoots
  simp only [List.filter_append, h.filter_promoted, h.filter_entries, h.filter_askedFor,
    h.order]

/-- As many roots of the part reach one of its modules as roots of the whole set. -/
theorem reach_eq (h : IsApart part whole) (roots : List QueryPath) (hp : p ∈ part.paths) :
    whole.reach roots p = part.reach (roots.filter part.contains) p := by
  classical
  unfold reach rootsReaching
  rw [List.filter_filter]
  congr 1
  apply List.filter_congr
  intro root _
  rw [Bool.eq_iff_iff, Bool.and_eq_true, contains_iff, decide_eq_true_iff, decide_eq_true_iff,
    h.reaches_iff_of_mem hp, and_comm]

/-! ## Descents -/

theorem isShared_eq (h : IsApart part whole) (roots : List QueryPath) (hp : p ∈ part.paths) :
    whole.isShared roots p = part.isShared (roots.filter part.contains) p := by
  rw [isShared, isShared, h.reach_eq roots hp]

theorem ownDescent_eq (h : IsApart part whole) (roots : List QueryPath)
    (hroot : root ∈ part.paths) :
    whole.ownDescent roots root = part.ownDescent (roots.filter part.contains) root := by
  apply h.sameWithin.descentFrom_eq _ hroot
  intro p hp
  rw [h.reach_eq roots hp]

/-- What a descent from outside the part lists or asks about lies outside. -/
theorem not_mem_of_mem_descentFrom (h : IsApart part whole) {allowed : QueryPath → Bool}
    (hstart : start ∈ whole.paths) (houtside : start ∉ part.paths)
    (hp : p ∈ (whole.descentFrom allowed start).1 ∨ p ∈ (whole.descentFrom allowed start).2) :
    p ∉ part.paths :=
  mt (h.mem_iff_of_reaches (reaches_of_mem_descentFrom hstart hp)).2 houtside

theorem bundleByReach_eq (h : IsApart part whole) (roots : List QueryPath)
    (hroot : root ∈ part.paths) :
    whole.bundleByReach roots root = part.bundleByReach (roots.filter part.contains) root := by
  unfold bundleByReach
  rw [h.ownDescent_eq roots hroot]
  congr 1
  rw [Bool.eq_iff_iff, List.any_eq_true, List.any_eq_true]
  apply exists_congr
  intro p
  apply and_congr_right
  intro hasked
  have hp : p ∈ part.paths := mem_paths_of_mem_descentFrom hroot (.inr hasked)
  rw [h.isShared_eq roots hp]

/-- The shared modules in the part are first asked about in the same order. -/
theorem filter_sharedMet (h : IsApart part whole) (hroots : roots ⊆ whole.paths) :
    (whole.sharedMet roots).filter part.contains =
      part.sharedMet (roots.filter part.contains) := by
  unfold sharedMet
  rw [filter_eraseDups]
  congr 1
  apply filter_flatMap_of_apart
  · intro root hkeep
    have hroot : root ∈ part.paths := contains_iff.1 hkeep
    rw [sharedAskedBy, sharedAskedBy, h.ownDescent_eq roots hroot, List.filter_filter]
    apply List.filter_congr
    intro p hasked
    have hp : p ∈ part.paths := mem_paths_of_mem_descentFrom hroot (.inr hasked)
    rw [contains_iff.2 hp, Bool.true_and, h.isShared_eq roots hp]
  · intro root hroot hdrop
    have houtside : root ∉ part.paths := by rwa [← contains_iff, Bool.not_eq_true]
    rw [List.filter_eq_nil_iff]
    intro p hasked
    rw [contains_iff]
    exact h.not_mem_of_mem_descentFrom (hroots hroot) houtside
      (.inr (List.mem_filter.1 hasked).1)

/-- What descents in turn list of the part is what those from the part list. -/
theorem filter_listInTurn (h : IsApart part whole) {shared shared' : QueryPath → Bool}
    (hsame : ∀ p ∈ part.paths, shared p = shared' p) {starts : List QueryPath}
    (hstarts : starts ⊆ whole.paths) (listed : List QueryPath) :
    (whole.listInTurn shared listed starts).filter part.contains =
      part.listInTurn shared' (listed.filter part.contains) (starts.filter part.contains) := by
  induction starts generalizing listed with
  | nil => rfl
  | cons start starts ih =>
    rw [List.cons_subset] at hstarts
    rw [listInTurn, ih hstarts.2, List.filter_append]
    by_cases hstart : start ∈ part.paths
    · -- A descent from the part stays in it, and passes over the same of its modules.
      have hfree : ∀ p ∈ part.paths,
          unlisted shared listed p = unlisted shared' (listed.filter part.contains) p := by
        intro p hp
        rw [Bool.eq_iff_iff, unlisted_iff, unlisted_iff, hsame p hp, List.mem_filter,
          contains_iff, and_iff_left hp]
      have hall : ∀ p ∈ (part.descentFrom (unlisted shared' (listed.filter part.contains))
          start).1,
          part.contains p = true :=
        fun p hp => contains_iff.2 (mem_paths_of_mem_descentFrom hstart (.inl hp))
      rw [h.sameWithin.descentFrom_eq hfree hstart, List.filter_eq_self.2 hall,
        List.filter_cons_of_pos (contains_iff.2 hstart), listInTurn]
    · have hnone : ∀ p ∈ (whole.descentFrom (unlisted shared listed) start).1,
          ¬ part.contains p = true :=
        fun p hp => mt contains_iff.1 (h.not_mem_of_mem_descentFrom hstarts.1 hstart (.inl hp))
      rw [List.filter_eq_nil_iff.2 hnone, List.append_nil,
        List.filter_cons_of_neg (mt contains_iff.1 hstart)]

/-! ## Merges -/

theorem filter_shared_merge (h : IsApart part whole) (extra : List QueryPath) :
    (whole.merge extra).shared.filter part.contains = (part.merge extra).shared := by
  have hroots : whole.allRoots extra ⊆ whole.paths := by
    rw [← roots_merge_eq_allRoots]
    exact fun root => mem_paths_of_mem_roots
  rw [shared_merge_eq, shared_merge_eq, commonByReach, commonByReach,
    h.filter_listInTurn (fun p hp => h.isShared_eq _ hp) (sharedMet_subset whole extra),
      h.filter_sharedMet hroots,
    h.filter_allRoots, List.filter_nil]

end IsApart

/-! ## Modules that are added to a set -/

/-- Neither module requires the other. -/
def Unrelated (m other : Module) : Prop := other.path ∉ m.requires ∧ m.path ∉ other.requires

instance (m other : Module) : Decidable (Unrelated m other) :=
  inferInstanceAs (Decidable (_ ∧ _))

/-- No reference leads from a set to unrelated modules that are added, or back. -/
theorem mem_paths_iff_of_edge
    (hunrelated : ∀ m ∈ part.modules, ∀ other ∈ others, Unrelated m other)
    (hedge : (others.foldl insertNew part).Requires p q) : p ∈ part.paths ↔ q ∈ part.paths := by
  rw [requires_iff, mem_requiresOf_iff] at hedge
  obtain ⟨⟨m, hm, rfl, href⟩, hq⟩ := hedge
  obtain ⟨n, hn, rfl⟩ := List.mem_map.1 hq
  rcases mem_modules_foldl_insertNew hm with hm | ⟨hm, hnew⟩
  · rcases mem_modules_foldl_insertNew hn with hn | ⟨hn, -⟩
    · exact iff_of_true (List.mem_map_of_mem hm) (List.mem_map_of_mem hn)
    · exact absurd href (hunrelated m hm n hn).1
  · rcases mem_modules_foldl_insertNew hn with hn | ⟨-, hnew'⟩
    · exact absurd href (hunrelated n hn m hm).2
    · exact iff_of_false hnew hnew'

theorem filter_paths_foldl_insertNew (part : ModuleSet) (others : List Module) :
    (others.foldl insertNew part).paths.filter part.contains = part.paths := by
  have hall : ∀ p ∈ part.paths, part.contains p = true := fun p hp => contains_iff.2 hp
  have hnone : ∀ p ∈ (firstOfEach (others.filter fun m => m.path ∉ part.paths)).map Module.path,
      ¬ part.contains p = true := by
    intro p hp
    obtain ⟨m, hm, rfl⟩ := List.mem_map.1 hp
    have hlater := List.mem_filter.1 ((firstOfEach_sublist _).subset hm)
    rw [contains_iff]
    simpa using hlater.2
  unfold paths at hall ⊢
  rw [modules_foldl_insertNew, List.map_append, List.filter_append, List.filter_eq_self.2 hall,
    List.filter_eq_nil_iff.2 hnone, List.append_nil]

theorem requiresOf_foldl_insertNew (others : List Module) (hp : p ∈ part.paths) :
    (others.foldl insertNew part).requiresOf p = part.requiresOf p := by
  obtain ⟨m, hm, rfl⟩ := List.mem_map.1 hp
  have hpart : part.find? m.path = some m := find?_eq_some_iff.2 ⟨hm, rfl⟩
  have hwhole : (others.foldl insertNew part).find? m.path = some m :=
    find?_eq_some_iff.2 ⟨subset_foldl_insertNew others part hm, rfl⟩
  rw [requiresOf, requiresOf, hpart, hwhole]

/-- A set stands apart in what it becomes by adding unrelated modules. -/
theorem isApart_foldl_insertNew
    (hunrelated : ∀ m ∈ part.modules, ∀ other ∈ others, Unrelated m other) :
    IsApart part (others.foldl insertNew part) where
  order := filter_paths_foldl_insertNew part others
  requires _ hp := requiresOf_foldl_insertNew others hp
  edge _ _ hedge := mem_paths_iff_of_edge hunrelated hedge

/-- **Unrelated parts do not influence each other.**  If modules are added to a set, and they
and the modules of the set do not require each other, then the roots of the set are, in order,
those of the whole that lie in the set; each has the same bundle in both; and the common bundle
of the whole holds, of the set, what the common bundle of the set holds, in the same order. -/
theorem merge_of_unrelated (set : ModuleSet) (others : List Module) (extra : List QueryPath)
    (hunrelated : ∀ m ∈ set.modules, ∀ other ∈ others, Unrelated m other) :
    let alone := set.merge extra
    let whole := (others.foldl insertNew set).merge extra
    whole.roots.filter set.contains = alone.roots ∧
      (∀ root ∈ alone.roots, ∃ b, alone.bundle? root = some b ∧ whole.bundle? root = some b) ∧
      whole.shared.filter set.contains = alone.shared := by
  intro alone whole
  have h := isApart_foldl_insertNew hunrelated
  have hroots : whole.roots.filter set.contains = alone.roots := by
    rw [roots_merge_eq_allRoots, roots_merge_eq_allRoots, h.filter_allRoots]
  refine ⟨hroots, fun root hroot => ⟨_, bundle?_merge hroot, ?_⟩, h.filter_shared_merge extra⟩
  have hmem : root ∈ whole.roots := by
    rw [← hroots] at hroot
    exact (List.mem_filter.1 hroot).1
  rw [bundle?_merge hmem, h.bundleByReach_eq _ (mem_paths_of_mem_roots hroot),
    h.filter_allRoots]

/-- Added to the tangle, a cycle that nothing enters shifts its roots, and one of its modules is
asked for before a module of the tangle. -/
theorem merge_of_tangle_beside_cycle :
    let others := [named "/x" ["/y"], named "/y" ["/x", "/absent"], named "/x" ["/z"]]
    let asked : List QueryPath := [⟨"/y"⟩, ⟨"/b"⟩]
    let whole := (others.foldl insertNew tangle).merge asked
    (∀ m ∈ tangle.modules, ∀ other ∈ others, Unrelated m other) ∧
      whole.roots.filter tangle.contains = [⟨"/a"⟩, ⟨"/c"⟩, ⟨"/b"⟩, ⟨"/d"⟩] ∧
      (∃ b, (tangle.merge asked).bundle? ⟨"/d"⟩ = some b ∧ whole.bundle? ⟨"/d"⟩ = some b) ∧
      whole.shared.filter tangle.contains = (tangle.merge asked).shared := by
  intro others asked whole
  have hunrelated : ∀ m ∈ tangle.modules, ∀ other ∈ others, Unrelated m other := by decide
  obtain ⟨hroots, hbundle, hshared⟩ := merge_of_unrelated tangle others asked hunrelated
  have halone : (tangle.merge asked).roots = [⟨"/a"⟩, ⟨"/c"⟩, ⟨"/b"⟩, ⟨"/d"⟩] := by
    rw [roots_merge]
    cbv
  exact ⟨hunrelated, hroots.trans halone, hbundle _ (by rw [halone]; decide), hshared⟩

end WebBundler.ModuleSet
