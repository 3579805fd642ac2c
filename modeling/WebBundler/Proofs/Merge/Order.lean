import WebBundler.Proofs.Merge.Roots
set_option autoImplicit false

/-!
# The order of modules does not matter where nothing starts from them

A merge walks along references, which are the same in two sets that hold the same modules
(`SameGraph`).  The order of a set only decides which modules become roots: those that nothing
requires, and those that nothing reached before.  So behind modules that reach them, modules
that something requires can come in any order (`merge_eq_of_perm`).
-/

namespace WebBundler

namespace ModuleSet

/-- Two sets hold the same paths, and under each the same references. -/
structure SameGraph (A B : ModuleSet) : Prop where
  requires : ∀ p, A.requiresOf p = B.requiresOf p
  paths : ∀ p, p ∈ A.paths ↔ p ∈ B.paths

theorem find?_eq_some_iff {set : ModuleSet} {p : QueryPath} {m : Module} :
    set.find? p = some m ↔ m ∈ set.modules ∧ m.path = p := by
  constructor
  · intro h
    rw [find?_eq] at h
    exact ⟨List.mem_of_find?_eq_some h, by simpa using List.find?_some h⟩
  · rintro ⟨hm, rfl⟩
    cases hfound : set.find? m.path with
    | none =>
      exact absurd (List.mem_map.2 ⟨m, hm, rfl⟩) (find?_eq_none_iff.1 hfound)
    | some other =>
      rw [find?_eq] at hfound
      have hother := List.mem_of_find?_eq_some hfound
      have hpath : other.path = m.path := by simpa using List.find?_some hfound
      rw [List.inj_on_of_nodup_map set.nodup hother hm hpath]

theorem filterMap_find?_paths (set : ModuleSet) :
    set.paths.filterMap set.find? = set.modules := by
  unfold paths
  rw [List.filterMap_map]
  have hfound : ∀ m ∈ set.modules, (set.find? ∘ Module.path) m = some m := fun m hm =>
    find?_eq_some_iff.2 ⟨hm, rfl⟩
  rw [List.filterMap_congr hfound]
  exact List.filterMap_some

theorem mem_requiresOf_iff {set : ModuleSet} {p q : QueryPath} :
    q ∈ set.requiresOf p ↔ ∃ m ∈ set.modules, m.path = p ∧ q ∈ m.requires := by
  unfold requiresOf
  cases hfound : set.find? p with
  | none =>
    have hnone : ∀ m ∈ set.modules, m.path ≠ p := by
      simpa [paths] using find?_eq_none_iff.1 hfound
    constructor
    · exact fun hq => absurd hq List.not_mem_nil
    · rintro ⟨m, hm, hpath, -⟩
      exact absurd hpath (hnone m hm)
  | some m =>
    obtain ⟨hm, hpath⟩ := find?_eq_some_iff.1 hfound
    constructor
    · exact fun hq => ⟨m, hm, hpath, hq⟩
    · rintro ⟨other, hother, hsame, hq⟩
      rwa [← List.inj_on_of_nodup_map set.nodup hother hm (hsame.trans hpath.symm)]

theorem requires_of_mem {set : ModuleSet} {m : Module} {q : QueryPath} (hm : m ∈ set.modules)
    (hrequires : q ∈ m.requires) (hq : q ∈ set.paths) : set.Requires m.path q :=
  requires_iff.2 ⟨mem_requiresOf_iff.2 ⟨m, hm, rfl, hrequires⟩, hq⟩

theorem SameGraph.of_perm {A B : ModuleSet} (h : A.modules.Perm B.modules) : SameGraph A B where
  requires p := by
    have hfind : A.find? p = B.find? p := by
      apply Option.ext
      intro m
      rw [find?_eq_some_iff, find?_eq_some_iff, h.mem_iff]
    unfold requiresOf
    rw [hfind]
  paths _ := (h.map Module.path).mem_iff

section Congruence

variable {A B : ModuleSet} {σ : Type}

theorem SameGraph.dependencies (h : SameGraph A B) (p : QueryPath) :
    A.dependencies p = B.dependencies p := by
  have hcontains : A.contains = B.contains := by
    funext q
    rw [Bool.eq_iff_iff, contains_iff, contains_iff, h.paths]
  unfold ModuleSet.dependencies
  rw [h.requires, hcontains]

/-- The same walks lead through both sets. -/
theorem SameGraph.walkFrom (h : SameGraph A B) (enter : σ → QueryPath → Bool × σ) (state : σ)
    (visited order : List QueryPath) (stack : List Frame) :
    walkFrom A enter state visited order stack =
      walkFrom B enter state visited order stack := by
  fun_induction ModuleSet.walkFrom A enter state visited order stack with
  | case1 state visited order => rw [ModuleSet.walkFrom]
  | case2 state visited order node rest ih =>
    rw [ModuleSet.walkFrom, ih]
  | case3 state visited order node p pending rest hnew henter ih =>
    rw [h.paths] at hnew
    rw [ModuleSet.walkFrom, if_pos hnew, if_pos henter, ih, h.requires]
  | case4 state visited order node p pending rest hnew henter ih =>
    rw [h.paths] at hnew
    rw [ModuleSet.walkFrom, if_pos hnew, if_neg henter, ih]
  | case5 state visited order node p pending rest hold ih =>
    rw [h.paths] at hold
    rw [ModuleSet.walkFrom, if_neg hold, ih]

theorem SameGraph.dependencyFirst (h : SameGraph A B) (start : QueryPath)
    (enter : σ → QueryPath → Bool × σ) (state : σ) :
    A.dependencyFirst start enter state = B.dependencyFirst start enter state := by
  unfold ModuleSet.dependencyFirst
  rw [h.walkFrom, h.requires]

theorem SameGraph.takeRoot (h : SameGraph A B) (isShared : QueryPath → Bool) (part : Partition)
    (slot : Nat) (root : QueryPath) :
    A.takeRoot isShared part slot root = B.takeRoot isShared part slot root := by
  unfold ModuleSet.takeRoot
  rw [h.dependencyFirst]

theorem SameGraph.commonModules (h : SameGraph A B) (isShared : QueryPath → Bool)
    (frontier : List QueryPath) :
    A.commonModules isShared frontier = B.commonModules isShared frontier := by
  unfold ModuleSet.commonModules
  simp only [h.dependencyFirst]

theorem SameGraph.spread (h : SameGraph A B) (slot : Nat) (marks : RootMarks)
    (queue : List QueryPath) :
    RootMarks.spread A slot marks queue = RootMarks.spread B slot marks queue := by
  fun_induction RootMarks.spread A slot marks queue with
  | case1 marks => rw [RootMarks.spread]
  | case2 marks p queue hmarked ih => rw [RootMarks.spread, if_pos hmarked, ih]
  | case3 marks p queue hnew marked ih =>
    rw [RootMarks.spread, if_neg hnew, ih, h.dependencies]

theorem SameGraph.markFrom (h : SameGraph A B) (marks : RootMarks) (root : QueryPath) :
    marks.markFrom A root = marks.markFrom B root :=
  h.spread _ _ _

/-- Once all roots are marked, the rest of a merge is the same. -/
theorem SameGraph.merge_eq (h : SameGraph A B) (extra : List QueryPath)
    (hmarks : A.fullMarks extra = B.fullMarks extra) : A.merge extra = B.merge extra := by
  unfold merge
  simp only [hmarks, h.takeRoot, h.commonModules]

end Congruence

/-! ## Roots -/

section Roots

variable {set A B : ModuleSet} {walked others : List Module} {p : QueryPath}

/-- Give each module that no root reaches a root of its own, in turn. -/
def promote (set : ModuleSet) (marks : RootMarks) (paths : List QueryPath) : RootMarks :=
  paths.foldl (fun marks p => if marks.reachCount p = 0 then marks.markFrom set p else marks)
    marks

/-- Modules that are reached need no root of their own. -/
theorem promote_of_reached {marks : RootMarks} {paths : List QueryPath}
    (h : ∀ p ∈ paths, marks.reachCount p ≠ 0) : set.promote marks paths = marks := by
  unfold promote
  induction paths with
  | nil => rfl
  | cons p paths ih =>
    rw [List.foldl_cons, if_neg (h p List.mem_cons_self)]
    exact ih fun q hq => h q (List.mem_cons_of_mem _ hq)

theorem SameGraph.promote (h : SameGraph A B) (marks : RootMarks) (paths : List QueryPath) :
    A.promote marks paths = B.promote marks paths := by
  unfold ModuleSet.promote
  simp only [h.markFrom]

/-- Modules that something requires are no roots, wherever they stand. -/
theorem roots_of_append (hset : set.modules = walked ++ others)
    (hrequired : ∀ m ∈ others, set.requiredBy m.path ≠ []) (extra : List QueryPath) :
    set.roots extra =
      extra.foldl (fun acc p => if set.contains p && !acc.contains p then acc ++ [p] else acc)
        ((walked.map Module.path).filter fun p => (set.requiredBy p).isEmpty) := by
  have hnone : (others.map Module.path).filter (fun p => (set.requiredBy p).isEmpty) = [] := by
    rw [List.filter_eq_nil_iff]
    intro p hp
    obtain ⟨m, hm, rfl⟩ := List.mem_map.1 hp
    rw [List.isEmpty_iff]
    exact hrequired m hm
  rw [roots_eq_foldl]
  unfold paths
  rw [hset, List.map_append, List.filter_append, hnone, List.append_nil]

/-- Modules that others reach are reached by the roots of those. -/
theorem fullMarks_of_append (hset : set.modules = walked ++ others)
    (hreached : ∀ m ∈ others, ∃ w ∈ walked, set.Reaches w.path m.path)
    (extra : List QueryPath) :
    set.fullMarks extra =
      set.promote (RootMarks.ofRoots set (set.roots extra)) (walked.map Module.path) := by
  have hpaths : set.paths = walked.map Module.path ++ others.map Module.path := by
    unfold paths
    rw [hset, List.map_append]
  have hsubset : walked.map Module.path ⊆ set.paths := by
    rw [hpaths]
    exact List.subset_append_left _ _
  obtain ⟨hrooted, -, hwalked⟩ := (rooted_ofRoots set extra).promote hsubset
  have hsplit : set.fullMarks extra =
      set.promote (set.promote (RootMarks.ofRoots set (set.roots extra))
        (walked.map Module.path)) (others.map Module.path) := by
    unfold fullMarks ModuleSet.promote
    rw [hpaths, List.foldl_append]
  rw [hsplit]
  apply promote_of_reached
  intro p hp hcount
  obtain ⟨m, hm, rfl⟩ := List.mem_map.1 hp
  obtain ⟨w, hw, hreach⟩ := hreached m hm
  obtain ⟨root, hroot, hleads⟩ := hwalked w.path (List.mem_map.2 ⟨w, hw, rfl⟩)
  exact hrooted.exact.reachCount_eq_zero_iff.1 hcount root hroot (hleads.trans hreach)

/-- Who requires a path depends on the modules, not on their order. -/
theorem requiredBy_isEmpty_of_perm (h : A.modules.Perm B.modules) (p : QueryPath) :
    (A.requiredBy p).isEmpty = (B.requiredBy p).isEmpty := by
  have hpaths : p ∈ A.paths ↔ p ∈ B.paths := (h.map Module.path).mem_iff
  by_cases hp : p ∈ A.paths
  · rw [requiredBy_eq hp, requiredBy_eq (hpaths.1 hp)]
    exact ((h.filter _).map Module.path).isEmpty_eq
  · rw [requiredBy_eq_nil_of_not_mem hp, requiredBy_eq_nil_of_not_mem (mt hpaths.2 hp)]

theorem SameGraph.reaches (h : SameGraph A B) {q : QueryPath} (hreach : A.Reaches p q) :
    B.Reaches p q := by
  refine Relation.ReflTransGen.mono ?_ _ _ hreach
  intro a b hab
  unfold Requires at hab ⊢
  rwa [← h.dependencies]

/-- **Behind modules that reach them, modules that something requires can come in any
order.** -/
theorem merge_eq_of_perm {others' : List Module} (hA : A.modules = walked ++ others)
    (hB : B.modules = walked ++ others') (hperm : others.Perm others')
    (hrequired : ∀ m ∈ others, A.requiredBy m.path ≠ [])
    (hreached : ∀ m ∈ others, ∃ w ∈ walked, A.Reaches w.path m.path) (extra : List QueryPath) :
    A.merge extra = B.merge extra := by
  have hmodules : A.modules.Perm B.modules := by
    rw [hA, hB]
    exact hperm.append_left walked
  have hgraph : SameGraph A B := .of_perm hmodules
  have hrequired' : ∀ m ∈ others', B.requiredBy m.path ≠ [] := by
    intro m hm hnone
    have hempty := requiredBy_isEmpty_of_perm hmodules m.path
    rw [hnone, List.isEmpty_nil, List.isEmpty_iff] at hempty
    exact hrequired m (hperm.mem_iff.2 hm) hempty
  have hreached' : ∀ m ∈ others', ∃ w ∈ walked, B.Reaches w.path m.path := by
    intro m hm
    obtain ⟨w, hw, hreach⟩ := hreached m (hperm.mem_iff.2 hm)
    exact ⟨w, hw, hgraph.reaches hreach⟩
  have hcontains : A.contains = B.contains := by
    funext p
    rw [Bool.eq_iff_iff, contains_iff, contains_iff, hgraph.paths]
  have hroots : A.roots extra = B.roots extra := by
    rw [roots_of_append hA hrequired, roots_of_append hB hrequired', hcontains]
    simp only [requiredBy_isEmpty_of_perm hmodules]
  apply hgraph.merge_eq
  rw [fullMarks_of_append hA hreached, fullMarks_of_append hB hreached', hroots, hgraph.promote]
  unfold RootMarks.ofRoots
  simp only [funext₂ hgraph.markFrom]

end Roots

end ModuleSet

end WebBundler
