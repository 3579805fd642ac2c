import WebBundler.Merge.Marks
import WebBundler.Proofs.Graph.Places
set_option autoImplicit false

/-!
# Who requires a module

The index of requirers is filled in one pass over all references of the set.  A reference may be
repeated, name no module of the set, name one with a scheme, or name the very module that makes
it.  What the pass leaves under each module is exact all the same (`requirerIndex_eq`): the
places of the modules that name it as a local one, in order.

So the index and the dependencies are the two directions of one relation.  A module with a
scheme is the exception: it can be a dependency, and nothing is noted under it.
-/

namespace WebBundler.ModuleSet

variable {set : ModuleSet} {m n : Module} {modules : List Module} {requirers : List Nat}
  {p : QueryPath} {place target first : Nat}

/-! ## What the pass notes -/

/-- What leads to a place is a reference to the path of the module there, without a scheme. -/
theorem mem_targets_iff (hn : set.modules[target]? = some n) :
    target ∈ set.targets m ↔ ∃ r ∈ m.requires, r.isRemote = false ∧ r = n.path := by
  have hplace : ∀ r, set.indexOf? r = some target ↔ r = n.path := by
    intro r
    rw [indexOf?_eq_some_iff]
    constructor
    · rintro ⟨m, hm, rfl⟩
      rw [hn] at hm
      rw [Option.some.inj hm]
    · rintro rfl
      exact ⟨n, hn, rfl⟩
  unfold targets
  simp only [List.mem_filterMap, List.mem_filter, Bool.not_eq_true', hplace, and_assoc]

/-- The places of those modules that lead to the target, where the modules stand at places from
a first one on. -/
def placesLeadingTo (set : ModuleSet) (modules : List Module) (first target : Nat) : List Nat :=
  ((modules.zipIdx first).filter fun (m, _) => target ∈ set.targets m).map Prod.snd

theorem placesLeadingTo_cons :
    set.placesLeadingTo (m :: modules) first target =
      (if target ∈ set.targets m then [first] else []) ++
        set.placesLeadingTo modules (first + 1) target := by
  unfold placesLeadingTo
  rw [List.zipIdx_cons, List.filter_cons]
  by_cases h : target ∈ set.targets m <;> simp [h]

/-- The places are distinct and in order, for they are some of the places of all modules. -/
theorem pairwise_placesLeadingTo (set : ModuleSet) (modules : List Module)
    (first target : Nat) :
    (set.placesLeadingTo modules first target).Pairwise (· < ·) := by
  have hsome : (set.placesLeadingTo modules first target).Sublist
      (List.range' first modules.length) := by
    rw [← List.zipIdx_map_snd]
    exact List.filter_sublist.map _
  exact List.Pairwise.sublist hsome List.pairwise_lt_range'

theorem mem_placesLeadingTo :
    place ∈ set.placesLeadingTo modules 0 target ↔
      ∃ m, modules[place]? = some m ∧ target ∈ set.targets m := by
  unfold placesLeadingTo
  simp [List.mem_zipIdx_iff_getElem?]

/-! ## The pass -/

theorem noteRequirer_noteRequirer (requirers : List Nat) (place : Nat) :
    noteRequirer (noteRequirer requirers place) place = noteRequirer requirers place := by
  have hnoted : (noteRequirer requirers place).contains place = true := by
    unfold noteRequirer
    split
    · assumption
    · simp
  rw [noteRequirer, if_pos hnoted]

theorem noteRequirer_of_lt (h : ∀ other ∈ requirers, other < place) :
    noteRequirer requirers place = requirers ++ [place] := by
  unfold noteRequirer
  rw [if_neg]
  intro hnoted
  exact Nat.lt_irrefl place (h place (List.contains_iff_mem.1 hnoted))

/-- A module is noted once under each of its targets and nowhere else, by induction on the
targets. -/
theorem getElem?_noteTargets (targets : List Nat) (index : List (List Nat)) :
    (noteTargets place index targets)[target]? =
      if target ∈ targets then index[target]?.map (noteRequirer · place)
      else index[target]? := by
  induction targets generalizing index with
  | nil => rfl
  | cons next targets ih =>
    have hcons : noteTargets place index (next :: targets) =
        noteTargets place (index.modify next (noteRequirer · place)) targets := rfl
    rw [hcons, ih]
    by_cases hnext : next = target
    · rw [if_pos (List.mem_cons.2 (.inl hnext.symm)), hnext, List.getElem?_modify_eq,
        Option.map_eq_map]
      split
      · -- The module was noted under the target before.
        rw [Option.map_map]
        simp only [Function.comp_def, noteRequirer_noteRequirer]
      · rfl
    · rw [List.getElem?_modify_ne _ _ hnext]
      simp only [List.mem_cons, Ne.symm hnext, false_or]

/-- The modules of a list are noted one behind the other, by induction on the list.  What is
noted so far stands in front of their places, so that each of them is new when its first target
is read. -/
theorem getElem?_foldl_noteTargets (modules : List Module) (first : Nat)
    (index : List (List Nat)) (hearlier : ∀ requirers, index[target]? = some requirers →
      ∀ place ∈ requirers, place < first) :
    ((modules.zipIdx first).foldl
        (fun index (m, place) => noteTargets place index (set.targets m)) index)[target]? =
      index[target]?.map (· ++ set.placesLeadingTo modules first target) := by
  induction modules generalizing first index with
  | nil => simp [placesLeadingTo]
  | cons m modules ih =>
    have hnext : (noteTargets first index (set.targets m))[target]? =
        index[target]?.map (· ++ if target ∈ set.targets m then [first] else []) := by
      rw [getElem?_noteTargets]
      cases hentry : index[target]? with
      | none => simp
      | some requirers =>
        split
        · rw [Option.map_some, Option.map_some, noteRequirer_of_lt (hearlier requirers hentry)]
        · simp
    rw [List.zipIdx_cons, List.foldl_cons, ih, hnext, Option.map_map, placesLeadingTo_cons]
    · simp only [Function.comp_def, List.append_assoc]
    · intro requirers hrequirers place hplace
      rw [hnext, Option.map_eq_some_iff] at hrequirers
      obtain ⟨noted, hnoted, rfl⟩ := hrequirers
      rcases List.mem_append.1 hplace with hplace | hplace
      · exact Nat.lt_succ_of_lt (hearlier noted hnoted place hplace)
      · split at hplace
        · rw [List.mem_singleton.1 hplace]
          exact Nat.lt_succ_self first
        · cases hplace

/-- **The index is exact.**  Under each place it has the places of the modules that lead to
it. -/
theorem requirerIndex_eq (set : ModuleSet) :
    set.requirerIndex = (List.range set.size).map (set.placesLeadingTo set.modules 0) := by
  apply List.ext_getElem?
  intro target
  have hempty : ∀ requirers, (List.replicate set.size ([] : List Nat))[target]? =
      some requirers →
      ∀ place ∈ requirers, place < 0 := by
    intro requirers hrequirers
    rw [List.eq_of_mem_replicate (List.mem_of_getElem? hrequirers)]
    exact fun place hplace => nomatch hplace
  unfold requirerIndex
  rw [getElem?_foldl_noteTargets set.modules 0 _ hempty, List.getElem?_map]
  by_cases hplace : target < set.size
  · rw [List.getElem?_replicate_of_lt hplace, List.getElem?_range hplace]
    rfl
  · simp [hplace]

theorem getElem?_requirerIndex (hn : set.modules[target]? = some n) :
    set.requirerIndex[target]? = some (set.placesLeadingTo set.modules 0 target) := by
  have hplace : target < set.size := (List.getElem?_eq_some_iff.1 hn).1
  rw [requirerIndex_eq, List.getElem?_map, List.getElem?_range hplace]
  rfl

/-! ## Reading the index -/

theorem map_fst_filter_zipIdx {α : Type} (keep : α → Bool) (items : List α) :
    (items.zipIdx.filter (keep ∘ Prod.fst)).map Prod.fst = items.filter keep := by
  rw [← List.filter_map, List.zipIdx_map_fst]

theorem requiredBy_of_getElem? (hn : set.modules[target]? = some n) :
    set.requiredBy n.path = (set.placesLeadingTo set.modules 0 target).filterMap
      (set.paths[·]?) := by
  unfold requiredBy
  rw [indexOf?_eq_some_iff.2 ⟨n, hn, rfl⟩]
  dsimp only
  rw [List.getD_eq_getElem?_getD, getElem?_requirerIndex hn, Option.getD_some]

/-- The paths at the places that lead to a target are those of the modules that do, in order. -/
theorem filterMap_placesLeadingTo (set : ModuleSet) (target : Nat) :
    (set.placesLeadingTo set.modules 0 target).filterMap (set.paths[·]?) =
      (set.modules.filter fun m => target ∈ set.targets m).map Module.path := by
  have hpath : ∀ entry ∈ set.modules.zipIdx.filter (fun (m, _) => target ∈ set.targets m),
      ((set.paths[·]?) ∘ Prod.snd) entry = (some ∘ Module.path ∘ Prod.fst) entry := by
    intro entry hentry
    have hstands := List.mem_zipIdx_iff_getElem?.1 (List.mem_filter.1 hentry).1
    simp only [Function.comp_apply, paths, List.getElem?_map, hstands, Option.map_some]
  unfold placesLeadingTo
  rw [List.filterMap_map, List.filterMap_congr hpath, List.filterMap_eq_map, ← List.map_map]
  exact congrArg (List.map Module.path)
    (map_fst_filter_zipIdx (fun m => target ∈ set.targets m) set.modules)

/-- Under a path of the set are listed the modules that require it as a local one, in order. -/
theorem requiredBy_eq (h : p ∈ set.paths) :
    set.requiredBy p =
      (set.modules.filter fun m => m.requires.any fun r => !r.isRemote && r = p).map
        Module.path := by
  obtain ⟨n, hn, rfl⟩ := List.mem_map.1 h
  obtain ⟨target, htarget⟩ := List.mem_iff_getElem?.1 hn
  have hnames : ∀ m : Module, decide (target ∈ set.targets m) =
      m.requires.any fun r => !r.isRemote && r = n.path := by
    intro m
    rw [Bool.eq_iff_iff, decide_eq_true_iff, mem_targets_iff htarget]
    simp
  rw [requiredBy_of_getElem? htarget, filterMap_placesLeadingTo]
  simp only [hnames]

theorem requiredBy_eq_nil_of_not_mem (h : p ∉ set.paths) : set.requiredBy p = [] := by
  have hnone : set.indexOf? p = none := by
    rw [← Option.not_isSome_iff_eq_none]
    exact mt contains_iff.1 h
  rw [requiredBy, hnone]

theorem map_indexOf?_requiredBy (hn : set.modules[target]? = some n) :
    (set.requiredBy n.path).map set.indexOf? =
      (set.placesLeadingTo set.modules 0 target).map some := by
  rw [requiredBy_of_getElem? hn, List.map_filterMap, ← List.filterMap_eq_map]
  apply List.filterMap_congr
  intro place hplace
  obtain ⟨m, hm, -⟩ := mem_placesLeadingTo.1 hplace
  have hpath : set.paths[place]? = some m.path := by
    rw [paths, List.getElem?_map, hm, Option.map_some]
  rw [hpath, Option.map_some, indexOf?_eq_some_iff.2 ⟨m, hm, rfl⟩, Function.comp_apply]

/-- A merge starts from the modules under which nothing is noted, and from those that are asked
for. -/
theorem roots_eq_foldl (set : ModuleSet) (extra : List QueryPath) :
    set.roots extra =
      extra.foldl (fun acc p => if set.contains p && !acc.contains p then acc ++ [p] else acc)
        (set.paths.filter fun p => (set.requiredBy p).isEmpty) := by
  have hempty : ∀ entry ∈ set.paths.zipIdx, (set.requirerIndex.getD entry.2 []).isEmpty =
      ((fun p => (set.requiredBy p).isEmpty) ∘ Prod.fst) entry := by
    rintro ⟨p, place⟩ hentry
    have hp := List.mem_zipIdx_iff_getElem?.1 hentry
    rw [paths, List.getElem?_map, Option.map_eq_some_iff] at hp
    obtain ⟨n, hn, rfl⟩ := hp
    have hlisted := congrArg List.isEmpty (map_indexOf?_requiredBy hn)
    rw [List.isEmpty_map, List.isEmpty_map] at hlisted
    rw [List.getD_eq_getElem?_getD, getElem?_requirerIndex hn, Option.getD_some]
    exact hlisted.symm
  rw [← map_fst_filter_zipIdx, ← List.filter_congr hempty]
  rfl

theorem requiresOf_of_getElem? (hm : set.modules[place]? = some m) :
    set.requiresOf m.path = m.requires := by
  unfold requiresOf find?
  rw [indexOf?_eq_some_iff.2 ⟨m, hm, rfl⟩, Option.bind_some, hm]

/-- **The index of requirers is the inverse of the local dependency relation.**  It has one
entry for each module of the set.  The entry of a module has, once each and in increasing order,
the places of exactly those modules that have a reference without a scheme equal to its path;
and if its path has no scheme, these are exactly the modules that have it among their
dependencies.  The paths listed for a module are those at the places of its entry. -/
theorem requirers_inverse_of_dependencies (set : ModuleSet) :
    set.requirerIndex.length = set.size ∧
      ∀ (target : Nat) (n : Module), set.modules[target]? = some n → ∃ requirers : List Nat,
        set.requirerIndex[target]? = some requirers ∧
          requirers.Pairwise (· < ·) ∧
          (∀ place, place ∈ requirers ↔
            ∃ m : Module, set.modules[place]? = some m ∧ ∃ r ∈ m.requires, r.isRemote = false ∧
            r = n.path) ∧
          (n.path.isRemote = false → ∀ place, place ∈ requirers ↔
            ∃ m : Module, set.modules[place]? = some m ∧ n.path ∈ set.dependencies m.path) ∧
          (set.requiredBy n.path).map set.indexOf? = requirers.map some := by
  refine ⟨by rw [requirerIndex_eq, List.length_map, List.length_range], fun target n hn => ?_⟩
  have hmem : n.path ∈ set.paths := List.mem_map.2 ⟨n, List.mem_of_getElem? hn, rfl⟩
  have hrequirers : ∀ place, place ∈ set.placesLeadingTo set.modules 0 target ↔
      ∃ m : Module, set.modules[place]? = some m ∧ ∃ r ∈ m.requires, r.isRemote = false ∧
      r = n.path := by
    intro place
    simp only [mem_placesLeadingTo, mem_targets_iff hn]
  refine ⟨_, getElem?_requirerIndex hn, pairwise_placesLeadingTo _ _ _ _, hrequirers,
    fun hlocal place => ?_, map_indexOf?_requiredBy hn⟩
  rw [hrequirers]
  apply exists_congr
  intro m
  apply and_congr_right
  intro hm
  rw [mem_dependencies, requiresOf_of_getElem? hm]
  constructor
  · rintro ⟨r, hr, -, rfl⟩
    exact ⟨hr, hmem⟩
  · rintro ⟨hrequires, -⟩
    exact ⟨n.path, hrequires, hlocal, rfl⟩

/-- Three modules require the last of them, one of them twice and the last itself.  There are
references to a module with a scheme and to one that is missing too. -/
def crossed : ModuleSet where
  modules := [
    { Module.empty ⟨"/a.js"⟩ .script with requires :=
      [⟨"pkg:/b.js"⟩, ⟨"/b.js"⟩, ⟨"/missing.js"⟩] },
    { Module.empty ⟨"/c.js"⟩ .script with requires := [⟨"/b.js"⟩, ⟨"/a.js"⟩, ⟨"/b.js"⟩] },
    { Module.empty ⟨"/b.js"⟩ .script with requires := [⟨"/b.js"⟩] },
    .empty ⟨"pkg:/b.js"⟩ .script]
  nodup := by decide

/-- In the crossed set, the entry of the module that all require is the inverse of the
dependencies. -/
theorem requirers_inverse_crossed :
    crossed.requirerIndex = [[1], [], [0, 1, 2], []] ∧ (QueryPath.mk "/b.js").isRemote = false ∧
      ∀ place, place ∈ [0, 1, 2] ↔
        ∃ m : Module, crossed.modules[place]? = some m ∧
        ⟨"/b.js"⟩ ∈ crossed.dependencies m.path := by
  have hindex : crossed.requirerIndex = [[1], [], [0, 1, 2], []] := by decide
  have hlocal : (QueryPath.mk "/b.js").isRemote = false := by decide
  obtain ⟨-, hentries⟩ := requirers_inverse_of_dependencies crossed
  obtain ⟨requirers, hentry, -, -, hinverse, -⟩ :=
    hentries 2 { Module.empty ⟨"/b.js"⟩ .script with requires := [⟨"/b.js"⟩] } rfl
  have hrequirers : requirers = [0, 1, 2] := by
    rw [hindex] at hentry
    exact (Option.some.inj hentry).symm
  rw [hrequirers] at hinverse
  exact ⟨hindex, hlocal, hinverse hlocal⟩

end WebBundler.ModuleSet
