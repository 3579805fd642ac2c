import WebBundler.Proofs.Merge.Loading
import WebBundler.Proofs.Output.Additions
set_option autoImplicit false

/-!
# A build in bundles is complete for loading

What is written in bundles is a list of files, each with its purpose
(`ModuleSet.bundledWrites`).  To run a root, a page loads the common bundle and then the bundle
of the root (`BundledWrite.loaded`).  There it finds every module that the root reaches exactly
once and behind what the module requires (`bundles_complete_for_loading`), with two kinds of
modules left out: those that are passed through untouched, each of which has a file of its own,
and a stylesheet whose plain form has the path of the bundle.
-/

namespace WebBundler

namespace Destination

variable {d : Destination} {t t' t'' : FileTree} {o : Output} {outputs more : List Output}

/-- Outputs are written one after the other, and each of them succeeds. -/
inductive Wrote (d : Destination) : FileTree → List Output → FileTree → Prop
  | nil {t : FileTree} : Wrote d t [] t
  | cons {t t' t'' : FileTree} {o : Output} {outputs : List Output}
      (hwrite : d.write t o = .ok t') (hrest : Wrote d t' outputs t'') :
      Wrote d t (o :: outputs) t''

theorem Wrote.append (h : d.Wrote t outputs t') (hmore : d.Wrote t' more t'') :
    d.Wrote t (outputs ++ more) t'' := by
  induction h with
  | nil => exact hmore
  | cons hwrite _ ih => exact .cons hwrite (ih hmore)

theorem wrote_of_writeGroup {group : List Output} (h : (d.writeGroup t group).2 = none) :
    d.Wrote t group (d.writeGroup t group).1 := by
  induction group generalizing t with
  | nil => exact .nil
  | cons o group ih =>
    rw [writeGroup_cons] at h ⊢
    cases hwrite : d.write t o with
    | error e =>
      rw [hwrite] at h
      cases h
    | ok written =>
      rw [hwrite] at h
      exact .cons hwrite (ih h)

theorem wrote_of_writeGroups {groups : List (List Output)}
    (h : (d.writeGroups t groups).2 = []) :
    d.Wrote t groups.flatten (d.writeGroups t groups).1 := by
  induction groups generalizing t with
  | nil => exact .nil
  | cons group groups ih =>
    have hfailures : (d.writeGroup t group).2.toList ++
      (d.writeGroups (d.writeGroup t group).1 groups).2 = [] := h
    obtain ⟨hgroup, hgroups⟩ := List.append_eq_nil_iff.1 hfailures
    exact (wrote_of_writeGroup (Option.toList_eq_nil_iff.1 hgroup)).append (ih hgroups)

end Destination

/-! ## What is written, and what for -/

/-- The code of the module is a part of a bundle file: it is not passed through untouched, and
the file is not its plain stylesheet. -/
def Module.Joins (m : Module) (target : String) : Prop :=
  m.kind ≠ .verbatim ∧ (m.kind = .style → cssPath m.realPath ≠ target)

instance (m : Module) (target : String) : Decidable (m.Joins target) :=
  inferInstanceAs (Decidable (_ ∧ _))

theorem Module.bundlePart?_eq (m : Module) (target : String) :
    m.bundlePart? target = if m.Joins target then some m.wrappedCode else none := by
  unfold bundlePart?
  split
  · next hkind =>
    have hout : ¬ m.Joins target := fun h => h.1 hkind
    rw [if_neg hout]
  · next hkind =>
    have hverbatim : m.kind ≠ .verbatim := by rw [hkind]; decide
    by_cases hplain : cssPath m.realPath = target
    · have hout : ¬ m.Joins target := fun h => h.2 hkind hplain
      rw [if_pos hplain, if_neg hout]
    · have hjoins : m.Joins target := ⟨hverbatim, fun _ => hplain⟩
      rw [if_neg hplain, if_pos hjoins]
  · next hverbatim hstyle =>
    have hjoins : m.Joins target := ⟨hverbatim, fun hkind => absurd hkind hstyle⟩
    rw [if_pos hjoins]

/-- The parts of a bundle file are the code of the modules that join it. -/
theorem Module.filterMap_bundlePart (modules : List Module) (target : String) :
    modules.filterMap (·.bundlePart? target) =
      (modules.filter (·.Joins target)).map Module.wrappedCode := by
  induction modules with
  | nil => rfl
  | cons m modules ih =>
    by_cases hjoins : m.Joins target
    · simp [m.bundlePart?_eq, hjoins, ih]
    · simp [m.bundlePart?_eq, hjoins, ih]

/-- One file of a build in bundles. -/
inductive BundledWrite where
  /-- A module that is passed through untouched. -/
  | verbatim (m : Module)
  /-- The plain stylesheet of a module. -/
  | style (m : Module)
  /-- The common bundle. -/
  | common (target : String) (parts : List Module)
  /-- The bundle of a root. -/
  | bundle (root : QueryPath) (parts : List Module)
  | manifest (text : String)

namespace BundledWrite

/-- The text of a bundle file. -/
def textOf (parts : List Module) : String := Text.joinText "\n" (parts.map Module.wrappedCode)

/-- What is written. -/
def output : BundledWrite → Output
  | .verbatim m => m.ownOutput
  | .style m => m.plainStyle
  | .common target parts => .ofText target (textOf parts)
  | .bundle root parts => .ofText root.withoutScheme (textOf parts)
  | .manifest text => .ofText manifestFile text

/-- The module that a file passes through untouched. -/
def verbatim? : BundledWrite → Option Module
  | .verbatim m => some m
  | _ => none

/-- The modules of a file that are loaded for a root: all of the common bundle, and of its own
one. -/
def loaded (root : QueryPath) : BundledWrite → List Module
  | .common _ parts => parts
  | .bundle other parts => if other = root then parts else []
  | _ => []

end BundledWrite

open BundledWrite (textOf)

/-- The files beside a bundle file for a module of the bundle. -/
def Module.writesBeside (m : Module) : List BundledWrite :=
  match m.kind with
  | .verbatim => [.verbatim m]
  | .style => [.style m]
  | _ => []

theorem Module.outputsBeside_eq (m : Module) :
    m.outputsBeside = m.writesBeside.map fun w => [w.output] := by
  unfold outputsBeside writesBeside outputs
  cases hkind : m.kind <;> rfl

theorem Module.filterMap_writesBeside (m : Module) :
    m.writesBeside.filterMap BundledWrite.verbatim? = if m.kind =
      .verbatim then [m] else [] := by
  unfold writesBeside
  cases hkind : m.kind <;> rfl

theorem Module.flatMap_writesBeside {α : Type} {f : BundledWrite → List α}
    (hverbatim : ∀ m, f (.verbatim m) = []) (hstyle : ∀ m, f (.style m) = []) (m : Module) :
    m.writesBeside.flatMap f = [] := by
  unfold writesBeside
  cases hkind : m.kind with
  | verbatim => rw [List.flatMap_singleton, hverbatim]
  | style => rw [List.flatMap_singleton, hstyle]
  | script => rfl
  | template => rfl

namespace ModuleSet

variable {set : ModuleSet} {extra : List QueryPath} {target : String}
  {paths paths' : List QueryPath} {m u v : Module} {root : QueryPath} {b : Bundle}
  {file : List Module → BundledWrite}

/-- The modules at some paths whose code is a part of a file. -/
def partsFor (set : ModuleSet) (target : String) (paths : List QueryPath) : List Module :=
  (paths.filterMap set.find?).filter (·.Joins target)

/-- The files of a bundle: those beside its own file, and that file if there is something in
it. -/
def bundleWrites (set : ModuleSet) (file : List Module → BundledWrite) (target : String)
    (paths : List QueryPath) : List BundledWrite :=
  (paths.filterMap set.find?).flatMap Module.writesBeside ++
    (if (set.partsFor target paths).isEmpty then [] else [file (set.partsFor target paths)])

/-- The files of a build in bundles, in the order in which they are written. -/
def bundledWrites (set : ModuleSet) (merged : Merged) (commonBundle : String) :
    List BundledWrite :=
  set.bundleWrites (.common commonBundle) commonBundle merged.shared ++
    merged.bundles.flatMap (fun e => set.bundleWrites (.bundle e.1) e.1.withoutScheme
      e.2.modules) ++
    [.manifest merged.manifest]

theorem bundleOutputs_eq (file : List Module → BundledWrite)
    (hfile : ∀ parts, (file parts).output = .ofText target (textOf parts)) :
    set.bundleOutputs target paths = (set.bundleWrites file target paths).map fun w =>
      [w.output] := by
  have hparts : (paths.filterMap set.find?).filterMap (·.bundlePart? target) =
      (set.partsFor target paths).map Module.wrappedCode := Module.filterMap_bundlePart _ _
  unfold bundleOutputs bundleWrites
  dsimp only
  rw [hparts, List.map_append, List.map_flatMap, List.isEmpty_map]
  congr 1
  · exact List.flatMap_congr fun m _ => m.outputsBeside_eq
  · split
    · rfl
    · rw [List.map_singleton, hfile]
      rfl

/-- Empty bundles add no outputs. -/
theorem bundledOutputs_eq_append (set : ModuleSet) (merged : Merged) (commonBundle : String) :
    set.bundledOutputs merged commonBundle =
      set.bundleOutputs commonBundle merged.shared ++
        merged.bundles.flatMap (fun e => set.bundleOutputs e.1.withoutScheme e.2.modules) ++
        [[.ofText manifestFile merged.manifest]] := by
  unfold bundledOutputs
  congr 2
  · unfold Merged.shared
    split
    · next common hcommon => rw [hcommon, Option.toList_some, List.flatMap_singleton]
    · next hcommon =>
      rw [hcommon]
      rfl
  · induction merged.bundles with
    | nil => rfl
    | cons e bundles ih =>
      rw [List.filter_cons, List.flatMap_cons, ← ih]
      split
      · rfl
      · next hempty =>
        have hmodules : e.2.modules = [] := by simpa [Bundle.isEmpty] using hempty
        rw [hmodules]
        rfl

/-- The groups of outputs of a build in bundles are its files, one by one. -/
theorem bundledOutputs_eq (set : ModuleSet) (merged : Merged) (commonBundle : String) :
    set.bundledOutputs merged commonBundle =
      (set.bundledWrites merged commonBundle).map fun w => [w.output] := by
  unfold bundledWrites
  rw [bundledOutputs_eq_append, List.map_append, List.map_append, List.map_flatMap,
    bundleOutputs_eq (.common commonBundle) fun _ => rfl]
  congr 2
  exact List.flatMap_congr fun e _ => bundleOutputs_eq (.bundle e.1) fun _ => rfl

/-! ## The modules of a bundle -/

theorem nodup_filterMap_find? (h : paths.Nodup) : (paths.filterMap set.find?).Nodup := by
  refine h.filterMap fun p q m hp hq => ?_
  rw [← (find?_eq_some_iff.1 hp).2, ← (find?_eq_some_iff.1 hq).2]

theorem mem_filterMap_find? :
    m ∈ paths.filterMap set.find? ↔ m ∈ set.modules ∧ m.path ∈ paths := by
  rw [List.mem_filterMap]
  constructor
  · rintro ⟨p, hp, hfound⟩
    obtain ⟨hm, rfl⟩ := find?_eq_some_iff.1 hfound
    exact ⟨hm, hp⟩
  · rintro ⟨hm, hp⟩
    exact ⟨m.path, hp, find?_eq_some_iff.2 ⟨hm, rfl⟩⟩

theorem mem_partsFor :
    m ∈ set.partsFor target paths ↔ (m ∈ set.modules ∧ m.path ∈ paths) ∧ m.Joins target := by
  unfold partsFor
  rw [List.mem_filter, mem_filterMap_find?, decide_eq_true_iff]

theorem partsFor_sublist (h : paths.Sublist paths') :
    (set.partsFor target paths).Sublist (set.partsFor target paths') :=
  (h.filterMap set.find?).filter _

theorem partsFor_of_mem (hu : u ∈ set.partsFor target paths)
    (hv : v ∈ set.partsFor target paths) :
    set.partsFor target [v.path, u.path] = [v, u] := by
  obtain ⟨⟨hu, -⟩, hjoins⟩ := mem_partsFor.1 hu
  obtain ⟨⟨hv, -⟩, hjoins'⟩ := mem_partsFor.1 hv
  unfold partsFor
  rw [List.filterMap_cons_some (find?_eq_some_iff.2 ⟨hv, rfl⟩),
    List.filterMap_cons_some (find?_eq_some_iff.2 ⟨hu, rfl⟩), List.filterMap_nil]
  simp [hjoins, hjoins']

/-- In a list in loading order a part stands behind what it requires. -/
theorem Ordered.parts (h : set.Ordered paths) (hu : u ∈ set.partsFor target paths)
    (hv : v ∈ set.partsFor target paths) (hrequires : v.path ∈ u.requires) :
    [v, u].Sublist (set.partsFor target paths) ∨ set.Reaches v.path u.path := by
  obtain ⟨⟨humem, hupath⟩, -⟩ := mem_partsFor.1 hu
  obtain ⟨⟨hvmem, hvpath⟩, -⟩ := mem_partsFor.1 hv
  have hedge : set.Requires u.path v.path :=
    requires_of_mem humem hrequires (List.mem_map.2 ⟨v, hvmem, rfl⟩)
  obtain ⟨listed, rest, hsplit⟩ := List.append_of_mem hupath
  refine (h listed u.path rest hsplit v.path hvpath hedge).imp_left fun hlisted => ?_
  rw [← partsFor_of_mem hu hv]
  apply partsFor_sublist
  rw [hsplit]
  exact (List.singleton_sublist.2 hlisted).append (List.singleton_sublist.2 List.mem_cons_self)

/-! ## The files of a build -/

theorem filterMap_bundleWrites (hfile : ∀ parts, (file parts).verbatim? = none) :
    (set.bundleWrites file target paths).filterMap BundledWrite.verbatim? =
      (paths.filterMap set.find?).filter (·.kind = .verbatim) := by
  have hbeside : ∀ modules : List Module,
      (modules.flatMap Module.writesBeside).filterMap BundledWrite.verbatim? =
        modules.filter (·.kind = .verbatim) := by
    intro modules
    induction modules with
    | nil => rfl
    | cons m modules ih =>
      rw [List.flatMap_cons, List.filterMap_append, ih, m.filterMap_writesBeside,
        List.filter_cons]
      split
      · next hkind => rw [if_pos (decide_eq_true hkind)]; rfl
      · next hkind => rw [if_neg (by simpa using hkind)]; rfl
  unfold bundleWrites
  rw [List.filterMap_append, hbeside]
  split
  · rw [List.filterMap_nil, List.append_nil]
  · rw [List.filterMap_cons_none (hfile _), List.filterMap_nil, List.append_nil]

theorem filterMap_bundledWrites (set : ModuleSet) (merged : Merged) (commonBundle : String) :
    (set.bundledWrites merged commonBundle).filterMap BundledWrite.verbatim? =
      (merged.modules.filterMap set.find?).filter (·.kind = .verbatim) := by
  have hmanifest : [BundledWrite.manifest merged.manifest].filterMap BundledWrite.verbatim? =
    [] := rfl
  unfold bundledWrites
  rw [List.filterMap_append, List.filterMap_append, hmanifest, List.append_nil,
    filterMap_bundleWrites fun _ => rfl, List.filterMap_flatMap, Merged.modules_eq,
      List.filterMap_append,
    List.filter_append, List.filterMap_flatMap, List.filter_flatMap]
  congr 1
  exact List.flatMap_congr fun e _ => filterMap_bundleWrites fun _ => rfl

/-- Every module of the set that is passed through untouched has one file. -/
theorem perm_verbatim (set : ModuleSet) (extra : List QueryPath) (commonBundle : String) :
    ((set.bundledWrites (set.merge extra) commonBundle).filterMap BundledWrite.verbatim?).Perm
      (set.modules.filter (·.kind = .verbatim)) := by
  rw [filterMap_bundledWrites]
  exact (perm_find?_merge set extra).filter _

/-- What is asked of bundle files alone is that of the file of the bundle. -/
theorem flatMap_bundleWrites {α : Type} {f : BundledWrite → List α}
    (hverbatim : ∀ m, f (.verbatim m) = []) (hstyle : ∀ m, f (.style m) = [])
    (hnone : f (file []) = []) :
    (set.bundleWrites file target paths).flatMap f = f (file (set.partsFor target paths)) := by
  have hbeside (modules : List Module) :
      (modules.flatMap Module.writesBeside).flatMap f = [] := by
    induction modules with
    | nil => rfl
    | cons m modules ih =>
      rw [List.flatMap_cons, List.flatMap_append, ih, m.flatMap_writesBeside hverbatim hstyle]
      rfl
  unfold bundleWrites
  rw [List.flatMap_append, hbeside, List.nil_append]
  split
  · next hempty => rw [List.isEmpty_iff.1 hempty, hnone, List.flatMap_nil]
  · exact List.flatMap_singleton _ _

/-- The entry of a key among entries with different keys. -/
theorem flatMap_if_of_mem {α : Type} (f : QueryPath × Bundle → List α)
    {bundles : List (QueryPath × Bundle)} (hnodup : (bundles.map (·.1)).Nodup)
    (hb : (root, b) ∈ bundles) :
    bundles.flatMap (fun e => if e.1 = root then f e else []) = f (root, b) := by
  induction bundles with
  | nil => cases hb
  | cons e bundles ih =>
    rw [List.map_cons, List.nodup_cons] at hnodup
    rw [List.flatMap_cons]
    rcases List.mem_cons.1 hb with rfl | hb
    · have hrest : bundles.flatMap (fun e => if e.1 = root then f e else []) = [] := by
        exact List.flatMap_eq_nil_iff.2 fun e he =>
          if_neg fun hsame => hnodup.1 (List.mem_map.2 ⟨e, he, hsame⟩)
      rw [if_pos rfl, hrest, List.append_nil]
    · have hother : e.1 ≠ root := fun hsame =>
        hnodup.1 (hsame ▸ List.mem_map_of_mem (f := Prod.fst) hb)
      rw [if_neg hother, List.nil_append, ih hnodup.2 hb]

/-- For a root the modules of the common bundle are loaded, and then those of its own one. -/
theorem loaded_eq {commonBundle : String} (hb : (root, b) ∈ (set.merge extra).bundles) :
    (set.bundledWrites (set.merge extra) commonBundle).flatMap (BundledWrite.loaded root) =
      set.partsFor commonBundle (set.merge extra).shared ++
        set.partsFor root.withoutScheme b.modules := by
  have hroots : ((set.merge extra).bundles.map (·.1)).Nodup := by
    have hmarked := roots_merge set extra
    unfold Merged.roots at hmarked
    rw [hmarked]
    exact (rooted_fullMarks set extra).nodup
  have hmanifest : [BundledWrite.manifest (set.merge extra).manifest].flatMap
      (BundledWrite.loaded root) = [] :=
    rfl
  have hbundles : (set.merge extra).bundles.flatMap (fun e =>
      (set.bundleWrites (.bundle e.1) e.1.withoutScheme e.2.modules).flatMap
        (BundledWrite.loaded root)) =
      (set.merge extra).bundles.flatMap fun e =>
        if e.1 = root then set.partsFor e.1.withoutScheme e.2.modules else [] := by
    refine List.flatMap_congr fun e _ => flatMap_bundleWrites (fun _ => rfl) (fun _ => rfl) ?_
    exact ite_self _
  unfold bundledWrites
  rw [List.flatMap_append, List.flatMap_append, hmanifest, List.append_nil, List.flatMap_assoc,
    flatMap_bundleWrites (fun _ => rfl) (fun _ => rfl) rfl, hbundles,
    flatMap_if_of_mem (fun e => set.partsFor e.1.withoutScheme e.2.modules) hroots hb]
  rfl

/-! ## Loading a root -/

/-- No module is loaded twice. -/
theorem nodup_loaded {commonBundle : String} (hb : (root, b) ∈ (set.merge extra).bundles) :
    (set.partsFor commonBundle (set.merge extra).shared ++
      set.partsFor root.withoutScheme b.modules).Nodup := by
  have hown : b.modules.Nodup := by
    obtain ⟨slot, -, rfl⟩ := mem_bundles_merge.1 hb
    exact walkOrder_nodup
  refine List.nodup_append'.2
    ⟨(nodup_filterMap_find? (commonList_merge set extra).1.nodup).filter _,
      (nodup_filterMap_find? hown).filter _, fun m hcommon hm => ?_⟩
  obtain ⟨⟨-, hshared⟩, -⟩ := mem_partsFor.1 hcommon
  obtain ⟨⟨-, hpath⟩, -⟩ := mem_partsFor.1 hm
  exact ((mem_modules_iff hb).1 hpath).2 (mem_shared_iff.1 hshared)

/-- A module that a root reaches is loaded for it if it joins the file that it belongs to. -/
theorem mem_loaded_iff {commonBundle : String} (hb : (root, b) ∈ (set.merge extra).bundles)
    (hm : m ∈ set.modules) (hreach : set.Reaches root m.path) :
    m ∈ set.partsFor commonBundle (set.merge extra).shared ++
      set.partsFor root.withoutScheme b.modules ↔
      m.Joins (if m.path ∈ (set.merge extra).shared then commonBundle
        else root.withoutScheme) := by
  rw [List.mem_append, mem_partsFor, mem_partsFor]
  by_cases hshared : m.path ∈ (set.merge extra).shared
  · have hout : m.path ∉ b.modules := fun hmem =>
      ((mem_modules_iff hb).1 hmem).2 (mem_shared_iff.1 hshared)
    simp [hm, hshared, hout]
  · have hown : m.path ∈ b.modules :=
      (mem_modules_iff hb).2 ⟨hreach, mt mem_shared_iff.2 hshared⟩
    simp [hm, hshared, hown]

/-- A module is loaded behind what it requires, unless they lie on a cycle. -/
theorem loaded_in_order {commonBundle : String} (hb : (root, b) ∈ (set.merge extra).bundles)
    (hu : u ∈ set.partsFor commonBundle (set.merge extra).shared ++
      set.partsFor root.withoutScheme b.modules)
    (hv : v ∈ set.partsFor commonBundle (set.merge extra).shared ++
      set.partsFor root.withoutScheme b.modules)
    (hrequires : v.path ∈ u.requires) :
    [v, u].Sublist (set.partsFor commonBundle (set.merge extra).shared ++
      set.partsFor root.withoutScheme b.modules) ∨ set.Reaches v.path u.path := by
  have hcommon := (commonList_merge set extra).1
  have hlist : b.modules ∈ (set.merge extra).lists :=
    List.mem_map.2 ⟨b, List.mem_append_right _ (List.mem_map.2 ⟨_, hb, rfl⟩), rfl⟩
  rcases List.mem_append.1 hu with hu | hu
  · -- What a shared module requires is shared.
    obtain ⟨⟨humem, hupath⟩, -⟩ := mem_partsFor.1 hu
    have hvmem : v ∈ set.modules := by
      rcases List.mem_append.1 hv with hv | hv
      · exact (mem_partsFor.1 hv).1.1
      · exact (mem_partsFor.1 hv).1.1
    have hedge : set.Requires u.path v.path :=
      requires_of_mem humem hrequires (List.mem_map.2 ⟨v, hvmem, rfl⟩)
    have hvpath := hcommon.closed _ hupath _ hedge
    rcases List.mem_append.1 hv with hv | hv
    · exact (hcommon.ordered.parts hu hv hrequires).imp_left
        (·.trans (List.sublist_append_left _ _))
    · obtain ⟨⟨-, hown⟩, -⟩ := mem_partsFor.1 hv
      exact absurd (mem_shared_iff.1 hvpath) ((mem_modules_iff hb).1 hown).2
  · rcases List.mem_append.1 hv with hv | hv
    · exact .inl ((List.singleton_sublist.2 hv).append (List.singleton_sublist.2 hu))
    · exact ((ordered_of_mem_lists hlist).2.parts hu hv hrequires).imp_left
        (·.trans (List.sublist_append_right _ _))

/-- **A build in bundles is complete for loading.**  Where every write succeeds, the files of
the build are written one after the other; each module that is passed through untouched has one
of them, at its own path; and for each root the common bundle, followed by the bundle of the
root, holds each module that the root reaches exactly once as a part, except a stylesheet whose
plain form has the path of that bundle, and behind every module that it requires, except on a
cycle. -/
theorem bundles_complete_for_loading (set : ModuleSet) (extra : List QueryPath)
    (commonBundle : String) {d : Destination} {t t' : FileTree}
    (hwritten : d.writeGroups t (set.outputs (set.merge extra) .bundles commonBundle) =
      (t', [])) :
    let merged := set.merge extra
    let files := set.bundledWrites merged commonBundle
    d.Wrote t (files.map BundledWrite.output) t' ∧
      (files.filterMap BundledWrite.verbatim?).Perm (set.modules.filter (·.kind = .verbatim)) ∧
      ∀ root b, (root, b) ∈ merged.bundles →
        let loaded := files.flatMap (BundledWrite.loaded root)
        (∀ m ∈ set.modules, set.Reaches root m.path → loaded.count m =
          if m.Joins (if m.path ∈ merged.shared then commonBundle else root.withoutScheme)
          then 1 else 0) ∧
        ∀ u ∈ loaded, ∀ v ∈ loaded, v.path ∈ u.requires →
          [v, u].Sublist loaded ∨ set.Reaches v.path u.path := by
  intro merged files
  refine ⟨?_, perm_verbatim set extra commonBundle, fun root b hb => ?_⟩
  · have hwrote := Destination.wrote_of_writeGroups (congrArg Prod.snd hwritten)
    rw [hwritten] at hwrote
    have hflat : (set.outputs merged .bundles commonBundle).flatten =
        files.map BundledWrite.output := by
      have hgroups : set.outputs merged .bundles commonBundle = files.map fun w => [w.output] :=
        bundledOutputs_eq set merged commonBundle
      rw [hgroups, ← List.flatMap_def]
      exact List.map_eq_flatMap.symm
    rwa [hflat] at hwrote
  · intro loaded
    have hloaded : loaded =
        set.partsFor commonBundle merged.shared ++ set.partsFor root.withoutScheme b.modules :=
          loaded_eq hb
    rw [hloaded]
    refine ⟨fun m hm hreach => ?_, fun u hu v hv hrequires =>
      loaded_in_order hb hu hv hrequires⟩
    rw [(nodup_loaded hb).count, if_congr (mem_loaded_iff hb hm hreach) rfl rfl]

/-! ## Two pages -/

/-- A picture, which is passed through untouched. -/
def logo : Module := { Module.empty ⟨"/logo.png"⟩ .verbatim with code := "logo" }

/-- Two pages above a library, one of them with a picture. -/
def pages : ModuleSet where
  modules :=
    [named "/a.js" ["/lib.js", "/logo.png"], named "/b.js" ["/lib.js"], named "/lib.js" [],
      logo]
  nodup := by decide

theorem roots_pages : (pages.fullMarks []).roots = [⟨"/a.js"⟩, ⟨"/b.js"⟩] := by cbv

theorem marks_pages :
    ["/a.js", "/b.js", "/lib.js", "/logo.png"].map (fun p => ((pages.fullMarks []).isShared ⟨p⟩,
      (pages.fullMarks []).isOwn 0 ⟨p⟩, (pages.fullMarks []).isOwn 1 ⟨p⟩)) =
      [(false, true, false), (false, false, true), (true, false, false),
        (false, true, false)] := by
  cbv

theorem merge_pages : pages.merge [] =
    ⟨[(⟨"/a.js"⟩, ⟨[⟨"/logo.png"⟩, ⟨"/a.js"⟩], true⟩), (⟨"/b.js"⟩, ⟨[⟨"/b.js"⟩], true⟩)],
      some ⟨[⟨"/lib.js"⟩], false⟩⟩ := by
  have hroots := roots_pages
  have hmarks := marks_pages
  rw [merge_eq]
  -- The walks need the marks of these four modules only, and not how the marks came about.
  generalize pages.fullMarks [] = marks at *
  simp only [List.map_cons, List.map_nil, List.cons.injEq, Prod.mk.injEq] at hmarks
  simp [hroots, hmarks, ownBundle, sharedFrontier, sharedAsked, walkAsked, walkOrder,
    dependencyFirst, recordAsked, walkFrom, requiresOf, find?_eq, pages, named, logo, paths,
      Module.empty, commonModules, noteNew]

/-- An empty destination for the pages. -/
def pagesOutput : Destination := ⟨⟨"/out"⟩, none, "/common.js"⟩

theorem pages_written : (pagesOutput.writeGroups ⟨[], []⟩
    (pages.outputs (pages.merge []) .bundles "/common.js")).2 = [] := by
  rw [merge_pages]
  decide +kernel

/-- The page with the picture loads the library once, before itself, and the picture has its own
file. -/
theorem pages_complete_for_loading :
    let files := pages.bundledWrites (pages.merge []) "/common.js"
    let loaded := files.flatMap (BundledWrite.loaded ⟨"/a.js"⟩)
    (files.filterMap BundledWrite.verbatim?).Perm [logo] ∧
      loaded.count (named "/lib.js" []) = 1 ∧
      [named "/lib.js" [], named "/a.js" ["/lib.js", "/logo.png"]].Sublist loaded := by
  intro files loaded
  obtain ⟨-, hverbatim, hloaded⟩ := bundles_complete_for_loading pages [] "/common.js"
    (Prod.ext rfl pages_written)
  have hroot : (⟨"/a.js"⟩, ⟨[⟨"/logo.png"⟩, ⟨"/a.js"⟩], true⟩) ∈ (pages.merge []).bundles := by
    rw [merge_pages]
    exact List.mem_cons_self
  have hedge : pages.Requires ⟨"/a.js"⟩ ⟨"/lib.js"⟩ := by unfold Requires; decide
  obtain ⟨hcount, horder⟩ := hloaded _ _ hroot
  have hlib := hcount (named "/lib.js" []) (by decide) (.single hedge)
  have hpage := hcount (named "/a.js" ["/lib.js", "/logo.png"]) (by decide) .refl
  rw [if_pos (by split <;> decide)] at hlib hpage
  have hmem : ∀ m, loaded.count m = 1 → m ∈ loaded :=
    fun m h => List.count_pos_iff.1 (h ▸ Nat.one_pos)
  refine ⟨hverbatim, hlib, ?_⟩
  rcases horder _ (hmem _ hpage) _ (hmem _ hlib) (by decide) with hbefore | hback
  · exact hbefore
  · exact absurd (hback.mem_of_closed [⟨"/lib.js"⟩] (by decide) (by decide)) (by decide)

end ModuleSet

end WebBundler
