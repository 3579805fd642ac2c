import WebBundler.Proofs.Merge.Loading
import Mathlib.Data.Finset.Max
set_option autoImplicit false

/-!
# Which modules become roots

The roots of a merge come in three parts: the modules that nothing requires (`entries`), those
that are asked for (`askedFor`), and, going through the set in order, each module that no root
listed so far reaches (`promoted`).  Each has one bundle (`merge_lists_roots_in_order`).

A module of the third part is needed because a closed cycle, one that is not entered from
outside, leads to it.  It need not lie on that cycle: it may hang below it and have been found
first.  Then later roots reach it, and the last of them lies on the cycle
(`IsAdded.exists_entersCycle`).
-/

namespace WebBundler.ModuleSet

variable {set : ModuleSet} {extra listed todo : List QueryPath} {marks : RootMarks}
  {p root other : QueryPath}

/-! ## The roots at the start -/

/-- A module of the set requires the path, as a local one. -/
def NamedLocally (set : ModuleSet) (p : QueryPath) : Prop :=
  ∃ m ∈ set.modules, ∃ r ∈ m.requires, r.isRemote = false ∧ r = p

instance (set : ModuleSet) (p : QueryPath) : Decidable (set.NamedLocally p) :=
  inferInstanceAs (Decidable (∃ m ∈ set.modules, ∃ r ∈ m.requires, r.isRemote = false ∧ r = p))

/-- The modules that nothing requires, in order. -/
def entries (set : ModuleSet) : List QueryPath := set.paths.filter fun p => ¬ set.NamedLocally p

/-- The further modules of the set that are asked for, in the order of asking and each once. -/
def askedFor (set : ModuleSet) (extra : List QueryPath) : List QueryPath :=
  (extra.filter fun p => p ∈ set.paths ∧ p ∉ set.entries).eraseDups

theorem requiredBy_isEmpty_iff (hp : p ∈ set.paths) :
    (set.requiredBy p).isEmpty = true ↔ ¬ set.NamedLocally p := by
  rw [requiredBy_eq hp]
  unfold NamedLocally
  simp only [List.isEmpty_iff, List.map_eq_nil_iff, List.filter_eq_nil_iff, List.any_eq_true,
    Bool.and_eq_true, Bool.not_eq_true', decide_eq_true_eq, not_exists, not_and]

/-- Listing paths that are asked for keeps the first of each, of those in the set. -/
theorem foldl_ask (set : ModuleSet) (listed extra : List QueryPath) :
    extra.foldl (fun acc p => if set.contains p && !acc.contains p then acc ++ [p] else acc)
      listed =
      listed ++ (extra.filter fun p => p ∈ set.paths ∧ p ∉ listed).eraseDups := by
  have hnote : (fun (acc : List QueryPath) (p : QueryPath) =>
      if set.contains p && !acc.contains p then acc ++ [p] else acc) =
        fun acc p => if set.contains p then noteNew acc p else acc := by
    funext acc p
    unfold noteNew
    cases set.contains p <;> cases acc.contains p <;> rfl
  have hasked : ((extra.filter set.contains).filter fun p => p ∉ listed) =
      extra.filter fun p => p ∈ set.paths ∧ p ∉ listed := by
    rw [List.filter_filter]
    apply List.filter_congr
    intro p _
    rw [Bool.eq_iff_iff]
    simp [contains_iff, and_comm]
  rw [hnote, ← List.foldl_filter, foldl_noteNew, hasked]

theorem roots_eq (set : ModuleSet) (extra : List QueryPath) :
    set.roots extra = set.entries ++ set.askedFor extra := by
  have hentries : (set.paths.filter fun p => (set.requiredBy p).isEmpty) = set.entries := by
    apply List.filter_congr
    intro p hp
    rw [Bool.eq_iff_iff, requiredBy_isEmpty_iff hp, decide_eq_true_iff]
  rw [roots_eq_foldl, hentries]
  exact foldl_ask set set.entries extra

/-! ## The roots that are added -/

open Classical in
/-- Going through modules in order, those that none of the roots listed so far reaches, each of
which is listed in its turn. -/
noncomputable def promoted (set : ModuleSet) (listed : List QueryPath) :
    List QueryPath → List QueryPath
  | [] => []
  | p :: rest =>
    if ∃ root ∈ listed, set.Reaches root p then promoted set listed rest
    else p :: promoted set (listed ++ [p]) rest

/-- Exact marks promote the modules that no root reaches. -/
theorem roots_promote (h : marks.Exact set) (paths : List QueryPath) :
    (set.promote marks paths).roots = marks.roots ++ set.promoted marks.roots paths := by
  induction paths generalizing marks with
  | nil => exact (List.append_nil _).symm
  | cons p paths ih =>
    unfold promote at ih ⊢
    rw [List.foldl_cons, promoted]
    by_cases hcount : marks.reachCount p = 0
    · have hnone : ¬ ∃ root ∈ marks.roots, set.Reaches root p := by
        rintro ⟨root, hroot, hreach⟩
        exact h.reachCount_eq_zero_iff.1 hcount root hroot hreach
      rw [if_pos hcount, if_neg hnone, ih (h.markFrom p), RootMarks.roots_markFrom,
        List.append_assoc]
      rfl
    · have hsome : ∃ root ∈ marks.roots, set.Reaches root p := by
        rw [h.reachCount_eq_zero_iff] at hcount
        push Not at hcount
        exact hcount
      rw [if_neg hcount, if_pos hsome, ih h]

/-- The roots of a merge are those that it starts from and those that are promoted. -/
theorem roots_merge_eq (set : ModuleSet) (extra : List QueryPath) :
    (set.merge extra).roots = set.roots extra ++ set.promoted (set.roots extra) set.paths := by
  have hroots := roots_promote (RootMarks.exact_ofRoots set (set.roots extra)) set.paths
  rw [RootMarks.roots_ofRoots] at hroots
  rw [roots_merge]
  exact hroots

/-- **The roots of a merge, in order.**  They are the modules that nothing requires; then the
modules that are asked for; then, going through the set in order, each module that none of the
roots listed so far reaches.  No root is listed twice, and each has exactly one bundle, which is
the one found under it. -/
theorem merge_lists_roots_in_order (set : ModuleSet) (extra : List QueryPath) :
    let merged := set.merge extra
    let start := set.entries ++ set.askedFor extra
    merged.roots = start ++ set.promoted start set.paths ∧
      merged.roots.Nodup ∧
      ∀ root ∈ merged.roots, ∃ b, merged.bundle? root = some b ∧
        ∀ c, (root, c) ∈ merged.bundles ↔ c = b := by
  intro merged start
  refine ⟨?_, nodup_roots_merge set extra, ?_⟩
  · have hroots := roots_merge_eq set extra
    rw [roots_eq] at hroots
    exact hroots
  · intro root hroot
    obtain ⟨b, hfound, hb⟩ := Merged.bundle?_eq_some hroot
    refine ⟨b, hfound, fun c => ⟨fun hc => ?_, fun hc => hc ▸ hb⟩⟩
    have hsame : ((root, c) : QueryPath × Bundle) = (root, b) :=
      List.inj_on_of_nodup_map (nodup_roots_merge set extra) hc hb rfl
    exact congrArg Prod.snd hsame

/-- Of the tangle's modules nothing requires two; a third one is asked for twice, beside a
module that is absent and one that is listed already; and a cycle is left for the last root. -/
theorem merge_lists_roots_of_tangle :
    let asked : List QueryPath := [⟨"/b"⟩, ⟨"/absent"⟩, ⟨"/c"⟩, ⟨"/b"⟩]
    (tangle.merge asked).roots = [⟨"/a"⟩, ⟨"/c"⟩, ⟨"/b"⟩, ⟨"/d"⟩] ∧
      tangle.entries ++ tangle.askedFor asked = [⟨"/a"⟩, ⟨"/c"⟩, ⟨"/b"⟩] ∧
      tangle.promoted [⟨"/a"⟩, ⟨"/c"⟩, ⟨"/b"⟩] tangle.paths = [⟨"/d"⟩] ∧
      ∃ b, (tangle.merge asked).bundle? ⟨"/d"⟩ = some b ∧
        ∀ c, (⟨"/d"⟩, c) ∈ (tangle.merge asked).bundles ↔ c = b := by
  intro asked
  obtain ⟨horder, -, hbundle⟩ := merge_lists_roots_in_order tangle asked
  have hroots : (tangle.merge asked).roots = [⟨"/a"⟩, ⟨"/c"⟩, ⟨"/b"⟩, ⟨"/d"⟩] := by
    rw [roots_merge]
    cbv
  have hstart : tangle.entries ++ tangle.askedFor asked = [⟨"/a"⟩, ⟨"/c"⟩, ⟨"/b"⟩] := by
    decide
  rw [hstart, hroots] at horder
  refine ⟨hroots, hstart, ?_, hbundle _ (by rw [hroots]; decide)⟩
  simpa using horder.symm

/-! ## Closed cycles -/

/-- When a module is promoted, no root listed by then reaches it, but each module before it is
reached by one. -/
theorem exists_promotion (h : p ∈ set.promoted listed todo) :
    ∃ before after front back, todo = before ++ p :: after ∧
      set.promoted listed todo = front ++ p :: back ∧
      (∀ root ∈ listed ++ front, ¬ set.Reaches root p) ∧
      ∀ q ∈ before, ∃ root ∈ listed ++ front, set.Reaches root q := by
  induction todo generalizing listed with
  | nil => cases h
  | cons r todo ih =>
    rw [promoted] at h ⊢
    split at h
    · next hreached =>
      obtain ⟨before, after, front, back, rfl, hsplit, hfree, hbefore⟩ := ih h
      rw [if_pos hreached]
      refine ⟨r :: before, after, front, back, rfl, hsplit, hfree, ?_⟩
      intro q hq
      rcases List.mem_cons.1 hq with rfl | hq
      · obtain ⟨root, hroot, hreach⟩ := hreached
        exact ⟨root, List.mem_append_left _ hroot, hreach⟩
      · exact hbefore q hq
    · next hnone =>
      rw [if_neg hnone]
      rcases List.mem_cons.1 h with rfl | h
      · refine ⟨[], todo, [], _, rfl, rfl, ?_, by simp⟩
        rw [List.append_nil]
        intro root hroot hreach
        exact hnone ⟨root, hroot, hreach⟩
      · obtain ⟨before, after, front, back, rfl, hsplit, hfree, hbefore⟩ := ih h
        rw [List.append_assoc] at hfree hbefore
        refine ⟨r :: before, after, r :: front, back, rfl, by rw [hsplit]; rfl, hfree, ?_⟩
        intro q hq
        rcases List.mem_cons.1 hq with rfl | hq
        · exact ⟨q, List.mem_append_right _ List.mem_cons_self, .refl⟩
        · exact hbefore q hq

/-- A root that a merge does not start from. -/
structure IsAdded (set : ModuleSet) (extra : List QueryPath) (root : QueryPath) : Prop where
  mem : root ∈ (set.merge extra).roots
  new : root ∉ set.roots extra

/-- The module lies on a cycle that leads back to whatever leads into it, and no other root
leads into it. -/
structure EntersCycle (set : ModuleSet) (roots : List QueryPath) (p : QueryPath) : Prop where
  cycle : Relation.TransGen set.Requires p p
  closed : ∀ q, set.Reaches q p → set.Reaches p q
  alone : ∀ other ∈ roots, set.Reaches other p → other = p

theorem mem_of_idxOf_lt {front back : List QueryPath} (hroot : root ∉ front)
    (h : (front ++ root :: back).idxOf p < (front ++ root :: back).idxOf root) : p ∈ front := by
  rw [List.idxOf_append_of_notMem hroot, List.idxOf_cons_self, Nat.add_zero] at h
  by_contra hp
  rw [List.idxOf_append_of_notMem hp] at h
  omega

namespace IsAdded

/-- An added root is reached neither by a root that the merge starts from nor by one listed
before it, and what stands before it in the set is reached by such roots. -/
theorem unreached (h : set.IsAdded extra root) :
    (∀ other ∈ set.roots extra, ¬ set.Reaches other root) ∧
      (∀ other, (set.merge extra).roots.idxOf other < (set.merge extra).roots.idxOf root →
        ¬ set.Reaches other root) ∧
      ∀ p, set.paths.idxOf p < set.paths.idxOf root → ¬ set.Reaches p root := by
  have hmem := h.mem
  rw [roots_merge_eq] at hmem
  obtain ⟨before, after, front, back, hpaths, hsplit, hfree, hbefore⟩ :=
    exists_promotion ((List.mem_append.1 hmem).resolve_left h.new)
  have hroots : (set.merge extra).roots = (set.roots extra ++ front) ++ root :: back := by
    rw [roots_merge_eq, hsplit, List.append_assoc]
  have hnew : root ∉ set.roots extra ++ front := fun hroot => hfree root hroot .refl
  have hfirst : root ∉ before := by
    intro hroot
    obtain ⟨other, hother, hreach⟩ := hbefore root hroot
    exact hfree other hother hreach
  refine ⟨fun other hother => hfree other (List.mem_append_left _ hother), ?_, ?_⟩
  · intro other hlt
    rw [hroots] at hlt
    exact hfree other (mem_of_idxOf_lt hnew hlt)
  · intro p hlt hreach
    rw [hpaths] at hlt
    obtain ⟨other, hother, hleads⟩ := hbefore p (mem_of_idxOf_lt hfirst hlt)
    exact hfree other hother (hleads.trans hreach)

/-- An added root that no other root reaches lies on a closed cycle: a root reaches whatever
leads to it, and something requires it. -/
theorem entersCycle (h : set.IsAdded extra root)
    (halone : ∀ other ∈ (set.merge extra).roots, set.Reaches other root → other = root) :
    set.EntersCycle (set.merge extra).roots root := by
  have hclosed : ∀ q, set.Reaches q root → set.Reaches root q := by
    intro q hreach
    by_cases hq : q ∈ set.paths
    · obtain ⟨other, hother, hleads⟩ := exists_root_merge extra hq
      rw [← halone other hother (hleads.trans hreach)]
      exact hleads
    · -- A module that is absent reaches nothing but itself.
      rcases Relation.ReflTransGen.cases_head hreach with rfl | ⟨_, hedge, -⟩
      · exact .refl
      · exact absurd hedge.source_mem_paths hq
  have hpaths := mem_paths_of_mem_roots h.mem
  have hnamed : set.NamedLocally root := by
    by_contra hnot
    apply h.new
    rw [roots_eq]
    exact List.mem_append_left _ (List.mem_filter.2 ⟨hpaths, by simpa using hnot⟩)
  obtain ⟨m, hm, r, hr, -, rfl⟩ := hnamed
  have hedge : set.Requires m.path r := requires_of_mem hm hr hpaths
  exact ⟨.tail' (hclosed m.path (.single hedge)) hedge, hclosed, halone⟩

/-- The last root that reaches an added root was added too, and lies on a closed cycle. -/
theorem exists_entersCycle (h : set.IsAdded extra root) :
    ∃ entry, set.IsAdded extra entry ∧ set.Reaches entry root ∧
      (set.merge extra).roots.idxOf root ≤ (set.merge extra).roots.idxOf entry ∧
      set.EntersCycle (set.merge extra).roots entry := by
  classical
  obtain ⟨entry, hentry, hlast⟩ := Finset.exists_max_image
    ((set.merge extra).roots.toFinset.filter (set.Reaches · root)) (set.merge extra).roots.idxOf
    ⟨root, by simpa using ⟨h.mem, .refl⟩⟩
  simp only [Finset.mem_filter, List.mem_toFinset, and_imp] at hentry hlast
  obtain ⟨hmem, hreach⟩ := hentry
  have hadded : set.IsAdded extra entry :=
    ⟨hmem, fun hstart => h.unreached.1 entry hstart hreach⟩
  refine ⟨entry, hadded, hreach, hlast root h.mem .refl, hadded.entersCycle ?_⟩
  intro other hother hleads
  have hle := hlast other hother (hleads.trans hreach)
  have hge := Nat.le_of_not_lt fun hlt => hadded.unreached.2.1 other hlt hleads
  exact (List.idxOf_inj hother).1 (Nat.le_antisymm hle hge)

/-- No other root reaches an added root that leads back to whatever leads to it. -/
theorem alone_of_closed (h : set.IsAdded extra root)
    (hclosed : ∀ q, set.Reaches q root → set.Reaches root q) :
    ∀ other ∈ (set.merge extra).roots, set.Reaches other root → other = root := by
  intro other hother hreach
  have hadded : set.IsAdded extra other :=
    ⟨hother, fun hstart => h.unreached.1 other hstart hreach⟩
  -- Each of the two reaches the other, so neither is listed before the other.
  have hge := Nat.le_of_not_lt fun hlt => h.unreached.2.1 other hlt hreach
  have hle := Nat.le_of_not_lt fun hlt => hadded.unreached.2.1 root hlt (hclosed other hreach)
  exact (List.idxOf_inj hother).1 (Nat.le_antisymm hle hge)

end IsAdded

/-- **Added roots lie on closed cycles or hang below them.**  A root that a merge does not start
from stands in the set before all else that reaches it.  It is reached, possibly by being it,
from an added root that is not listed before it and lies on a closed cycle.  It lies on such a
cycle itself exactly if it reaches whatever reaches it, and exactly if no other root reaches
it. -/
theorem added_roots_need_closed_cycles (set : ModuleSet) (extra : List QueryPath)
    (root : QueryPath) (hroot : root ∈ (set.merge extra).roots)
    (hnew : root ∉ set.roots extra) :
    let roots := (set.merge extra).roots
    (∀ p, set.Reaches p root → set.paths.idxOf root ≤ set.paths.idxOf p) ∧
      (∃ entry ∈ roots, entry ∉ set.roots extra ∧ set.Reaches entry root ∧
        roots.idxOf root ≤ roots.idxOf entry ∧ set.EntersCycle roots entry) ∧
      (set.EntersCycle roots root ↔ ∀ p, set.Reaches p root → set.Reaches root p) ∧
      (set.EntersCycle roots root ↔ ∀ other ∈ roots, set.Reaches other root →
        other = root) := by
  intro roots
  have h : set.IsAdded extra root := ⟨hroot, hnew⟩
  obtain ⟨entry, hadded, hreach, hlisted, hcycle⟩ := h.exists_entersCycle
  refine ⟨?_, ⟨entry, hadded.mem, hadded.new, hreach, hlisted, hcycle⟩, ?_, ?_⟩
  · intro p hreach
    exact Nat.le_of_not_lt fun hlt => h.unreached.2.2 p hlt hreach
  · exact ⟨fun hcycle => hcycle.closed, fun hclosed =>
      h.entersCycle (h.alone_of_closed hclosed)⟩
  · exact ⟨fun hcycle => hcycle.alone, h.entersCycle⟩

/-- A cycle that nothing enters, and a module that hangs below it and was found first. -/
def pendant : ModuleSet where
  modules := [named "/tail" [], named "/a" ["/b", "/tail"], named "/b" ["/a"]]
  nodup := by decide

theorem roots_pendant :
    (pendant.merge []).roots = [⟨"/tail"⟩, ⟨"/a"⟩] ∧ pendant.roots [] = [] := by
  refine ⟨?_, by decide⟩
  rw [roots_merge]
  cbv

theorem pendant_edge : pendant.Requires ⟨"/a"⟩ ⟨"/tail"⟩ := by
  unfold Requires; decide

/-- The module that hangs below the cycle reaches only itself. -/
theorem reaches_of_tail (h : pendant.Reaches ⟨"/tail"⟩ p) : p = ⟨"/tail"⟩ := by
  simpa using h.mem_of_closed [⟨"/tail"⟩] (by decide) (by decide)

theorem pendant_cycle_entered :
    ⟨"/tail"⟩ ∈ (pendant.merge []).roots ∧ ⟨"/tail"⟩ ∉ pendant.roots [] ∧
      pendant.EntersCycle (pendant.merge []).roots ⟨"/a"⟩ := by
  obtain ⟨hroots, hstart⟩ := roots_pendant
  have hroot : ⟨"/tail"⟩ ∈ (pendant.merge []).roots := by rw [hroots]; decide
  have hnew : ⟨"/tail"⟩ ∉ pendant.roots [] := by rw [hstart]; exact List.not_mem_nil
  obtain ⟨-, ⟨entry, hentry, -, -, -, hcycle⟩, -, -⟩ :=
    added_roots_need_closed_cycles pendant [] ⟨"/tail"⟩ hroot hnew
  refine ⟨hroot, hnew, ?_⟩
  rw [hroots] at hentry
  simp only [List.mem_cons, List.not_mem_nil, or_false] at hentry
  rcases hentry with rfl | rfl
  · exact absurd (reaches_of_tail (hcycle.closed ⟨"/a"⟩ (.single pendant_edge))) (by decide)
  · exact hcycle

/-- The module below the cycle becomes a root although it does not reach itself, what leads to
it is not reached by it, and another root reaches it. -/
theorem pendant_module_promoted :
    ⟨"/tail"⟩ ∈ (pendant.merge []).roots ∧ ⟨"/tail"⟩ ∉ pendant.roots [] ∧
      ¬ Relation.TransGen pendant.Requires ⟨"/tail"⟩ ⟨"/tail"⟩ ∧
      (pendant.Reaches ⟨"/b"⟩ ⟨"/tail"⟩ ∧ ¬ pendant.Reaches ⟨"/tail"⟩ ⟨"/b"⟩) ∧
      ⟨"/a"⟩ ∈ (pendant.merge []).roots ∧ pendant.Reaches ⟨"/a"⟩ ⟨"/tail"⟩ := by
  obtain ⟨hroots, hstart⟩ := roots_pendant
  have hback : pendant.Requires ⟨"/b"⟩ ⟨"/a"⟩ := by unfold Requires; decide
  refine ⟨by rw [hroots]; decide, by rw [hstart]; exact List.not_mem_nil, ?_,
    ⟨.head hback (.single pendant_edge), ?_⟩, by rw [hroots]; decide, .single pendant_edge⟩
  · intro hcycle
    obtain ⟨q, hedge, -⟩ := Relation.TransGen.head'_iff.1 hcycle
    have hnone : pendant.dependencies ⟨"/tail"⟩ = [] := by decide
    unfold Requires at hedge
    rw [hnone] at hedge
    exact List.not_mem_nil hedge
  · intro hreach
    exact absurd (reaches_of_tail hreach) (by decide)

end WebBundler.ModuleSet
