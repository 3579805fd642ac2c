import WebBundler.Merge.Bundles
import WebBundler.Proofs.Graph.Requirers
import WebBundler.Proofs.Merge.Marks
set_option autoImplicit false

/-!
# The roots of a merge reach every module

The roots that a merge starts from are different modules of the set, and it adds a further one
for as long as some module is reached by none.  So its final marks are exact, belong to
different roots of the set (`Rooted`), and leave no module without a root
(`exists_root_reaches`).
-/

namespace WebBundler.ModuleSet

variable {set : ModuleSet} {extra : List QueryPath} {marks : RootMarks} {p : QueryPath}

/-! ## The roots at the start -/

theorem roots_nodup_and_subset (set : ModuleSet) (extra : List QueryPath) :
    (set.roots extra).Nodup ∧ set.roots extra ⊆ set.paths := by
  rw [roots_eq_foldl]
  generalize hentries : set.paths.filter _ = entries
  have h : entries.Nodup ∧ entries ⊆ set.paths := by
    subst hentries
    exact ⟨set.nodup.filter _, List.filter_subset_self _⟩
  clear hentries
  induction extra generalizing entries with
  | nil => exact h
  | cons p extra ih =>
    simp only [List.foldl_cons]
    split
    · next hnew =>
      simp only [Bool.and_eq_true, contains_iff, Bool.not_eq_true', List.contains_eq_mem,
        decide_eq_false_iff_not] at hnew
      apply ih
      refine ⟨?_, List.append_subset.2 ⟨h.2, by simpa using hnew.1⟩⟩
      rw [← List.concat_eq_append, List.nodup_concat]
      exact ⟨hnew.2, h.1⟩
    · exact ih entries h

/-! ## The final marks -/

/-- The marks are those of different modules of the set, and are exact. -/
structure Rooted (set : ModuleSet) (marks : RootMarks) : Prop where
  exact : marks.Exact set
  nodup : marks.roots.Nodup
  mem_paths : ∀ root ∈ marks.roots, root ∈ set.paths

theorem rooted_ofRoots (set : ModuleSet) (extra : List QueryPath) :
    Rooted set (RootMarks.ofRoots set (set.roots extra)) where
  exact := RootMarks.exact_ofRoots set _
  nodup := by
    rw [RootMarks.roots_ofRoots]
    exact (roots_nodup_and_subset set extra).1
  mem_paths root hroot := by
    rw [RootMarks.roots_ofRoots] at hroot
    exact (roots_nodup_and_subset set extra).2 hroot

theorem Rooted.markFrom (h : Rooted set marks) (hp : p ∈ set.paths)
    (hcount : marks.reachCount p = 0) :
    Rooted set (marks.markFrom set p) where
  exact := h.exact.markFrom p
  nodup := by
    rw [RootMarks.roots_markFrom, ← List.concat_eq_append, List.nodup_concat]
    refine ⟨?_, h.nodup⟩
    intro hroot
    exact h.exact.reachCount_eq_zero_iff.1 hcount p hroot .refl
  mem_paths root hroot := by
    rw [RootMarks.roots_markFrom] at hroot
    rcases List.mem_append.1 hroot with hroot | hroot
    · exact h.mem_paths root hroot
    · rw [List.mem_singleton.1 hroot]
      exact hp

/-- Promoting the modules of a list that no root reaches keeps the marks rooted, loses no root
and leaves no module of the list without one. -/
theorem Rooted.promote (h : Rooted set marks) {modules : List QueryPath}
    (hmem : modules ⊆ set.paths) :
    let final := modules.foldl
      (fun marks p => if marks.reachCount p = 0 then marks.markFrom set p else marks) marks
    Rooted set final ∧ marks.roots ⊆ final.roots ∧
      ∀ p ∈ modules, ∃ root ∈ final.roots, set.Reaches root p := by
  induction modules generalizing marks with
  | nil => exact ⟨h, List.Subset.refl _, by simp⟩
  | cons p modules ih =>
    have hp : p ∈ set.paths := hmem List.mem_cons_self
    -- After one step the marks are rooted still, and some root reaches the first module.
    have hstep : ∀ next, next =
        (if marks.reachCount p = 0 then marks.markFrom set p else marks) →
        Rooted set next ∧ marks.roots ⊆ next.roots ∧
        ∃ root ∈ next.roots, set.Reaches root p := by
      rintro next rfl
      split
      · next hcount =>
        rw [RootMarks.roots_markFrom]
        exact ⟨h.markFrom hp hcount, List.subset_append_left _ _, p, by simp, .refl⟩
      · next hcount =>
        rw [h.exact.reachCount_eq_zero_iff] at hcount
        push Not at hcount
        exact ⟨h, List.Subset.refl _, hcount⟩
    obtain ⟨hrooted, hsub, root, hroot, hreach⟩ := hstep _ rfl
    have hrest : modules ⊆ set.paths := (List.cons_subset.1 hmem).2
    obtain ⟨hfinal, hsub', hall⟩ := ih hrooted hrest
    refine ⟨hfinal, List.Subset.trans hsub hsub', ?_⟩
    intro q hq
    rcases List.mem_cons.1 hq with rfl | hq
    · exact ⟨root, hsub' hroot, hreach⟩
    · exact hall q hq

theorem rooted_fullMarks (set : ModuleSet) (extra : List QueryPath) :
    Rooted set (set.fullMarks extra) :=
  ((rooted_ofRoots set extra).promote (List.Subset.refl _)).1

theorem exists_root_reaches (extra : List QueryPath) (hp : p ∈ set.paths) :
    ∃ root ∈ (set.fullMarks extra).roots, set.Reaches root p :=
  ((rooted_ofRoots set extra).promote (List.Subset.refl _)).2.2 p hp

end WebBundler.ModuleSet
