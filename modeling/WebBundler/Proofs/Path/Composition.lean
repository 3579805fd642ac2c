import WebBundler.Proofs.Path.Containment
set_option autoImplicit false

/-!
# Canonical forms of joined paths

The canonical form of a text is where the steps of its segments lead from the root
(`normalize_eq_pathOf`).  So it makes no difference whether a text is made canonical before
another one is joined to it (`normalize_join`).
-/

namespace WebBundler.QueryPath

open HostPath (Component descend)

/-- The steps that the segments of a text stand for. -/
def stepsOf (raw : String) : List Component :=
  (slashedSegments raw).filterMap Component.ofSegment?

theorem isMove_of_mem_stepsOf {raw : String} : ∀ step ∈ stepsOf raw, IsMove step := by
  intro step hstep
  obtain ⟨seg, hseg, hstep⟩ := List.mem_filterMap.1 hstep
  exact HostPath.isMove_of_mem_segments hseg hstep

theorem slashedSegments_join (a b : String) :
    slashedSegments (a ++ "/" ++ b) = slashedSegments a ++ slashedSegments b := by
  unfold slashedSegments
  rw [Text.replaceChar_append, Text.replaceChar_append]
  exact HostPath.segments_append_cons _ _

theorem stepsOf_join (a b : String) : stepsOf (a ++ "/" ++ b) = stepsOf a ++ stepsOf b := by
  unfold stepsOf
  rw [slashedSegments_join, List.filterMap_append]

theorem stepsOf_pathOf {names : List String} (h : ∀ name ∈ names, IsStep name) :
    stepsOf (pathOf names) = names.map .name := by
  have hcomponents := components_pathOf fun name hname => (h name hname).isName
  have habsolute : (HostPath.mk (pathOf names)).isAbsolute = true := by
    rw [HostPath.isAbsolute_eq, toList_pathOf]
    rfl
  rw [HostPath.components_eq, habsolute] at hcomponents
  unfold stepsOf slashedSegments
  rw [replaceChar_pathOf h]
  exact (List.cons_eq_cons.1 hcomponents).2

/-- The canonical form of a text is where its steps lead from the root. -/
theorem normalize_eq_pathOf (raw : String) :
    normalize raw = pathOf ((stepsOf raw).foldl descend []) := by
  have hsteps : ∀ rooted : String,
      (HostPath.segments rooted).filterMap Component.ofSegment? = stepsOf raw →
      (HostPath.mk rooted).isAbsolute = true →
      (HostPath.clean ⟨rooted⟩).text = pathOf ((stepsOf raw).foldl descend []) := by
    intro rooted hsegments habsolute
    have hcomponents : (HostPath.mk rooted).components = .root :: stepsOf raw := by
      rw [HostPath.components_eq, habsolute, ← hsegments]
      rfl
    apply clean_eq_of_kept
    rw [hcomponents, List.foldl_cons]
    exact HostPath.foldl_cleanStep_keptOf isMove_of_mem_stepsOf []
  unfold normalize
  dsimp only
  split
  · next hstart => exact hsteps _ rfl hstart
  · refine hsteps _ ?_ ?_
    · -- The slash in front adds an empty segment, which stands for no step.
      have hsegments := HostPath.segments_append_cons "" (Text.replaceChar '\\' '/' raw)
      rw [String.empty_append] at hsegments
      rw [hsegments]
      rfl
    · rw [HostPath.isAbsolute_eq, String.toList_append]
      rfl

/-- What is joined to a text leads to the same place from its canonical form. -/
theorem normalize_join (a b : String) :
    normalize (normalize a ++ "/" ++ b) = normalize (a ++ "/" ++ b) := by
  obtain ⟨names, hnames, ha⟩ := exists_normalize_eq a
  have hsame : (names.map Component.name).foldl descend [] = (stepsOf a).foldl descend [] := by
    have hspelled := normalize_eq_pathOf a
    rw [ha] at hspelled
    have hnamed := HostPath.isName_of_mem_foldl_descend (@isMove_of_mem_stepsOf a)
    rw [HostPath.foldl_descend_names, List.nil_append]
    exact (HostPath.pathOf_inj (fun name hname => (hnames name hname).isName) hnamed).1 hspelled
  rw [normalize_eq_pathOf, normalize_eq_pathOf (a ++ "/" ++ b), stepsOf_join, stepsOf_join,
    List.foldl_append, List.foldl_append, ha, stepsOf_pathOf hnames, hsame]

theorem normalize_append_slash (a : String) : normalize (a ++ "/") = normalize a := by
  have hsteps : stepsOf (a ++ "/") = stepsOf a := by
    have hjoin := stepsOf_join a ""
    rw [String.append_empty] at hjoin
    exact hjoin.trans (List.append_nil _)
  rw [normalize_eq_pathOf, normalize_eq_pathOf, hsteps]

end WebBundler.QueryPath
