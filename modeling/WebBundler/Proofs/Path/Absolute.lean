import WebBundler.Proofs.Path.Containment
import WebBundler.Proofs.Path.Descent
set_option autoImplicit false

/-!
# Paths as seen from a directory

Seen from a directory, a relative path leads down and up from there, and an absolute path leads
where it does from everywhere (`placeFrom`).  Appending the path to the directory says this at
once (`location_join`), and so does adding its steps one at a time (`location_absolute`).
-/

namespace WebBundler.HostPath

open QueryPath (IsMove)

variable {base p : HostPath}

/-! ## Absolute paths -/

theorem text_ne_empty (h : p.isAbsolute = true) : p.text ≠ "" := by
  intro hempty
  rw [isAbsolute_eq, hempty] at h
  cases h

theorem isAbsolute_join (h : base.isAbsolute = true) (q : HostPath) :
    (base.join q).isAbsolute = true := by
  unfold join
  split
  · next habsolute => exact habsolute
  · split
    · exact (isAbsolute_append (text_ne_empty h) q.text).trans h
    · rw [String.append_assoc]
      exact (isAbsolute_append (text_ne_empty h) _).trans h

theorem isAbsolute_foldl_join (h : base.isAbsolute = true) (steps : List Component) :
    (steps.foldl (fun acc step => acc.join ⟨step.text⟩) base).isAbsolute = true := by
  induction steps generalizing base with
  | nil => exact h
  | cons step steps ih => exact ih (isAbsolute_join h _)

theorem isAbsolute_absolute {cwd : HostPath} (h : cwd.isAbsolute = true) (p : HostPath) :
    (absolute cwd p).isAbsolute = true := by
  have hpushed : ∀ {full : HostPath}, full.isAbsolute = true →
      (if Text.endsWith p.text "/" = true then full.join ⟨""⟩ else full).isAbsolute = true := by
    intro full hfull
    split
    · exact isAbsolute_join hfull _
    · exact hfull
  unfold absolute
  apply hpushed
  split
  · exact isAbsolute_foldl_join rfl _
  · next htwo =>
    split
    · next habsolute =>
      -- The first step of an absolute path is the slash.
      have hslash : ((HostPath.mk "").join ⟨Component.root.text⟩).isAbsolute = true := by decide
      rw [components_eq, habsolute, stepsOf, if_pos rfl, List.filter_cons_of_pos (by decide),
        List.foldl_cons]
      exact isAbsolute_foldl_join hslash _
    · exact isAbsolute_foldl_join h _

/-! ## Steps of a relative path -/

theorem filter_filterMap_ofSegment? (segs : List String) :
    (segs.filterMap Component.ofSegment?).filter (· ≠ .here) =
      segs.filterMap Component.ofSegment? := by
  rw [List.filter_eq_self]
  intro step hstep
  obtain ⟨seg, -, hseg⟩ := List.mem_filterMap.1 hstep
  unfold Component.ofSegment? at hseg
  split at hseg
  · cases hseg
  · split at hseg <;> cases hseg <;> rfl

/-- The steps of a relative path, but for a `.` at its start, are those that its segments stand
for. -/
theorem filter_components (hp : p.isAbsolute = false) :
    p.components.filter (· ≠ .here) = (segments p.text).filterMap Component.ofSegment? := by
  rw [components_eq, hp, stepsOf, if_neg Bool.false_ne_true]
  split
  · next hhere =>
    obtain ⟨rest, hsegs⟩ := List.head?_eq_some_iff.1 hhere
    have hnone : Component.ofSegment? "." = none := rfl
    rw [List.filter_cons_of_neg (by decide), filter_filterMap_ofSegment?, hsegs,
      List.filterMap_cons_none hnone, List.tail_cons]
  · exact filter_filterMap_ofSegment? _

theorem exists_opening (hbase : base.isAbsolute = true) :
    ∃ a, base.opening = a ++ "/" ∧ base.components =
      .root :: (segments a).filterMap Component.ofSegment? := by
  have hblank : '/' ∉ "".toList := by simp
  have hne := text_ne_empty hbase
  rw [components_eq, hbase]
  unfold opening
  by_cases hslash : Text.endsWith base.text "/" = true
  · obtain ⟨a, ha⟩ := exists_of_endsWith hslash
    have hself : segments base.text = segments a ++ [""] := by
      rw [ha]
      simpa using segments_append_slash a hblank
    refine ⟨a, by rw [if_pos (.inr hslash), ha], ?_⟩
    rw [stepsOf, if_pos rfl, hself, List.filterMap_append,
      List.filterMap_cons_none ofSegment?_empty, List.filterMap_nil, List.append_nil]
  · exact ⟨base.text, if_neg (not_or.2 ⟨hne, hslash⟩), rfl⟩

/-- A relative path that is appended to an absolute one adds its steps. -/
theorem components_join_relative (hbase : base.isAbsolute = true) (hp : p.isAbsolute = false) :
    (base.join p).components = base.components ++ p.components.filter (· ≠ .here) := by
  obtain ⟨a, hopening, hcomponents⟩ := exists_opening hbase
  have hjoin : base.join p = ⟨a ++ "/" ++ p.text⟩ := by rw [join_relative base hp, hopening]
  have habsolute : (HostPath.mk (a ++ "/" ++ p.text)).isAbsolute = true :=
    hjoin ▸ isAbsolute_join hbase p
  rw [hjoin, components_eq, habsolute, stepsOf, if_pos rfl, segments_append_cons,
    List.filterMap_append, filter_components hp, hcomponents, List.cons_append]

theorem foldl_descend_filter (steps : List Component) (names : List String) :
    (steps.filter (· ≠ .here)).foldl descend names = steps.foldl descend names := by
  induction steps generalizing names with
  | nil => rfl
  | cons step steps ih =>
    cases step with
    | here => exact ih names
    | root => exact ih names
    | up => exact ih _
    | name s => exact ih _

/-! ## Places -/

/-- Where a path leads, as seen from a directory: from the directory, or from the root of the
file system if the path is absolute, down and up by its steps. -/
def placeFrom (base p : HostPath) : List String :=
  p.components.foldl descend (if p.isAbsolute then [] else base.location)

theorem location_eq_foldl (hp : p.isAbsolute = true) :
    p.location = p.components.foldl descend [] := by
  obtain ⟨steps, hsteps, hmoves⟩ := exists_components hp
  rw [location_of_components hsteps hmoves, hsteps]
  rfl

/-- A path that is appended to an absolute one leads to the place that is seen from there. -/
theorem location_join_of_isAbsolute (hbase : base.isAbsolute = true) (p : HostPath) :
    (base.join p).location = placeFrom base p := by
  unfold placeFrom
  cases hp : p.isAbsolute with
  | true =>
    have hself : base.join p = p := if_pos hp
    rw [hself, if_pos rfl, location_eq_foldl hp]
  | false =>
    rw [if_neg Bool.false_ne_true, location_eq_foldl (isAbsolute_join hbase p),
      components_join_relative hbase hp, List.foldl_append, foldl_descend_filter,
        location_eq_foldl hbase]

theorem location_foldl_join (hbase : base.isAbsolute = true) {steps : List Component}
    (hsteps : ∀ step ∈ steps, IsMove step) :
    (steps.foldl (fun acc step => acc.join ⟨step.text⟩) base).location =
      steps.foldl descend base.location := by
  induction steps generalizing base with
  | nil => rfl
  | cons step steps ih =>
    rw [List.forall_mem_cons] at hsteps
    have hstep : placeFrom base ⟨step.text⟩ = descend base.location step := by
      unfold placeFrom
      obtain rfl | ⟨name, hname, rfl⟩ := hsteps.1
      · rfl
      · show (HostPath.mk name).components.foldl descend
          (if (HostPath.mk name).isAbsolute then [] else _) = _
        rw [components_name hname, not_isAbsolute hname.no_slash, if_neg Bool.false_ne_true]
        rfl
    rw [List.foldl_cons, List.foldl_cons, ih (isAbsolute_join hbase _) hsteps.2,
      location_join_of_isAbsolute hbase, hstep]

theorem isAbsolute_of_startsWith (h : Text.startsWith p.text "//" = true) :
    p.isAbsolute = true := by
  rw [isAbsolute_eq, beq_iff_eq]
  unfold Text.startsWith at h
  obtain ⟨rest, hrest⟩ := List.isPrefixOf_iff_prefix.1 h
  rw [← hrest]
  rfl

theorem filter_components_of_isAbsolute {steps : List Component}
    (hsteps : p.components = .root :: steps) (hmoves : ∀ step ∈ steps, IsMove step) :
    p.components.filter (· ≠ .here) = .root :: steps := by
  rw [hsteps, List.filter_eq_self, List.forall_mem_cons]
  refine ⟨by decide, fun step hstep => ?_⟩
  obtain rfl | ⟨name, -, rfl⟩ := hmoves step hstep <;> rfl

/-- The path from the root of the file system leads where the path leads, as seen from the
working directory. -/
theorem location_absolute {cwd : HostPath} (hcwd : cwd.isAbsolute = true) (p : HostPath) :
    (absolute cwd p).location = placeFrom cwd p := by
  have hslash : ∀ full : HostPath,
      (if Text.endsWith p.text "/" = true then full.join ⟨""⟩ else full).location =
        full.location := by
    intro full
    split
    · exact location_join_empty full
    · rfl
  unfold absolute placeFrom
  dsimp only
  rw [hslash]
  cases hp : p.isAbsolute with
  | true =>
    obtain ⟨steps, hsteps, hmoves⟩ := exists_components hp
    rw [filter_components_of_isAbsolute hsteps hmoves, hsteps]
    split
    · exact location_foldl_join rfl hmoves
    · -- The first step of an absolute path is the slash.
      have hroot : (HostPath.mk "").join ⟨Component.root.text⟩ = ⟨"/"⟩ := by decide
      rw [if_pos rfl, List.foldl_cons, hroot]
      exact location_foldl_join rfl hmoves
  | false =>
    have htwo : Text.startsWith p.text "//" = false := by
      rw [← Bool.not_eq_true]
      intro hstarts
      rw [isAbsolute_of_startsWith hstarts] at hp
      cases hp
    have hmoves : ∀ step ∈ p.components.filter (· ≠ .here), IsMove step := by
      intro step hstep
      rw [filter_components hp] at hstep
      obtain ⟨seg, hseg, hsegStep⟩ := List.mem_filterMap.1 hstep
      exact isMove_of_mem_segments hseg hsegStep
    rw [htwo, Bool.false_and, if_neg Bool.false_ne_true, if_neg Bool.false_ne_true,
      if_neg Bool.false_ne_true, location_foldl_join hcwd hmoves, foldl_descend_filter,
        if_neg Bool.false_ne_true]

end WebBundler.HostPath
