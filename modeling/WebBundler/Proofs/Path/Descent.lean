import WebBundler.Proofs.Path.Canonical
import WebBundler.Walk.File
set_option autoImplicit false

/-!
# Ways down and up

The steps of an absolute path lead from the root of the file system down by names and up again,
where nothing lies above the root (`location_of_components`).  A way that never climbs above its
start leads to the same names from everywhere; one that climbs leads elsewhere
(`foldl_descend_append`).

The path of a directory below a root is that of the names that lead to it (`relativeTo_under`).
-/

namespace WebBundler.HostPath

open QueryPath (IsMove IsStep keptOf pathOf)

/-! ## Steps -/

/-- Where a step leads from the directory at the end of some names. -/
def descend (names : List String) : Component → List String
  | .name name => names ++ [name]
  | .up => names.dropLast
  | _ => names

/-- Cleaning keeps the names of the place that is reached. -/
theorem foldl_cleanStep_keptOf {steps : List Component} (h : ∀ step ∈ steps, IsMove step)
    (names : List String) :
    steps.foldl cleanStep (keptOf names) = keptOf (steps.foldl descend names) := by
  induction steps generalizing names with
  | nil => rfl
  | cons step steps ih =>
    have hsteps := fun other hother => h other (List.mem_cons_of_mem _ hother)
    rw [List.foldl_cons, List.foldl_cons]
    obtain rfl | ⟨name, -, rfl⟩ := h step List.mem_cons_self
    · rw [QueryPath.cleanStep_up]
      exact ih hsteps _
    · rw [QueryPath.cleanStep_name]
      exact ih hsteps _

theorem isMove_of_mem_segments {s seg : String} {step : Component} (hseg : seg ∈ segments s)
    (hstep : Component.ofSegment? seg = some step) : IsMove step := by
  obtain ⟨piece, hpiece, rfl⟩ := List.mem_map.1 hseg
  unfold Component.ofSegment? at hstep
  split at hstep
  · cases hstep
  · next hplain =>
    rw [not_or] at hplain
    split at hstep
    · cases hstep
      exact .inl rfl
    · next hup =>
      cases hstep
      refine .inr ⟨_, ⟨hplain.1, hplain.2, hup, ?_⟩, rfl⟩
      rw [String.toList_ofList]
      exact (Text.mem_splitOn hpiece).1

theorem exists_components {p : HostPath} (h : p.isAbsolute = true) :
    ∃ steps, p.components = .root :: steps ∧ ∀ step ∈ steps, IsMove step := by
  refine ⟨(segments p.text).filterMap Component.ofSegment?, ?_, fun step hstep => ?_⟩
  · rw [components_eq, h]
    rfl
  · obtain ⟨seg, hseg, hstep⟩ := List.mem_filterMap.1 hstep
    exact isMove_of_mem_segments hseg hstep

theorem location_of_components {p : HostPath} {steps : List Component}
    (hcomponents : p.components = .root :: steps) (hsteps : ∀ step ∈ steps, IsMove step) :
    p.location = steps.foldl descend [] := by
  have hkept : p.components.foldl cleanStep [] = keptOf (steps.foldl descend []) := by
    rw [hcomponents, List.foldl_cons]
    exact foldl_cleanStep_keptOf hsteps []
  unfold location cleanComponents
  rw [hkept, keptOf, List.reverse_reverse, List.filterMap_cons_none rfl, List.filterMap_map]
  exact List.filterMap_some

theorem foldl_descend_names (names more : List String) :
    (more.map Component.name).foldl descend names = names ++ more := by
  induction more generalizing names with
  | nil => exact (List.append_nil names).symm
  | cons name more ih =>
    rw [List.map_cons, List.foldl_cons, descend, ih, List.append_assoc]
    rfl

theorem pathOf_inj {names names' : List String} (h : ∀ name ∈ names, IsName name)
    (h' : ∀ name ∈ names', IsName name) : pathOf names = pathOf names' ↔ names = names' := by
  refine ⟨fun hsame => ?_, fun hsame => hsame ▸ rfl⟩
  have hcomponents := congrArg (fun text => (HostPath.mk text).components) hsame
  rw [QueryPath.components_pathOf h, QueryPath.components_pathOf h', List.cons_inj_right]
    at hcomponents
  have hfold := congrArg (List.foldl descend []) hcomponents
  rwa [foldl_descend_names, foldl_descend_names] at hfold

/-- What is reached is made of the names in the steps. -/
theorem mem_foldl_descend {steps : List Component} {names : List String} {name : String}
    (h : name ∈ steps.foldl descend names) : name ∈ names ∨ Component.name name ∈ steps := by
  induction steps generalizing names with
  | nil => exact .inl h
  | cons step steps ih =>
    rcases ih h with h | h
    · cases step with
      | name other =>
        rcases List.mem_append.1 h with h | h
        · exact .inl h
        · rw [List.mem_singleton.1 h]
          exact .inr List.mem_cons_self
      | up => exact .inl (List.dropLast_subset _ h)
      | root => exact .inl h
      | here => exact .inl h
    · exact .inr (List.mem_cons_of_mem _ h)

theorem isName_of_mem_foldl_descend {steps : List Component} (h : ∀ step ∈ steps, IsMove step) :
    ∀ name ∈ steps.foldl descend [], IsName name := by
  intro name hname
  rcases mem_foldl_descend hname with hname | hname
  · exact absurd hname List.not_mem_nil
  · obtain hup | ⟨other, hother, hsame⟩ := h _ hname
    · cases hup
    · cases hsame
      exact hother

/-- Cleaning leads nowhere else. -/
theorem location_clean {p : HostPath} (h : p.isAbsolute = true) :
    p.clean.location = p.location := by
  obtain ⟨steps, hcomponents, hsteps⟩ := exists_components h
  have hnames := isName_of_mem_foldl_descend hsteps
  have hclean : p.clean.text = pathOf (steps.foldl descend []) := by
    apply QueryPath.clean_eq_of_kept
    rw [hcomponents, List.foldl_cons]
    exact foldl_cleanStep_keptOf hsteps []
  have hspelled := QueryPath.components_pathOf hnames
  rw [← hclean] at hspelled
  rw [location_of_components hspelled (QueryPath.isMove_names hnames), foldl_descend_names,
    List.nil_append, location_of_components hcomponents hsteps]

/-! ## Climbing -/

/-- No step of these leads above the directory that lies a number of levels up. -/
def staysBelow : Nat → List Component → Bool
  | _, [] => true
  | levels, .name _ :: steps => staysBelow (levels + 1) steps
  | 0, .up :: _ => false
  | levels + 1, .up :: steps => staysBelow levels steps
  | levels, .root :: steps | levels, .here :: steps => staysBelow levels steps

/-- Steps that start below a base lead to what they lead to below the root, from the base on if
they never climb above it, and else from a place above the base. -/
theorem foldl_descend_append (base names : List String) (steps : List Component) :
    ∃ start, start <+: base ∧ steps.foldl descend (base ++ names) =
      start ++ steps.foldl descend names ∧
      (staysBelow names.length steps = true → start = base) ∧
      (staysBelow names.length steps = false → base ≠ [] → start.length < base.length) := by
  induction steps generalizing base names with
  | nil => exact ⟨base, List.prefix_refl base, rfl, fun _ => rfl, fun h => nomatch h⟩
  | cons step steps ih =>
    simp only [List.foldl_cons]
    cases step with
    | name name =>
      obtain ⟨start, hprefix, hfold, hstays, hclimbs⟩ := ih base (names ++ [name])
      rw [List.length_append, List.length_singleton] at hstays hclimbs
      refine ⟨start, hprefix, ?_, hstays, hclimbs⟩
      rw [descend, descend, List.append_assoc]
      exact hfold
    | up =>
      rcases List.eq_nil_or_concat names with rfl | ⟨front, name, rfl⟩
      · -- The step climbs above the base, or stays at the root if that is the base.
        obtain ⟨start, hprefix, hfold, -, -⟩ := ih base.dropLast []
        rw [List.append_nil] at hfold ⊢
        refine ⟨start, hprefix.trans (List.dropLast_prefix base), hfold, fun h => ?_,
          fun _ hbase => ?_⟩
        · cases h
        · have hlength := hprefix.length_le
          rw [List.length_dropLast] at hlength
          have hpos := List.length_pos_iff.2 hbase
          omega
      · obtain ⟨start, hprefix, hfold, hstays, hclimbs⟩ := ih base front
        rw [List.concat_eq_append, List.length_append, List.length_singleton]
        refine ⟨start, hprefix, ?_, hstays, hclimbs⟩
        rw [descend, descend, ← List.append_assoc, List.dropLast_concat, List.dropLast_concat]
        exact hfold
    | root => exact ih base names
    | here => exact ih base names

/-- Below a base, steps lead to what they lead to below the root exactly if they never climb
above the base, or nothing is above it. -/
theorem append_foldl_descend_iff (base : List String) (steps : List Component) :
    base ++ steps.foldl descend [] = steps.foldl descend base ↔
      staysBelow 0 steps = true ∨ base = [] := by
  obtain ⟨start, hprefix, hfold, hstays, hclimbs⟩ := foldl_descend_append base [] steps
  rw [List.append_nil] at hfold
  rw [hfold, List.append_left_inj]
  constructor
  · rintro rfl
    refine Classical.byContradiction fun hneither => ?_
    rw [not_or, Bool.not_eq_true] at hneither
    exact Nat.lt_irrefl _ (hclimbs hneither.1 hneither.2)
  · rintro (hbelow | rfl)
    · exact (hstays hbelow).symm
    · exact (List.prefix_nil.1 hprefix).symm

/-! ## Paths below a directory -/

/-- The path down from a directory by one name after the other. -/
def under (dir : HostPath) (names : List String) : HostPath :=
  names.foldl (fun dir name => dir.join ⟨name⟩) dir

theorem under_concat (dir : HostPath) (names : List String) (name : String) :
    dir.under (names ++ [name]) = (dir.under names).join ⟨name⟩ := by
  unfold under
  rw [List.foldl_append]
  rfl

theorem join_intercalate (dir : HostPath) {names : List String}
    (h : ∀ name ∈ names, IsName name) (hne : names ≠ []) :
    dir.join ⟨String.intercalate "/" names⟩ = dir.under names := by
  induction names generalizing dir with
  | nil => exact absurd rfl hne
  | cons name names ih =>
    have hname := h name List.mem_cons_self
    have hnames := fun other hother => h other (List.mem_cons_of_mem _ hother)
    cases names with
    | nil =>
      rw [String.intercalate_singleton]
      rfl
    | cons next names =>
      rw [String.intercalate_cons_cons, join_slash dir hname
        (not_isAbsolute_intercalate hnames), ih _ hnames (List.cons_ne_nil _ _)]
      rfl

theorem components_under (dir : HostPath) {names : List String}
    (h : ∀ name ∈ names, IsName name) :
    (dir.under names).components = dir.components ++ names.map .name := by
  induction names generalizing dir with
  | nil => exact (List.append_nil _).symm
  | cons name names ih =>
    have hname := h name List.mem_cons_self
    have hnames := fun other hother => h other (List.mem_cons_of_mem _ hother)
    have hstep := ih (dir.join ⟨name⟩) hnames
    rw [components_join dir hname, List.append_assoc] at hstep
    exact hstep

theorem location_under (dir : HostPath) {names : List String}
    (h : ∀ name ∈ names, IsName name) :
    (dir.under names).location = dir.location ++ names := by
  induction names generalizing dir with
  | nil => exact (List.append_nil _).symm
  | cons name names ih =>
    have hname := h name List.mem_cons_self
    have hnames := fun other hother => h other (List.mem_cons_of_mem _ hother)
    have hstep := ih (dir.join ⟨name⟩) hnames
    rw [location_join dir hname, List.append_assoc] at hstep
    exact hstep

theorem stepsAfter?_eq_some {start p : HostPath} {steps : List Component} :
    stepsAfter? start p = some steps ↔ p.components = start.components ++ steps := by
  unfold stepsAfter?
  dsimp only
  split
  · next hprefix =>
    obtain ⟨rest, hrest⟩ : start.components <+: p.components :=
      List.isPrefixOf_iff_prefix.1 hprefix
    rw [← hrest, List.drop_left, Option.some_inj, List.append_right_inj]
  · next hprefix =>
    refine ⟨fun h => (nomatch h), fun h => ?_⟩
    rw [List.isPrefixOf_iff_prefix] at hprefix
    exact absurd ⟨steps, h.symm⟩ hprefix

theorem not_isAbsolute_steps {steps : List Component} (h : ∀ step ∈ steps, IsMove step) :
    (HostPath.mk (String.intercalate "/" (steps.map Component.text))).isAbsolute = false := by
  cases steps with
  | nil => rfl
  | cons step steps =>
    obtain ⟨hslash, hstep⟩ := (h step List.mem_cons_self).segment
    have hne : step.text ≠ "" := by
      intro hempty
      rw [hempty, ofSegment?_empty] at hstep
      cases hstep
    cases steps with
    | nil =>
      rw [List.map_singleton, String.intercalate_singleton]
      exact not_isAbsolute hslash
    | cons next steps =>
      rw [List.map_cons, List.map_cons, String.intercalate_cons_cons, String.append_assoc,
        isAbsolute_append hne]
      exact not_isAbsolute hslash

theorem normalize_relativeTo (root path : HostPath) :
    QueryPath.normalize (relativeTo root path) = relativeTo root path := by
  unfold relativeTo
  split
  · exact QueryPath.normalize_normalize _
  · exact QueryPath.normalize_normalize _

/-- The path of what lies some steps after a root: what the steps lead to from the root of the
file system. -/
theorem relativeTo_of_steps {root p : HostPath} {steps : List Component}
    (hp : stepsAfter? root p = some steps) (hsteps : ∀ step ∈ steps, IsMove step)
    (hplain : ∀ step ∈ steps, '\\' ∉ step.text.toList) :
    relativeTo root p = pathOf (steps.foldl descend []) := by
  have htext : (ofComponents steps).text =
      String.intercalate "/" (steps.map Component.text) := by
    unfold ofComponents
    split
    · next rest =>
      obtain hup | ⟨name, -, hname⟩ := hsteps _ List.mem_cons_self
      · cases hup
      · cases hname
    · rfl
  have hslashed : Text.replaceChar '\\' '/' (ofComponents steps).text =
      (ofComponents steps).text := by
    refine Text.replaceChar_of_not_mem fun hmem => ?_
    rw [htext] at hmem
    rcases QueryPath.mem_intercalate hmem with hslash | ⟨text, htexts, hmem⟩
    · cases hslash
    · obtain ⟨step, hstep, rfl⟩ := List.mem_map.1 htexts
      exact hplain step hstep hmem
  have hrelative : Text.startsWith (ofComponents steps).text "/" ≠ true := by
    rw [htext]
    exact ne_true_of_eq_false (not_isAbsolute_steps hsteps)
  unfold relativeTo
  rw [hp]
  dsimp only
  unfold QueryPath.normalize
  rw [hslashed]
  dsimp only
  rw [if_neg hrelative, htext]
  apply QueryPath.clean_eq_of_kept
  rw [QueryPath.components_slash hsteps, List.foldl_cons]
  exact foldl_cleanStep_keptOf hsteps []

theorem relativeTo_of_components {root path : HostPath} {names : List String}
    (h : ∀ name ∈ names, IsStep name)
    (hpath : path.components = root.components ++ names.map .name) :
    relativeTo root path = pathOf names := by
  have hnames := fun name hname => (h name hname).isName
  have hsteps : stepsAfter? root path = some (names.map .name) := stepsAfter?_eq_some.2 hpath
  have hplain : ∀ step ∈ names.map Component.name, '\\' ∉ step.text.toList := by
    intro step hstep
    obtain ⟨name, hname, rfl⟩ := List.mem_map.1 hstep
    exact (h name hname).no_backslash
  rw [relativeTo_of_steps hsteps (QueryPath.isMove_names hnames) hplain, foldl_descend_names,
    List.nil_append]

theorem relativeTo_under (root : HostPath) {names : List String}
    (h : ∀ name ∈ names, IsStep name) :
    relativeTo root (root.under names) = pathOf names :=
  relativeTo_of_components h (components_under root fun name hname => (h name hname).isName)

end WebBundler.HostPath
