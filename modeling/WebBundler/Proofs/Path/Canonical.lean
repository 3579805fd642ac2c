import WebBundler.QueryPath
import WebBundler.Proofs.Path.Location
set_option autoImplicit false

/-!
# Canonical names

The canonical form of a text is a slash and the names of a way down from the root, with slashes
between them.  Making it canonical again changes nothing (`normalize_normalize`), and it is
never taken for a name with a scheme.
-/

namespace WebBundler

namespace Text

theorem mem_splitOn {sep : Char} {s piece : List Char} (h : piece ∈ splitOn sep s) :
    sep ∉ piece ∧ piece ⊆ s := by
  induction s generalizing piece with
  | nil =>
    rw [splitOn, List.mem_singleton] at h
    subst h
    exact ⟨List.not_mem_nil, List.nil_subset _⟩
  | cons c cs ih =>
    rw [splitOn] at h
    split at h
    · rcases List.mem_cons.1 h with rfl | h
      · exact ⟨List.not_mem_nil, List.nil_subset _⟩
      · exact ⟨(ih h).1, List.subset_cons_of_subset c (ih h).2⟩
    · next hsep =>
      split at h
      · next hnone => exact absurd hnone (splitOn_ne_nil sep cs)
      · next first pieces hpieces =>
        rcases List.mem_cons.1 h with rfl | h
        · obtain ⟨hfirst, hsubset⟩ := ih (hpieces ▸ List.mem_cons_self)
          refine ⟨?_, List.cons_subset_cons c hsubset⟩
          rw [List.mem_cons, not_or]
          exact ⟨Ne.symm hsep, hfirst⟩
        · obtain ⟨hpiece, hsubset⟩ := ih (hpieces ▸ List.mem_cons_of_mem _ h)
          exact ⟨hpiece, List.subset_cons_of_subset c hsubset⟩

theorem replaceChar_of_not_mem {old new : Char} {s : String} (h : old ∉ s.toList) :
    replaceChar old new s = s := by
  have hkept : ∀ c ∈ s.toList, c ≠ old := by
    rintro c hc rfl
    exact h hc
  unfold replaceChar
  rw [List.map_congr_left fun c hc => if_neg (hkept c hc), List.map_id', String.ofList_toList]

theorem not_mem_replaceChar {old new : Char} (s : String) (h : new ≠ old) :
    old ∉ (replaceChar old new s).toList := by
  rw [replaceChar, String.toList_ofList, List.mem_map]
  rintro ⟨c, -, hc⟩
  split at hc
  · exact h hc
  · next hne => exact hne hc

theorem dropEnd_prefix (p : Char → Bool) (s : List Char) : dropEnd p s <+: s := by
  unfold dropEnd
  obtain ⟨front, hfront⟩ := List.dropWhile_suffix p (l := s.reverse)
  refine ⟨front.reverse, ?_⟩
  rw [← List.reverse_append, hfront, List.reverse_reverse]

theorem trim_cases (s : String) :
    trim s = "" ∨ ∃ c rest, (trim s).toList = c :: rest ∧ isBlank c = false := by
  unfold trim strip
  rw [String.toList_ofList]
  cases hchars : dropEnd isBlank (dropStart isBlank s.toList) with
  | nil => exact .inl rfl
  | cons c rest =>
    obtain ⟨more, hmore⟩ := dropEnd_prefix isBlank (dropStart isBlank s.toList)
    rw [hchars] at hmore
    refine .inr ⟨c, rest, rfl, ?_⟩
    have hhead := List.head?_dropWhile_not isBlank s.toList
    unfold dropStart at hmore
    rw [← hmore] at hhead
    simpa using hhead

theorem exists_toList_trim {s : String} {c : Char} {rest : List Char} (h : s.toList = c :: rest)
    (hc : isBlank c = false) : ∃ more, (trim s).toList = c :: more := by
  unfold trim strip
  rw [h, dropStart_eq_self hc, String.toList_ofList]
  unfold dropEnd
  rw [List.reverse_cons, List.dropWhile_append]
  split
  · exact ⟨[], by simp [hc]⟩
  · exact ⟨_, by rw [List.reverse_append]; rfl⟩

theorem trim_ne_empty {s : String} {c : Char} {rest : List Char} (h : s.toList = c :: rest)
    (hc : isBlank c = false) : trim s ≠ "" := by
  obtain ⟨more, hmore⟩ := exists_toList_trim h hc
  intro hempty
  rw [hempty] at hmore
  cases hmore

end Text

namespace QueryPath

open HostPath (Component IsName)

/-- A name inside a canonical path. -/
structure IsStep (name : String) : Prop where
  isName : IsName name
  no_backslash : '\\' ∉ name.toList

instance (name : String) : Decidable (IsStep name) :=
  decidable_of_iff (IsName name ∧ '\\' ∉ name.toList) ⟨fun h => ⟨h.1, h.2⟩, fun h => ⟨h.1, h.2⟩⟩

theorem isStep_of_mem {name : String} (hslash : '/' ∉ name.toList)
    (hbackslash : '\\' ∉ name.toList) {c : Char} (hc : c ∈ name.toList) (hdot : c ≠ '.') :
    IsStep name := by
  have hne : ∀ dots : String, (∀ d ∈ dots.toList, d = '.') → name ≠ dots :=
    fun dots hdots hsame => hdot (hdots c (hsame ▸ hc))
  exact ⟨⟨hne "" (by simp), hne "." (by simp), hne ".." (by simp), hslash⟩, hbackslash⟩

/-- The path down from the root by names. -/
def pathOf (names : List String) : String := "/" ++ String.intercalate "/" names

theorem toList_pathOf (names : List String) :
    (pathOf names).toList = '/' :: (String.intercalate "/" names).toList := by
  unfold pathOf
  rw [String.toList_append]
  rfl

/-! ## The steps of a canonical path -/

/-- A step down by a name, or one up. -/
def IsMove (step : Component) : Prop := step = .up ∨ ∃ name, IsName name ∧ step = .name name

theorem isMove_names {names : List String} (h : ∀ name ∈ names, IsName name) :
    ∀ step ∈ names.map Component.name, IsMove step := by
  intro step hstep
  obtain ⟨name, hname, rfl⟩ := List.mem_map.1 hstep
  exact .inr ⟨name, h name hname, rfl⟩

theorem IsMove.segment {step : Component} (h : IsMove step) :
    '/' ∉ step.text.toList ∧ Component.ofSegment? step.text = some step := by
  obtain rfl | ⟨name, hname, rfl⟩ := h
  · exact ⟨by decide, rfl⟩
  · exact ⟨hname.no_slash, hname.ofSegment?⟩

theorem filterMap_segments_steps {steps : List Component} (h : ∀ step ∈ steps, IsMove step) :
    (HostPath.segments (String.intercalate "/" (steps.map Component.text))).filterMap
      Component.ofSegment? =
      steps := by
  induction steps with
  | nil => rfl
  | cons step steps ih =>
    obtain ⟨hslash, hstep⟩ := (h step List.mem_cons_self).segment
    have hsteps := fun other hother => h other (List.mem_cons_of_mem _ hother)
    cases steps with
    | nil =>
      rw [List.map_singleton, String.intercalate_singleton,
        HostPath.segments_of_no_slash hslash]
      exact List.filterMap_cons_some hstep
    | cons next steps =>
      have hsegments : HostPath.segments
          (String.intercalate "/" ((step :: next :: steps).map Component.text)) =
          step.text :: HostPath.segments
            (String.intercalate "/" ((next :: steps).map Component.text)) := by
        have hchars : (String.intercalate "/"
            ((step :: next :: steps).map Component.text)).toList =
            step.text.toList ++
              '/' :: (String.intercalate "/" ((next :: steps).map Component.text)).toList := by
          rw [List.map_cons, List.map_cons, String.intercalate_cons_cons]
          simp
        unfold HostPath.segments
        rw [hchars, Text.splitOn_append_cons, Text.splitOn_of_not_mem hslash]
        simp
      rw [hsegments, List.filterMap_cons_some hstep, ih hsteps]

theorem components_slash {steps : List Component} (h : ∀ step ∈ steps, IsMove step) :
    (HostPath.mk ("/" ++ String.intercalate "/" (steps.map Component.text))).components =
      .root :: steps := by
  have hchars : ("/" ++ String.intercalate "/" (steps.map Component.text)).toList =
      '/' :: (String.intercalate "/" (steps.map Component.text)).toList := by
    rw [String.toList_append]
    rfl
  have habsolute : (HostPath.mk
      ("/" ++ String.intercalate "/" (steps.map Component.text))).isAbsolute =
      true := by
    rw [HostPath.isAbsolute_eq, hchars]
    rfl
  have hsegments : HostPath.segments
      ("/" ++ String.intercalate "/" (steps.map Component.text)) =
      "" :: HostPath.segments (String.intercalate "/" (steps.map Component.text)) := by
    unfold HostPath.segments
    rw [hchars]
    simp [Text.splitOn]
  rw [HostPath.components_eq, habsolute, hsegments]
  show Component.root :: _ = _
  rw [List.filterMap_cons_none HostPath.ofSegment?_empty, filterMap_segments_steps h]

theorem components_pathOf {names : List String} (h : ∀ name ∈ names, IsName name) :
    (HostPath.mk (pathOf names)).components = .root :: names.map .name := by
  have htext : (names.map Component.name).map Component.text = names := by
    rw [List.map_map]
    exact List.map_id names
  have hcomponents := components_slash (isMove_names h)
  rw [htext] at hcomponents
  exact hcomponents

/-! ## Cleaning -/

/-- Steps kept while cleaning an absolute path, the last one first. -/
def keptOf (names : List String) : List Component := (Component.root :: names.map .name).reverse

theorem cleanStep_name (names : List String) (name : String) :
    HostPath.cleanStep (keptOf names) (.name name) = keptOf (names ++ [name]) := by
  simp [keptOf, HostPath.cleanStep]

/-- A step up takes the last name back. -/
theorem cleanStep_up (names : List String) :
    HostPath.cleanStep (keptOf names) .up = keptOf names.dropLast := by
  rcases List.eq_nil_or_concat names with rfl | ⟨front, name, rfl⟩
  · rfl
  · simp [keptOf, HostPath.cleanStep]

theorem foldl_cleanStep_names (names more : List String) :
    (more.map Component.name).foldl HostPath.cleanStep (keptOf names) =
      keptOf (names ++ more) := by
  induction more generalizing names with
  | nil => rw [List.append_nil]; rfl
  | cons name more ih =>
    rw [List.map_cons, List.foldl_cons, cleanStep_name, ih, List.append_assoc]; rfl

/-- Cleaning the steps of an absolute path leaves some of its names, in their order. -/
theorem exists_foldl_cleanStep {steps : List Component} {names : List String}
    (hnames : ∀ name ∈ names, IsStep name)
    (hsteps : ∀ step ∈ steps, step = .up ∨ ∃ name, IsStep name ∧ step = .name name) :
    ∃ left, (∀ name ∈ left, IsStep name) ∧ left.Sublist (names ++ steps.map Component.text) ∧
      steps.foldl HostPath.cleanStep (keptOf names) = keptOf left := by
  induction steps generalizing names with
  | nil => exact ⟨names, hnames, List.sublist_append_left _ _, rfl⟩
  | cons step steps ih =>
    have hrest := fun other hother => hsteps other (List.mem_cons_of_mem _ hother)
    rw [List.foldl_cons, List.map_cons]
    rcases hsteps step List.mem_cons_self with rfl | ⟨name, hname, rfl⟩
    · rw [cleanStep_up]
      obtain ⟨left, hleft, hsublist, hfold⟩ :=
        ih (fun name hname => hnames name (List.dropLast_subset _ hname)) hrest
      exact ⟨left, hleft, hsublist.trans
        ((List.dropLast_sublist _).append (List.sublist_cons_self _ _)), hfold⟩
    · rw [cleanStep_name]
      have hmore : ∀ other ∈ names ++ [name], IsStep other := by
        intro other hother
        rcases List.mem_append.1 hother with hother | hother
        · exact hnames other hother
        · rw [List.mem_singleton.1 hother]
          exact hname
      obtain ⟨left, hleft, hsublist, hfold⟩ := ih hmore hrest
      rw [List.append_assoc] at hsublist
      exact ⟨left, hleft, hsublist, hfold⟩

theorem clean_eq_of_kept {p : HostPath} {names : List String}
    (h : p.components.foldl HostPath.cleanStep [] = keptOf names) :
    p.clean.text = pathOf names := by
  unfold HostPath.clean HostPath.cleanComponents
  rw [h, keptOf, List.reverse_reverse]
  simp [HostPath.ofComponents, pathOf, Function.comp_def, HostPath.Component.text]

/-! ## The canonical form -/

theorem isStep_of_mem_segments {s seg name : String} (hs : '\\' ∉ s.toList)
    (hseg : seg ∈ HostPath.segments s) (hname : Component.ofSegment? seg = some (.name name)) :
    IsStep name := by
  obtain ⟨piece, hpiece, rfl⟩ := List.mem_map.1 hseg
  obtain ⟨hslash, hsubset⟩ := Text.mem_splitOn hpiece
  unfold Component.ofSegment? at hname
  split at hname
  · cases hname
  · next hplain =>
    split at hname
    · cases hname
    · next hup =>
      cases hname
      rw [not_or] at hplain
      refine ⟨⟨hplain.1, hplain.2, hup, ?_⟩, ?_⟩
      · rwa [String.toList_ofList]
      · rw [String.toList_ofList]
        exact fun hmem => hs (hsubset hmem)

theorem map_text_filterMap (segs : List String) :
    ((segs.filterMap Component.ofSegment?).map Component.text).Sublist segs := by
  induction segs with
  | nil => exact List.Sublist.slnil
  | cons seg segs ih =>
    cases hstep : Component.ofSegment? seg with
    | none =>
      rw [List.filterMap_cons_none hstep]
      exact ih.cons seg
    | some step =>
      have htext : step.text = seg := by
        unfold Component.ofSegment? at hstep
        split at hstep
        · cases hstep
        · split at hstep
          · next hup =>
            cases hstep
            exact hup.symm
          · cases hstep
            rfl
      rw [List.filterMap_cons_some hstep, List.map_cons, htext]
      exact ih.cons_cons seg

theorem sublist_of_cons_empty {names segs : List String} (hnames : ∀ name ∈ names, IsStep name)
    (h : names.Sublist ("" :: segs)) : names.Sublist segs := by
  rcases List.sublist_cons_iff.1 h with h | ⟨rest, rfl, -⟩
  · exact h
  · exact absurd rfl (hnames "" List.mem_cons_self).isName.ne_empty

/-- The canonical form of a text leads down from the root by some of its segments, in their
order. -/
theorem exists_normalize_sublist (raw : String) :
    ∃ names, (∀ name ∈ names, IsStep name) ∧
      names.Sublist (HostPath.segments (Text.replaceChar '\\' '/' raw)) ∧
      normalize raw = pathOf names := by
  unfold normalize
  generalize hslashed : Text.replaceChar '\\' '/' raw = slashed
  have hbackslash : '\\' ∉ slashed.toList := by
    rw [← hslashed]
    exact Text.not_mem_replaceChar raw (by decide)
  dsimp only
  generalize hrooted : (if Text.startsWith slashed "/" =
    true then slashed else "/" ++ slashed) = rooted
  have hrootedBackslash : '\\' ∉ rooted.toList := by
    rw [← hrooted]
    split
    · exact hbackslash
    · simp [hbackslash]
  have habsolute : (HostPath.mk rooted).isAbsolute = true := by
    rw [← hrooted]
    split
    · next hstart => exact hstart
    · rw [HostPath.isAbsolute_eq]
      simp
  have hcomponents : (HostPath.mk rooted).components =
      .root :: (HostPath.segments rooted).filterMap Component.ofSegment? := by
    rw [HostPath.components_eq, habsolute]
    rfl
  have hsegments : HostPath.segments rooted = HostPath.segments slashed ∨
      HostPath.segments rooted = "" :: HostPath.segments slashed := by
    rw [← hrooted]
    split
    · exact .inl rfl
    · refine .inr ?_
      unfold HostPath.segments
      rw [String.toList_append]
      simp [Text.splitOn]
  have hsteps : ∀ step ∈ (HostPath.segments rooted).filterMap Component.ofSegment?,
      step = .up ∨ ∃ name, IsStep name ∧ step = .name name := by
    intro step hstep
    obtain ⟨seg, hseg, hstep⟩ := List.mem_filterMap.1 hstep
    cases step with
    | name name => exact Or.inr ⟨name, isStep_of_mem_segments hrootedBackslash hseg hstep, rfl⟩
    | up => exact Or.inl rfl
    | root =>
      unfold Component.ofSegment? at hstep
      split at hstep
      · cases hstep
      · split at hstep <;> cases hstep
    | here =>
      unfold Component.ofSegment? at hstep
      split at hstep
      · cases hstep
      · split at hstep <;> cases hstep
  have hnone : ∀ name ∈ ([] : List String), IsStep name :=
    fun name hname => absurd hname List.not_mem_nil
  obtain ⟨names, hnames, hsublist, hkept⟩ := exists_foldl_cleanStep hnone hsteps
  have hamong : names.Sublist (HostPath.segments rooted) :=
    hsublist.trans (map_text_filterMap _)
  refine ⟨names, hnames, ?_, clean_eq_of_kept ?_⟩
  · rcases hsegments with hsame | hempty
    · rwa [hsame] at hamong
    · rw [hempty] at hamong
      exact sublist_of_cons_empty hnames hamong
  · rw [hcomponents, List.foldl_cons]
    exact hkept

theorem exists_normalize_eq (raw : String) :
    ∃ names, (∀ name ∈ names, IsStep name) ∧ normalize raw = pathOf names := by
  obtain ⟨names, hnames, -, hraw⟩ := exists_normalize_sublist raw
  exact ⟨names, hnames, hraw⟩

theorem mem_intercalate {c : Char} {names : List String}
    (h : c ∈ (String.intercalate "/" names).toList) :
    c = '/' ∨ ∃ name ∈ names, c ∈ name.toList := by
  induction names with
  | nil => simp at h
  | cons name names ih =>
    cases names with
    | nil => exact Or.inr ⟨name, List.mem_singleton_self name, by simpa using h⟩
    | cons next names =>
      rw [String.intercalate_cons_cons, String.toList_append, String.toList_append,
        List.mem_append, List.mem_append] at h
      rcases h with (h | h) | h
      · exact Or.inr ⟨name, List.mem_cons_self, h⟩
      · exact Or.inl (by simpa using h)
      · rcases ih h with hslash | ⟨other, hother, hmem⟩
        · exact Or.inl hslash
        · exact Or.inr ⟨other, List.mem_cons_of_mem _ hother, hmem⟩

theorem replaceChar_pathOf {names : List String} (h : ∀ name ∈ names, IsStep name) :
    Text.replaceChar '\\' '/' (pathOf names) = pathOf names := by
  refine Text.replaceChar_of_not_mem fun hmem => ?_
  rw [toList_pathOf, List.mem_cons] at hmem
  rcases hmem.resolve_left (by decide) |> mem_intercalate with hslash | ⟨name, hname, hmem⟩
  · cases hslash
  · exact (h name hname).no_backslash hmem

/-- A path down from the root by names is canonical. -/
theorem normalize_pathOf {names : List String} (h : ∀ name ∈ names, IsStep name) :
    normalize (pathOf names) = pathOf names := by
  have hstart : Text.startsWith (pathOf names) "/" = true := by
    unfold Text.startsWith
    rw [toList_pathOf]
    rfl
  unfold normalize
  rw [replaceChar_pathOf h]
  dsimp only
  rw [if_pos hstart]
  apply clean_eq_of_kept
  rw [components_pathOf fun name hname => (h name hname).isName, List.foldl_cons]
  exact foldl_cleanStep_names [] names

@[simp] theorem normalize_normalize (raw : String) :
    normalize (normalize raw) = normalize raw := by
  obtain ⟨names, hnames, hraw⟩ := exists_normalize_eq raw
  rw [hraw, normalize_pathOf hnames]

theorem exists_toList_normalize (raw : String) :
    ∃ rest, (normalize raw).toList = '/' :: rest := by
  obtain ⟨names, -, hraw⟩ := exists_normalize_eq raw
  exact ⟨_, hraw ▸ toList_pathOf names⟩

theorem trimStartChar_pathOf {names : List String} (h : ∀ name ∈ names, HostPath.IsName name) :
    Text.trimStartChar '/' (pathOf names) = String.intercalate "/" names := by
  have hrelative := HostPath.not_isAbsolute_intercalate h
  rw [HostPath.isAbsolute_eq] at hrelative
  unfold Text.trimStartChar Text.dropStart
  rw [toList_pathOf, List.dropWhile_cons_of_pos rfl]
  cases hchars : (String.intercalate "/" names).toList with
  | nil =>
    rw [String.toList_eq_nil_iff.1 hchars]
    rfl
  | cons c cs =>
    rw [hchars] at hrelative
    rw [List.dropWhile_cons_of_neg (by simpa using hrelative), ← hchars, String.ofList_toList]

/-- A canonical path below a root leads to the place of the root, and from there down by its
names. -/
theorem location_below_pathOf (root : HostPath) {names : List String}
    (h : ∀ name ∈ names, HostPath.IsName name) :
    (root.below (pathOf names)).location = root.location ++ names := by
  unfold HostPath.below
  rw [trimStartChar_pathOf h]
  by_cases hne : names = []
  · subst hne
    rw [List.append_nil]
    exact HostPath.location_join_empty root
  · exact HostPath.location_join_intercalate root h hne

/-! ## Local names -/

theorem schemeOf_eq_none {s : String} {rest : List Char} (h : s.toList = '/' :: rest) :
    schemeOf s = none := by
  unfold schemeOf
  rw [h]
  split
  · next scheme rest' hcut =>
    obtain ⟨hsplit, -⟩ := Text.cutFirst_eq_some hcut
    cases scheme with
    | nil => cases hsplit
    | cons c scheme =>
      obtain ⟨rfl, -⟩ := List.cons_eq_cons.1 hsplit
      have hslash : isSchemeChar '/' = false := by decide
      simp [hslash]
  · rfl

/-- A canonical name is local, and is where its module lies. -/
theorem withoutScheme_of_normalized {path : String} (h : normalize path = path) :
    QueryPath.isRemote ⟨path⟩ = false ∧ QueryPath.withoutScheme ⟨path⟩ = path := by
  obtain ⟨rest, hrest⟩ := exists_toList_normalize path
  rw [h] at hrest
  have hnone : QueryPath.scheme? ⟨path⟩ = none := schemeOf_eq_none hrest
  constructor
  · unfold isRemote
    rw [hnone]
    rfl
  · unfold withoutScheme
    rw [hnone]

/-- A text that starts with a slash names a local module, in canonical form. -/
theorem ofText_of_slash {s : String} {rest : List Char} (h : s.toList = '/' :: rest) :
    ofText s = .ok ⟨normalize (Text.trim s)⟩ := by
  have hblank : Text.isBlank '/' = false := by decide
  obtain ⟨more, hmore⟩ := Text.exists_toList_trim h hblank
  unfold ofText
  dsimp only
  rw [if_neg (Text.trim_ne_empty h hblank), schemeOf_eq_none hmore]
  rfl

theorem normalize_of_ofText {path : String} {name : QueryPath} (hpath : normalize path = path)
    (hname : ofText path = .ok name) : normalize name.text = name.text := by
  obtain ⟨rest, hrest⟩ := exists_toList_normalize path
  rw [hpath] at hrest
  rw [ofText_of_slash hrest] at hname
  have htext : QueryPath.mk (normalize (Text.trim path)) = name := Except.ok.inj hname
  rw [← htext, normalize_normalize]

end QueryPath

end WebBundler
