import WebBundler.Proofs.Path.Composition
set_option autoImplicit false

/-!
# Canonical forms by a stack

The segments of a text are read from the left with a stack of names: empty and `.` segments are
skipped, a `..` takes the last name back if there is one, and any other segment is pushed
(`stackStep`).  What is left on the stack, written from the bottom up with a slash before each
name, is the canonical form of the text (`normalize_eq_spelling`).

A canonical form therefore has none of the segments that are resolved, and reading it once more
changes nothing.
-/

namespace WebBundler.QueryPath

open HostPath (Component descend segments)

/-- Read one more segment, the name pushed last on top of the stack. -/
def stackStep (stack : List String) (segment : String) : List String :=
  if segment = "" ∨ segment = "." then stack
  else if segment = ".." then stack.tail
  else segment :: stack

/-- The stack that is left by the segments of a text, with backslashes read as slashes. -/
def stackOf (raw : String) : List String := (slashedSegments raw).foldl stackStep []

/-- The names of a stack from the bottom up, each behind a slash. -/
def slashedNames : List String → String
  | [] => ""
  | top :: below => slashedNames below ++ "/" ++ top

/-- The text of a stack: a slash alone for the empty one. -/
def spelling (stack : List String) : String := if stack = [] then "/" else slashedNames stack

/-! ## The two ways down -/

/-- The segment that is read and the step that it stands for lead to the same names. -/
theorem reverse_stackStep (stack : List String) (segment : String) :
    (stackStep stack segment).reverse = (Component.ofSegment? segment).toList.foldl descend
      stack.reverse := by
  unfold stackStep Component.ofSegment?
  split
  · rfl
  · split
    · show stack.tail.reverse = stack.reverse.dropLast
      rw [List.dropLast_reverse]
    · exact List.reverse_cons

theorem reverse_foldl_stackStep (segs stack : List String) :
    (segs.foldl stackStep stack).reverse = (segs.filterMap Component.ofSegment?).foldl descend
      stack.reverse := by
  induction segs generalizing stack with
  | nil => rfl
  | cons segment segs ih =>
    rw [List.foldl_cons, ih, reverse_stackStep]
    cases hstep : Component.ofSegment? segment with
    | none => rw [List.filterMap_cons_none hstep]; rfl
    | some step => rw [List.filterMap_cons_some hstep]; rfl

theorem spelling_eq_pathOf (stack : List String) : spelling stack = pathOf stack.reverse := by
  unfold spelling
  induction stack with
  | nil => rfl
  | cons top below ih =>
    rw [if_neg (List.cons_ne_nil _ _), slashedNames, List.reverse_cons]
    split at ih
    · next hbottom =>
      subst hbottom
      simp [slashedNames, pathOf]
    · next hmore =>
      have hnames : below.reverse ≠ [] := mt List.reverse_eq_nil_iff.1 hmore
      rw [ih, pathOf, pathOf, String.intercalate_append_of_ne_nil hnames (List.cons_ne_nil _ _),
        String.intercalate_singleton]
      simp only [String.append_assoc]

/-- The canonical form of a text is what its stack spells. -/
theorem normalize_eq_spelling (raw : String) : normalize raw = spelling (stackOf raw) := by
  have hstack : (stackOf raw).reverse = (stepsOf raw).foldl descend [] :=
    reverse_foldl_stackStep (slashedSegments raw) []
  rw [spelling_eq_pathOf, hstack, normalize_eq_pathOf]

/-! ## What a canonical form holds -/

theorem segments_pathOf {names : List String} (h : ∀ name ∈ names, HostPath.IsName name)
    (hne : names ≠ []) :
    segments (pathOf names) = "" :: names := by
  have hslashed := HostPath.segments_append_cons "" (String.intercalate "/" names)
  rw [String.empty_append] at hslashed
  rw [pathOf, hslashed, HostPath.segments_intercalate
    (fun name hname => (h name hname).no_slash) hne]
  rfl

theorem not_endsWith_pathOf {names : List String} (h : ∀ name ∈ names, HostPath.IsName name)
    (hne : names ≠ []) :
    Text.endsWith (pathOf names) "/" = false := by
  rw [← Bool.not_eq_true]
  intro hslash
  obtain ⟨start, hstart⟩ := HostPath.exists_of_endsWith hslash
  have hsegments := HostPath.segments_append_cons start ""
  rw [String.append_empty, ← hstart, segments_pathOf h hne] at hsegments
  -- The segment behind the last slash would be a name, and it is empty.
  have hlast : names.getLast? = some "" := by
    rw [← List.getLast?_cons_of_ne_nil hne, hsegments]
    exact List.getLast?_concat
  exact (h "" (List.mem_of_getLast? hlast)).ne_empty rfl

/-- **The canonical form of a text is what a stack leaves of its segments.**  So no backslash is
in it, no segment that is empty, `.` or `..`, and no slash ends it, unless it is the slash
alone; it is canonical itself, and has no scheme. -/
theorem normalize_reads_stack (raw : String) :
    normalize raw = spelling (stackOf raw) ∧
      '\\' ∉ (normalize raw).toList ∧
      (normalize raw = "/" ∨
        (∃ names, names ≠ [] ∧ segments (normalize raw) = "" :: names ∧
          ∀ segment ∈ names, segment ≠ "" ∧ segment ≠ "." ∧ segment ≠ "..") ∧
        Text.endsWith (normalize raw) "/" = false) ∧
      normalize (normalize raw) = normalize raw ∧
      schemeOf (normalize raw) = none := by
  obtain ⟨names, hnames, hraw⟩ := exists_normalize_eq raw
  have hisName : ∀ name ∈ names, HostPath.IsName name :=
    fun name hname => (hnames name hname).isName
  refine ⟨normalize_eq_spelling raw, ?_, ?_, normalize_normalize raw, ?_⟩
  · rw [hraw, ← replaceChar_pathOf hnames]
    exact Text.not_mem_replaceChar _ (by decide)
  · rw [hraw]
    by_cases hne : names = []
    · subst hne
      exact .inl rfl
    · refine .inr ⟨⟨names, hne, segments_pathOf hisName hne, fun segment hsegment => ?_⟩,
        not_endsWith_pathOf hisName hne⟩
      have hname := hisName segment hsegment
      exact ⟨hname.ne_empty, hname.ne_here, hname.ne_up⟩
  · rw [hraw]
    exact schemeOf_eq_none (toList_pathOf names)

end WebBundler.QueryPath
