import WebBundler.HostPath
set_option autoImplicit false

/-!
# Where a path leads

A path is read segment by segment, so what is appended to its spelling is appended to its steps:
below a directory, a name leads to the place of the directory with the name after it
(`location_join`).  Two directories at different places therefore hold nothing in common.
-/

namespace WebBundler

namespace Text

theorem splitOn_of_not_mem {sep : Char} {s : List Char} (h : sep ∉ s) :
    splitOn sep s = [s] := by
  induction s with
  | nil => rfl
  | cons c cs ih =>
    rw [List.mem_cons, not_or] at h
    unfold splitOn
    rw [if_neg (Ne.symm h.1), ih h.2]

theorem splitOn_append_cons (sep : Char) (a b : List Char) :
    splitOn sep (a ++ sep :: b) = splitOn sep a ++ splitOn sep b := by
  induction a with
  | nil =>
    rw [List.nil_append]
    simp [splitOn]
  | cons c cs ih =>
    rw [List.cons_append, splitOn, splitOn, ih]
    split
    · rw [List.cons_append]
    · cases hcs : splitOn sep cs with
      | nil => exact absurd hcs (splitOn_ne_nil sep cs)
      | cons piece pieces => rfl

end Text

namespace HostPath

/-- A text that names a file or a directory inside another. -/
structure IsName (name : String) : Prop where
  ne_empty : name ≠ ""
  ne_here : name ≠ "."
  ne_up : name ≠ ".."
  no_slash : '/' ∉ name.toList

instance (name : String) : Decidable (IsName name) :=
  decidable_of_iff (name ≠ "" ∧ name ≠ "." ∧ name ≠ ".." ∧ '/' ∉ name.toList)
    ⟨fun h => ⟨h.1, h.2.1, h.2.2.1, h.2.2.2⟩, fun h => ⟨h.1, h.2, h.3, h.4⟩⟩

theorem IsName.ofSegment? {name : String} (h : IsName name) :
    Component.ofSegment? name = some (.name name) := by
  unfold Component.ofSegment?
  rw [if_neg (not_or.2 ⟨h.ne_empty, h.ne_here⟩), if_neg h.ne_up]

theorem ofSegment?_empty : Component.ofSegment? "" = none := rfl

/-- The steps that segments stand for, on an absolute or a relative path. -/
def stepsOf (absolute : Bool) (segs : List String) : List Component :=
  if absolute then .root :: segs.filterMap Component.ofSegment?
  else if segs.head? = some "." then .here :: segs.tail.filterMap Component.ofSegment?
  else segs.filterMap Component.ofSegment?

theorem components_eq (p : HostPath) : p.components = stepsOf p.isAbsolute (segments p.text) :=
  rfl

theorem stepsOf_append (absolute : Bool) {segs : List String} (hsegs : segs ≠ [])
    (seg : String) :
    stepsOf absolute (segs ++ [seg]) = stepsOf absolute segs ++
      (Component.ofSegment? seg).toList := by
  have hlast : [seg].filterMap Component.ofSegment? = (Component.ofSegment? seg).toList := by
    cases h : Component.ofSegment? seg with
    | none => exact List.filterMap_cons_none h
    | some step => exact List.filterMap_cons_some h
  have hhead : (segs ++ [seg]).head? = segs.head? := by
    rw [List.head?_append, Option.or_of_isSome (List.isSome_head?.2 hsegs)]
  have htail : (segs ++ [seg]).tail = segs.tail ++ [seg] := List.tail_append_of_ne_nil hsegs
  unfold stepsOf
  rw [hhead, htail, List.filterMap_append, List.filterMap_append, hlast]
  split
  · rfl
  · split <;> rfl

theorem segments_ne_nil (s : String) : segments s ≠ [] := by
  unfold segments
  exact mt List.map_eq_nil_iff.1 (Text.splitOn_ne_nil '/' s.toList)

theorem segments_append_slash (s : String) {name : String} (h : '/' ∉ name.toList) :
    segments (s ++ "/" ++ name) = segments s ++ [name] := by
  unfold segments
  have hchars : (s ++ "/" ++ name).toList = s.toList ++ '/' :: name.toList := by simp
  rw [hchars, Text.splitOn_append_cons, Text.splitOn_of_not_mem h, List.map_append]
  simp

theorem isAbsolute_eq (s : String) :
    (HostPath.mk s).isAbsolute = (s.toList.head? == some '/') := by
  unfold isAbsolute Text.startsWith
  cases s.toList with
  | nil => rfl
  | cons c cs =>
    show ('/' == c && true) = (some c == some '/')
    rw [Bool.and_true, Option.some_beq_some, Bool.beq_comm]

theorem isAbsolute_append {s : String} (hs : s ≠ "") (more : String) :
    (HostPath.mk (s ++ more)).isAbsolute = (HostPath.mk s).isAbsolute := by
  have hchars : s.toList ≠ [] := mt String.toList_eq_nil_iff.1 hs
  rw [isAbsolute_eq, isAbsolute_eq, String.toList_append, List.head?_append,
    Option.or_of_isSome (List.isSome_head?.2 hchars)]

theorem not_isAbsolute {name : String} (h : '/' ∉ name.toList) :
    (HostPath.mk name).isAbsolute = false := by
  rw [isAbsolute_eq, beq_eq_false_iff_ne]
  exact fun hhead => h (List.mem_of_head? hhead)

theorem segments_of_no_slash {name : String} (h : '/' ∉ name.toList) :
    segments name = [name] := by
  unfold segments
  rw [Text.splitOn_of_not_mem h, List.map_singleton, String.ofList_toList]

theorem components_name {name : String} (h : IsName name) :
    (HostPath.mk name).components = [.name name] := by
  rw [components_eq, segments_of_no_slash h.no_slash, not_isAbsolute h.no_slash]
  simp [stepsOf, h.ne_here, h.ofSegment?]

theorem exists_of_endsWith {s : String} (h : Text.endsWith s "/" = true) :
    ∃ a, s = a ++ "/" := by
  unfold Text.endsWith at h
  rw [List.isSuffixOf_iff_suffix] at h
  obtain ⟨chars, hchars⟩ := h
  refine ⟨String.ofList chars, ?_⟩
  apply String.toList_inj.1
  simpa using hchars.symm

theorem components_join (p : HostPath) {name : String} (h : IsName name) :
    (p.join ⟨name⟩).components = p.components ++ [.name name] := by
  have hstep : (Component.ofSegment? name).toList = [.name name] := by rw [h.ofSegment?]; rfl
  unfold join
  rw [not_isAbsolute h.no_slash]
  by_cases hempty : p.text = ""
  · obtain ⟨text⟩ := p
    subst hempty
    have hnone : (HostPath.mk "").components = [] := by decide
    rw [hnone]
    simpa using components_name h
  by_cases hslash : Text.endsWith p.text "/" = true
  · -- The path ends with an empty segment, which is no step.
    obtain ⟨a, ha⟩ := exists_of_endsWith hslash
    have hjoin : segments (p.text ++ name) = segments a ++ [name] := by
      rw [ha]
      exact segments_append_slash a h.no_slash
    have hself : segments p.text = segments a ++ [""] := by
      rw [ha]
      have hblank : '/' ∉ "".toList := by simp
      simpa using segments_append_slash a hblank
    simp only [hslash, or_true, if_true, Bool.false_eq_true, if_false, components_eq,
      isAbsolute_append hempty, hjoin, hself, stepsOf_append _ (segments_ne_nil a), hstep,
      ofSegment?_empty, Option.toList_none, List.append_nil]
  · simp only [hempty, hslash, or_self, Bool.false_eq_true, if_false, components_eq,
      String.append_assoc, isAbsolute_append hempty]
    rw [← String.append_assoc, segments_append_slash _ h.no_slash,
      stepsOf_append _ (segments_ne_nil _), hstep]

/-- The place of a name below a directory is that of the directory with the name after it. -/
theorem location_join (p : HostPath) {name : String} (h : IsName name) :
    (p.join ⟨name⟩).location = p.location ++ [name] := by
  unfold location cleanComponents
  rw [components_join p h, List.foldl_append]
  simp [cleanStep]

theorem not_endsWith_of_isName {name : String} (h : IsName name) (start : String) :
    ¬(start ++ name = "" ∨ Text.endsWith (start ++ name) "/" = true) := by
  have hne : name.toList ≠ [] := mt String.toList_eq_nil_iff.1 h.ne_empty
  rintro (hempty | hslash)
  · have hchars := congrArg String.toList hempty
    rw [String.toList_append] at hchars
    exact hne (List.append_eq_nil_iff.1 hchars).2
  · obtain ⟨a, ha⟩ := exists_of_endsWith hslash
    have hchars : start.toList ++ name.toList = a.toList ++ ['/'] := by
      rw [← String.toList_append, ha, String.toList_append]
      rfl
    have hlast : name.toList.getLast? = some '/' := by
      rw [← List.getLast?_concat, ← hchars, List.getLast?_append, Option.or_of_isSome]
      exact Option.isSome_iff_ne_none.2 (mt List.getLast?_eq_none_iff.1 hne)
    exact h.no_slash (List.mem_of_getLast? hlast)

/-- What stands before a relative path that is appended to a path. -/
def opening (p : HostPath) : String :=
  if p.text = "" ∨ Text.endsWith p.text "/" then p.text else p.text ++ "/"

theorem join_relative (p : HostPath) {q : HostPath} (h : q.isAbsolute = false) :
    p.join q = ⟨p.opening ++ q.text⟩ := by
  unfold join opening
  rw [h]
  split
  · next hfalse => cases hfalse
  · split
    · rfl
    · rfl

/-- Going down by a path is going down by its first name and then by what follows it. -/
theorem join_slash (p : HostPath) {name rest : String} (h : IsName name)
    (hrest : (HostPath.mk rest).isAbsolute = false) :
    p.join ⟨name ++ "/" ++ rest⟩ = (p.join ⟨name⟩).join ⟨rest⟩ := by
  have hpath : (HostPath.mk (name ++ "/" ++ rest)).isAbsolute = false := by
    rw [String.append_assoc, isAbsolute_append h.ne_empty, not_isAbsolute h.no_slash]
  have hopening : (HostPath.mk (p.opening ++ name)).opening = p.opening ++ name ++ "/" :=
    if_neg (not_endsWith_of_isName h p.opening)
  rw [join_relative p hpath, join_relative _ hrest, join_relative p (not_isAbsolute h.no_slash),
    hopening]
  simp only [String.append_assoc]

theorem not_isAbsolute_intercalate {names : List String} (h : ∀ name ∈ names, IsName name) :
    (HostPath.mk (String.intercalate "/" names)).isAbsolute = false := by
  cases names with
  | nil => rfl
  | cons name names =>
    have hname : IsName name := h name List.mem_cons_self
    cases names with
    | nil =>
      rw [String.intercalate_singleton]
      exact not_isAbsolute hname.no_slash
    | cons next names =>
      rw [String.intercalate_cons_cons, String.append_assoc, isAbsolute_append hname.ne_empty]
      exact not_isAbsolute hname.no_slash

/-- A path of names below a path leads to its place, and from there down by the names. -/
theorem location_join_intercalate (p : HostPath) {names : List String}
    (h : ∀ name ∈ names, IsName name) (hne : names ≠ []) :
    (p.join ⟨String.intercalate "/" names⟩).location = p.location ++ names := by
  induction names generalizing p with
  | nil => exact absurd rfl hne
  | cons name names ih =>
    have hname := h name List.mem_cons_self
    have hnames := fun other hother => h other (List.mem_cons_of_mem _ hother)
    cases names with
    | nil => rw [String.intercalate_singleton, location_join p hname]
    | cons next names =>
      rw [String.intercalate_cons_cons, join_slash p hname (not_isAbsolute_intercalate hnames),
        ih _ hnames (List.cons_ne_nil _ _),
        location_join p hname, List.append_assoc]
      rfl

theorem components_join_empty (p : HostPath) : (p.join ⟨""⟩).components = p.components := by
  rw [join_relative p (q := ⟨""⟩) rfl, opening]
  split
  · rw [String.append_empty]
  · next hopen =>
    rw [not_or] at hopen
    have hblank : '/' ∉ "".toList := by simp
    rw [components_eq, components_eq, segments_append_slash p.text hblank,
      stepsOf_append _ (segments_ne_nil _), ofSegment?_empty, Option.toList_none,
        List.append_nil,
      String.append_assoc, isAbsolute_append hopen.1]

theorem location_join_empty (p : HostPath) : (p.join ⟨""⟩).location = p.location := by
  unfold location cleanComponents
  rw [components_join_empty]

end HostPath

end WebBundler
