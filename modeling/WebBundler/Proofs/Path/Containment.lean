import Mathlib.Data.List.DropRight
import WebBundler.Proofs.Path.Descent
set_option autoImplicit false

/-!
# What lies below a directory

`QueryPath.within` compares the spelling of a path with that of a directory, less the slashes
around both.  Lying below is transitive (`within_trans`).  A canonical path can lie below a
directory only if the directory is spelled by names alone (`spelledByNames_of_within`): empty,
`.` and `..` segments and backslashes are resolved in the path, and compared letter by letter in
the directory.
-/

namespace WebBundler

namespace Text

theorem joinWith_map_toList (names : List String) :
    joinWith '/' (names.map String.toList) = (String.intercalate "/" names).toList := by
  induction names with
  | nil => rfl
  | cons name names ih =>
    cases names with
    | nil => rw [List.map_singleton, joinWith, String.intercalate_singleton]
    | cons next names =>
      rw [List.map_cons, List.map_cons, joinWith, String.intercalate_cons_cons, ← List.map_cons,
        ih]
      simp

theorem replaceChar_append (old new : Char) (s t : String) :
    replaceChar old new (s ++ t) = replaceChar old new s ++ replaceChar old new t := by
  apply String.toList_inj.1
  simp only [replaceChar, String.toList_append, String.toList_ofList, List.map_append]

/-- What is left of two texts without the characters at the end: all of the first, if it does
not end with such a character. -/
theorem dropEnd_append {p : Char → Bool} {s : List Char} (h : dropEnd p s = s)
    (more : List Char) :
    dropEnd p (s ++ more) = s ++ dropEnd p more := by
  unfold dropEnd at h ⊢
  rw [List.reverse_append, List.dropWhile_append]
  split
  · next hempty => rw [h, List.isEmpty_iff.1 hempty, List.reverse_nil, List.append_nil]
  · rw [List.reverse_append, List.reverse_reverse]

theorem dropEnd_dropEnd (p : Char → Bool) (s : List Char) :
    dropEnd p (dropEnd p s) = dropEnd p s := by
  unfold dropEnd
  rw [List.reverse_reverse, List.dropWhile_idempotent]

theorem dropEnd_cons (p : Char → Bool) (c : Char) (s : List Char) :
    dropEnd p (c :: s) = [] ∨ ∃ rest, dropEnd p (c :: s) = c :: rest := by
  have hprefix := dropEnd_prefix p (c :: s)
  cases hleft : dropEnd p (c :: s) with
  | nil => exact .inl rfl
  | cons first rest =>
    rw [hleft] at hprefix
    exact .inr ⟨rest, by rw [(List.cons_prefix_cons.1 hprefix).1]⟩

/-- One more character at the start of a stripped text is dropped again. -/
theorem strip_cons_strip {p : Char → Bool} {c : Char} (h : p c = true) (s : List Char) :
    strip p (c :: strip p s) = strip p s := by
  have hstart : dropStart p (strip p s) = strip p s := by
    unfold strip
    cases hs : dropStart p s with
    | nil => rfl
    | cons first rest =>
      have hfirst : p first = false := by
        have hhead := List.head?_dropWhile_not p s
        unfold dropStart at hs
        rw [hs] at hhead
        exact hhead
      rcases dropEnd_cons p first rest with hnone | ⟨more, hmore⟩
      · rw [hnone]
        rfl
      · rw [hmore, dropStart_eq_self hfirst]
  have hcons : strip p (c :: strip p s) = dropEnd p (dropStart p (strip p s)) := by
    conv_lhs => unfold strip dropStart
    rw [List.dropWhile_cons_of_pos h]
    rfl
  rw [hcons, hstart]
  exact dropEnd_dropEnd p _

end Text

namespace HostPath

theorem intercalate_segments (s : String) : String.intercalate "/" (segments s) = s := by
  apply String.toList_inj.1
  have hpieces : (segments s).map String.toList = Text.splitOn '/' s.toList := by
    unfold segments
    rw [List.map_map]
    exact (List.map_congr_left fun piece _ => String.toList_ofList).trans (List.map_id _)
  rw [← Text.joinWith_map_toList, hpieces, Text.joinWith_splitOn]

theorem segments_append_cons (s t : String) :
    segments (s ++ "/" ++ t) = segments s ++ segments t := by
  have hchars : (s ++ "/" ++ t).toList = s.toList ++ '/' :: t.toList := by simp
  unfold segments
  rw [hchars, Text.splitOn_append_cons, List.map_append]

theorem segments_intercalate {names : List String} (h : ∀ name ∈ names, '/' ∉ name.toList)
    (hne : names ≠ []) : segments (String.intercalate "/" names) = names := by
  induction names with
  | nil => exact absurd rfl hne
  | cons name names ih =>
    have hname := h name List.mem_cons_self
    have hnames := fun other hother => h other (List.mem_cons_of_mem _ hother)
    cases names with
    | nil => rw [String.intercalate_singleton, segments_of_no_slash hname]
    | cons next names =>
      rw [String.intercalate_cons_cons, segments_append_cons, segments_of_no_slash hname,
        ih hnames (List.cons_ne_nil _ _)]
      rfl

end HostPath

namespace QueryPath

open HostPath (segments)

/-! ## Spelling and place -/

/-- Below a directory there is its spelling, a slash and more. -/
theorem within_iff {path dir : String} :
    within path dir = true ↔ Text.trimChar '/' dir ≠ "" ∧
      ∃ more, Text.trimStartChar '/' path = Text.trimChar '/' dir ++ "/" ++ more := by
  unfold within
  dsimp only
  generalize Text.trimChar '/' dir = trimmed
  generalize Text.trimStartChar '/' path = start
  split
  · next hempty => simp [hempty]
  · next hne =>
    unfold Text.dropPrefix?
    constructor
    · intro h
      refine ⟨hne, ?_⟩
      split at h
      · next rest hrest =>
        split at hrest
        · next hprefix =>
          obtain ⟨chars, hchars⟩ := List.isPrefixOf_iff_prefix.1 hprefix
          rw [← hchars, ← String.length_toList, List.drop_left, Option.some_inj] at hrest
          unfold Text.startsWith at h
          rw [← hrest, String.toList_ofList, List.isPrefixOf_iff_prefix] at h
          obtain ⟨more, hmore⟩ := h
          rw [String.toList_ofList] at hmore
          refine ⟨String.ofList more, String.toList_inj.1 ?_⟩
          rw [← hchars, ← hmore]
          simp
        · cases hrest
      · cases h
    · rintro ⟨-, more, rfl⟩
      have hprefix : trimmed.toList.isPrefixOf (trimmed ++ "/" ++ more).toList = true := by
        rw [List.isPrefixOf_iff_prefix, String.append_assoc, String.toList_append]
        exact List.prefix_append _ _
      rw [if_pos hprefix, String.append_assoc, String.toList_append, ← String.length_toList,
        List.drop_left]
      simp [Text.startsWith]

/-- A directory without the slashes at its end, when it lies below another one: the other
directory, or that with a slash and more. -/
theorem exists_trimChar_of_trimStartChar {dir base more : String}
    (h : Text.trimStartChar '/' dir = Text.trimChar '/' base ++ "/" ++ more) :
    ∃ rest, Text.trimChar '/' dir ++ "/" = Text.trimChar '/' base ++ "/" ++ rest := by
  have htrimmed : (Text.trimChar '/' dir).toList =
      Text.dropEnd (· == '/') (Text.trimStartChar '/' dir).toList := by
    unfold Text.trimChar Text.strip Text.trimStartChar
    rw [String.toList_ofList, String.toList_ofList]
  have hbase : Text.dropEnd (· == '/') (Text.trimChar '/' base).toList =
      (Text.trimChar '/' base).toList := by
    unfold Text.trimChar Text.strip
    rw [String.toList_ofList, Text.dropEnd_dropEnd]
  rw [h, String.append_assoc, String.toList_append, Text.dropEnd_append hbase] at htrimmed
  have hslash : ("/" ++ more).toList = '/' :: more.toList := by simp
  rw [hslash] at htrimmed
  rcases Text.dropEnd_cons (· == '/') '/' more.toList with hnone | ⟨rest, hrest⟩
  · refine ⟨"", String.toList_inj.1 ?_⟩
    rw [String.toList_append, htrimmed, hnone]
    simp
  · refine ⟨String.ofList (rest ++ ['/']), String.toList_inj.1 ?_⟩
    rw [String.toList_append, htrimmed, hrest]
    simp

/-- What lies below a directory lies below all that the directory lies below. -/
theorem within_trans {path dir base : String} (hpath : within path dir = true)
    (hdir : within dir base = true) : within path base = true := by
  obtain ⟨-, more, hmore⟩ := within_iff.1 hpath
  obtain ⟨hbase, below, hbelow⟩ := within_iff.1 hdir
  obtain ⟨rest, hrest⟩ := exists_trimChar_of_trimStartChar hbelow
  refine within_iff.2 ⟨hbase, rest ++ more, ?_⟩
  rw [hmore, hrest, String.append_assoc]

/-! ## Directories that are spelled by names -/

/-- Between the slashes inside its spelling, the directory has names only. -/
def SpelledByNames (dir : String) : Prop := ∀ seg ∈ segments (Text.trimChar '/' dir), IsStep seg

instance (dir : String) : Decidable (SpelledByNames dir) :=
  inferInstanceAs (Decidable (∀ _ ∈ _, _))

/-- **Only what is spelled by names has a canonical path below it.** -/
theorem spelledByNames_of_within {raw dir : String} (h : within (normalize raw) dir = true) :
    SpelledByNames dir := by
  obtain ⟨names, hnames, hraw⟩ := exists_normalize_eq raw
  obtain ⟨-, more, hmore⟩ := within_iff.1 h
  rw [hraw, trimStartChar_pathOf fun name hname => (hnames name hname).isName] at hmore
  have hne : names ≠ [] := by
    rintro rfl
    have hchars := congrArg String.toList hmore
    simp at hchars
  have hsegments := congrArg segments hmore
  rw [HostPath.segments_intercalate (fun name hname => (hnames name hname).isName.no_slash) hne,
    HostPath.segments_append_cons] at hsegments
  intro seg hseg
  refine hnames seg ?_
  rw [hsegments]
  exact List.mem_append_left _ hseg

/-- The segments of a text, with backslashes read as slashes. -/
def slashedSegments (raw : String) : List String := segments (Text.replaceChar '\\' '/' raw)

theorem isStep_of_mem_slashedSegments {raw seg : String} (hseg : seg ∈ slashedSegments raw)
    (hempty : seg ≠ "") (hhere : seg ≠ ".") (hup : seg ≠ "..") : IsStep seg := by
  have hbackslash : '\\' ∉ (Text.replaceChar '\\' '/' raw).toList :=
    Text.not_mem_replaceChar raw (by decide)
  refine isStep_of_mem_segments hbackslash hseg ?_
  unfold HostPath.Component.ofSegment?
  rw [if_neg (not_or.2 ⟨hempty, hhere⟩), if_neg hup]

/-- The canonical form of a text whose segments are steps is the path down by its segments. -/
theorem normalize_of_steps {raw : String} (h : ∀ seg ∈ slashedSegments raw, IsStep seg) :
    normalize raw = pathOf (slashedSegments raw) := by
  have hslashed : Text.replaceChar '\\' '/' raw =
      String.intercalate "/" (slashedSegments raw) :=
    (HostPath.intercalate_segments _).symm
  have hnames : ∀ name ∈ slashedSegments raw, HostPath.IsName name :=
    fun name hname => (h name hname).isName
  have hrelative : (HostPath.mk (Text.replaceChar '\\' '/' raw)).isAbsolute = false := by
    rw [hslashed, HostPath.not_isAbsolute_intercalate hnames]
  unfold HostPath.isAbsolute at hrelative
  unfold normalize
  dsimp only at hrelative ⊢
  rw [if_neg (ne_true_of_eq_false hrelative)]
  apply clean_eq_of_kept
  rw [hslashed]
  show (HostPath.mk (pathOf (slashedSegments raw))).components.foldl HostPath.cleanStep [] = _
  have hkept := foldl_cleanStep_names [] (slashedSegments raw)
  rw [List.nil_append] at hkept
  rw [components_pathOf hnames, List.foldl_cons]
  exact hkept

/-- The canonical path of steps below a directory that is spelled by names. -/
theorem normalize_below {dir name : String} (hdir : SpelledByNames dir)
    (hname : ∀ seg ∈ slashedSegments name, IsStep seg) :
    normalize (Text.trimChar '/' dir ++ "/" ++ name) =
      pathOf (segments (Text.trimChar '/' dir) ++ slashedSegments name) := by
  have hplain : Text.replaceChar '\\' '/' (Text.trimChar '/' dir) = Text.trimChar '/' dir := by
    refine Text.replaceChar_of_not_mem fun hmem => ?_
    rw [← HostPath.intercalate_segments (Text.trimChar '/' dir)] at hmem
    rcases mem_intercalate hmem with hslash | ⟨seg, hseg, hmem⟩
    · cases hslash
    · exact (hdir seg hseg).no_backslash hmem
  have hsegments : slashedSegments (Text.trimChar '/' dir ++ "/" ++ name) =
      segments (Text.trimChar '/' dir) ++ slashedSegments name := by
    have hslashed : Text.replaceChar '\\' '/' (Text.trimChar '/' dir ++ "/" ++ name) =
        Text.trimChar '/' dir ++ "/" ++ Text.replaceChar '\\' '/' name := by
      rw [Text.replaceChar_append, Text.replaceChar_append, hplain]
      rfl
    unfold slashedSegments
    rw [hslashed, HostPath.segments_append_cons]
  rw [← hsegments]
  refine normalize_of_steps fun seg hseg => ?_
  rw [hsegments] at hseg
  rcases List.mem_append.1 hseg with hseg | hseg
  · exact hdir seg hseg
  · exact hname seg hseg

/-- **The canonical path of steps below a directory lies below it exactly if the directory is
spelled by names.** -/
theorem within_normalize_iff {dir name : String} (hne : Text.trimChar '/' dir ≠ "")
    (hname : ∀ seg ∈ slashedSegments name, IsStep seg) :
    within (normalize (Text.trimChar '/' dir ++ "/" ++ name)) dir = true ↔
      SpelledByNames dir := by
  refine ⟨spelledByNames_of_within, fun hdir =>
    within_iff.2 ⟨hne, String.intercalate "/" (slashedSegments name), ?_⟩⟩
  have hnames : ∀ seg ∈ segments (Text.trimChar '/' dir) ++ slashedSegments name,
      IsStep seg := by
    intro seg hseg
    rcases List.mem_append.1 hseg with hseg | hseg
    · exact hdir seg hseg
    · exact hname seg hseg
  have hsegments : slashedSegments name ≠ [] := HostPath.segments_ne_nil _
  rw [normalize_below hdir hname, trimStartChar_pathOf fun seg hseg => (hnames seg hseg).isName,
    String.intercalate_append_of_ne_nil (HostPath.segments_ne_nil _) hsegments,
      HostPath.intercalate_segments]

end QueryPath

end WebBundler
