import WebBundler.Proofs.Path.Containment
set_option autoImplicit false

/-!
# What lies below a directory, segment by segment

`QueryPath.within` looks at characters: the spelling of the directory must stand at the start of
the path, with a slash behind it.  Cutting at slashes and putting the pieces together again are
inverse, so this says the same as that the segments of the directory are a proper start of those
of the path (`segments_isPrefix_iff`).  The slash is what keeps a directory apart from those
whose names are longer (`not_within_of_longer_name`).
-/

namespace WebBundler

namespace HostPath

/-- The segments of a text are a proper start of those of another one exactly if the text stands
at the start of the other one, with a slash behind it. -/
theorem segments_isPrefix_iff {s t : String} :
    segments s <+: segments t ∧ segments s ≠ segments t ↔ ∃ more, t = s ++ "/" ++ more := by
  constructor
  · rintro ⟨⟨rest, hrest⟩, hproper⟩
    have hne : rest ≠ [] := by
      rintro rfl
      exact hproper (by rw [← hrest, List.append_nil])
    refine ⟨String.intercalate "/" rest, ?_⟩
    calc t = String.intercalate "/" (segments t) := (intercalate_segments t).symm
      _ = String.intercalate "/" (segments s ++ rest) := by rw [hrest]
      _ = String.intercalate "/" (segments s) ++ "/" ++ String.intercalate "/" rest :=
        String.intercalate_append_of_ne_nil (segments_ne_nil s) hne
      _ = s ++ "/" ++ String.intercalate "/" rest := by rw [intercalate_segments]
  · rintro ⟨more, rfl⟩
    rw [segments_append_cons]
    refine ⟨List.prefix_append _ _, fun hsame => segments_ne_nil more ?_⟩
    exact List.append_right_eq_self.1 hsame.symm

end HostPath

namespace QueryPath

open HostPath (segments)

theorem exists_trimStartChar_eq (path : String) :
    ∃ more, Text.trimStartChar '/' path = Text.trimChar '/' path ++ more := by
  obtain ⟨rest, hrest⟩ := Text.dropEnd_prefix (· == '/') (Text.dropStart (· == '/') path.toList)
  refine ⟨String.ofList rest, String.toList_inj.1 ?_⟩
  unfold Text.trimStartChar Text.trimChar Text.strip
  rw [String.toList_append, String.toList_ofList, String.toList_ofList, String.toList_ofList,
    hrest]

/-- Where the name of a directory goes on without a slash, nothing lies below the directory. -/
theorem not_within_of_longer_name {path dir suffix more : String} (hne : suffix ≠ "")
    (hslash : '/' ∉ suffix.toList)
    (hpath : Text.trimStartChar '/' path = Text.trimChar '/' dir ++ suffix ++ more) :
    within path dir = false := by
  refine Bool.eq_false_iff.2 fun hwithin => hslash ?_
  obtain ⟨-, below, hbelow⟩ := within_iff.1 hwithin
  have hbehind : suffix.toList ++ more.toList = '/' :: below.toList := by
    have hchars := congrArg String.toList (hpath.symm.trans hbelow)
    simpa [String.toList_append, List.append_assoc] using hchars
  cases hsuffix : suffix.toList with
  | nil => exact absurd (String.toList_inj.1 hsuffix) hne
  | cons first rest =>
    rw [hsuffix, List.cons_append] at hbehind
    rw [(List.cons.inj hbehind).1]
    exact List.mem_cons_self

/-- **Lying below a directory is a matter of segments.**  A path lies below a directory exactly
if the directory is more than slashes and its segments, less the slashes around it, are a proper
start of those of the path, less the slashes at its start.  So what lies below a directory lies
below all that this directory lies below.  A directory whose name only starts with that of
another does not lie below it, and neither does anything inside the first. -/
theorem within_by_segments :
    (∀ path dir : String, within path dir = true ↔
      Text.trimChar '/' dir ≠ "" ∧
        segments (Text.trimChar '/' dir) <+: segments (Text.trimStartChar '/' path) ∧
        segments (Text.trimChar '/' dir) ≠ segments (Text.trimStartChar '/' path)) ∧
      (∀ (p : QueryPath) (dir base : String),
        p.isWithin dir = true → within dir base = true → p.isWithin base = true) ∧
      ∀ dir other suffix : String, suffix ≠ "" → '/' ∉ suffix.toList →
        Text.trimChar '/' other = Text.trimChar '/' dir ++ suffix →
          within other dir = false ∧ ∀ path, within path other = true →
          within path dir = false := by
  refine ⟨fun path dir => ?_, fun p dir base hp hdir => within_trans hp hdir,
    fun dir other suffix hne hslash hother => ⟨?_, fun path hpath => ?_⟩⟩
  · rw [within_iff, HostPath.segments_isPrefix_iff]
  · obtain ⟨more, hmore⟩ := exists_trimStartChar_eq other
    rw [hother] at hmore
    exact not_within_of_longer_name hne hslash hmore
  · obtain ⟨-, more, hmore⟩ := within_iff.1 hpath
    rw [hother, String.append_assoc] at hmore
    exact not_within_of_longer_name hne hslash hmore

/-- A package inside a package, spelled with more slashes than it needs, and a directory whose
name goes on. -/
theorem within_by_segments_packages :
    (QueryPath.mk "/node_modules/a//lib.js").isWithin "//node_modules/a/" = true ∧
      within "//node_modules/a/" "node_modules" = true ∧
      (QueryPath.mk "/node_modules/a//lib.js").isWithin "node_modules" = true ∧
      Text.trimChar '/' "/node_modules_extra/" = Text.trimChar '/' "node_modules" ++ "_extra" ∧
      within "/node_modules_extra/a.js" "/node_modules_extra/" = true ∧
      within "/node_modules_extra/" "node_modules" = false ∧
      within "/node_modules_extra/a.js" "node_modules" = false := by
  obtain ⟨-, htrans, hlonger⟩ := within_by_segments
  have hinner : (QueryPath.mk "/node_modules/a//lib.js").isWithin "//node_modules/a/" =
    true := by decide
  have houter : within "//node_modules/a/" "node_modules" = true := by decide
  have hname : Text.trimChar '/' "/node_modules_extra/" =
      Text.trimChar '/' "node_modules" ++ "_extra" := by
    decide
  have hbelow : within "/node_modules_extra/a.js" "/node_modules_extra/" = true := by
    decide
  obtain ⟨hother, hnothing⟩ :=
    hlonger "node_modules" "/node_modules_extra/" "_extra" (by decide) (by decide) hname
  exact ⟨hinner, houter, htrans _ _ _ hinner houter, hname, hbelow, hother, hnothing _ hbelow⟩

end QueryPath

end WebBundler
