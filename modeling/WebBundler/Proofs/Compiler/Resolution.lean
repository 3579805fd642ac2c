import WebBundler.Proofs.Path.Canonical
import WebBundler.Resolution
set_option autoImplicit false

/-!
# Resolutions that find a file

A specifier is resolved to a place, and a place to the first of its forms at which there is a
file.  The places are canonical, and so are their forms.  So the path of a resolution that finds
a file is the name of a file at a canonical path below the root (`exists_file_of_found`).
-/

namespace WebBundler

namespace QueryPath

theorem IsStep.append {name more : String} (h : IsStep name) (hslash : '/' ∉ more.toList)
    (hbackslash : '\\' ∉ more.toList) {c : Char} (hc : c ∈ more.toList) (hdot : c ≠ '.') :
    IsStep (name ++ more) := by
  have hnot : ∀ {d : Char}, d ∉ name.toList → d ∉ more.toList → d ∉ (name ++ more).toList := by
    intro d hname hmore
    rw [String.toList_append, List.mem_append, not_or]
    exact ⟨hname, hmore⟩
  have hmem : c ∈ (name ++ more).toList := by
    rw [String.toList_append]
    exact List.mem_append_right _ hc
  exact isStep_of_mem (hnot h.isName.no_slash hslash) (hnot h.no_backslash hbackslash) hmem hdot

theorem exists_pathOf_concat (front : List String) :
    ∃ start, ∀ name, pathOf (front ++ [name]) = start ++ name := by
  cases front with
  | nil =>
    refine ⟨"/", fun name => ?_⟩
    unfold pathOf
    rw [List.nil_append, String.intercalate_singleton]
  | cons first rest =>
    refine ⟨"/" ++ (String.intercalate "/" (first :: rest) ++ "/"), fun name => ?_⟩
    unfold pathOf
    rw [String.intercalate_append_of_ne_nil (List.cons_ne_nil _ _) (List.cons_ne_nil _ _),
      String.intercalate_singleton]
    simp only [String.append_assoc]

theorem pathOf_append_index {names : List String} (h : names ≠ []) (name : String) :
    pathOf (names ++ [name]) = pathOf names ++ "/" ++ name := by
  unfold pathOf
  rw [String.intercalate_append_of_ne_nil h (List.cons_ne_nil _ _),
    String.intercalate_singleton, String.append_assoc, String.append_assoc, String.append_assoc]

end QueryPath

namespace Resolver

open QueryPath

theorem trimEndChar_append {last : String} (h : IsStep last) (start : String) :
    Text.trimEndChar '/' (start ++ last) = start ++ last := by
  have hne : last.toList ≠ [] := mt String.toList_eq_nil_iff.1 h.isName.ne_empty
  obtain ⟨init, c, hc⟩ := (List.eq_nil_or_concat last.toList).resolve_left hne
  rw [List.concat_eq_append] at hc
  have hslash : (c == '/') = false := by
    have hmem : c ∈ last.toList := by
      rw [hc]
      exact List.mem_append_right _ List.mem_cons_self
    rw [beq_eq_false_iff_ne]
    rintro rfl
    exact h.isName.no_slash hmem
  unfold Text.trimEndChar
  rw [String.toList_append, hc, ← List.append_assoc,
    Text.dropEnd_append_singleton (p := fun x => x == '/') hslash,
    List.append_assoc, ← hc, ← String.toList_append, String.ofList_toList]

theorem trimEndChar_pathOf_concat {front : List String} {last : String} (h : IsStep last) :
    Text.trimEndChar '/' (pathOf (front ++ [last])) = pathOf (front ++ [last]) := by
  obtain ⟨start, hstart⟩ := exists_pathOf_concat front
  rw [hstart]
  exact trimEndChar_append h start

/-- The forms of a canonical place are canonical. -/
theorem normalize_of_mem_forms {place file : String} (hplace : normalize place = place)
    (hfile : file ∈ forms place) : normalize file = file := by
  obtain ⟨names, hnames, hpath⟩ := exists_normalize_eq place
  rw [hplace] at hpath
  subst hpath
  rcases List.eq_nil_or_concat names with rfl | ⟨front, last, rfl⟩
  · have hroot : ∀ file ∈ forms (pathOf []), normalize file = file := by decide
    exact hroot file hfile
  rw [List.concat_eq_append] at hnames hfile hplace
  have hfront : ∀ name ∈ front, IsStep name :=
    fun name hname => hnames name (List.mem_append_left _ hname)
  have hlast : IsStep last := hnames last (List.mem_append_right _ List.mem_cons_self)
  have hscript : pathOf (front ++ [last]) ++ ".js" = pathOf (front ++ [last ++ ".js"]) := by
    obtain ⟨start, hstart⟩ := exists_pathOf_concat front
    rw [hstart, hstart, String.append_assoc]
  have hindex : Text.trimEndChar '/' (pathOf (front ++ [last])) ++ "/index.js" =
      pathOf (front ++ [last] ++ ["index.js"]) := by
    rw [trimEndChar_pathOf_concat hlast, pathOf_append_index (List.concat_ne_nil last front)]
    rw [String.append_assoc]
    rfl
  unfold forms at hfile
  rw [hscript, hindex] at hfile
  simp only [List.mem_cons, List.not_mem_nil, or_false] at hfile
  rcases hfile with rfl | rfl | rfl
  · exact hplace
  · apply normalize_pathOf
    have hjs : IsStep (last ++ ".js") :=
      hlast.append (by decide) (by decide) (c := 'j') (by decide) (by decide)
    intro name hname
    rcases List.mem_append.1 hname with hname | hname
    · exact hfront name hname
    · rwa [List.mem_singleton.1 hname]
  · apply normalize_pathOf
    intro name hname
    rcases List.mem_append.1 hname with hname | hname
    · exact hnames name hname
    · rw [List.mem_singleton.1 hname]
      exact ⟨by decide, by decide⟩

section Found

variable {r : Resolver} {t : FileTree} {place file : String} {res : Resolution}

/-- There is a regular file at a canonical path below the root, and the path is a name for
it. -/
def Finds (r : Resolver) (t : FileTree) (name : QueryPath) : Prop :=
  ∃ file, normalize file = file ∧ (Lookup.isFile (r.root.below file)).answer t = true ∧
    ofText? file = some name

theorem mem_of_firstFile {places : List String}
    (h : (r.firstFile places).answer t = some file) :
    file ∈ places ∧ (Lookup.isFile (r.root.below file)).answer t = true := by
  induction places with
  | nil => cases h
  | cons place places ih =>
    rw [firstFile, Lookup.answer_bind] at h
    split at h
    · next hfile =>
      cases h
      exact ⟨List.mem_cons_self, hfile⟩
    · exact ⟨List.mem_cons_of_mem _ (ih h).1, (ih h).2⟩

/-- A place that is settled with a file has the name of the file. -/
theorem finds_of_settle {found : Option String} (h : settle place found = some res)
    (hkind : res.kind = .found) : ∃ file, found = some file ∧ ofText? file = some res.path := by
  cases found with
  | none =>
    obtain ⟨path, -, rfl⟩ := Option.map_eq_some_iff.1 h
    cases hkind
  | some file =>
    obtain ⟨path, hpath, rfl⟩ := Option.map_eq_some_iff.1 h
    exact ⟨file, rfl, hpath⟩

/-- A canonical place is resolved to a file that is there. -/
theorem finds_of_resolvePlace (hplace : normalize place = place)
    (h : (r.resolvePlace place).answer t = some res) (hkind : res.kind = .found) :
    r.Finds t res.path := by
  obtain ⟨file, hfile, hname⟩ := finds_of_settle h hkind
  obtain ⟨hform, hthere⟩ := mem_of_firstFile hfile
  exact ⟨file, normalize_of_mem_forms hplace hform, hthere, hname⟩

/-- The index of a package directory is resolved to a file that is there.  The root as a package
directory has an index with two slashes before its name, which is the one with a single
slash. -/
theorem finds_of_resolveIndex {packageDir : String} (hdir : normalize packageDir = packageDir)
    (h : (r.resolvePlace (packageDir ++ "/index.js")).answer t = some res)
    (hkind : res.kind = .found) :
    r.Finds t res.path := by
  obtain ⟨names, hnames, hpath⟩ := exists_normalize_eq packageDir
  rw [hdir] at hpath
  subst hpath
  by_cases hroot : names = []
  · subst hroot
    obtain ⟨file, hfile, hname⟩ := finds_of_settle h hkind
    obtain ⟨hform, hthere⟩ := mem_of_firstFile hfile
    have hsingle : ∀ file ∈ forms (pathOf [] ++ "/index.js"), ∃ single,
        normalize single = single ∧
        Text.trimStartChar '/' file = Text.trimStartChar '/' single ∧
        ofText? file = ofText? single := by
      have hforms : ∀ file ∈ forms (pathOf [] ++ "/index.js"),
          normalize (normalize file) = normalize file ∧
          Text.trimStartChar '/' file = Text.trimStartChar '/' (normalize file) ∧
          ofText? file = ofText? (normalize file) := by decide +kernel
      exact fun file hfile => ⟨_, hforms file hfile⟩
    obtain ⟨single, hcanonical, htrim, htext⟩ := hsingle file hform
    have hbelow : r.root.below file = r.root.below single := by
      unfold HostPath.below
      rw [htrim]
    rw [hbelow] at hthere
    rw [htext] at hname
    exact ⟨single, hcanonical, hthere, hname⟩
  · have hindex : pathOf names ++ "/index.js" = pathOf (names ++ ["index.js"]) := by
      rw [pathOf_append_index hroot, String.append_assoc]
      rfl
    rw [hindex] at h
    refine finds_of_resolvePlace (normalize_pathOf ?_) h hkind
    intro name hname
    rcases List.mem_append.1 hname with hname | hname
    · exact hnames name hname
    · rw [List.mem_singleton.1 hname]
      exact ⟨by decide, by decide⟩

theorem finds_of_resolvePackage {specifier : String}
    (h : (r.resolvePackage specifier).answer t = some res) (hkind : res.kind = .found) :
    r.Finds t res.path := by
  unfold resolvePackage at h
  dsimp only at h
  split at h
  · unfold resolveEntry at h
    rw [Lookup.answer_bind] at h
    split at h
    · rw [Lookup.answer_bind] at h
      split at h
      · next file hfile =>
        rw [Lookup.answer_pure] at h
        obtain ⟨found, hsame, hname⟩ := finds_of_settle h hkind
        cases hsame
        obtain ⟨hform, hthere⟩ := mem_of_firstFile hfile
        exact ⟨file, normalize_of_mem_forms (normalize_normalize _) hform, hthere, hname⟩
      · exact finds_of_resolveIndex (normalize_normalize _) h hkind
    · exact finds_of_resolveIndex (normalize_normalize _) h hkind
  · exact finds_of_resolvePlace (normalize_normalize _) h hkind

/-- **A resolution that finds a file names one that is there.** -/
theorem exists_file_of_found {specifier : String} {referrer : QueryPath}
    (h : (r.resolve specifier referrer).answer t = some res) (hkind : res.kind = .found) :
    r.Finds t res.path := by
  unfold resolve at h
  dsimp only at h
  split at h
  · cases h
  · split at h
    · rw [Lookup.answer_pure] at h
      obtain ⟨path, -, rfl⟩ := Option.map_eq_some_iff.1 h
      cases hkind
    · split at h
      · exact finds_of_resolvePlace (normalize_normalize _) h hkind
      · split at h
        · exact finds_of_resolvePlace (normalize_normalize _) h hkind
        · exact finds_of_resolvePackage h hkind

/-- The name of a file that is there is canonical but for blanks at its end. -/
theorem Finds.normalize_text {name : QueryPath} (h : r.Finds t name) :
    normalize name.text = name.text := by
  obtain ⟨file, hfile, -, hname⟩ := h
  obtain ⟨rest, hrest⟩ := exists_toList_normalize file
  rw [hfile] at hrest
  unfold ofText? at hname
  rw [ofText_of_slash hrest] at hname
  have htext : QueryPath.mk (normalize (Text.trim file)) = name := Option.some.inj hname
  rw [← htext, normalize_normalize]

end Found

end Resolver

end WebBundler
