import WebBundler.Proofs.Build.Runs
import WebBundler.Proofs.Compiler.Standard
import WebBundler.Proofs.FileTree.Writing
import WebBundler.Proofs.Path.Containment
import WebBundler.Proofs.Path.Rereading
set_option autoImplicit false

/-!
# The files of an application

A file below the root has the path of the names that lead to it, and this path names it in the
build, as long as no name holds a backslash and no blank ends the last one
(`NoBackslashOrEndBlank`).  So no two files that a walk finds have one name (`eq_of_ofText`).

A full build also goes into the directory of dependencies.  Outside of it both builds find the
same files (`mem_files_smartWalk`).
-/

namespace WebBundler

open HostPath (IsName)
open QueryPath (IsStep pathOf within)

/-! ## Paths of plain names -/

namespace Text

theorem last_of_dropEnd {p : Char → Bool} {init : List Char} {c : Char}
    (h : dropEnd p (init ++ [c]) = init ++ [c]) : p c = false := by
  unfold dropEnd at h
  rw [← List.reverse_inj, List.reverse_reverse] at h
  have hhead := List.head?_dropWhile_not p (init ++ [c]).reverse
  rw [h, List.reverse_concat] at hhead
  exact hhead

theorem trimEnd_eq_self_iff {s : String} {init : List Char} {c : Char}
    (h : s.toList = init ++ [c]) :
    trimEnd s = s ↔ isBlank c = false := by
  unfold trimEnd
  rw [← String.toList_inj, String.toList_ofList, h]
  exact ⟨last_of_dropEnd, dropEnd_append_singleton⟩

end Text

/-- No name on a way down holds a backslash, which is read as a slash, and no blank ends the
last one, which is dropped. -/
structure QueryPath.NoBackslashOrEndBlank (names : List String) : Prop where
  no_backslash : ∀ name ∈ names, '\\' ∉ name.toList
  no_blank : ∀ name ∈ names.getLast?, Text.trimEnd name = name

namespace QueryPath

instance (names : List String) : Decidable (NoBackslashOrEndBlank names) :=
  decidable_of_iff
    ((∀ name ∈ names, '\\' ∉ name.toList) ∧ ∀ name ∈ names.getLast?, Text.trimEnd name = name)
    ⟨fun h => ⟨h.1, h.2⟩, fun h => ⟨h.1, h.2⟩⟩

theorem trimEnd_pathOf_iff {names : List String} (h : ∀ name ∈ names, IsName name) :
    Text.trimEnd (pathOf names) = pathOf names ↔
      ∀ name ∈ names.getLast?, Text.trimEnd name = name := by
  rcases List.eq_nil_or_concat names with rfl | ⟨front, last, rfl⟩
  · exact iff_of_true (by decide) fun name hname => nomatch hname
  · rw [List.concat_eq_append] at h ⊢
    have hlast := h last (List.mem_append_right _ List.mem_cons_self)
    obtain ⟨start, hstart⟩ := exists_pathOf_concat front
    obtain ⟨init, c, hc⟩ := (List.eq_nil_or_concat last.toList).resolve_left
      (mt String.toList_eq_nil_iff.1 hlast.ne_empty)
    rw [List.concat_eq_append] at hc
    have hend : (pathOf (front ++ [last])).toList = (start.toList ++ init) ++ [c] := by
      rw [hstart, String.toList_append, hc, List.append_assoc]
    rw [Text.trimEnd_eq_self_iff hend, ← Text.trimEnd_eq_self_iff hc, List.getLast?_concat]
    exact ⟨fun hsame name hname => by rwa [← Option.mem_some_iff.1 hname],
      fun hall => hall last rfl⟩

/-- A path whose last name no blank ends names itself. -/
theorem ofText_pathOf {names : List String} (h : ∀ name ∈ names, IsStep name)
    (hplain : NoBackslashOrEndBlank names) : ofText (pathOf names) = .ok ⟨pathOf names⟩ := by
  have htrim : Text.trim (pathOf names) = pathOf names := by
    rw [Text.trim_eq_trimEnd (toList_pathOf names) (by decide),
      trimEnd_pathOf_iff fun name hname => (h name hname).isName]
    exact hplain.no_blank
  rw [ofText_of_slash (toList_pathOf names), htrim, normalize_pathOf h]

theorem trimChar_pathOf {names : List String} (h : ∀ name ∈ names, IsStep name) :
    Text.trimChar '/' (pathOf names) = String.intercalate "/" names := by
  have hstart :=
    congrArg String.toList (trimStartChar_pathOf fun name hname => (h name hname).isName)
  unfold Text.trimStartChar at hstart
  rw [String.toList_ofList] at hstart
  unfold Text.trimChar Text.strip
  rw [hstart, ← String.toList_inj, String.toList_ofList]
  rcases List.eq_nil_or_concat names with rfl | ⟨front, name, rfl⟩
  · rfl
  · rw [List.concat_eq_append] at h ⊢
    have hend : Text.trimEndChar '/' (pathOf (front ++ [name])) = pathOf (front ++ [name]) :=
      Resolver.trimEndChar_pathOf_concat (h name (List.mem_append_right _ List.mem_cons_self))
    rw [← String.toList_inj] at hend
    unfold Text.trimEndChar at hend
    rw [String.toList_ofList, toList_pathOf] at hend
    rcases List.eq_nil_or_concat
      (String.intercalate "/" (front ++ [name])).toList with hnil | ⟨init, c, hc⟩
    · rw [hnil]
      rfl
    · rw [List.concat_eq_append] at hc
      rw [hc] at hend ⊢
      have hkept : Text.dropEnd (· == '/') ('/' :: init ++ [c]) = '/' :: init ++ [c] := hend
      exact Text.dropEnd_append_singleton (Text.last_of_dropEnd (p := (· == '/')) hkept)

theorem within_pathOf_append {front rest : List String}
    (h : ∀ name ∈ front ++ rest, IsStep name) (hfront : front ≠ []) (hrest : rest ≠ []) :
    within (pathOf (front ++ rest)) (pathOf front) = true := by
  have hnames : ∀ name ∈ front, IsStep name :=
    fun name hname => h name (List.mem_append_left _ hname)
  have hne : String.intercalate "/" front ≠ "" := by
    intro hempty
    have hroot : pathOf front = pathOf [] := congrArg ("/" ++ ·) hempty
    exact hfront ((HostPath.pathOf_inj (fun name hname => (hnames name hname).isName)
      (by simp)).1 hroot)
  rw [within_iff, trimChar_pathOf hnames, trimStartChar_pathOf fun name hname =>
    (h name hname).isName]
  exact ⟨hne, _, String.intercalate_append_of_ne_nil hfront hrest⟩

end QueryPath

/-- No name below a root holds a backslash, and no blank ends the name of an entry. -/
def FileTree.NoBackslashOrEndBlank (t : FileTree) (root : HostPath) : Prop :=
  ∀ names node, (root.location ++ names, node) ∈ t.entries →
    QueryPath.NoBackslashOrEndBlank names

theorem FileTree.noBackslashOrEndBlank_of_entries {t : FileTree} (root : HostPath)
    (h : ∀ entry ∈ t.entries, ∀ name ∈ entry.1, '\\' ∉ name.toList ∧ Text.trimEnd name = name) :
    t.NoBackslashOrEndBlank root := by
  intro names node hentry
  have hnames := fun name hname => h _ hentry name (List.mem_append_right root.location hname)
  exact ⟨fun name hname => (hnames name hname).1,
    fun name hname => (hnames name (List.mem_of_getLast? hname)).2⟩

/-! ## What is entered and found -/

namespace Walk

variable {σ : Type} {w w' : Walk σ} {t : FileTree} {dir : HostPath} {file : WalkedFile}

/-- The way down to a directory that is entered. -/
theorem Entered.exists_under (hnamed : t.Named) (h : w.Entered t dir) :
    ∃ names, (∀ name ∈ names, IsName name) ∧ dir = w.source.under names := by
  induction h with
  | source hdir => exact ⟨[], fun name hname => absurd hname List.not_mem_nil, rfl⟩
  | inside hdir hsub ih =>
    obtain ⟨names, hnames, rfl⟩ := ih
    obtain ⟨name, hname, -, rfl⟩ := mem_subdirsIn.1 hsub
    exact ⟨names ++ [name], List.forall_mem_append.2
      ⟨hnames, List.forall_mem_singleton.2 (hnamed.isName hname)⟩,
        (HostPath.under_concat w.source names name).symm⟩

/-- The way down to a file that is found, and what is there. -/
theorem Found.exists_under (hnamed : t.Named) (h : w.Found t file) :
    ∃ names node, (∀ name ∈ names, IsName name) ∧ file = w.fileAt (w.source.under names) ∧
      node ≠ .dir ∧
      t.look (w.source.under names).location = .ok node := by
  cases h with
  | source hsource hnode =>
    exact ⟨[], _, fun name hname => absurd hname List.not_mem_nil, rfl, hnode,
      FileTree.attempt_eq_ok hsource⟩
  | @inside dir name hdir hname hfile =>
    obtain ⟨names, hnames, rfl⟩ := hdir.exists_under hnamed
    rw [← HostPath.under_concat] at hfile ⊢
    obtain ⟨content, hnode⟩ := FileTree.exists_content_of_isRegular hfile
    exact ⟨names ++ [name], .file content,
      List.forall_mem_append.2 ⟨hnames, List.forall_mem_singleton.2 (hnamed.isName hname)⟩, rfl,
        nofun,
      FileTree.attempt_eq_ok hnode⟩

/-- A walk that goes into more directories finds more. -/
theorem Entered.mono (hroot : w.root = w'.root) (hsource : w.source = w'.source)
    (henters : ∀ path, w.enters path = true → w'.enters path = true) (h : w.Entered t dir) :
    w'.Entered t dir := by
  induction h with
  | source hdir =>
    rw [hsource] at hdir ⊢
    exact .source hdir
  | inside hdir hsub ih =>
    obtain ⟨name, hname, hgoes, rfl⟩ := mem_subdirsIn.1 hsub
    refine .inside ih (mem_subdirsIn.2 ⟨name, hname, ?_, rfl⟩)
    unfold goesInto at hgoes ⊢
    rw [← hroot]
    split at hgoes
    · exact henters _ hgoes
    · cases hgoes

end Walk

namespace Project

variable {p : Project} {d : Destination} {t : FileTree} {enters : String → Bool}
  {visit : Visitor Workspace} {file other : WalkedFile} {path : QueryPath}

/-- The walked directory is the root of the project or lies below it. -/
def WalksInside (p : Project) : Prop :=
  ∃ base, (∀ name ∈ base, IsName name) ∧ p.source = p.config.root.under base

/-! ## The names of files -/

/-- A file that is found lies below the root by the names that lead to it. -/
theorem exists_under_of_found (hnamed : t.Named) (hinside : p.WalksInside)
    (h : (p.walk enters visit).Found t file) :
    ∃ names node, (∀ name ∈ names, IsName name) ∧
      file = ⟨p.config.root.under names, HostPath.relativeTo p.config.root
        (p.config.root.under names)⟩ ∧
      node ≠ .dir ∧ t.look (p.config.root.under names).location = .ok node := by
  obtain ⟨base, hbase, hsource⟩ := hinside
  obtain ⟨names, node, hnames, rfl, hnode, hlook⟩ := h.exists_under hnamed
  have hunder : p.source.under names = p.config.root.under (base ++ names) := by
    rw [hsource]
    exact List.foldl_append.symm
  refine ⟨base ++ names, node, List.forall_mem_append.2 ⟨hbase, hnames⟩, ?_, hnode,
    hunder ▸ hlook⟩
  rw [← hunder]
  rfl

/-- A file that is found has the path of the names that lead to it from the root, and this path
names it. -/
theorem exists_names_of_found (hnamed : t.Named)
    (hplain : t.NoBackslashOrEndBlank p.config.root) (hinside : p.WalksInside)
    (h : (p.walk enters visit).Found t file) :
    ∃ names, (∀ name ∈ names, IsStep name) ∧ file = ⟨p.config.root.under names, pathOf names⟩ ∧
      QueryPath.ofText (pathOf names) = .ok ⟨pathOf names⟩ ∧
      ∃ node, node ≠ .dir ∧ t.look (p.config.root.under names).location = .ok node := by
  obtain ⟨names, node, hnames, rfl, hnode, hlook⟩ := exists_under_of_found hnamed hinside h
  have hentry : (p.config.root.location ++ names, node) ∈ t.entries := by
    rw [← HostPath.location_under _ hnames]
    exact FileTree.mem_entries_of_look hnode hlook
  have hkept := hplain names node hentry
  have hsteps : ∀ name ∈ names, IsStep name :=
    fun name hname => ⟨hnames name hname, hkept.no_backslash name hname⟩
  exact ⟨names, hsteps, by rw [HostPath.relativeTo_under _ hsteps],
    QueryPath.ofText_pathOf hsteps hkept, node, hnode, hlook⟩

/-- No two files that a walk finds have one name. -/
theorem eq_of_ofText (hnamed : t.Named) (hplain : t.NoBackslashOrEndBlank p.config.root)
    (hinside : p.WalksInside) (hfile : (p.walk enters visit).Found t file)
    (hother : (p.walk enters visit).Found t other)
    (hpath : QueryPath.ofText file.relPath = .ok path)
    (hsame : QueryPath.ofText other.relPath = .ok path) :
    file = other := by
  obtain ⟨names, hnames, rfl, hname, -⟩ := exists_names_of_found hnamed hplain hinside hfile
  obtain ⟨names', hnames', rfl, hname', -⟩ := exists_names_of_found hnamed hplain hinside hother
  have hpaths : pathOf names = pathOf names' :=
    congrArg QueryPath.text
      (Except.ok.inj ((hname.symm.trans hpath).trans (hname'.symm.trans hsame).symm))
  rw [(HostPath.pathOf_inj (fun name hname => (hnames name hname).isName)
    fun name hname => (hnames' name hname).isName).1 hpaths]

/-! ## Files outside of the directory of dependencies -/

theorem entersAll_of_entersApplication {path : String} (h : p.entersApplication path = true) :
    p.entersAll path = true := by
  unfold entersApplication at h
  exact (Bool.and_eq_true_iff.1 h).2

/-- What is above a file outside of the directory of dependencies is neither this directory nor
below it. -/
theorem entersApplication_of_entersAll {front rest : List String}
    (h : ∀ name ∈ front ++ rest, IsStep name) (hfront : front ≠ []) (hrest : rest ≠ [])
    (houtside : within (pathOf (front ++ rest)) p.config.dependencyPrefix = false)
    (henters : p.entersAll (pathOf front) = true) :
    p.entersApplication (pathOf front) = true := by
  have hbelow := QueryPath.within_pathOf_append h hfront hrest
  have hother : pathOf front ≠ p.config.dependencyPrefix := by
    intro hsame
    rw [hsame] at hbelow
    cases houtside.symm.trans hbelow
  have hfree : within (pathOf front) p.config.dependencyPrefix = false := by
    refine Bool.eq_false_of_not_eq_true fun hwithin => ?_
    cases houtside.symm.trans (QueryPath.within_trans hbelow hwithin)
  unfold entersApplication
  rw [hfree, Bool.not_false, Bool.and_true, Bool.and_eq_true, bne_iff_ne]
  exact ⟨hother, henters⟩

/-- A directory above a file outside of the directory of dependencies is entered by a smart
build too. -/
theorem exists_entered_smartWalk (hnamed : t.Named) {base : List String}
    (hsource : p.source = p.config.root.under base) {dir : HostPath}
    (h : (p.fullWalk d).Entered t dir) :
    ∃ names, (∀ name ∈ names, IsName name) ∧ dir = p.config.root.under (base ++ names) ∧
      ∀ rest, rest ≠ [] → (∀ name ∈ base ++ names ++ rest, IsStep name) →
        within (pathOf (base ++ names ++ rest)) p.config.dependencyPrefix = false →
        (p.smartWalk d).Entered t dir := by
  induction h with
  | source hdir =>
    exact ⟨[], fun name hname => absurd hname List.not_mem_nil, by
      rw [List.append_nil]; exact hsource, fun _ _ _ _ => .source hdir⟩
  | inside hdir hsub ih =>
    obtain ⟨names, hnames, rfl, hentered⟩ := ih
    obtain ⟨name, hname, hgoes, rfl⟩ := Walk.mem_subdirsIn.1 hsub
    have hunder := HostPath.under_concat p.config.root (base ++ names) name
    rw [List.append_assoc] at hunder
    refine ⟨names ++ [name], List.forall_mem_append.2
      ⟨hnames, List.forall_mem_singleton.2 (hnamed.isName hname)⟩, hunder.symm,
        fun rest hrest hsteps houtside => ?_⟩
    have hsplit : base ++ names ++ (name :: rest) = base ++ (names ++ [name]) ++ rest := by simp
    have hparent :=
      hentered (name :: rest) (List.cons_ne_nil _ _) (hsplit ▸ hsteps) (hsplit ▸ houtside)
    refine .inside hparent (Walk.mem_subdirsIn.2 ⟨name, hname, ?_, rfl⟩)
    have hfront : ∀ other ∈ base ++ (names ++ [name]), IsStep other := fun other hother =>
      hsteps other (List.mem_append_left _ hother)
    have hrel : HostPath.relativeTo p.config.root
        ((p.config.root.under (base ++ names)).join ⟨name⟩) =
        pathOf (base ++ (names ++ [name])) := by
          rw [← hunder, HostPath.relativeTo_under _ hfront]
    unfold Walk.goesInto at hgoes ⊢
    split at hgoes
    · change p.entersAll (HostPath.relativeTo p.config.root _) = true at hgoes
      show p.entersApplication (HostPath.relativeTo p.config.root _) = true
      rw [hrel] at hgoes ⊢
      exact entersApplication_of_entersAll hsteps (by simp) hrest houtside hgoes
    · cases hgoes

/-- **Outside of the directory of dependencies both builds find the same files.** -/
theorem mem_files_smartWalk (hnamed : t.Named) (hplain : t.NoBackslashOrEndBlank p.config.root)
    (hinside : p.WalksInside)
    (houtside : within file.relPath p.config.dependencyPrefix = false) :
    file ∈ (p.fullWalk d).files t ↔ file ∈ (p.smartWalk d).files t := by
  rw [Walk.mem_files_iff hnamed, Walk.mem_files_iff hnamed]
  constructor
  · intro h
    obtain ⟨names, hnames, hfile, -⟩ := exists_names_of_found hnamed hplain hinside h
    obtain ⟨base, hbase, hsource⟩ := hinside
    cases h with
    | source hsource hnode => exact .source hsource hnode
    | @inside dir name hdir hname hregular =>
      obtain ⟨front, hfront, rfl, hentered⟩ := exists_entered_smartWalk hnamed hsource hdir
      have hall : ∀ other ∈ base ++ front ++ [name], IsName other :=
        List.forall_mem_append.2 ⟨List.forall_mem_append.2 ⟨hbase, hfront⟩,
          List.forall_mem_singleton.2 (hnamed.isName hname)⟩
      have hunder : p.config.root.under (base ++ front ++ [name]) = p.config.root.under names :=
        (HostPath.under_concat _ _ _).trans (congrArg WalkedFile.path hfile)
      have hplace := congrArg HostPath.location hunder
      rw [HostPath.location_under _ hall, HostPath.location_under _ fun name hname =>
        (hnames name hname).isName, List.append_right_inj] at hplace
      rw [hfile, ← hplace] at houtside
      exact .inside (hentered [name] (List.cons_ne_nil _ _) (hplace ▸ hnames) houtside) hname
        hregular
  · intro h
    cases h with
    | source hsource hnode => exact .source hsource hnode
    | @inside dir name hdir hname hregular =>
      have hentered : (p.fullWalk d).Entered t dir :=
        Walk.Entered.mono (w := p.smartWalk d) rfl rfl (fun _ => entersAll_of_entersApplication)
          hdir
      exact .inside hentered hname hregular

end Project

end WebBundler
