import Mathlib.Data.List.Nodup
import Mathlib.Data.List.Perm.Subperm
import WebBundler.Proofs.FileTree.Listing
import WebBundler.Walk.Basic
set_option autoImplicit false

/-!
# What a walk finds

A walk finds the regular files of the directories that it enters, starting with the source.
`directories` lists these directories in the order of discovery: a directory comes before its
subdirectories, and all that is below one subdirectory comes before the next, in the order of
their names.  `files` and `failures` list, directory by directory, what there is to visit and
what cannot be read.

The lists are computed to a depth that no tree exceeds.  That the depth is enough is
`dirsFrom_succ`; that the walk gets nowhere twice is `nodup_files`.
-/

namespace WebBundler

namespace Walk

variable {σ : Type}

/-! ## What a directory holds -/

section Directory

variable (w : Walk σ) (t : FileTree)

/-- A walk goes into what is at a path. -/
def goesInto (path : HostPath) : Bool :=
  match t.metadata path with
  | .ok .dir => w.enters (HostPath.relativeTo w.root path)
  | _ => false

/-- The regular files of a directory, in the order of their names. -/
def filesIn (dir : HostPath) : List WalkedFile :=
  ((t.namesIn dir).filter fun name => t.isRegular (dir.join ⟨name⟩)).map
    fun name => w.fileAt (dir.join ⟨name⟩)

/-- The subdirectories of a directory that the walk enters, in the order of their names. -/
def subdirsIn (dir : HostPath) : List HostPath :=
  ((t.namesIn dir).filter fun name => w.goesInto t (dir.join ⟨name⟩)).map fun name =>
    dir.join ⟨name⟩

end Directory

theorem filesIn_congr {w w' : Walk σ} (hroot : w.root = w'.root) (t : FileTree)
    (dir : HostPath) :
    w.filesIn t dir = w'.filesIn t dir := by
  unfold filesIn fileAt
  rw [hroot]

theorem subdirsIn_congr {w w' : Walk σ} (hroot : w.root = w'.root)
    (henters : w.enters = w'.enters) (t : FileTree) (dir : HostPath) :
    w.subdirsIn t dir = w'.subdirsIn t dir := by
  unfold subdirsIn goesInto
  rw [hroot, henters]

/-- The directories that a walk enters from one, some levels deep, in the order of discovery. -/
def dirsFrom (w : Walk σ) (t : FileTree) : Nat → HostPath → List HostPath
  | 0, _ => []
  | depth + 1, dir => dir :: (w.subdirsIn t dir).flatMap (w.dirsFrom t depth)

/-- The directories that a walk enters from one. -/
def dirsBelow (w : Walk σ) (t : FileTree) (dir : HostPath) : List HostPath :=
  w.dirsFrom t t.directoryBound dir

/-- The directories that a walk enters, in the order of discovery. -/
def directories (w : Walk σ) (t : FileTree) : List HostPath :=
  match t.metadata w.source with
  | .ok .dir => w.dirsBelow t w.source
  | _ => []

/-- The files that a walk finds, in the order of discovery.  A source that is no directory is
the only file. -/
def files (w : Walk σ) (t : FileTree) : List WalkedFile :=
  match t.metadata w.source with
  | .ok .dir => (w.directories t).flatMap (w.filesIn t)
  | .ok _ => [w.fileAt w.source]
  | .error _ => []

/-- What a walk cannot read, in the order of discovery. -/
def failures (w : Walk σ) (t : FileTree) : List BuildError :=
  (w.directories t).flatMap t.failuresIn

/-- A directory is reached without entering one that is left out or cannot be read. -/
inductive Entered (w : Walk σ) (t : FileTree) : HostPath → Prop where
  | source (hdir : t.metadata w.source = .ok .dir) : Entered w t w.source
  | inside {dir sub : HostPath} (hdir : Entered w t dir) (hsub : sub ∈ w.subdirsIn t dir) :
      Entered w t sub

/-- A file is found: it is a regular file of a directory that is entered, or it is the
source. -/
inductive Found (w : Walk σ) (t : FileTree) : WalkedFile → Prop where
  | inside {dir : HostPath} {name : String} (hdir : Entered w t dir)
      (hname : name ∈ t.namesIn dir) (hfile : t.isRegular (dir.join ⟨name⟩) = true) :
      Found w t (w.fileAt (dir.join ⟨name⟩))
  | source {node : FileTree.Node} (hsource : t.metadata w.source = .ok node)
      (hnode : node ≠ .dir) :
      Found w t (w.fileAt w.source)

theorem dirsFrom_congr {w w' : Walk σ} (hroot : w.root = w'.root)
    (henters : w.enters = w'.enters) (t : FileTree) (depth : Nat) (dir : HostPath) :
    w.dirsFrom t depth dir = w'.dirsFrom t depth dir := by
  induction depth generalizing dir with
  | zero => rfl
  | succ depth ih =>
    rw [dirsFrom, dirsFrom, subdirsIn_congr hroot henters]
    congr 1
    exact List.flatMap_congr fun sub _ => ih sub

theorem files_congr {w w' : Walk σ} (hroot : w.root = w'.root) (hsource : w.source = w'.source)
    (henters : w.enters = w'.enters) (t : FileTree) : w.files t = w'.files t := by
  unfold files directories fileAt
  rw [hsource, hroot]
  split
  · unfold dirsBelow
    rw [dirsFrom_congr hroot henters]
    exact List.flatMap_congr fun dir _ => filesIn_congr hroot t dir
  · rfl
  · rfl

section Discovery

variable {w : Walk σ} {t : FileTree} {dir sub : HostPath} {file : WalkedFile} {depth : Nat}

@[simp] theorem fileAt_path (w : Walk σ) (path : HostPath) : (w.fileAt path).path = path := rfl

theorem mem_filesIn :
    file ∈ w.filesIn t dir ↔ ∃ name ∈ t.namesIn dir, t.isRegular (dir.join ⟨name⟩) = true ∧
      w.fileAt (dir.join ⟨name⟩) = file := by
  unfold filesIn
  rw [List.mem_map]
  simp only [List.mem_filter, and_assoc]

theorem mem_subdirsIn :
    sub ∈ w.subdirsIn t dir ↔ ∃ name ∈ t.namesIn dir, w.goesInto t (dir.join ⟨name⟩) = true ∧
      dir.join ⟨name⟩ = sub := by
  unfold subdirsIn
  rw [List.mem_map]
  simp only [List.mem_filter, and_assoc]

theorem location_of_mem_subdirsIn (hnamed : t.Named) (h : sub ∈ w.subdirsIn t dir) :
    ∃ name, sub.location = dir.location ++ [name] ∧
      ∃ e ∈ t.entries, dir.location ++ [name] <+: e.1 := by
  obtain ⟨name, hname, -, rfl⟩ := mem_subdirsIn.1 h
  exact ⟨name, hnamed.location_join hname, FileTree.exists_entry_of_mem_namesIn hname⟩

/-- A walk that goes below all entries finds nothing more by going deeper. -/
theorem dirsFrom_succ (hnamed : t.Named) (hdepth : 0 < depth)
    (hbound : ∀ e ∈ t.entries, e.1.length < dir.location.length + depth) :
    w.dirsFrom t (depth + 1) dir = w.dirsFrom t depth dir := by
  induction depth generalizing dir with
  | zero => exact absurd hdepth (Nat.lt_irrefl 0)
  | succ depth ih =>
    rw [dirsFrom, dirsFrom]
    congr 1
    apply List.flatMap_congr
    intro sub hsub
    obtain ⟨name, hplace, e, he, hprefix⟩ := location_of_mem_subdirsIn hnamed hsub
    have hlength := hprefix.length_le
    have hdeep := hbound e he
    rw [List.length_append, List.length_singleton] at hlength
    refine ih (by omega) ?_
    intro other hother
    have hother := hbound other hother
    rw [hplace, List.length_append, List.length_singleton]
    omega

/-- All directories below one are itself and all below its subdirectories. -/
theorem dirsBelow_eq (hnamed : t.Named) (dir : HostPath) :
    w.dirsBelow t dir = dir :: (w.subdirsIn t dir).flatMap (w.dirsBelow t) := by
  unfold dirsBelow
  cases hbound : t.directoryBound with
  | zero =>
    unfold FileTree.directoryBound at hbound
    exact absurd (FileTree.length_le_of_mem (l := ([], .dir) :: t.entries) List.mem_cons_self)
      (by simp [hbound])
  | succ depth =>
    rw [dirsFrom]
    congr 1
    apply List.flatMap_congr
    intro sub hsub
    obtain ⟨name, hplace, e, he, hprefix⟩ := location_of_mem_subdirsIn hnamed hsub
    have hlength := hprefix.length_le
    have hdeep := FileTree.length_lt_directoryBound he
    rw [List.length_append, List.length_singleton] at hlength
    refine (dirsFrom_succ hnamed (by omega) ?_).symm
    intro other hother
    have hother := FileTree.length_lt_directoryBound hother
    rw [hplace, List.length_append, List.length_singleton]
    omega

theorem dirsBelow_of_flat (hnamed : t.Named) (hflat : w.subdirsIn t dir = []) :
    w.dirsBelow t dir = [dir] := by
  rw [dirsBelow_eq hnamed, hflat]
  rfl

theorem mem_dirsBelow_self (hnamed : t.Named) (dir : HostPath) : dir ∈ w.dirsBelow t dir := by
  rw [dirsBelow_eq hnamed]
  exact List.mem_cons_self

theorem location_prefix_of_mem_dirsFrom (hnamed : t.Named) (h : sub ∈ w.dirsFrom t depth dir) :
    dir.location <+: sub.location := by
  induction depth generalizing dir with
  | zero => cases h
  | succ depth ih =>
    rw [dirsFrom, List.mem_cons, List.mem_flatMap] at h
    rcases h with rfl | ⟨next, hnext, hsub⟩
    · exact List.prefix_refl _
    · obtain ⟨name, hplace, -⟩ := location_of_mem_subdirsIn hnamed hnext
      have hbelow := ih hsub
      rw [hplace] at hbelow
      exact (List.prefix_append _ _).trans hbelow

theorem pairwise_location_join (hnamed : t.Named) (dir : HostPath) (keep : String → Bool) :
    ((t.namesIn dir).filter keep).Pairwise fun a b =>
      (dir.join ⟨a⟩).location ≠ (dir.join ⟨b⟩).location := by
  apply List.Pairwise.filter
  refine (t.namesIn_increasing dir).imp_of_mem ?_
  intro a b ha hb hlt hsame
  rw [hnamed.location_join ha, hnamed.location_join hb] at hsame
  obtain rfl : a = b := by simpa using hsame
  exact String.lt_irrefl a hlt

theorem nodup_location_dirsFrom (hnamed : t.Named) (depth : Nat) (dir : HostPath) :
    ((w.dirsFrom t depth dir).map HostPath.location).Nodup := by
  induction depth generalizing dir with
  | zero => exact List.nodup_nil
  | succ depth ih =>
    rw [dirsFrom, List.map_cons, List.nodup_cons, List.map_flatMap, List.nodup_flatMap]
    refine ⟨?_, fun next _ => ih next, ?_⟩
    · intro hmem
      obtain ⟨next, hnext, hmem⟩ := List.mem_flatMap.1 hmem
      obtain ⟨sub, hsub, hsame⟩ := List.mem_map.1 hmem
      obtain ⟨name, hplace, -⟩ := location_of_mem_subdirsIn hnamed hnext
      have hlength := (location_prefix_of_mem_dirsFrom hnamed hsub).length_le
      rw [hplace, hsame, List.length_append, List.length_singleton] at hlength
      omega
    · -- Below different subdirectories, places begin differently at one length.
      unfold subdirsIn
      rw [List.pairwise_map]
      refine (pairwise_location_join hnamed dir _).imp_of_mem ?_
      intro a b ha hb hne place hplaceA hplaceB
      obtain ⟨sub, hsub, rfl⟩ := List.mem_map.1 hplaceA
      obtain ⟨other, hother, hsame⟩ := List.mem_map.1 hplaceB
      have hbelowA := location_prefix_of_mem_dirsFrom hnamed hsub
      have hbelowB := location_prefix_of_mem_dirsFrom hnamed hother
      rw [hsame] at hbelowB
      apply hne
      refine (List.prefix_of_prefix_length_le hbelowA hbelowB ?_).eq_of_length ?_
      all_goals
        rw [hnamed.location_join (List.mem_filter.1 ha).1,
          hnamed.location_join (List.mem_filter.1 hb).1]
        simp

/-! ## What is entered, and what is found -/

/-- Below a directory, subdirectories are entered wherever they lie. -/
theorem mem_dirsBelow_of_mem_subdirsIn (hnamed : t.Named) {start : HostPath}
    (h : dir ∈ w.dirsFrom t depth start) (hsub : sub ∈ w.subdirsIn t dir) :
    sub ∈ w.dirsBelow t start := by
  induction depth generalizing start with
  | zero => cases h
  | succ depth ih =>
    rw [dirsBelow_eq hnamed]
    apply List.mem_cons_of_mem
    rw [List.mem_flatMap]
    rw [dirsFrom, List.mem_cons, List.mem_flatMap] at h
    rcases h with rfl | ⟨next, hnext, hdir⟩
    · exact ⟨sub, hsub, mem_dirsBelow_self hnamed sub⟩
    · exact ⟨next, hnext, ih hdir⟩

theorem entered_of_mem_dirsFrom {start : HostPath} (hstart : w.Entered t start)
    (h : dir ∈ w.dirsFrom t depth start) : w.Entered t dir := by
  induction depth generalizing start with
  | zero => cases h
  | succ depth ih =>
    rw [dirsFrom, List.mem_cons, List.mem_flatMap] at h
    rcases h with rfl | ⟨next, hnext, hdir⟩
    · exact hstart
    · exact ih (.inside hstart hnext) hdir

theorem Entered.source_dir (h : w.Entered t dir) : t.metadata w.source = .ok .dir := by
  induction h with
  | source hsource => exact hsource
  | inside _ _ ih => exact ih

theorem directories_of_dir (hsource : t.metadata w.source = .ok .dir) :
    w.directories t = w.dirsBelow t w.source := by
  unfold directories
  rw [hsource]

theorem directories_of_flat (hnamed : t.Named) (hsource : t.metadata w.source = .ok .dir)
    (hflat : w.subdirsIn t w.source = []) : w.directories t = [w.source] := by
  rw [directories_of_dir hsource, dirsBelow_of_flat hnamed hflat]

theorem files_of_dir (hsource : t.metadata w.source = .ok .dir) :
    w.files t = (w.directories t).flatMap (w.filesIn t) := by
  unfold files
  rw [hsource]

theorem files_of_flat (hnamed : t.Named) (hsource : t.metadata w.source = .ok .dir)
    (hflat : w.subdirsIn t w.source = []) : w.files t = w.filesIn t w.source := by
  rw [files_of_dir hsource, directories_of_flat hnamed hsource hflat]
  exact List.flatMap_singleton ..

theorem directories_of_not_dir {node : FileTree.Node} (hsource : t.metadata w.source = .ok node)
    (hnode : node ≠ .dir) : w.directories t = [] := by
  unfold directories
  split
  · next hdir => exact absurd (Except.ok.inj (hsource.symm.trans hdir)) hnode
  · rfl

theorem files_of_not_dir {node : FileTree.Node} (hsource : t.metadata w.source = .ok node)
    (hnode : node ≠ .dir) : w.files t = [w.fileAt w.source] := by
  unfold files
  split
  · next hdir => exact absurd (Except.ok.inj (hsource.symm.trans hdir)) hnode
  · rfl
  · next hfailed => cases hsource.symm.trans hfailed

/-- A walk enters the directories that are reached. -/
theorem mem_directories_iff (hnamed : t.Named) : dir ∈ w.directories t ↔ w.Entered t dir := by
  constructor
  · intro h
    unfold directories at h
    split at h
    · next hsource => exact entered_of_mem_dirsFrom (.source hsource) h
    · cases h
  · intro h
    induction h with
    | source hsource =>
      rw [directories_of_dir hsource]
      exact mem_dirsBelow_self hnamed w.source
    | inside hdir hsub ih =>
      rw [directories_of_dir hdir.source_dir] at ih ⊢
      exact mem_dirsBelow_of_mem_subdirsIn hnamed ih hsub

theorem nodup_location_directories (hnamed : t.Named) :
    ((w.directories t).map HostPath.location).Nodup := by
  unfold directories
  split
  · exact nodup_location_dirsFrom hnamed _ _
  · exact List.nodup_nil

theorem location_of_mem_filesIn (hnamed : t.Named) (h : file ∈ w.filesIn t dir) :
    ∃ name, file.path.location = dir.location ++ [name] := by
  obtain ⟨name, hname, -, rfl⟩ := mem_filesIn.1 h
  exact ⟨name, hnamed.location_join hname⟩

theorem nodup_files (hnamed : t.Named) : (w.files t).Nodup := by
  unfold files
  split
  · rw [List.nodup_flatMap]
    constructor
    · intro dir _
      unfold filesIn
      unfold List.Nodup
      rw [List.pairwise_map]
      refine (pairwise_location_join hnamed dir _).imp ?_
      intro a b hne hsame
      have hpath := congrArg WalkedFile.path hsame
      rw [fileAt_path, fileAt_path] at hpath
      exact hne (by rw [hpath])
    · refine (List.pairwise_map.1 (nodup_location_directories hnamed)).imp ?_
      intro a b hne file ha hb
      obtain ⟨name, hplace⟩ := location_of_mem_filesIn hnamed ha
      obtain ⟨other, hother⟩ := location_of_mem_filesIn hnamed hb
      rw [hplace] at hother
      exact hne (List.append_inj' hother rfl).1
  · exact List.nodup_singleton _
  · exact List.nodup_nil

theorem mem_files_iff (hnamed : t.Named) : file ∈ w.files t ↔ w.Found t file := by
  constructor
  · intro h
    unfold files at h
    split at h
    · obtain ⟨dir, hdir, hfile⟩ := List.mem_flatMap.1 h
      obtain ⟨name, hname, hregular, rfl⟩ := mem_filesIn.1 hfile
      exact .inside ((mem_directories_iff hnamed).1 hdir) hname hregular
    · next node hnode hsource =>
      rw [List.mem_singleton.1 h]
      exact .source hsource hnode
    · cases h
  · intro h
    unfold files
    cases h with
    | inside hdir hname hregular =>
      rw [hdir.source_dir]
      exact List.mem_flatMap.2
        ⟨_, (mem_directories_iff hnamed).2 hdir, mem_filesIn.2 ⟨_, hname, hregular, rfl⟩⟩
    | source hsource hnode =>
      rw [hsource]
      split
      · next hdir => exact absurd (Except.ok.inj hdir) hnode
      · exact List.mem_singleton_self _
      · next hfailed => cases hfailed

/-- The files that a walk is to find, and their order: those of a directory in the order of
their names, then those below its subdirectories in the order of theirs. -/
structure Discovery (w : Walk σ) (t : FileTree) : Prop where
  files : ∀ file, file ∈ w.files t ↔ w.Found t file
  nodup : (w.files t).Nodup
  directories : ∀ dir, dir ∈ w.directories t ↔ w.Entered t dir
  below : t.metadata w.source = .ok .dir →
    w.files t = (w.dirsBelow t w.source).flatMap (w.filesIn t)
  order : ∀ dir, w.dirsBelow t dir = dir :: (w.subdirsIn t dir).flatMap (w.dirsBelow t)
  names : ∀ dir, (t.namesIn dir).Pairwise (· < ·)

theorem discovery (w : Walk σ) (hnamed : t.Named) : w.Discovery t where
  files _ := mem_files_iff hnamed
  nodup := nodup_files hnamed
  directories _ := mem_directories_iff hnamed
  below hsource := by
    unfold files
    rw [hsource, directories_of_dir hsource]
  order := dirsBelow_eq hnamed
  names := t.namesIn_increasing

theorem Entered.source_isPrefix (hnamed : t.Named) (h : w.Entered t dir) :
    dir.location = [] ∨ ∃ e ∈ t.entries, dir.location <+: e.1 := by
  cases h with
  | source hsource =>
    have hlook := FileTree.attempt_eq_ok hsource
    unfold FileTree.look at hlook
    split at hlook
    · cases hlook
    · split at hlook
      · next node hnode =>
        unfold FileTree.node? at hnode
        split at hnode
        · next e hfound =>
          have hplace := List.find?_some hfound
          exact Or.inr ⟨_, List.mem_of_find?_eq_some hfound,
            (of_decide_eq_true hplace) ▸ List.prefix_refl _⟩
        · split at hnode
          · next hany =>
            rw [Bool.or_eq_true, List.isEmpty_iff, List.any_eq_true] at hany
            refine hany.imp_right ?_
            rintro ⟨e, he, hprefix⟩
            exact ⟨e, he, List.isPrefixOf_iff_prefix.1 hprefix⟩
          · cases hnode
      · cases hlook
  | inside hdir hsub =>
    obtain ⟨name, hplace, e, he, hprefix⟩ := location_of_mem_subdirsIn hnamed hsub
    exact Or.inr ⟨e, he, hplace ▸ hprefix⟩

/-- The places of a tree: the root, and the beginnings of all entries. -/
def places (entries : List (List String × FileTree.Node)) : List (List String) :=
  [] :: entries.flatMap fun e => (List.range e.1.length).map fun i => e.1.take (i + 1)

theorem length_places (entries : List (List String × FileTree.Node)) :
    (places entries).length = entries.foldr (fun e n => e.1.length + n) 1 := by
  unfold places
  induction entries with
  | nil => rfl
  | cons e entries ih =>
    rw [List.foldr_cons, ← ih, List.flatMap_cons]
    simp only [List.length_cons, List.length_append, List.length_map, List.length_range]
    omega

/-- There are no more directories to enter than the tree has places. -/
theorem length_directories_le (hnamed : t.Named) :
    (w.directories t).length ≤ t.directoryBound := by
  have hsubset : (w.directories t).map HostPath.location ⊆ places t.entries := by
    intro place hplace
    obtain ⟨dir, hdir, rfl⟩ := List.mem_map.1 hplace
    unfold places
    rcases ((mem_directories_iff hnamed).1 hdir).source_isPrefix hnamed with
      hroot | ⟨e, he, hprefix⟩
    · rw [hroot]
      exact List.mem_cons_self
    · cases hlocation : dir.location with
      | nil => exact List.mem_cons_self
      | cons name rest =>
        rw [hlocation] at hprefix
        refine List.mem_cons_of_mem _
          (List.mem_flatMap.2 ⟨e, he, List.mem_map.2 ⟨rest.length, ?_, ?_⟩⟩)
        · have hlength := hprefix.length_le
          rw [List.length_cons] at hlength
          exact List.mem_range.2 hlength
        · exact (List.prefix_iff_eq_take.1 hprefix).symm
  have hlength := (List.subperm_of_subset (nodup_location_directories hnamed) hsubset).length_le
  rw [List.length_map, length_places] at hlength
  exact hlength

end Discovery

end Walk

end WebBundler
