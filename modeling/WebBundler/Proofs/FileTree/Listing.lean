import WebBundler.FileTree
import WebBundler.Build.Error
import WebBundler.Proofs.Path.Location
set_option autoImplicit false

/-!
# What a directory lists

Places are spelled with names of files (`Named`).  In such a tree a name that a directory lists
leads one level down, to the place of an entry or above one, and the names come in increasing
order, so no two lead to the same place.
-/

namespace WebBundler

namespace FileTree

variable {t : FileTree} {place : List String} {names : List String} {name : String}

/-- Every place of the tree is spelled with names of files. -/
def Named (t : FileTree) : Prop := ∀ e ∈ t.entries, ∀ name ∈ e.1, HostPath.IsName name

instance (t : FileTree) : Decidable t.Named :=
  inferInstanceAs (Decidable (∀ e ∈ t.entries, ∀ name ∈ e.1, HostPath.IsName name))

/-- The names that a directory lists, none if it cannot be read. -/
def namesIn (t : FileTree) (dir : HostPath) : List String :=
  match t.readDir dir with
  | .ok names => names
  | .error _ => []

/-- A regular file is at a path, and can be asked about. -/
def isRegular (t : FileTree) (path : HostPath) : Bool :=
  match t.metadata path with
  | .ok (.file _) => true
  | _ => false

theorem exists_content_of_isRegular {path : HostPath} (h : t.isRegular path = true) :
    ∃ content, t.metadata path = .ok (.file content) := by
  unfold isRegular at h
  split at h
  · next content hcontent => exact ⟨content, hcontent⟩
  · cases h

/-- The failure to tell what is at a path. -/
def failureAt? (t : FileTree) (path : HostPath) : Option BuildError :=
  match t.metadata path with
  | .error e => some (.walk path e)
  | .ok _ => none

/-- What fails in a directory: that it is read, or that one of its names is asked about. -/
def failuresIn (t : FileTree) (dir : HostPath) : List BuildError :=
  match t.readDir dir with
  | .error e => [.walk dir e]
  | .ok names => names.filterMap fun name => t.failureAt? (dir.join ⟨name⟩)

theorem attempt_eq_ok {α : Type} {access : Access} {path : HostPath}
    {outcome : Except DiskError α} {a : α} (h : t.attempt access path outcome = .ok a) :
    outcome = .ok a := by
  unfold attempt at h
  split at h
  · cases h
  · split at h
    · cases h
      rfl
    · cases h

theorem nodup_eraseDups {α : Type} [DecidableEq α] (l : List α) : l.eraseDups.Nodup := by
  induction hlength : l.length using Nat.strongRecOn generalizing l with
  | ind n ih =>
    cases l with
    | nil => simp
    | cons a l =>
      rw [List.eraseDups_cons, List.nodup_cons]
      refine ⟨by simp [List.mem_eraseDups], ih _ ?_ _ rfl⟩
      have hfilter := List.length_filter_le (fun b => !b == a) l
      rw [List.length_cons] at hlength
      omega

theorem exists_entry_of_namesAt (h : t.namesAt place = .ok names) (hname : name ∈ names) :
    ∃ e ∈ t.entries, place ++ [name] <+: e.1 := by
  unfold namesAt at h
  split at h
  · cases h
  · cases h
    rw [List.mem_mergeSort, List.mem_eraseDups, List.mem_filterMap] at hname
    obtain ⟨e, he, hhead⟩ := hname
    split at hhead
    · next hprefix =>
      obtain ⟨rest, hrest⟩ := List.isPrefixOf_iff_prefix.1 hprefix
      rw [← hrest, List.drop_left] at hhead
      obtain ⟨more, rfl⟩ := List.head?_eq_some_iff.1 hhead
      exact ⟨e, he, more, by rw [← hrest]; simp⟩
    · cases hhead
  · cases h

theorem namesAt_increasing (h : t.namesAt place = .ok names) : names.Pairwise (· < ·) := by
  unfold namesAt at h
  split at h
  · cases h
  · cases h
    generalize hbelow : List.filterMap _ t.entries = below
    have hsorted : (below.eraseDups.mergeSort fun a b => decide (a ≤ b)).Pairwise
        fun a b => decide (a ≤ b) = true := List.pairwise_mergeSort
      (fun a b c hab hbc => by
        simpa using String.le_trans (by simpa using hab) (by simpa using hbc))
      (fun a b => by simpa using String.le_total a b) below.eraseDups
    have hnodup : (below.eraseDups.mergeSort fun a b => decide (a ≤ b)).Nodup :=
      (List.mergeSort_perm _ _).nodup_iff.2 (nodup_eraseDups below)
    refine (hsorted.and hnodup).imp ?_
    rintro a b ⟨hle, hne⟩
    exact Std.lt_of_le_of_ne (by simpa using hle) hne
  · cases h

section Listed

variable {dir : HostPath}

theorem namesAt_of_mem_namesIn (h : name ∈ t.namesIn dir) :
    t.namesAt dir.location = .ok (t.namesIn dir) := by
  unfold namesIn at h ⊢
  cases hread : t.readDir dir with
  | error e =>
    rw [hread] at h
    cases h
  | ok names => exact attempt_eq_ok hread

theorem exists_entry_of_mem_namesIn (h : name ∈ t.namesIn dir) :
    ∃ e ∈ t.entries, dir.location ++ [name] <+: e.1 :=
  exists_entry_of_namesAt (namesAt_of_mem_namesIn h) h

theorem namesIn_increasing (t : FileTree) (dir : HostPath) :
    (t.namesIn dir).Pairwise (· < ·) := by
  unfold namesIn
  cases hread : t.readDir dir with
  | error e => exact List.Pairwise.nil
  | ok names => exact namesAt_increasing (attempt_eq_ok hread)

theorem Named.isName (h : t.Named) (hname : name ∈ t.namesIn dir) : HostPath.IsName name := by
  obtain ⟨e, he, hbelow⟩ := exists_entry_of_mem_namesIn hname
  exact h e he name (hbelow.subset (List.mem_append_right _ (List.mem_singleton_self name)))

theorem Named.location_join (h : t.Named) (hname : name ∈ t.namesIn dir) :
    (dir.join ⟨name⟩).location = dir.location ++ [name] :=
  HostPath.location_join dir (h.isName hname)

end Listed

theorem length_le_of_mem {l : List (List String × Node)} {e : List String × Node} (h : e ∈ l) :
    e.1.length < l.foldr (fun e n => e.1.length + n) 1 := by
  induction l with
  | nil => cases h
  | cons a l ih =>
    rw [List.foldr_cons]
    rcases List.mem_cons.1 h with rfl | h
    · have hpos : 0 < l.foldr (fun e n => e.1.length + n) 1 := by
        clear ih h
        induction l with
        | nil => exact Nat.one_pos
        | cons a l ih =>
          rw [List.foldr_cons]
          omega
      omega
    · have := ih h
      omega

/-- No place of the tree is as deep as the number that bounds its directories. -/
theorem length_lt_directoryBound {e : List String × Node} (h : e ∈ t.entries) :
    e.1.length < t.directoryBound :=
  length_le_of_mem h

end FileTree

end WebBundler
