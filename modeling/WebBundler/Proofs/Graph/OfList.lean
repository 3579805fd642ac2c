import Mathlib.Data.List.Nodup
import WebBundler.ModuleSet
set_option autoImplicit false

/-!
# Sets from lists

The set of a list holds, of the modules with one path, the first.  Behind the modules that came
before, it holds those later ones whose paths were not taken.
-/

namespace WebBundler.ModuleSet

variable {set : ModuleSet} {modules later : List Module} {m : Module} {p : QueryPath}

theorem insert_of_mem (h : m.path ∈ set.paths) : set.insert m = .error ⟨m.path⟩ := by
  unfold insert
  rw [dif_pos (contains_iff.2 h)]

theorem exists_insert_of_not_mem (h : m.path ∉ set.paths) :
    ∃ larger, set.insert m = .ok larger ∧ larger.modules = set.modules ++ [m] := by
  unfold insert
  rw [dif_neg (mt contains_iff.1 h)]
  exact ⟨_, rfl, rfl⟩

theorem modules_insertNew (set : ModuleSet) (m : Module) :
    (set.insertNew m).modules = if m.path ∈ set.paths then set.modules
      else set.modules ++ [m] := by
  by_cases h : m.path ∈ set.paths
  · rw [if_pos h, insertNew, insert_of_mem h]
  · obtain ⟨larger, hlarger, hmodules⟩ := exists_insert_of_not_mem h
    rw [if_neg h, insertNew, hlarger, ← hmodules]

theorem mem_paths_insertNew :
    p ∈ (set.insertNew m).paths ↔ p ∈ set.paths ∨ p = m.path := by
  unfold paths
  rw [modules_insertNew]
  split
  · next h => exact (or_iff_left_of_imp fun hsame => hsame ▸ h).symm
  · simp

/-- Of the modules with one path, the first. -/
def firstOfEach (modules : List Module) : List Module :=
  modules.eraseDupsBy fun a b => a.path == b.path

theorem firstOfEach_cons (m : Module) (modules : List Module) :
    firstOfEach (m :: modules) = m :: firstOfEach
      (modules.filter fun other => other.path ≠ m.path) := by
  unfold firstOfEach
  rw [List.eraseDupsBy_cons]
  simp

theorem firstOfEach_of_nodup (h : (modules.map Module.path).Nodup) :
    firstOfEach modules = modules := by
  induction modules with
  | nil => rfl
  | cons m modules ih =>
    rw [List.map_cons, List.nodup_cons] at h
    have hother : ∀ other ∈ modules, other.path ≠ m.path :=
      fun other hother hsame => h.1 (hsame ▸ List.mem_map.2 ⟨other, hother, rfl⟩)
    rw [firstOfEach_cons, List.filter_eq_self.2 (by simpa using hother), ih h.2]

theorem firstOfEach_sublist : ∀ modules : List Module, (firstOfEach modules).Sublist modules
  | [] => List.Sublist.slnil
  | m :: modules => by
    have hrest := firstOfEach_sublist (modules.filter fun other => other.path ≠ m.path)
    rw [firstOfEach_cons]
    exact (hrest.trans List.filter_sublist).cons_cons m
termination_by modules => modules.length
decreasing_by exact Nat.lt_succ_of_le (List.length_filter_le _ _)

/-- They are the modules that are found when looking for their own path. -/
theorem mem_firstOfEach_iff :
    ∀ modules : List Module, m ∈ firstOfEach modules ↔ modules.find? (·.path = m.path) = some m
  | [] => by simp [firstOfEach]
  | first :: modules => by
    have hrest := mem_firstOfEach_iff (modules.filter fun other => other.path ≠ first.path)
    rw [firstOfEach_cons, List.mem_cons, hrest, List.find?_cons]
    by_cases hpath : first.path = m.path
    · have hnone : (modules.filter fun other => other.path ≠ first.path).find?
          (·.path = m.path) = none := by
        simp [hpath]
      rw [hnone, decide_eq_true hpath]
      simp only [reduceCtorEq, or_false, Option.some.injEq]
      exact eq_comm
    · have hlater : (modules.filter fun other => other.path ≠ first.path).find?
          (·.path = m.path) =
          modules.find? (·.path = m.path) := by
        rw [List.find?_filter]
        congr 1
        funext other
        by_cases hother : other.path = m.path
        · simp [hother, Ne.symm hpath]
        · simp [hother]
      have hne : m ≠ first := fun hsame => hpath (hsame ▸ rfl)
      rw [hlater, decide_eq_false hpath]
      exact or_iff_right hne
termination_by modules => modules.length
decreasing_by exact Nat.lt_succ_of_le (List.length_filter_le _ _)

/-- Of the modules that are added, those stay whose paths were not taken, and of these the first
of each path. -/
theorem modules_foldl_insertNew (modules : List Module) (set : ModuleSet) :
    (modules.foldl insertNew set).modules =
      set.modules ++ firstOfEach (modules.filter fun m => m.path ∉ set.paths) := by
  induction modules generalizing set with
  | nil => exact (List.append_nil _).symm
  | cons m modules ih =>
    rw [List.foldl_cons, ih, modules_insertNew]
    by_cases h : m.path ∈ set.paths
    · have hlater : (modules.filter fun other =>
        decide (other.path ∉ (set.insertNew m).paths)) =
          modules.filter fun other => decide (other.path ∉ set.paths) := by
        apply List.filter_congr
        intro other _
        rw [decide_eq_decide, mem_paths_insertNew]
        exact not_congr (or_iff_left_of_imp fun hsame => hsame ▸ h)
      rw [if_pos h, List.filter_cons_of_neg (by simpa using h), hlater]
    · have hlater : (modules.filter fun other =>
        decide (other.path ∉ (set.insertNew m).paths)) =
          (modules.filter fun other => decide (other.path ∉ set.paths)).filter
            fun other => other.path ≠ m.path := by
        rw [List.filter_filter]
        apply List.filter_congr
        intro other _
        simp [mem_paths_insertNew, and_comm]
      rw [if_neg h, List.filter_cons_of_pos (by simpa using h), firstOfEach_cons, hlater,
        List.append_assoc]
      rfl

/-- A set that is made from a list holds, of the modules with one path, the first. -/
theorem modules_ofList (modules : List Module) :
    (ofList modules).modules = firstOfEach modules := by
  unfold ofList
  rw [modules_foldl_insertNew, List.filter_eq_self.2 (by simp [paths, empty])]
  rfl

theorem mem_paths_foldl_insertNew (modules : List Module) (set : ModuleSet) :
    p ∈ (modules.foldl insertNew set).paths ↔ p ∈ set.paths ∨ p ∈ modules.map Module.path := by
  induction modules generalizing set with
  | nil => simp
  | cons m modules ih =>
    rw [List.foldl_cons, ih, List.map_cons, List.mem_cons, ← or_assoc]
    exact or_congr_left mem_paths_insertNew

theorem subset_foldl_insertNew (modules : List Module) (set : ModuleSet) :
    set.modules ⊆ (modules.foldl insertNew set).modules := by
  rw [modules_foldl_insertNew]
  exact List.subset_append_left _ _

/-- What comes in has a path that was not taken. -/
theorem mem_modules_foldl_insertNew (h : m ∈ (modules.foldl insertNew set).modules) :
    m ∈ set.modules ∨ m ∈ modules ∧ m.path ∉ set.paths := by
  rw [modules_foldl_insertNew, List.mem_append] at h
  rcases h with h | h
  · exact .inl h
  · have hlater := List.mem_filter.1 (firstOfEach_sublist _ |>.subset h)
    exact .inr ⟨hlater.1, by simpa using hlater.2⟩

theorem mem_paths_ofList : p ∈ (ofList modules).paths ↔ p ∈ modules.map Module.path := by
  unfold ofList
  rw [mem_paths_foldl_insertNew]
  exact or_iff_right List.not_mem_nil

theorem mem_of_mem_ofList (h : m ∈ (ofList modules).modules) : m ∈ modules :=
  ((mem_modules_foldl_insertNew h).resolve_left List.not_mem_nil).1

/-- A module that shares its path with no other is in the set. -/
theorem mem_ofList
    (h : m ∈ modules) (hsame : ∀ other ∈ modules, other.path = m.path → other = m) :
    m ∈ (ofList modules).modules := by
  obtain ⟨other, hother, hpath⟩ :=
    List.mem_map.1 (mem_paths_ofList.2 (List.mem_map.2 ⟨m, h, rfl⟩))
  rw [← hsame other (mem_of_mem_ofList hother) hpath]
  exact hother

theorem filter_path_eq_singleton (hnodup : (modules.map Module.path).Nodup) (hm : m ∈ modules) :
    modules.filter (·.path = m.path) = [m] := by
  obtain ⟨before, after, rfl⟩ := List.append_of_mem hm
  have hother : ∀ other ∈ before ++ after, other.path ≠ m.path := by
    rw [List.map_append, List.map_cons, List.nodup_middle, ← List.map_append, List.nodup_cons]
      at hnodup
    intro other hother hsame
    exact hnodup.1 (hsame ▸ List.mem_map_of_mem hother)
  rw [List.forall_mem_append] at hother
  rw [List.filter_append, List.filter_cons_of_pos (by simp),
    List.filter_eq_nil_iff.2 (by simpa using hother.1),
      List.filter_eq_nil_iff.2 (by simpa using hother.2), List.nil_append]

theorem modules_ofList_append (hnodup : (later.map Module.path).Nodup) :
    (ofList (modules ++ later)).modules = (ofList modules).modules ++
      later.filter fun m => decide (m.path ∉ (ofList modules).paths) := by
  have hkept : ((later.filter fun m => decide (m.path ∉ (ofList modules).paths)).map
      Module.path).Nodup :=
    hnodup.sublist (List.filter_sublist.map _)
  rw [← firstOfEach_of_nodup hkept]
  unfold ofList
  rw [List.foldl_append]
  exact modules_foldl_insertNew later _

end WebBundler.ModuleSet
