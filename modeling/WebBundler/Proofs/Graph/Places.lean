import WebBundler.Proofs.Graph.OfList
set_option autoImplicit false

/-!
# Places in a set

Whatever calls made a set, it holds what it was handed since it was last made from a list: of
the modules with one path the first, in the order of handing over (`afterCalls_eq_ofList`).  The
index has the paths in this order too, and they are distinct, so the place that is found for a
path is the only one at which a module has that path (`indexOf?_eq_some_iff`).
-/

namespace WebBundler.ModuleSet

variable {set : ModuleSet} {m : Module} {p : QueryPath}

/-! ## Looking up a path -/

/-- A module stands at the place that is found for its path, and at no other. -/
theorem indexOf?_eq_some_iff {i : Nat} :
    set.indexOf? p = some i ↔ ∃ m, set.modules[i]? = some m ∧ m.path = p := by
  rw [indexOf?_eq, List.findIdx?_eq_some_iff_getElem]
  constructor
  · rintro ⟨hi, hpath, -⟩
    exact ⟨set.modules[i], List.getElem?_eq_getElem hi, by simpa using hpath⟩
  · rintro ⟨m, hm, rfl⟩
    obtain ⟨hi, rfl⟩ := List.getElem?_eq_some_iff.1 hm
    refine ⟨hi, by simp, ?_⟩
    intro j hj hpath
    have hlt : j < (set.modules.map Module.path).length := by
      rw [List.length_map]
      omega
    have hsame : (set.modules.map Module.path)[j]? = (set.modules.map Module.path)[i]? := by
      simpa [hi, Nat.lt_trans hj hi] using hpath
    exact Nat.ne_of_lt hj ((List.getElem?_inj hlt set.nodup).1 hsame)

theorem map_indexOf?_paths (set : ModuleSet) :
    set.paths.map set.indexOf? = (List.range set.size).map some := by
  apply List.ext_getElem
  · simp [paths, size]
  · intro i hi _
    rw [List.getElem_map, List.getElem_map, List.getElem_range, indexOf?_eq_some_iff]
    have hplace : i < set.modules.length := by simpa [paths] using hi
    exact ⟨set.modules[i], List.getElem?_eq_getElem hplace, by simp [paths]⟩

/-! ## Sequences of calls -/

/-- A call that changes a set. -/
inductive Call where
  /-- Add a module; it is refused if its path is taken. -/
  | insert (m : Module)
  /-- Start anew with the modules of a list. -/
  | ofList (modules : List Module)

/-- The set after a call. -/
def Call.apply (set : ModuleSet) : Call → ModuleSet
  | .insert m => set.insertNew m
  | .ofList modules => ModuleSet.ofList modules

/-- The set after some calls, the empty one at the start. -/
def afterCalls (calls : List Call) : ModuleSet := calls.foldl Call.apply empty

/-- The modules handed over after a call. -/
def Call.hand (handed : List Module) : Call → List Module
  | .insert m => handed ++ [m]
  | .ofList modules => modules

/-- The modules that a set was handed since it was last made from a list. -/
def handed (calls : List Call) : List Module := calls.foldl Call.hand []

/-- The set that calls leave is the set of what it was handed. -/
theorem afterCalls_eq_ofList (calls : List Call) :
    afterCalls calls = ofList (handed calls) := by
  suffices h : ∀ modules, calls.foldl Call.apply (ofList modules) =
      ofList (calls.foldl Call.hand modules) from
    h []
  induction calls with
  | nil => exact fun _ => rfl
  | cons call calls ih =>
    intro modules
    rw [List.foldl_cons, List.foldl_cons, ← ih]
    cases call with
    | insert m =>
      have hnext : (ofList modules).insertNew m = ofList (modules ++ [m]) := by
        unfold ofList
        rw [List.foldl_append]
        rfl
      exact congrArg (calls.foldl Call.apply) hnext
    | ofList modules => rfl

/-- **Places after any calls.**  After every sequence of calls the set holds, of the modules
that it was handed since it was last made from a list, the first of each path, in order, and its
index holds their paths with the numbers below the size.  The place found for a path is the only
one at which a module has this path, and a lookup through the index finds a path, or its module,
if the set holds it.  A module whose path is taken is refused, which leaves the set exactly as
it was; any other is added at the next place.  Of a list, the set has in order those modules
that are the first with their path. -/
theorem places_after_calls (calls : List Call) :
    let set := afterCalls calls
    set.modules = firstOfEach (handed calls) ∧
      set.paths.Nodup ∧
      set.byPath = set.paths.zipIdx ∧
      (∀ p i, set.indexOf? p = some i ↔ ∃ m, set.modules[i]? = some m ∧ m.path = p) ∧
      set.paths.map set.indexOf? = (List.range set.size).map some ∧
      (∀ p, (set.contains p = true ↔ p ∈ set.paths) ∧
        set.find? p = set.modules.find? (·.path = p)) ∧
      (∀ m, set.contains m.path = true →
        set.insert m = .error ⟨m.path⟩ ∧ afterCalls (calls ++ [.insert m]) = set) ∧
      (∀ m, set.contains m.path = false → ∃ larger,
        set.insert m = .ok larger ∧ afterCalls (calls ++ [.insert m]) = larger ∧
          larger.modules = set.modules ++ [m] ∧ larger.indexOf? m.path = some set.size) ∧
      ∀ modules, (ofList modules).modules = firstOfEach modules ∧
        (firstOfEach modules).Sublist modules ∧
        ∀ m, m ∈ firstOfEach modules ↔ modules.find? (·.path = m.path) = some m := by
  intro set
  have hnext : ∀ m, afterCalls (calls ++ [.insert m]) = set.insertNew m := by
    intro m
    unfold afterCalls
    rw [List.foldl_append]
    rfl
  refine ⟨?_, set.nodup, set.inStep, fun _ _ => indexOf?_eq_some_iff, map_indexOf?_paths set,
    fun _ => ⟨contains_iff, find?_eq set _⟩, ?_, ?_,
    fun modules => ⟨modules_ofList modules, firstOfEach_sublist modules,
      fun _ => mem_firstOfEach_iff modules⟩⟩
  · rw [← modules_ofList, ← afterCalls_eq_ofList]
  · intro m hm
    have hrefused := insert_of_mem (contains_iff.1 hm)
    rw [hnext, insertNew, hrefused]
    exact ⟨rfl, rfl⟩
  · intro m hm
    have hfresh : m.path ∉ set.paths := by
      rw [← contains_iff, hm]
      exact Bool.false_ne_true
    obtain ⟨larger, hlarger, hmodules⟩ := exists_insert_of_not_mem hfresh
    rw [hnext, insertNew, hlarger]
    refine ⟨larger, rfl, rfl, hmodules, ?_⟩
    rw [indexOf?_eq_some_iff, hmodules]
    exact ⟨m, List.getElem?_concat_length, rfl⟩

/-- A set that is made anew from a list with a repeated path, and then handed that path once
more and a new one. -/
theorem places_after_restart :
    let named (name : String) (kind : ModuleKind) : Module := .empty ⟨name⟩ kind
    let calls : List Call := [.insert (named "/a" .script),
      .ofList [named "/c" .script, named "/a" .script, named "/c" .style, named "/b" .script],
      .insert (named "/c" .template), .insert (named "/d" .script)]
    (afterCalls calls).modules =
        [named "/c" .script, named "/a" .script, named "/b" .script, named "/d" .script] ∧
      (afterCalls calls).insert (named "/b" .style) = .error ⟨⟨"/b"⟩⟩ ∧
      afterCalls (calls ++ [.insert (named "/b" .style)]) = afterCalls calls ∧
      ∃ larger, (afterCalls calls).insert (named "/e" .script) = .ok larger ∧
        larger.indexOf? ⟨"/e"⟩ = some 4 := by
  intro named calls
  obtain ⟨hmodules, -, -, -, -, -, hrefused, hadded, -⟩ := places_after_calls calls
  have hheld : (afterCalls calls).modules =
      [named "/c" .script, named "/a" .script, named "/b" .script, named "/d" .script] := by
    rw [hmodules]
    decide
  have htaken : (afterCalls calls).contains ⟨"/b"⟩ = true := by
    rw [contains_iff, paths, hheld]
    decide
  have hfree : (afterCalls calls).contains ⟨"/e"⟩ = false := by
    rw [Bool.eq_false_iff, ne_eq, contains_iff, paths, hheld]
    decide
  obtain ⟨larger, hlarger, -, -, hplace⟩ := hadded (named "/e" .script) hfree
  have hsize : (afterCalls calls).size = 4 := by rw [size, hheld]; rfl
  rw [hsize] at hplace
  exact ⟨hheld, (hrefused (named "/b" .style) htaken).1,
    (hrefused (named "/b" .style) htaken).2, larger, hlarger, hplace⟩

end WebBundler.ModuleSet
