import WebBundler.Module
set_option autoImplicit false

/-!
# Sets of modules

A module set holds at most one module of each path, in the order in which they were found, and
an index of the places of the paths, through which modules are looked up.  Its graph is given by
the modules themselves: the edges of a module are those of its `requires` that name a module of
the set.  `requirerIndex` is the same relation read backwards, over local paths only;
`requiredBy` looks a path up in it.
-/

namespace WebBundler

/-- Modules with distinct paths, in the order in which they were found. -/
structure ModuleSet where
  modules : List Module
  /-- The index: the place of each path. -/
  byPath : List (QueryPath × Nat) := (modules.map Module.path).zipIdx
  nodup : (modules.map Module.path).Nodup := by simp
  /-- The index follows the modules. -/
  inStep : byPath = (modules.map Module.path).zipIdx := by rfl
  deriving Repr

/-- A module whose path is taken. -/
structure DuplicateModule where
  path : QueryPath
  deriving DecidableEq, Repr

def DuplicateModule.message (e : DuplicateModule) : String :=
  "module " ++ e.path.text ++ " is already in the set"

namespace ModuleSet

/-- The set without modules. -/
def empty : ModuleSet where
  modules := []

instance : Inhabited ModuleSet := ⟨empty⟩

/-- The paths of the set, in order. -/
def paths (set : ModuleSet) : List QueryPath := set.modules.map Module.path

def size (set : ModuleSet) : Nat := set.modules.length

/-- The place of a path in the order of the set. -/
def indexOf? (set : ModuleSet) (p : QueryPath) : Option Nat :=
  (set.byPath.find? (·.1 = p)).map fun (_, place) => place

/-- A module of the set has the path. -/
def contains (set : ModuleSet) (p : QueryPath) : Bool := (set.indexOf? p).isSome

/-- The module with a path. -/
def find? (set : ModuleSet) (p : QueryPath) : Option Module :=
  (set.indexOf? p).bind fun i => set.modules[i]?

/-- Looking a path up in an index that follows the modules finds the first module with this
path. -/
theorem map_find?_zipIdx (modules : List Module) (p : QueryPath) (k : Nat) :
    (((modules.map Module.path).zipIdx k).find? (·.1 = p)).map (fun (_, place) => place) =
      (modules.findIdx? (·.path = p)).map (· + k) := by
  induction modules generalizing k with
  | nil => rfl
  | cons m modules ih =>
    rw [List.map_cons, List.zipIdx_cons, List.find?_cons, List.findIdx?_cons]
    by_cases hm : m.path = p
    · simp [hm]
    · simp [hm, ih, Function.comp_def, Nat.add_assoc, Nat.add_comm 1]

theorem indexOf?_eq (set : ModuleSet) (p : QueryPath) :
    set.indexOf? p = set.modules.findIdx? (·.path = p) := by
  rw [indexOf?, set.inStep, map_find?_zipIdx]
  simp

theorem contains_iff {set : ModuleSet} {p : QueryPath} :
    set.contains p = true ↔ p ∈ set.paths := by
  rw [contains, indexOf?_eq, List.findIdx?_isSome, List.any_eq_true]
  simp [paths]

theorem find?_eq (set : ModuleSet) (p : QueryPath) :
    set.find? p = set.modules.find? (·.path = p) := by
  rw [find?, indexOf?_eq, List.find?_eq_bind_findIdx?_getElem?]

/-- Add a module at the end, unless its path is taken. -/
def insert (set : ModuleSet) (m : Module) : Except DuplicateModule ModuleSet :=
  if h : set.contains m.path then .error ⟨m.path⟩
  else
    .ok {
      modules := set.modules ++ [m]
      byPath := set.byPath ++ [(m.path, set.size)]
      nodup := by
        simp only [List.map_append, List.map_cons, List.map_nil]
        refine List.nodup_append.2 ⟨set.nodup, by simp, ?_⟩
        rintro p hp q hq rfl
        simp only [List.mem_singleton] at hq
        exact h (contains_iff.2 (hq ▸ hp))
      inStep := by
        rw [set.inStep, List.map_append, List.zipIdx_append, List.length_map, Nat.zero_add]
        rfl }

/-- Add a module at the end; a module whose path is taken is left out. -/
def insertNew (set : ModuleSet) (m : Module) : ModuleSet :=
  match set.insert m with
  | .ok larger => larger
  | .error _ => set

/-- The set of the given modules: of those with the same path, the first. -/
def ofList (modules : List Module) : ModuleSet := modules.foldl insertNew empty

/-- What the module of a path requires, in order, whether in the set or not. -/
def requiresOf (set : ModuleSet) (p : QueryPath) : List QueryPath :=
  match set.find? p with
  | some m => m.requires
  | none => []

/-- What the module of a path requires in the set, in order and with repetitions. -/
def dependencies (set : ModuleSet) (p : QueryPath) : List QueryPath :=
  (set.requiresOf p).filter set.contains

/-- Where the modules stand that a module requires as local ones, in order and with repetitions;
a reference with a scheme, or to a module that is not in the set, leads nowhere. -/
def targets (set : ModuleSet) (m : Module) : List Nat :=
  (m.requires.filter fun r => !r.isRemote).filterMap set.indexOf?

/-- Note the place of a module that requires another, once. -/
def noteRequirer (requirers : List Nat) (place : Nat) : List Nat :=
  if requirers.contains place then requirers else requirers ++ [place]

/-- Note the place of a module under each of its targets. -/
def noteTargets (place : Nat) (index : List (List Nat)) (targets : List Nat) :
    List (List Nat) :=
  targets.foldl (fun index target => index.modify target (noteRequirer · place)) index

/-- For each place of the set, the places of the modules that require the module there as a
local one, noted in one pass over all references. -/
def requirerIndex (set : ModuleSet) : List (List Nat) :=
  set.modules.zipIdx.foldl (fun index (m, place) => noteTargets place index (set.targets m))
    (List.replicate set.size [])

/-- The modules that require a module of the set as a local one, in the order of the set. -/
def requiredBy (set : ModuleSet) (p : QueryPath) : List QueryPath :=
  match set.indexOf? p with
  | some target => (set.requirerIndex.getD target []).filterMap (set.paths[·]?)
  | none => []

theorem find?_eq_none_iff {set : ModuleSet} {p : QueryPath} :
    set.find? p = none ↔ p ∉ set.paths := by
  simp [find?_eq, paths]

theorem requiresOf_eq_nil_of_not_mem {set : ModuleSet} {p : QueryPath} (h : p ∉ set.paths) :
    set.requiresOf p = [] := by
  simp [requiresOf, find?_eq_none_iff.2 h]

theorem dependencies_eq_nil_of_not_mem {set : ModuleSet} {p : QueryPath} (h : p ∉ set.paths) :
    set.dependencies p = [] := by
  simp [dependencies, requiresOf_eq_nil_of_not_mem h]

theorem mem_dependencies {set : ModuleSet} {p q : QueryPath} :
    q ∈ set.dependencies p ↔ q ∈ set.requiresOf p ∧ q ∈ set.paths := by
  simp [dependencies, contains_iff]

end ModuleSet

end WebBundler
