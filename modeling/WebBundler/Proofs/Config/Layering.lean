import WebBundler.Proofs.Config.Environment
set_option autoImplicit false

/-!
# Settings field by field

The layers are laid over each other as tables, before anything is read from them.  Each field
(`Field`) is read from its own place in the result, where the topmost layer that sets it has
left its value: so settings are read field by field from the variables, else from the file, else
they are the default (`ofLayers_of_wellTyped`).

Two values are merged rather than replaced when both are tables.  The defaults hold no table,
and no value in a variable that can be read is one (`Field.no_table`), so this does not happen
to a field.
-/

namespace WebBundler.Config

open Json (Increasing NullFree)

variable {α : Type}

/-- The defaults as they are written: the fields that are set, in increasing order of keys. -/
def defaultFields : List (String × Json) :=
  [("common_bundle", .str defaultCommonBundle), ("concurrency", .ofNat 10),
    ("dependency_dir", .str defaultDependencyDir), ("emit", .str "modules"),
      ("export_modules", .arr []),
    ("ignore", .arr []), ("root", .str "."), ("skip", .arr [])]

theorem toJson_default : default.toJson = .obj defaultFields := rfl

theorem default_no_table {name : String} {value : Json}
    (h : (Json.obj defaultFields).field? name = some value) :
    value.fields? = none := by
  obtain ⟨f, hf, rfl⟩ := Option.map_eq_some_iff.1 h
  have hall : ∀ f ∈ defaultFields, f.2.fields? = none := by
    simp [defaultFields, Json.ofNat, Json.fields?]
  exact hall f (List.mem_of_find?_eq_some hf)

/-- A table names a mode by a `null` only. -/
theorem takeMode_table {fields : List (String × Json)} (h : NullFree (.obj fields)) :
    takeMode (.obj fields) = none := by
  cases h with
  | obj hvalues =>
    unfold takeMode
    split
    · next hstr => cases hstr
    · next hobj =>
      cases hobj
      cases hvalues _ List.mem_cons_self
    · rfl

theorem takeCount_ofNat {n : Nat} (h : n < UInt64.size) : takeCount (.ofNat n) = some n := by
  unfold takeCount Json.ofNat
  simp only
  rw [if_pos ⟨Int.natCast_nonneg n, Int.ofNat_lt.2 h⟩, Int.toNat_natCast]

/-- What a table gives for a field; a field that it does not set is the default. -/
def takeField (name : String) (read : Json → Option α) (missing : α) (j : Json) : Option α :=
  match j.field? name with
  | some value => read value
  | none => some missing

/-- A field of the settings: its name, how its values are read, and its default. -/
structure Field (α : Type) where
  name : String
  read : Json → Option α
  missing : α
  /-- The default comes back from the defaults as they are written. -/
  read_default : takeField name read missing (.obj defaultFields) = some missing
  /-- No table without `null` can be read. -/
  no_table : ∀ {fields : List (String × Json)}, NullFree (.obj fields) →
    read (.obj fields) = none

namespace Field

def root : Field HostPath := ⟨"root", takePath, default.root, rfl, fun _ => rfl⟩

def dest : Field (Option HostPath) :=
  ⟨"dest", takeOptional takePath, default.dest, rfl, fun _ => rfl⟩

def dependencyDir : Field String :=
  ⟨"dependency_dir", takeText, default.dependencyDir, rfl, fun _ => rfl⟩

def exportModules : Field (List String) :=
  ⟨"export_modules", takeTexts, default.exportModules, rfl, fun _ => rfl⟩

def concurrency : Field Nat :=
  ⟨"concurrency", takeCount, default.concurrency, takeCount_ofNat (n := 10) (by decide),
    fun _ => rfl⟩

def walkConcurrency : Field (Option Nat) :=
  ⟨"walk_concurrency", takeOptional takeCount, default.walkConcurrency, rfl, fun _ => rfl⟩

def emit : Field EmitMode := ⟨"emit", takeMode, default.emit, rfl, takeMode_table⟩

def commonBundle : Field String :=
  ⟨"common_bundle", takeText, default.commonBundle, rfl, fun _ => rfl⟩

def runtimeAsset : Field (Option HostPath) :=
  ⟨"runtime_asset", takeOptional takePath, default.runtimeAsset, rfl, fun _ => rfl⟩

def ignore : Field (List String) := ⟨"ignore", takeTexts, default.ignore, rfl, fun _ => rfl⟩

def skip : Field (List String) := ⟨"skip", takeTexts, default.skip, rfl, fun _ => rfl⟩

/-- What is read of a field from a table. -/
def taken (f : Field α) (j : Json) : Option α := takeField f.name f.read f.missing j

/-- What the variables say of a field, else what the file says of it, else its default. -/
def layered (f : Field α) (file : Json) (env : Environment) : α :=
  (((env.given? f.name).or (file.field? f.name)).bind f.read).getD f.missing

/-- All that the file and the variables say of a field can be read. -/
structure WellTyped (f : Field α) (file : Json) (env : Environment) : Prop where
  inFile : ∀ value ∈ file.field? f.name, (f.read value).isSome = true
  inVariables : ∀ v ∈ env, ∀ value ∈ Variable.given? f.name v, (f.read value).isSome = true

instance (f : Field α) (file : Json) (env : Environment) : Decidable (f.WellTyped file env) :=
  decidable_of_iff
    ((∀ value ∈ file.field? f.name, (f.read value).isSome = true) ∧
      ∀ v ∈ env, ∀ value ∈ Variable.given? f.name v, (f.read value).isSome = true)
    ⟨fun h => ⟨h.1, h.2⟩, fun h => ⟨h.1, h.2⟩⟩

theorem WellTyped.variable_no_table {f : Field α} {file : Json} {env : Environment}
    (h : f.WellTyped file env) :
    ∀ v ∈ env, ∀ value, Variable.given? f.name v = some value → value.fields? = none := by
  intro v hv value hvalue
  cases value with
  | obj fields =>
    have hread := h.inVariables v hv _ hvalue
    rw [f.no_table (Variable.nullFree_of_given? hvalue)] at hread
    cases hread
  | _ => rfl

end Field

/-- The layers laid over each other give a field what the topmost of them says. -/
theorem Field.taken_layers (f : Field α) {fields : List (String × Json)} {env : Environment}
    (hkeys : Increasing fields) (h : f.WellTyped (.obj fields) env) :
    f.taken (overlay (overlay default.toJson (.obj fields)) (environmentLayer env)) =
      some (f.layered (.obj fields) env) := by
  obtain ⟨set, hset, hsetKeys, hgiven⟩ := field?_environmentLayer h.variable_no_table
  have hmerged : (overlay (overlay default.toJson (.obj fields)) (environmentLayer env)).field?
      f.name =
      overlay? (overlay? ((Json.obj defaultFields).field? f.name)
        ((Json.obj fields).field? f.name)) (env.given? f.name) := by
    rw [hset, toJson_default, ← hgiven, ← field?_overlay _ hkeys]
    unfold overlay
    exact field?_overlayFields _ hsetKeys f.name
  unfold taken takeField layered
  rw [hmerged]
  cases hvariables : env.given? f.name with
  | some value =>
    obtain ⟨v, hv, hvalue⟩ := List.mem_filterMap.1 (List.mem_of_getLast? hvariables)
    obtain ⟨a, ha⟩ := Option.isSome_iff_exists.1 (h.inVariables v hv value hvalue)
    rw [overlay?_some (.inr (h.variable_no_table v hv value hvalue))]
    simp [ha]
  | none =>
    rw [overlay?_none]
    cases hfile : (Json.obj fields).field? f.name with
    | some value =>
      obtain ⟨a, ha⟩ := Option.isSome_iff_exists.1 (h.inFile value hfile)
      rw [overlay?_some (.inl fun _ hbelow => default_no_table hbelow)]
      simp [ha]
    | none =>
      rw [overlay?_none]
      exact f.read_default

/-! ## All fields -/

/-- A table holds settings: each of their fields is what is read of it. -/
structure Holds (j : Json) (c : Config) : Prop where
  root : Field.root.taken j = some c.root
  dest : Field.dest.taken j = some c.dest
  dependencyDir : Field.dependencyDir.taken j = some c.dependencyDir
  exportModules : Field.exportModules.taken j = some c.exportModules
  concurrency : Field.concurrency.taken j = some c.concurrency
  walkConcurrency : Field.walkConcurrency.taken j = some c.walkConcurrency
  emit : Field.emit.taken j = some c.emit
  commonBundle : Field.commonBundle.taken j = some c.commonBundle
  runtimeAsset : Field.runtimeAsset.taken j = some c.runtimeAsset
  ignore : Field.ignore.taken j = some c.ignore
  skip : Field.skip.taken j = some c.skip

theorem takeField_obj (name : String) (read : Json → Option α) (missing : α)
    (fields : List (String × Json)) :
    takeField name read missing (.obj fields) =
      match fields.find? (·.1 = name) with
      | some (_, value) => read value
      | none => some missing := by
  unfold takeField
  rw [Json.field?_obj]
  cases fields.find? (·.1 = name) <;> rfl

theorem take_obj (fields : List (String × Json)) :
    take (.obj fields) = do
      return {
        root := ← Field.root.taken (.obj fields)
        dest := ← Field.dest.taken (.obj fields)
        dependencyDir := ← Field.dependencyDir.taken (.obj fields)
        exportModules := ← Field.exportModules.taken (.obj fields)
        concurrency := ← Field.concurrency.taken (.obj fields)
        walkConcurrency := ← Field.walkConcurrency.taken (.obj fields)
        emit := ← Field.emit.taken (.obj fields)
        commonBundle := ← Field.commonBundle.taken (.obj fields)
        runtimeAsset := ← Field.runtimeAsset.taken (.obj fields)
        ignore := ← Field.ignore.taken (.obj fields)
        skip := ← Field.skip.taken (.obj fields) } := by
  unfold take Field.taken
  simp only [takeField_obj]
  rfl

theorem Holds.take {fields : List (String × Json)} {c : Config} (h : Holds (.obj fields) c) :
    take (.obj fields) = some c := by
  rw [take_obj, h.root, h.dest, h.dependencyDir, h.exportModules, h.concurrency,
    h.walkConcurrency, h.emit, h.commonBundle, h.runtimeAsset, h.ignore, h.skip]
  rfl

/-- All that the file and the variables say of the settings can be read. -/
structure WellTyped (file : Json) (env : Environment) : Prop where
  root : Field.root.WellTyped file env
  dest : Field.dest.WellTyped file env
  dependencyDir : Field.dependencyDir.WellTyped file env
  exportModules : Field.exportModules.WellTyped file env
  concurrency : Field.concurrency.WellTyped file env
  walkConcurrency : Field.walkConcurrency.WellTyped file env
  emit : Field.emit.WellTyped file env
  commonBundle : Field.commonBundle.WellTyped file env
  runtimeAsset : Field.runtimeAsset.WellTyped file env
  ignore : Field.ignore.WellTyped file env
  skip : Field.skip.WellTyped file env

instance (file : Json) (env : Environment) : Decidable (WellTyped file env) :=
  decidable_of_iff
    (Field.root.WellTyped file env ∧ Field.dest.WellTyped file env ∧
      Field.dependencyDir.WellTyped file env ∧
      Field.exportModules.WellTyped file env ∧ Field.concurrency.WellTyped file env ∧
      Field.walkConcurrency.WellTyped file env ∧ Field.emit.WellTyped file env ∧
      Field.commonBundle.WellTyped file env ∧ Field.runtimeAsset.WellTyped file env ∧
      Field.ignore.WellTyped file env ∧ Field.skip.WellTyped file env)
    ⟨fun ⟨h₁, h₂, h₃, h₄, h₅, h₆, h₇, h₈, h₉, h₁₀, h₁₁⟩ =>
      ⟨h₁, h₂, h₃, h₄, h₅, h₆, h₇, h₈, h₉, h₁₀, h₁₁⟩, fun h =>
        ⟨h.1, h.2, h.3, h.4, h.5, h.6, h.7, h.8, h.9, h.10, h.11⟩⟩

/-- The settings that the file and the variables make up field by field. -/
def layered (file : Json) (env : Environment) : Config where
  root := Field.root.layered file env
  dest := Field.dest.layered file env
  dependencyDir := Field.dependencyDir.layered file env
  exportModules := Field.exportModules.layered file env
  concurrency := Field.concurrency.layered file env
  walkConcurrency := Field.walkConcurrency.layered file env
  emit := Field.emit.layered file env
  commonBundle := Field.commonBundle.layered file env
  runtimeAsset := Field.runtimeAsset.layered file env
  ignore := Field.ignore.layered file env
  skip := Field.skip.layered file env

/-- Settings that can be read are made up field by field. -/
theorem ofLayers_of_wellTyped {fields : List (String × Json)} {env : Environment}
    (hkeys : Increasing fields) (h : WellTyped (.obj fields) env) :
    ofLayers (.obj fields) env = .ok (layered (.obj fields) env) := by
  have hholds : Holds (overlay (overlay default.toJson (.obj fields)) (environmentLayer env))
      (layered (.obj fields) env) :=
    ⟨Field.taken_layers _ hkeys h.root, Field.taken_layers _ hkeys h.dest,
      Field.taken_layers _ hkeys h.dependencyDir, Field.taken_layers _ hkeys h.exportModules,
        Field.taken_layers _ hkeys h.concurrency,
      Field.taken_layers _ hkeys h.walkConcurrency, Field.taken_layers _ hkeys h.emit,
      Field.taken_layers _ hkeys h.commonBundle, Field.taken_layers _ hkeys h.runtimeAsset,
      Field.taken_layers _ hkeys h.ignore, Field.taken_layers _ hkeys h.skip⟩
  have htable : ∃ set, overlay (overlay default.toJson (.obj fields)) (environmentLayer env) =
      .obj set := by
    obtain ⟨set, hset, -⟩ := field?_environmentLayer h.root.variable_no_table
    rw [hset, toJson_default]
    unfold overlay
    exact ⟨_, rfl⟩
  obtain ⟨set, hset⟩ := htable
  unfold ofLayers
  rw [hset] at hholds ⊢
  rw [hholds.take]

end WebBundler.Config
