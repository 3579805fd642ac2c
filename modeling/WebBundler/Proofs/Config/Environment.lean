import WebBundler.Proofs.Config.Overlay
set_option autoImplicit false

/-!
# What the variables set

Every variable that sets a field makes up a layer with this one field (`exists_of_layer?`), and
the layers are laid one over the other in the order of the variables: a field is what the last
variable that sets it says (`field?_environmentLayer`).

There is no way to write `null` in a variable (`nullFree_value`).  So no table in a variable is
the name of a mode, and a value that a variable gives to a setting is never a table.
-/

namespace WebBundler.Json

/-- There is no `null` in the value. -/
inductive NullFree : Json → Prop where
  | bool (b : Bool) : NullFree (.bool b)
  | num (n : Number) : NullFree (.num n)
  | str (s : String) : NullFree (.str s)
  | arr {items : List Json} (hitems : ∀ item ∈ items, NullFree item) : NullFree (.arr items)
  | obj {fields : List (String × Json)} (hvalues : ∀ f ∈ fields, NullFree f.2) :
      NullFree (.obj fields)

end WebBundler.Json

namespace WebBundler.Config

open Json (Increasing NullFree)

namespace Variable

/-! ## Values without null -/

theorem nullFree_bareValue (word : List Char) : NullFree (bareValue word) := by
  unfold bareValue
  split
  · exact .num _
  · split
    · exact .num _
    · exact .str _

/-- With so much fuel, the readers read values without `null`. -/
structure ReadsNullFree (fuel : Nat) : Prop where
  value : ∀ {s j rest}, readValue fuel s = some (j, rest) → NullFree j
  items : ∀ {acc s j rest}, (∀ item ∈ acc, NullFree item) →
    readItems fuel acc s = some (j, rest) → NullFree j
  fields : ∀ {acc s j rest}, (∀ f ∈ acc, NullFree f.2) →
    readFields fuel acc s = some (j, rest) → NullFree j

variable {fuel : Nat} {s rest : List Char} {j : Json}

theorem ReadsNullFree.value_succ (h : ReadsNullFree fuel)
    (hread : readValue (fuel + 1) s = some (j, rest)) :
    NullFree j := by
  unfold readValue at hread
  obtain ⟨⟨value, left⟩, hvalue, hj⟩ := Option.map_eq_some_iff.1 hread
  cases hj
  split at hvalue
  · cases hvalue
    exact .bool true
  · split at hvalue
    · cases hvalue
      exact .bool false
    · split at hvalue
      · exact h.fields (List.forall_mem_nil _) hvalue
      · exact h.items (List.forall_mem_nil _) hvalue
      · obtain ⟨_, _, hquoted⟩ := Option.map_eq_some_iff.1 hvalue
        cases hquoted
        exact .str _
      · cases hvalue
        exact .str _
      · cases hvalue
      · cases hvalue
        exact nullFree_bareValue _

theorem ReadsNullFree.items_succ (h : ReadsNullFree fuel) {acc : List Json}
    (hacc : ∀ item ∈ acc, NullFree item) (hread : readItems (fuel + 1) acc s = some (j, rest)) :
    NullFree j := by
  unfold readItems at hread
  split at hread
  · cases hread
    exact .arr fun item hitem => hacc item (List.mem_reverse.1 hitem)
  · split at hread
    · next hitem => exact h.items (List.forall_mem_cons.2 ⟨h.value hitem, hacc⟩) hread
    · next hitem =>
      cases hread
      exact .arr fun other hother => List.forall_mem_cons.2 ⟨h.value hitem, hacc⟩ other
        (List.mem_reverse.1 hother)
    · cases hread

theorem forall_mem_setField {acc : List (String × Json)} (hacc : ∀ f ∈ acc, NullFree f.2)
    (key : String) {value : Json} (hvalue : NullFree value) :
    ∀ f ∈ Json.setField key value acc, NullFree f.2 := by
  intro f hf
  rcases Json.mem_setField hf with rfl | hf
  · exact hvalue
  · exact hacc f hf

theorem ReadsNullFree.fields_succ (h : ReadsNullFree fuel) {acc : List (String × Json)}
    (hacc : ∀ f ∈ acc, NullFree f.2) (hread : readFields (fuel + 1) acc s = some (j, rest)) :
    NullFree j := by
  unfold readFields at hread
  split at hread
  · cases hread
    exact .obj hacc
  · split at hread
    · cases hread
    · split at hread
      · split at hread
        · next hvalue => exact h.fields (forall_mem_setField hacc _ (h.value hvalue)) hread
        · next hvalue =>
          cases hread
          exact .obj (forall_mem_setField hacc _ (h.value hvalue))
        · cases hread
      · cases hread

theorem readsNullFree (fuel : Nat) : ReadsNullFree fuel := by
  induction fuel with
  | zero => exact ⟨nofun, nofun, nofun⟩
  | succ fuel ih => exact ⟨ih.value_succ, ih.items_succ, ih.fields_succ⟩

theorem nullFree_value (text : String) : NullFree (value text) := by
  unfold value
  dsimp only
  split
  · next hread => exact (readsNullFree _).value hread
  · exact .str text

theorem nullFree_nest (steps : List String) {j : Json} (h : NullFree j) :
    NullFree (nest steps j) := by
  induction steps with
  | nil => exact h
  | cons step steps ih => exact .obj fun f hf => by rw [List.mem_singleton.1 hf]; exact ih

/-! ## Layers of one field -/

theorem fieldPath?_ne_nil {name : String} : fieldPath? name ≠ some [] := by
  unfold fieldPath?
  dsimp only
  split
  · exact nofun
  · split
    · exact nofun
    · intro hnil
      exact Text.splitOn_ne_nil _ _ (List.map_eq_nil_iff.1 (Option.some.inj hnil))

/-- A variable sets one field, to a value without `null`. -/
theorem exists_of_layer? {name text : String} {layer : Json}
    (h : layer? name text = some layer) :
    ∃ key value, layer = .obj [(key, value)] ∧ NullFree value := by
  unfold layer? at h
  obtain ⟨steps, hsteps, rfl⟩ := Option.map_eq_some_iff.1 h
  cases steps with
  | nil => exact absurd hsteps fieldPath?_ne_nil
  | cons step steps => exact ⟨step, _, rfl, nullFree_nest steps (nullFree_value text)⟩

/-- The value that a variable gives a field, if it sets the field. -/
def given? (field : String) (v : String × String) : Option Json :=
  (layer? v.1 v.2).bind (Json.field? field)

theorem nullFree_of_given? {field : String} {v : String × String} {value : Json}
    (h : given? field v = some value) :
    NullFree value := by
  obtain ⟨layer, hlayer, hvalue⟩ := Option.bind_eq_some_iff.1 h
  obtain ⟨key, inner, rfl, hinner⟩ := exists_of_layer? hlayer
  rw [Json.field?_cons] at hvalue
  split at hvalue
  · cases hvalue
    exact hinner
  · cases hvalue

end Variable

/-- The value that the variables give a field: that of the last one that sets it. -/
def Environment.given? (env : Environment) (field : String) : Option Json :=
  (env.filterMap (Variable.given? field)).getLast?

/-- Layers of one field each, laid over a table: a field is what the last one that sets it says,
or what it was. -/
theorem field?_foldl_overlay {layers : List Json}
    (hlayers : ∀ layer ∈ layers, ∃ key value, layer = .obj [(key, value)]) {field : String}
    (hplain : ∀ layer ∈ layers, ∀ value, layer.field? field = some value → value.fields? = none)
    {lower : List (String × Json)} (hlower : Increasing lower) :
    ∃ set, layers.foldl overlay (.obj lower) = .obj set ∧ Increasing set ∧
      (Json.obj set).field? field =
        (layers.filterMap (Json.field? field)).getLast?.or ((Json.obj lower).field? field) := by
  induction layers generalizing lower with
  | nil => exact ⟨lower, rfl, hlower, rfl⟩
  | cons layer layers ih =>
    rw [List.forall_mem_cons] at hlayers hplain
    obtain ⟨⟨key, value, rfl⟩, hlayers⟩ := hlayers
    have hone : Increasing [(key, value)] := List.pairwise_singleton _ _
    obtain ⟨set, hset, hkeys, hfield⟩ :=
      ih hlayers hplain.2 (increasing_overlayFields hlower [(key, value)])
    refine ⟨set, ?_, hkeys, ?_⟩
    · rw [List.foldl_cons, ← hset]
      unfold overlay
      rfl
    rw [hfield, field?_overlayFields lower hone]
    cases hvalue : (Json.obj [(key, value)]).field? field with
    | none => rw [List.filterMap_cons_none hvalue, overlay?_none]
    | some v =>
      -- A value that is no table replaces what the layers before it say.
      rw [List.filterMap_cons_some hvalue, overlay?_some (.inr (hplain.1 v hvalue)),
        List.getLast?_cons]
      cases (layers.filterMap (Json.field? field)).getLast? <;> rfl

/-- The layer of the environment says of a field what the last variable that sets it says. -/
theorem field?_environmentLayer {env : Environment} {field : String}
    (hplain : ∀ v ∈ env, ∀ value, Variable.given? field v = some value → value.fields? = none) :
    ∃ set, environmentLayer env = .obj set ∧ Increasing set ∧
      (Json.obj set).field? field = env.given? field := by
  have hone : ∀ layer ∈ env.filterMap (fun v => Variable.layer? v.1 v.2),
      ∃ key value, layer = .obj [(key, value)] := by
    intro layer hmem
    obtain ⟨v, -, hv⟩ := List.mem_filterMap.1 hmem
    obtain ⟨key, value, hlayer, -⟩ := Variable.exists_of_layer? hv
    exact ⟨key, value, hlayer⟩
  have hgiven : ∀ layer ∈ env.filterMap (fun v => Variable.layer? v.1 v.2), ∀ value,
      layer.field? field = some value → value.fields? = none := by
    intro layer hmem value hvalue
    obtain ⟨v, hvmem, hv⟩ := List.mem_filterMap.1 hmem
    exact hplain v hvmem value (Option.bind_eq_some_iff.2 ⟨layer, hv, hvalue⟩)
  obtain ⟨set, hset, hkeys, hfield⟩ := field?_foldl_overlay hone hgiven Json.increasing_nil
  refine ⟨set, hset, hkeys, ?_⟩
  rw [hfield, List.filterMap_filterMap]
  exact Option.or_none

end WebBundler.Config
