import WebBundler.Json.Parser
import WebBundler.Toml.Parser
set_option autoImplicit false

/-!
# Keys in increasing order

The fields of an object are set one after the other, each at the place of its key
(`Increasing.setField`).  An object that is read therefore never holds two fields of one key,
and neither does one inside it (`tidy_of_parse?`): the first field of a key is all that the
object says under the key.

The three readers of values, items and fields call each other with one unit of fuel less, so
that what they read is tidy is one statement about all three (`ReadsTidy`).
-/

namespace WebBundler.Json

variable {α : Type} {key : String} {fields : List (String × α)}

theorem field?_obj (key : String) (fields : List (String × Json)) :
    (Json.obj fields).field? key = (fields.find? (·.1 = key)).map (·.2) := rfl

/-! ## Setting a field -/

theorem find?_setField_of_ne {other : String} (h : other ≠ key) (value : α)
    (fields : List (String × α)) :
    (setField key value fields).find? (·.1 = other) = fields.find? (·.1 = other) := by
  induction fields with
  | nil => simp [setField, Ne.symm h]
  | cons f rest ih =>
    obtain ⟨k, v⟩ := f
    unfold setField
    split
    · next hsame =>
      subst hsame
      simp [Ne.symm h]
    · split
      · simp [Ne.symm h]
      · rw [List.find?_cons, List.find?_cons, ih]

theorem field?_setField (key other : String) (value : Json) (fields : List (String × Json)) :
    (Json.obj (setField key value fields)).field? other =
      if other = key then some value else (Json.obj fields).field? other := by
  rw [field?_obj, field?_obj]
  split
  · next hsame => rw [hsame, find?_setField_self, Option.map_some]
  · next hother => rw [find?_setField_of_ne hother]

theorem field?_cons (key first : String) (value : Json) (rest : List (String × Json)) :
    (Json.obj ((first, value) :: rest)).field? key =
      if key = first then some value else (Json.obj rest).field? key := by
  rw [field?_obj, field?_obj, List.find?_cons]
  by_cases hsame : key = first
  · simp [hsame]
  · simp [hsame, Ne.symm hsame]

theorem mem_setField {f : String × α} {value : α} (h : f ∈ setField key value fields) :
    f = (key, value) ∨ f ∈ fields := by
  induction fields with
  | nil => exact .inl (List.mem_singleton.1 h)
  | cons first rest ih =>
    obtain ⟨k, v⟩ := first
    unfold setField at h
    split at h
    · exact (List.mem_cons.1 h).imp id (List.mem_cons_of_mem _)
    · split at h
      · exact List.mem_cons.1 h
      · rcases List.mem_cons.1 h with hfirst | hrest
        · exact .inr (hfirst ▸ List.mem_cons_self)
        · exact (ih hrest).imp id (List.mem_cons_of_mem _)

/-- The keys of some fields increase, so that no two of them are the same. -/
def Increasing (fields : List (String × α)) : Prop := fields.Pairwise (·.1 < ·.1)

theorem increasing_nil : Increasing ([] : List (String × α)) := List.Pairwise.nil

theorem lt_of_ne_of_not_lt {a b : String} (hne : ¬a = b) (hlt : ¬a < b) : b < a := by
  apply Decidable.byContradiction
  intro hle
  exact hne (String.le_antisymm (String.not_lt.1 hle) (String.not_lt.1 hlt))

theorem Increasing.setField (h : Increasing fields) (key : String) (value : α) :
    Increasing (setField key value fields) := by
  induction fields with
  | nil => exact List.pairwise_singleton _ _
  | cons first rest ih =>
    obtain ⟨k, v⟩ := first
    have hafter := List.pairwise_cons.1 h
    unfold Json.setField
    split
    · next hsame =>
      subst hsame
      exact List.pairwise_cons.2 ⟨hafter.1, hafter.2⟩
    · next hne =>
      split
      · next hlt =>
        refine List.pairwise_cons.2 ⟨fun f hf => ?_, h⟩
        rcases List.mem_cons.1 hf with rfl | hrest
        · exact hlt
        · exact String.lt_trans hlt (hafter.1 f hrest)
      · next hlt =>
        refine List.pairwise_cons.2 ⟨fun f hf => ?_, ih hafter.2⟩
        rcases mem_setField hf with rfl | hrest
        · exact lt_of_ne_of_not_lt hne hlt
        · exact hafter.1 f hrest

theorem field?_rest {value : Json} {rest : List (String × Json)}
    (h : Increasing ((key, value) :: rest)) :
    (Json.obj rest).field? key = none := by
  have hnone : rest.find? (·.1 = key) = none := by
    rw [List.find?_eq_none]
    intro f hf hsame
    exact String.ne_of_lt ((List.pairwise_cons.1 h).1 f hf) (of_decide_eq_true hsame).symm
  rw [field?_obj, hnone, Option.map_none]

theorem increasing_object (fields : List (String × Json)) :
    ∃ set, object fields = .obj set ∧ Increasing set := by
  refine ⟨_, rfl, ?_⟩
  generalize hstart : ([] : List (String × Json)) = start
  have hset : Increasing start := hstart ▸ increasing_nil
  clear hstart
  induction fields generalizing start with
  | nil => exact hset
  | cons f rest ih => exact ih _ (hset.setField f.1 f.2)

/-! ## Documents -/

/-- The keys of every object in the value increase. -/
inductive Tidy : Json → Prop where
  | null : Tidy .null
  | bool (b : Bool) : Tidy (.bool b)
  | num (n : Number) : Tidy (.num n)
  | str (s : String) : Tidy (.str s)
  | arr {items : List Json} (hitems : ∀ item ∈ items, Tidy item) : Tidy (.arr items)
  | obj {fields : List (String × Json)} (hkeys : Increasing fields)
      (hvalues : ∀ f ∈ fields, Tidy f.2) :
    Tidy (.obj fields)

theorem Tidy.field? {j value : Json} (h : Tidy j) (hfield : j.field? key = some value) :
    Tidy value := by
  cases h with
  | obj hkeys hvalues =>
    unfold Json.field? at hfield
    obtain ⟨f, hf, rfl⟩ := Option.map_eq_some_iff.1 hfield
    exact hvalues f (List.mem_of_find?_eq_some hf)
  | _ => cases hfield

/-- Fields that may stand in a tidy object. -/
structure TidyFields (fields : List (String × Json)) : Prop where
  keys : Increasing fields
  values : ∀ f ∈ fields, Tidy f.2

theorem TidyFields.obj {fields : List (String × Json)} (h : TidyFields fields) :
    Tidy (.obj fields) :=
  .obj h.keys h.values

theorem TidyFields.setField {fields : List (String × Json)} {value : Json}
    (h : TidyFields fields) (hvalue : Tidy value) : TidyFields (setField key value fields) where
  keys := h.keys.setField key value
  values f hf := by
    rcases mem_setField hf with rfl | hf
    · exact hvalue
    · exact h.values f hf

theorem tidyFields_nil : TidyFields [] := ⟨increasing_nil, List.forall_mem_nil _⟩

/-- With so much fuel, the readers read tidy values. -/
structure ReadsTidy (fuel : Nat) : Prop where
  value : ∀ {depth s j rest}, readValue fuel depth s = some (j, rest) → Tidy j
  items : ∀ {depth acc s j rest}, (∀ item ∈ acc, Tidy item) →
    readItems fuel depth acc s = some (j, rest) → Tidy j
  fields : ∀ {depth acc s j rest}, TidyFields acc →
    readFields fuel depth acc s = some (j, rest) → Tidy j

variable {fuel depth : Nat} {s rest : List Char} {j : Json}

theorem tidy_of_readWord {word : List Char} {value : Json} (hvalue : Tidy value)
    (h : readWord word value s = some (j, rest)) : Tidy j := by
  unfold readWord at h
  split at h
  · cases h
    exact hvalue
  · cases h

theorem tidy_of_readNumber (h : readNumber s = some (j, rest)) : Tidy j := by
  unfold readNumber at h
  obtain ⟨⟨whole, left⟩, -, hfraction⟩ := Option.bind_eq_some_iff.1 h
  obtain ⟨⟨fraction, left⟩, -, hexponent⟩ := Option.bind_eq_some_iff.1 hfraction
  obtain ⟨⟨exponent, left⟩, -, hnumber⟩ := Option.bind_eq_some_iff.1 hexponent
  clear h hfraction hexponent
  dsimp only at hnumber
  -- The first split is on the sign, and each of the others on a kind of number.
  split at hnumber
  all_goals
    split at hnumber
    · cases hnumber
      exact .num _
    · split at hnumber
      · cases hnumber
        exact .num _
      · split at hnumber
        · cases hnumber
        · cases hnumber
          exact .num _

theorem ReadsTidy.value_succ (h : ReadsTidy fuel)
    (hread : readValue (fuel + 1) depth s = some (j, rest)) : Tidy j := by
  unfold readValue at hread
  split at hread
  · cases hread
  · split at hread
    · obtain ⟨_, _, hj⟩ := Option.map_eq_some_iff.1 hread
      cases hj
      exact .str _
    · split at hread
      · split at hread
        · cases hread
        · split at hread
          · cases hread
            exact .arr (List.forall_mem_nil _)
          · exact h.items (List.forall_mem_nil _) hread
      · split at hread
        · split at hread
          · cases hread
          · split at hread
            · cases hread
              exact tidyFields_nil.obj
            · exact h.fields tidyFields_nil hread
        · split at hread
          · exact tidy_of_readWord .null hread
          · split at hread
            · exact tidy_of_readWord (.bool true) hread
            · split at hread
              · exact tidy_of_readWord (.bool false) hread
              · exact tidy_of_readNumber hread

theorem ReadsTidy.items_succ (h : ReadsTidy fuel) {acc : List Json}
    (hacc : ∀ item ∈ acc, Tidy item)
    (hread : readItems (fuel + 1) depth acc s = some (j, rest)) : Tidy j := by
  unfold readItems at hread
  split at hread
  · cases hread
  · next item more hitem =>
    have hall : ∀ other ∈ item :: acc, Tidy other :=
      List.forall_mem_cons.2 ⟨h.value hitem, hacc⟩
    split at hread
    · exact h.items hall hread
    · cases hread
      exact .arr fun other hother => hall other (List.mem_reverse.1 hother)
    · cases hread

theorem ReadsTidy.fields_succ (h : ReadsTidy fuel) {acc : List (String × Json)}
    (hacc : TidyFields acc) (hread : readFields (fuel + 1) depth acc s = some (j, rest)) :
    Tidy j := by
  unfold readFields at hread
  split at hread
  · split at hread
    · cases hread
    · split at hread
      · split at hread
        · cases hread
        · next hvalue =>
          split at hread
          · exact h.fields (hacc.setField (h.value hvalue)) hread
          · cases hread
            exact (hacc.setField (h.value hvalue)).obj
          · cases hread
      · cases hread
  · cases hread

theorem readsTidy (fuel : Nat) : ReadsTidy fuel := by
  induction fuel with
  | zero => exact ⟨nofun, nofun, nofun⟩
  | succ fuel ih => exact ⟨ih.value_succ, ih.items_succ, ih.fields_succ⟩

/-- A document that is read holds no object with two fields of one key. -/
theorem tidy_of_parse? {text : String} (h : parse? text = some j) : Tidy j := by
  unfold parse? at h
  dsimp only at h
  split at h
  · next hread =>
    split at h
    · cases h
      exact (readsTidy _).value hread
    · cases h
  · cases h

end WebBundler.Json

namespace WebBundler.Toml

theorem increasing_of_parse? {text : String} {j : Json} (h : parse? text = some j) :
    ∃ fields, j = .obj fields ∧ Json.Increasing fields := by
  unfold parse? at h
  obtain ⟨root, -, rfl⟩ := Option.map_eq_some_iff.1 h
  exact Json.increasing_object _

end WebBundler.Toml
