import WebBundler.Config.Layers
import WebBundler.Proofs.Json.Keys
set_option autoImplicit false

/-!
# One table over another

Laid over a table, a table changes the fields that it sets and no other (`field?_overlay`).
What it sets takes the place of what was there, unless both are tables, which are laid one over
the other again (`overlay_eq_upper`).
-/

namespace WebBundler.Config

open Json (Increasing)

/-- What two layers say under a key, from what each of them says. -/
def overlay? : Option Json → Option Json → Option Json
  | below, none => below
  | none, some above => some above
  | some below, some above => some (overlay below above)

theorem overlay?_none (below : Option Json) : overlay? below none = below := by
  cases below <;> rfl

/-- A value that is laid over another takes its place, unless both are tables. -/
theorem overlay_eq_upper {below above : Json}
    (h : below.fields? = none ∨ above.fields? = none) :
    overlay below above = above := by
  unfold overlay
  split
  · rcases h with h | h <;> cases h
  · rfl

theorem overlay?_some {below : Option Json} {above : Json}
    (h : (∀ j ∈ below, j.fields? = none) ∨ above.fields? = none) :
    overlay? below (some above) = some above := by
  cases below with
  | none => rfl
  | some below =>
    exact congrArg some (overlay_eq_upper (h.imp_left fun hbelow => hbelow below rfl))

theorem increasing_overlayFields {lower : List (String × Json)} (h : Increasing lower)
    (upper : List (String × Json)) :
    Increasing (overlayFields lower upper) := by
  induction upper generalizing lower with
  | nil =>
    unfold overlayFields
    exact h
  | cons f rest ih =>
    unfold overlayFields
    exact ih (h.setField _ _)

/-- What the fields of a table are laid over others with is what both layers say. -/
theorem overlay?_field? (lower : List (String × Json)) (key : String) (above : Json) :
    overlay? ((Json.obj lower).field? key) (some above) =
      some (match lower.find? (·.1 = key) with
        | some (_, below) => overlay below above
        | none => above) := by
  rw [Json.field?_obj]
  cases hfound : lower.find? (·.1 = key) with
  | none => rfl
  | some f => rfl

theorem field?_overlayFields (lower : List (String × Json)) {upper : List (String × Json)}
    (h : Increasing upper) (key : String) :
    (Json.obj (overlayFields lower upper)).field? key =
      overlay? ((Json.obj lower).field? key) ((Json.obj upper).field? key) := by
  induction upper generalizing lower with
  | nil =>
    unfold overlayFields
    exact (overlay?_none _).symm
  | cons f rest ih =>
    obtain ⟨first, value⟩ := f
    unfold overlayFields
    rw [ih _ h.of_cons, Json.field?_setField, Json.field?_cons]
    by_cases hsame : key = first
    · -- The key is set here, and by no field after this one.
      subst hsame
      rw [if_pos rfl, if_pos rfl, Json.field?_rest h, overlay?_field?]
      rfl
    · rw [if_neg hsame, if_neg hsame]

/-- A table that is laid over another one changes what it sets and nothing else. -/
theorem field?_overlay (lower : List (String × Json)) {upper : List (String × Json)}
    (h : Increasing upper) (key : String) :
    (overlay (.obj lower) (.obj upper)).field? key =
      overlay? ((Json.obj lower).field? key) ((Json.obj upper).field? key) := by
  unfold overlay
  exact field?_overlayFields lower h key

end WebBundler.Config
