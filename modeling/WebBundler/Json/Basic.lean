import WebBundler.Json.Decimal
set_option autoImplicit false

/-!
# Json: values

The value type of configuration files, package descriptions and manifests.  Whole numbers
between `-2^63` and `2^64 - 1` are kept apart from all other numbers, because a count may only
be given as a whole number; every other number is kept as the decimal it was written as.
-/

namespace WebBundler

/-- A number of a JSON document. -/
inductive Json.Number where
  | whole (n : Int)
  | real (d : Json.Decimal)
  deriving DecidableEq, Repr, Inhabited

/-- A JSON value; the fields of an object stand in the order in which they are listed. -/
inductive Json where
  | null
  | bool (b : Bool)
  | num (n : Json.Number)
  | str (s : String)
  | arr (items : List Json)
  | obj (fields : List (String × Json))
  deriving Repr, Inhabited

namespace Json

/-- A whole number. -/
def ofNat (n : Nat) : Json := .num (.whole n)

/-- A list of texts. -/
def ofTexts (texts : List String) : Json := .arr (texts.map .str)

/-- A value, or `null` for none. -/
def ofOption {α : Type} (f : α → Json) : Option α → Json
  | none => .null
  | some a => f a

/-- The value of a field of an object. -/
def field? (key : String) : Json → Option Json
  | .obj fields => (fields.find? (·.1 = key)).map (·.2)
  | _ => none

/-- The text that a value is, if it is one. -/
def text? : Json → Option String
  | .str s => some s
  | _ => none

/-- The items of a list, if the value is one. -/
def items? : Json → Option (List Json)
  | .arr items => some items
  | _ => none

/-- The fields of an object, if the value is one. -/
def fields? : Json → Option (List (String × Json))
  | .obj fields => some fields
  | _ => none

/-- Set a field in a list kept in increasing order of keys; a later value replaces an earlier
one. -/
def setField {α : Type} (key : String) (value : α) : List (String × α) → List (String × α)
  | [] => [(key, value)]
  | (k, v) :: rest =>
    if key = k then (key, value) :: rest
    else if key < k then (key, value) :: (k, v) :: rest
    else (k, v) :: setField key value rest

theorem find?_setField_self {α : Type} (key : String) (value : α) (fields : List (String × α)) :
    (setField key value fields).find? (·.1 = key) = some (key, value) := by
  induction fields with
  | nil => simp [setField]
  | cons f rest ih =>
    obtain ⟨k, v⟩ := f
    by_cases h : key = k
    · simp [setField, h]
    · by_cases hl : key < k
      · simp [setField, h, hl]
      · have hk : ¬ k = key := fun e => h e.symm
        simp [setField, h, hl, hk, ih]

/-- The object with the given fields, one per key and in increasing order of keys. -/
def object (fields : List (String × Json)) : Json :=
  .obj (fields.foldl (fun acc f => setField f.1 f.2 acc) [])

end Json

end WebBundler
