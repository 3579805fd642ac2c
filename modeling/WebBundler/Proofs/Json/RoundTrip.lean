import WebBundler.Json.Parser
import WebBundler.Json.Printer
set_option autoImplicit false

/-!
# Written values are read back

The reader of documents reads the text of a value in front of any other text, and stops behind
it.  Its three readers call each other with one unit of fuel less, so what they read back is one
statement about all three (`ReadsBack`), with one lemma per reader for a further unit.

Fields are kept in increasing order of keys, so a value comes back with its objects in this
order (`sorted`).  Numbers are left out: a real one is written with the digits of the nearest
double, and need not come back as the decimal that it was.
-/

namespace WebBundler.Json

variable {depth fuel : Nat}

/-! ## What comes back -/

mutual

/-- The value with the fields of each object in increasing order of keys, of those with one key
the last. -/
def sorted : Json → Json
  | .null => .null
  | .bool b => .bool b
  | .num n => .num n
  | .str s => .str s
  | .arr items => .arr (sortedItems items)
  | .obj fields => .obj (sortedFields [] fields)

def sortedItems : List Json → List Json
  | [] => []
  | item :: rest => sorted item :: sortedItems rest

/-- The fields set so far with the given ones. -/
def sortedFields (fields : List (String × Json)) : List (String × Json) → List (String × Json)
  | [] => fields
  | (key, value) :: rest => sortedFields (setField key (sorted value) fields) rest

end

mutual

/-- The value holds no number, and its containers nest at most so deep. -/
def fits (depth : Nat) : Json → Bool
  | .null => true
  | .bool _ => true
  | .num _ => false
  | .str _ => true
  | .arr items => 0 < depth && fitsItems (depth - 1) items
  | .obj fields => 0 < depth && fitsFields (depth - 1) fields

def fitsItems (depth : Nat) : List Json → Bool
  | [] => true
  | item :: rest => fits depth item && fitsItems depth rest

def fitsFields (depth : Nat) : List (String × Json) → Bool
  | [] => true
  | (_, value) :: rest => fits depth value && fitsFields depth rest

end

/-! ## Texts of values -/

theorem toList_field (key : String) (value : Json) (more : List Char) :
    (quote key ++ ":" ++ compress value).toList ++ more =
      '"' :: (escape key.toList ++ '"' :: ':' :: (value.compress.toList ++ more)) := by
  rw [String.toList_append, String.toList_append, toList_quote, quoteChars]
  simp

/-- A value starts neither with a gap nor with a bracket that closes. -/
theorem exists_toList_compress (j : Json) (h : j.fits depth = true) :
    ∃ c rest, j.compress.toList = c :: rest ∧ isGap c = false ∧ c ≠ ']' := by
  cases j with
  | null => exact ⟨'n', _, by rw [compress]; rfl, by decide, by decide⟩
  | bool b =>
    cases b with
    | true => exact ⟨'t', _, by rw [compress]; rfl, by decide, by decide⟩
    | false => exact ⟨'f', _, by rw [compress]; rfl, by decide, by decide⟩
  | num n => rw [fits] at h; cases h
  | str s => exact ⟨'"', _, by rw [compress, toList_quote]; rfl, by decide, by decide⟩
  | arr items => exact ⟨'[', _, toList_compress_arr items, by decide, by decide⟩
  | obj fields => exact ⟨'\x7b', _, toList_compress_obj fields, by decide, by decide⟩

theorem exists_toList_commaSeparated (item : Json) (items : List Json)
    (h : fitsItems depth (item :: items) = true) :
    ∃ c rest, (commaSeparated (compressItems (item :: items))).toList = c :: rest ∧
      isGap c = false ∧ c ≠ ']' := by
  rw [fitsItems, Bool.and_eq_true] at h
  obtain ⟨c, rest, hc, hfirst⟩ := exists_toList_compress item h.1
  cases items with
  | nil =>
    exact ⟨c, rest, by rw [compressItems, compressItems, toList_commaSeparated_singleton, hc],
      hfirst⟩
  | cons next items =>
    exact ⟨c, _, by rw [compressItems, compressItems, toList_commaSeparated_cons_cons, hc]; rfl,
      hfirst⟩

theorem exists_toList_fields (field : String × Json) (fields : List (String × Json)) :
    ∃ rest, (commaSeparated (compressFields (field :: fields))).toList = '"' :: rest := by
  have hfield := toList_field field.1 field.2 []
  rw [List.append_nil] at hfield
  cases fields with
  | nil =>
    exact ⟨_, by rw [compressFields, compressFields, toList_commaSeparated_singleton, hfield]⟩
  | cons next fields =>
    exact ⟨_, by
      rw [compressFields, compressFields, toList_commaSeparated_cons_cons, hfield]; rfl⟩

theorem length_value_lt (key : String) (value : Json) :
    value.compress.toList.length < (quote key ++ ":" ++ compress value).toList.length := by
  have htext := toList_field key value []
  rw [List.append_nil, List.append_nil] at htext
  rw [htext]
  simp only [List.length_cons, List.length_append]
  omega

/-! ## Reading -/

/-- The last field is read up to the brace behind its value. -/
theorem readFields_last {key : String} {value read : Json} {fields : List (String × Json)}
    {rest : List Char} (hread : readValue fuel depth (value.compress.toList ++ '\x7d' :: rest) =
      some (read, '\x7d' :: rest)) :
    readFields (fuel + 1) depth fields
      ((quote key ++ ":" ++ compress value).toList ++ '\x7d' :: rest) =
      some (.obj (setField key read fields), rest) := by
  rw [toList_field, readFields, skipGaps_cons rfl]
  simp only [readLiteral_escape, skipGaps_cons (c := ':') rfl, hread,
    skipGaps_cons (c := '\x7d') rfl, String.ofList_toList]

/-- Any other field is read up to the comma behind its value, and then the others are. -/
theorem readFields_comma {key : String} {value read : Json} {fields : List (String × Json)}
    {more : List Char} (hread : readValue fuel depth (value.compress.toList ++ ',' :: more) =
      some (read, ',' :: more)) :
    readFields (fuel + 1) depth fields
      ((quote key ++ ":" ++ compress value).toList ++ ',' :: more) =
      readFields fuel depth (setField key read fields) more := by
  rw [toList_field, readFields, skipGaps_cons rfl]
  simp only [readLiteral_escape, skipGaps_cons (c := ':') rfl, hread,
    skipGaps_cons (c := ',') rfl, String.ofList_toList]

theorem readValue_arr_nil (rest : List Char) :
    readValue (fuel + 1) (depth + 1) ((compress (.arr [])).toList ++ rest) =
      some (.arr [], rest) := by
  have htext : (compress (.arr [])).toList ++ rest = '[' :: ']' :: rest := by
    rw [toList_compress_arr]
    rfl
  rw [htext, readValue, skipGaps_cons rfl]
  simp only [Char.reduceEq, if_false, if_true, Nat.succ_ne_zero, skipGaps_cons (c := ']') rfl]

theorem readValue_obj_nil (rest : List Char) :
    readValue (fuel + 1) (depth + 1) ((compress (.obj [])).toList ++ rest) =
      some (.obj [], rest) := by
  have htext : (compress (.obj [])).toList ++ rest = '\x7b' :: '\x7d' :: rest := by
    rw [toList_compress_obj]
    rfl
  rw [htext, readValue, skipGaps_cons rfl]
  simp only [Char.reduceEq, if_false, if_true, Nat.succ_ne_zero,
    skipGaps_cons (c := '\x7d') rfl]

/-! ## What is written is read -/

/-- With so much fuel the readers read back what is written: a value whatever text is behind it,
items up to their bracket and fields up to their brace. -/
structure ReadsBack (fuel : Nat) : Prop where
  value : ∀ {depth : Nat} (j : Json), j.fits depth = true → j.compress.toList.length ≤ fuel →
    ∀ rest,
    readValue fuel depth (j.compress.toList ++ rest) = some (j.sorted, rest)
  items : ∀ {depth : Nat} (item : Json) (items : List Json),
    fitsItems depth (item :: items) = true →
    (commaSeparated (compressItems (item :: items))).toList.length + 1 ≤ fuel → ∀ acc rest,
    readItems fuel depth acc
      ((commaSeparated (compressItems (item :: items))).toList ++ ']' :: rest) =
      some (.arr (acc.reverse ++ sortedItems (item :: items)), rest)
  fields : ∀ {depth : Nat} (key : String) (value : Json) (fields : List (String × Json)),
    fitsFields depth ((key, value) :: fields) = true →
    (commaSeparated (compressFields ((key, value) :: fields))).toList.length + 1 ≤ fuel →
    ∀ acc rest,
    readFields fuel depth acc
      ((commaSeparated (compressFields ((key, value) :: fields))).toList ++ '\x7d' :: rest) =
      some (.obj (sortedFields acc ((key, value) :: fields)), rest)

/-- A value is read by what reads its items or fields with one unit of fuel less. -/
theorem ReadsBack.value_succ (h : ReadsBack fuel) (j : Json) (hfits : j.fits depth = true)
    (hfuel : j.compress.toList.length ≤ fuel + 1) (rest : List Char) :
    readValue (fuel + 1) depth (j.compress.toList ++ rest) = some (j.sorted, rest) := by
  cases j with
  | null =>
    rw [compress, sorted]
    exact readValue_word rest (.inl ⟨rfl, rfl, rfl⟩)
  | bool b =>
    cases b with
    | true =>
      rw [compress, sorted]
      exact readValue_word rest (.inr (.inl ⟨rfl, rfl, rfl⟩))
    | false =>
      rw [compress, sorted]
      exact readValue_word rest (.inr (.inr ⟨rfl, rfl, rfl⟩))
  | num n =>
    rw [fits] at hfits
    cases hfits
  | str s => rw [compress, toList_quote, readValue_quoteChars, sorted, String.ofList_toList]
  | arr items =>
    rw [fits, Bool.and_eq_true, decide_eq_true_iff] at hfits
    obtain ⟨hpos, hitems⟩ := hfits
    obtain ⟨depth, rfl⟩ : ∃ less, depth = less + 1 := ⟨depth - 1, by omega⟩
    rw [sorted]
    cases items with
    | nil => exact readValue_arr_nil rest
    | cons item items =>
      rw [toList_compress_arr, List.length_cons, List.length_append, List.length_singleton]
        at hfuel
      have hread := h.items item items hitems (Nat.le_of_succ_le_succ hfuel) [] rest
      obtain ⟨c, more, htext, hgap, hne⟩ := exists_toList_commaSeparated item items hitems
      rw [toList_compress_arr, List.cons_append, List.append_assoc, List.singleton_append]
      rw [htext, List.cons_append] at hread ⊢
      exact readValue_arr hgap hne hread
  | obj fields =>
    rw [fits, Bool.and_eq_true, decide_eq_true_iff] at hfits
    obtain ⟨hpos, hfields⟩ := hfits
    obtain ⟨depth, rfl⟩ : ∃ less, depth = less + 1 := ⟨depth - 1, by omega⟩
    rw [sorted]
    cases fields with
    | nil => exact readValue_obj_nil rest
    | cons field fields =>
      rw [toList_compress_obj, List.length_cons, List.length_append, List.length_singleton]
        at hfuel
      have hread :=
        h.fields field.1 field.2 fields hfields (Nat.le_of_succ_le_succ hfuel) [] rest
      obtain ⟨more, htext⟩ := exists_toList_fields field fields
      rw [toList_compress_obj, List.cons_append, List.append_assoc, List.singleton_append]
      rw [htext, List.cons_append] at hread ⊢
      exact readValue_obj hread

/-- The first item is read as a value, and behind a comma the others as items. -/
theorem ReadsBack.items_succ (h : ReadsBack fuel) (item : Json) (items : List Json)
    (hfits : fitsItems depth (item :: items) = true)
    (hfuel : (commaSeparated (compressItems (item :: items))).toList.length + 1 ≤ fuel + 1)
    (acc : List Json) (rest : List Char) :
    readItems (fuel + 1) depth acc
      ((commaSeparated (compressItems (item :: items))).toList ++ ']' :: rest) =
      some (.arr (acc.reverse ++ sortedItems (item :: items)), rest) := by
  rw [fitsItems, Bool.and_eq_true] at hfits
  cases items with
  | nil =>
    rw [compressItems, compressItems, toList_commaSeparated_singleton] at hfuel ⊢
    have hread := h.value item hfits.1 (Nat.le_of_succ_le_succ hfuel) (']' :: rest)
    rw [readItems, hread]
    simp only [skipGaps_cons (c := ']') rfl, sortedItems, List.reverse_cons]
  | cons next items =>
    rw [compressItems, compressItems, toList_commaSeparated_cons_cons, ← compressItems]
      at hfuel ⊢
    rw [List.length_append, List.length_cons] at hfuel
    have hread := h.value item hfits.1 (by omega)
      (',' :: ((commaSeparated (compressItems (next :: items))).toList ++ ']' :: rest))
    have hmore := h.items next items hfits.2 (by omega) (item.sorted :: acc) rest
    rw [List.append_assoc, List.cons_append, readItems, hread]
    simp only [skipGaps_cons (c := ',') rfl, hmore, sortedItems, List.reverse_cons,
      List.append_assoc, List.singleton_append]

/-- The value of the first field is read as a value, and behind a comma the others as fields. -/
theorem ReadsBack.fields_succ (h : ReadsBack fuel) (key : String) (value : Json)
    (fields : List (String × Json)) (hfits : fitsFields depth ((key, value) :: fields) = true)
    (hfuel : (commaSeparated (compressFields ((key, value) :: fields))).toList.length + 1 ≤
      fuel + 1)
    (acc : List (String × Json)) (rest : List Char) :
    readFields (fuel + 1) depth acc
        ((commaSeparated (compressFields ((key, value) :: fields))).toList ++ '\x7d' :: rest) =
      some (.obj (sortedFields acc ((key, value) :: fields)), rest) := by
  have hvalue := length_value_lt key value
  rw [fitsFields, Bool.and_eq_true] at hfits
  cases fields with
  | nil =>
    rw [compressFields, compressFields, toList_commaSeparated_singleton] at hfuel ⊢
    have hread := h.value value hfits.1 (by omega) ('\x7d' :: rest)
    rw [readFields_last hread, sortedFields, sortedFields]
  | cons next fields =>
    obtain ⟨nextKey, next⟩ := next
    rw [compressFields, compressFields, toList_commaSeparated_cons_cons, ← compressFields]
      at hfuel ⊢
    rw [List.length_append, List.length_cons] at hfuel
    have hread := h.value value hfits.1 (by omega)
      (',' :: ((commaSeparated (compressFields ((nextKey, next) :: fields))).toList ++ '\x7d' ::
        rest))
    have hmore :=
      h.fields nextKey next fields hfits.2 (by omega) (setField key value.sorted acc) rest
    rw [List.append_assoc, List.cons_append, readFields_comma hread, hmore, ← sortedFields]

/-- The readers read back what is written, by induction on their fuel. -/
theorem readsBack (fuel : Nat) : ReadsBack fuel := by
  induction fuel with
  | zero =>
    refine ⟨fun j hfits hfuel => ?_, fun _ _ _ hfuel => ?_, fun _ _ _ _ hfuel => ?_⟩
    · obtain ⟨c, more, hc, -⟩ := exists_toList_compress j hfits
      rw [hc] at hfuel
      exact absurd hfuel (Nat.not_succ_le_zero _)
    · exact absurd hfuel (Nat.not_succ_le_zero _)
    · exact absurd hfuel (Nat.not_succ_le_zero _)
  | succ fuel ih => exact ⟨ih.value_succ, ih.items_succ, ih.fields_succ⟩

/-- A value written as a document is read back, up to the order of its fields. -/
theorem parse?_compress {j : Json} (h : j.fits maxDepth = true) :
    parse? j.compress = some j.sorted := by
  have hread := (readsBack (2 * j.compress.toList.length + 2)).value j h (by omega) []
  rw [List.append_nil] at hread
  unfold parse?
  dsimp only
  rw [hread]
  rfl

/-! ## Texts -/

theorem parse?_quote (s : String) : parse? (quote s) = some (.str s) := by
  have hread := parse?_compress (j := .str s) rfl
  rwa [compress, sorted] at hread

theorem fitsItems_str (depth : Nat) (texts : List String) :
    fitsItems depth (texts.map .str) = true := by
  induction texts with
  | nil => rfl
  | cons text texts ih => rw [List.map_cons, fitsItems, ih, fits, Bool.and_true]

theorem sortedItems_str (texts : List String) :
    sortedItems (texts.map .str) = texts.map .str := by
  induction texts with
  | nil => rfl
  | cons text texts ih => rw [List.map_cons, sortedItems, ih, sorted]

theorem fits_ofTexts {depth : Nat} (h : 0 < depth) (texts : List String) :
    (ofTexts texts).fits depth = true := by
  rw [ofTexts, fits, fitsItems_str, decide_eq_true h, Bool.and_true]

theorem sorted_ofTexts (texts : List String) : (ofTexts texts).sorted = ofTexts texts := by
  rw [ofTexts, sorted, sortedItems_str]

end WebBundler.Json
