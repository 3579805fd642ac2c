import WebBundler.Json.Basic
import WebBundler.Json.Quote
set_option autoImplicit false

/-!
# Json: reading documents

`parse?` reads one document: blanks are the space, the tab and the two line ends; containers
nest at most 127 deep; a repeated key keeps its last value; a number too large for a double is
refused; and nothing but blanks may follow the value.  The readers hand back the text that they
leave.
-/

namespace WebBundler.Json

/-- The characters that may stand between the tokens of a document. -/
def isGap (c : Char) : Bool := c == ' ' || c == '\n' || c == '\t' || c == '\r'

/-- A text without its leading gaps. -/
def skipGaps (s : List Char) : List Char := s.dropWhile isGap

/-- The value of decimal digits. -/
def digitsValue (ds : List Char) : Nat := ds.foldl (fun n c => n * 10 + (c.toNat - 48)) 0

/-- Decimal digits, at least one, and what follows them. -/
def readDigits? (s : List Char) : Option (List Char × List Char) :=
  match s.span Char.isDigit with
  | ([], _) => none
  | (ds, rest) => some (ds, rest)

/-- The whole part of a number: a zero, or digits that do not start with one. -/
def readWhole? (s : List Char) : Option (List Char × List Char) :=
  match readDigits? s with
  | none => none
  | some (ds, rest) => if ds.length > 1 ∧ ds.head? = some '0' then none else some (ds, rest)

/-- The digits after a point, if there is a point. -/
def readFraction? : List Char → Option (Option (List Char) × List Char)
  | '.' :: rest => (readDigits? rest).map fun (ds, r) => (some ds, r)
  | s => some (none, s)

/-- The exponent after an `e`, if there is one. -/
def readExponent? : List Char → Option (Option Int × List Char)
  | c :: rest =>
    if c = 'e' ∨ c = 'E' then
      let (negative, body) :=
        match rest with
        | '+' :: r => (false, r)
        | '-' :: r => (true, r)
        | r => (false, r)
      (readDigits? body).map fun (ds, r) =>
        let n : Int := digitsValue ds
        (some (if negative then -n else n), r)
    else some (none, c :: rest)
  | [] => some (none, [])

/-- Read a number. -/
def readNumber (s : List Char) : Option (Json × List Char) := do
  let (negative, body) :=
    match s with
    | '-' :: rest => (true, rest)
    | _ => (false, s)
  let (whole, s) ← readWhole? body
  let (fraction, s) ← readFraction? s
  let (exponent, s) ← readExponent? s
  let n := digitsValue whole
  let isWhole := fraction.isNone && exponent.isNone
  if isWhole && !negative && n < UInt64.size then
    return (.num (.whole n), s)
  else if isWhole && negative && 0 < n && n ≤ UInt64.size / 2 then
    return (.num (.whole (-(n : Int))), s)
  else
    let places := fraction.getD []
    let d : Decimal :=
      ⟨negative, digitsValue (whole ++ places), exponent.getD 0 - places.length⟩
    if d.overflows then none else return (.num (.real d), s)

/-- A word at the start of a text, and what follows it. -/
def readWord (word : List Char) (value : Json) (s : List Char) : Option (Json × List Char) :=
  if word.isPrefixOf s then some (value, s.drop word.length) else none

mutual

/-- Read a value; `depth` is the number of containers that may still be opened. -/
def readValue (fuel depth : Nat) (s : List Char) : Option (Json × List Char) :=
  match fuel with
  | 0 => none
  | fuel + 1 =>
    match skipGaps s with
    | [] => none
    | c :: rest =>
      if c = '"' then (readLiteral rest).map fun (t, r) => (.str (String.ofList t), r)
      else if c = '[' then
        if depth = 0 then none
        else
          match skipGaps rest with
          | ']' :: r => some (.arr [], r)
          | r => readItems fuel (depth - 1) [] r
      else if c = '{' then
        if depth = 0 then none
        else
          match skipGaps rest with
          | '}' :: r => some (.obj [], r)
          | r => readFields fuel (depth - 1) [] r
      else if c = 'n' then readWord "null".toList .null (c :: rest)
      else if c = 't' then readWord "true".toList (.bool true) (c :: rest)
      else if c = 'f' then readWord "false".toList (.bool false) (c :: rest)
      else readNumber (c :: rest)

/-- Read the items of a list up to its bracket, after those read so far in reverse. -/
def readItems (fuel depth : Nat) (acc : List Json) (s : List Char) :
    Option (Json × List Char) :=
  match fuel with
  | 0 => none
  | fuel + 1 =>
    match readValue fuel depth s with
    | none => none
    | some (item, rest) =>
      match skipGaps rest with
      | ',' :: r => readItems fuel depth (item :: acc) r
      | ']' :: r => some (.arr (item :: acc).reverse, r)
      | _ => none

/-- Read the fields of an object up to its bracket, after those read so far. -/
def readFields (fuel depth : Nat) (acc : List (String × Json)) (s : List Char) :
    Option (Json × List Char) :=
  match fuel with
  | 0 => none
  | fuel + 1 =>
    match skipGaps s with
    | '"' :: rest =>
      match readLiteral rest with
      | none => none
      | some (key, r) =>
        match skipGaps r with
        | ':' :: r =>
          match readValue fuel depth r with
          | none => none
          | some (value, r) =>
            match skipGaps r with
            | ',' :: r => readFields fuel depth (setField (String.ofList key) value acc) r
            | '}' :: r => some (.obj (setField (String.ofList key) value acc), r)
            | _ => none
        | _ => none
    | _ => none

end

/-- How deep containers may nest. -/
def maxDepth : Nat := 127

/-- Read a whole document. -/
def parse? (s : String) : Option Json :=
  let chars := s.toList
  match readValue (2 * chars.length + 2) maxDepth chars with
  | some (value, rest) => if (skipGaps rest).isEmpty then some value else none
  | none => none

/-! ## How values are read -/

variable {depth fuel : Nat}

theorem skipGaps_cons {c : Char} {rest : List Char} (h : isGap c = false) :
    skipGaps (c :: rest) = c :: rest := by
  unfold skipGaps
  rw [List.dropWhile_cons_of_neg (by simp [h])]

theorem readWord_append (word : List Char) (value : Json) (rest : List Char) :
    readWord word value (word ++ rest) = some (value, rest) := by
  have hprefix : word.isPrefixOf (word ++ rest) = true := by
    rw [List.isPrefixOf_iff_prefix]
    exact List.prefix_append _ _
  unfold readWord
  rw [if_pos hprefix, List.drop_left]

theorem readValue_quoteChars (fuel depth : Nat) (s rest : List Char) :
    readValue (fuel + 1) depth (quoteChars s ++ rest) =
      some (.str (String.ofList s), rest) := by
  have hopen : skipGaps (quoteChars s ++ rest) = '"' :: (escape s ++ '"' :: rest) := by
    simp [quoteChars, skipGaps, isGap]
  rw [readValue, hopen]
  simp only [if_true, readLiteral_escape, Option.map_some]

theorem readValue_word {c : Char} {word : List Char} {value : Json} (rest : List Char)
    (h : (c = 'n' ∧ c :: word = "null".toList ∧ value = .null) ∨
      (c = 't' ∧ c :: word = "true".toList ∧ value = .bool true) ∨
      c = 'f' ∧ c :: word = "false".toList ∧ value = .bool false) :
    readValue (fuel + 1) depth (c :: (word ++ rest)) = some (value, rest) := by
  rcases h with ⟨rfl, hword, rfl⟩ | ⟨rfl, hword, rfl⟩ | ⟨rfl, hword, rfl⟩
  all_goals
    rw [readValue, skipGaps_cons rfl]
    simp only [Char.reduceEq, if_false, if_true]
    rw [← List.cons_append, hword, readWord_append]

/-- Behind its bracket a list is read item by item. -/
theorem readValue_arr {c : Char} {more rest : List Char} {value : Json} (hgap : isGap c = false)
    (hc : c ≠ ']') (hread : readItems fuel depth [] (c :: more) = some (value, rest)) :
    readValue (fuel + 1) (depth + 1) ('[' :: c :: more) = some (value, rest) := by
  rw [readValue, skipGaps_cons rfl]
  simp only [Char.reduceEq, if_false, if_true, Nat.succ_ne_zero, skipGaps_cons hgap,
    Nat.add_sub_cancel]
  split
  · next hclose => exact absurd (List.cons_eq_cons.1 hclose).1 hc
  · exact hread

theorem readValue_obj {more rest : List Char} {value : Json}
    (hread : readFields fuel depth [] ('"' :: more) = some (value, rest)) :
    readValue (fuel + 1) (depth + 1) ('\x7b' :: '"' :: more) = some (value, rest) := by
  rw [readValue, skipGaps_cons rfl]
  simp only [Char.reduceEq, if_false, if_true, Nat.succ_ne_zero, skipGaps_cons (c := '"') rfl,
    Nat.add_sub_cancel]
  exact hread

end WebBundler.Json
