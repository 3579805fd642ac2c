import WebBundler.Json.Parser
import WebBundler.Text.Blank
set_option autoImplicit false

/-!
# Config: settings from environment variables

A variable whose name starts with `CUBE_`, in any case, sets the field that the rest of its name
spells in lower case; a dot in the name reaches into a field.  Its text is read as a value: a
truth value, a number, a quoted text, a character between apostrophes, a list in brackets or a
table in braces, and a bare word otherwise.  A text that cannot be read in full is taken as it
stands.
-/

namespace WebBundler.Config.Variable

/-- The characters that end a bare word. -/
def isSeparator (c : Char) : Bool := c == ',' || c == '{' || c == '}' || c == '[' || c == ']'

/-- The characters of a bare key. -/
def isKeyChar (c : Char) : Bool := c.isAlphanum || c == '_' || c == '-'

def skipGaps (s : List Char) : List Char := s.dropWhile Text.isAsciiBlank

/-- Digits, perhaps none, and what follows them. -/
def digits (s : List Char) : List Char × List Char := s.span Char.isDigit

/-- A text is a number with a point: digits on at least one side of it, and perhaps an
exponent. -/
def isReal (s : List Char) : Bool :=
  let (wholePart, rest) := digits (Json.splitSign s).2
  let (places, rest) :=
    match rest with
    | '.' :: r => digits r
    | r => ([], r)
  let exponentOk :=
    match rest with
    | [] => true
    | c :: r => (c == 'e' || c == 'E') && !(digits (Json.splitSign r).2).1.isEmpty &&
        (digits (Json.splitSign r).2).2.isEmpty
  !(wholePart.isEmpty && places.isEmpty) && exponentOk

/-- A whole number that fits 64 bits, with or without a sign. -/
def whole? (s : List Char) : Option Int :=
  let (negative, ds) := Json.splitSign s
  if ds.isEmpty || !ds.all Char.isDigit then none
  else
    let n := Json.digitsValue ds
    if negative then (if n ≤ UInt64.size / 2 then some (-(n : Int)) else none)
    else if n < UInt64.size then some n else none

/-- The value of a bare word. -/
def bareValue (word : List Char) : Json :=
  if word.contains '.' && isReal word then .num (.real ⟨false, 0, 0⟩)
  else
    match whole? word with
    | some n => .num (.whole n)
    | none => .str (String.ofList word)

/-- The inside of a quoted text with its escapes replaced; `fuel` is its length. -/
def unescape (fuel : Nat) (s : List Char) : Option (List Char) :=
  match fuel, s with
  | _, [] => some []
  | 0, _ => none
  | fuel + 1, c :: rest =>
    if c = '\\' then
      match rest with
      | [] => none
      | d :: more =>
        if d = 'u' then
          if more.length < 4 then none
          else do return (← Json.charOfHex? (more.take 4)) :: (← unescape fuel (more.drop 4))
        else if d = 'U' then
          if more.length < 8 then none
          else do return (← Json.charOfHex? (more.take 8)) :: (← unescape fuel (more.drop 8))
        else if d = '/' then none
        else do return (← Json.shortEscape? d) :: (← unescape fuel more)
    else if c = '\t' ∨ (0x20 ≤ c.toNat ∧ c.toNat ≠ 0x7F) then (unescape fuel rest).map (c :: ·)
    else none

/-- The inside of a quoted text up to its closing quote, escapes kept. -/
def insideQuotes : List Char → Option (List Char × List Char)
  | [] => none
  | '\\' :: c :: rest => (insideQuotes rest).map fun (a, b) => ('\\' :: c :: a, b)
  | c :: rest =>
    if c = '"' then some ([], rest) else (insideQuotes rest).map fun (a, b) => (c :: a, b)

/-- Read a quoted text after its opening quote. -/
def readQuoted (s : List Char) : Option (String × List Char) := do
  let (inside, rest) ← insideQuotes s
  let text ← unescape inside.length inside
  return (String.ofList text, rest)

/-- Read a key. -/
def readKey (s : List Char) : Option (String × List Char) :=
  match s with
  | '"' :: rest => readQuoted rest
  | _ =>
    match s.span isKeyChar with
    | ([], _) => none
    | (word, rest) => some (String.ofList word, rest)

mutual

/-- Read a value. -/
def readValue (fuel : Nat) (s : List Char) : Option (Json × List Char) :=
  match fuel with
  | 0 => none
  | fuel + 1 =>
    let s := skipGaps s
    let value? : Option (Json × List Char) :=
      if "true".toList.isPrefixOf s then some (.bool true, s.drop 4)
      else if "false".toList.isPrefixOf s then some (.bool false, s.drop 5)
      else
        match s with
        | '{' :: rest => readFields fuel [] rest
        | '[' :: rest => readItems fuel [] rest
        | '"' :: rest => (readQuoted rest).map fun (t, r) => (.str t, r)
        | '\x27' :: c :: '\x27' :: rest => some (.str (String.ofList [c]), rest)
        | '\x27' :: _ => none
        | _ =>
          let (word, rest) := s.span (!isSeparator ·)
          some (bareValue (Text.strip Text.isBlank word), rest)
    value?.map fun (value, rest) => (value, skipGaps rest)

/-- Read the items of a list up to its bracket, after those read so far in reverse. -/
def readItems (fuel : Nat) (acc : List Json) (s : List Char) : Option (Json × List Char) :=
  match fuel with
  | 0 => none
  | fuel + 1 =>
    match s with
    | ']' :: rest => some (.arr acc.reverse, rest)
    | _ =>
      match readValue fuel s with
      | some (item, ',' :: rest) => readItems fuel (item :: acc) rest
      | some (item, ']' :: rest) => some (.arr (item :: acc).reverse, rest)
      | _ => none

/-- Read the fields of a table up to its bracket, after those read so far. -/
def readFields (fuel : Nat) (acc : List (String × Json)) (s : List Char) :
    Option (Json × List Char) :=
  match fuel with
  | 0 => none
  | fuel + 1 =>
    match s with
    | '}' :: rest => some (.obj acc, rest)
    | _ =>
      match readKey (skipGaps s) with
      | none => none
      | some (key, rest) =>
        match skipGaps rest with
        | '=' :: rest =>
          match readValue fuel rest with
          | some (value, ',' :: rest) => readFields fuel (Json.setField key value acc) rest
          | some (value, '}' :: rest) => some (.obj (Json.setField key value acc), rest)
          | _ => none
        | _ => none

end

/-- The value of a variable. -/
def value (s : String) : Json :=
  let chars := s.toList
  match readValue (2 * chars.length + 2) chars with
  | some (j, []) => j
  | _ => .str s

/-- What the names of the variables that set a field start with. -/
def namePrefix : String := "CUBE_"

/-- The steps that lead to the field that a variable sets. -/
def fieldPath? (name : String) : Option (List String) :=
  let lower := Text.lowerAscii name
  match Text.dropPrefix? (Text.lowerAscii namePrefix) lower with
  | none => none
  | some key =>
    let steps := (Text.splitOn '.' (Text.trim key).toList).map String.ofList
    if steps.contains "" then none else some steps

/-- A value at the end of a path of fields. -/
def nest (steps : List String) (j : Json) : Json :=
  steps.foldr (fun step inner => .obj [(step, inner)]) j

/-- The object that a variable contributes, if it sets a field. -/
def layer? (name text : String) : Option Json :=
  (fieldPath? name).map fun steps => nest steps (value text)

end WebBundler.Config.Variable
