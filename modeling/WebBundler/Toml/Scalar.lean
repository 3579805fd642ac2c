import WebBundler.Json.Parser
set_option autoImplicit false

/-!
# Toml: numbers, dates and times

A number, a date or a time is one run of letters, digits and signs; only between a date and its
time may a space stand.  Underscores may separate digits.  Whole numbers fit 64 bits with a
sign.
-/

namespace WebBundler.Toml

/-- The characters of a number, a date or a time. -/
def isScalarChar (c : Char) : Bool :=
  c.isAlphanum || c == '+' || c == '-' || c == '_' || c == '.' || c == ':'

/-- Digits of a base with single underscores between them, without the underscores. -/
def plainDigits? (isDigit : Char → Bool) (s : List Char) : Option (List Char) :=
  let rec go : Bool → List Char → Option (List Char)
    | afterDigit, [] => if afterDigit then some [] else none
    | afterDigit, c :: rest =>
      if isDigit c then (go true rest).map (c :: ·)
      else if c = '_' ∧ afterDigit then go false rest
      else none
  go false s

/-- Decimal digits that do not start with a zero, unless they are one. -/
def wholeDigits? (s : List Char) : Option (List Char) :=
  match plainDigits? Char.isDigit s with
  | some ds => if ds.length > 1 ∧ ds.head? = some '0' then none else some ds
  | none => none

/-- The value of digits of a base. -/
def baseValue (base : Nat) (ds : List Char) : Nat :=
  ds.foldl (fun n c => n * base + (Json.hexValue? c).getD 0) 0

/-- A whole number, if it fits 64 bits with a sign. -/
def fitting? (n : Int) : Option Json :=
  if Int64.minValue.toInt ≤ n ∧ n ≤ Int64.maxValue.toInt then some (.num (.whole n)) else none

/-- A whole number. -/
def whole? (s : List Char) : Option Json :=
  match s with
  | '0' :: 'x' :: ds =>
    let isHex (c : Char) : Bool := (Json.hexValue? c).isSome
    (plainDigits? isHex ds).bind fun d => fitting? (baseValue 16 d)
  | '0' :: 'o' :: ds =>
    let isOctal (c : Char) : Bool := '0' ≤ c && c ≤ '7'
    (plainDigits? isOctal ds).bind fun d => fitting? (baseValue 8 d)
  | '0' :: 'b' :: ds =>
    let isBinary (c : Char) : Bool := c == '0' || c == '1'
    (plainDigits? isBinary ds).bind fun d => fitting? (baseValue 2 d)
  | _ =>
    let (negative, body) := Json.splitSign s
    (wholeDigits? body).bind fun d =>
      let n : Int := baseValue 10 d
      fitting? (if negative then -n else n)

/-- A number with a point or an exponent, or one of the two special words. -/
def real? (s : List Char) : Option Json :=
  let (negative, body) := Json.splitSign s
  if body = "inf".toList ∨ body = "nan".toList then some (.num (.real ⟨negative, 0, 0⟩))
  else
    let isMark (c : Char) : Bool := c == 'e' || c == 'E'
    let (mantissa, tail) := body.span fun c => !isMark c
    let exponent? : Option Int :=
      match tail with
      | [] => some 0
      | _ :: e =>
        let (down, ds) := Json.splitSign e
        (plainDigits? Char.isDigit ds).map fun d =>
          let n : Int := baseValue 10 d
          if down then -n else n
    let (wholePart, places) := mantissa.span (· ≠ '.')
    if tail.isEmpty && places.isEmpty then none
    else do
      let ds ← wholeDigits? wholePart
      let fraction ←
        match places with
        | [] => some []
        | _ :: f => plainDigits? Char.isDigit f
      let exponent ← exponent?
      let d : Json.Decimal :=
        ⟨negative, baseValue 10 (ds ++ fraction), exponent - fraction.length⟩
      if d.overflows && !negative then none else some (.num (.real d))

/-! ## Dates and times -/

/-- The value of a fixed number of decimal digits. -/
def fixed? (count : Nat) (s : List Char) : Option (Nat × List Char) :=
  let ds := s.take count
  if ds.length = count && ds.all Char.isDigit then some (baseValue 10 ds, s.drop count)
  else none

/-- A text after the given character. -/
def after? (c : Char) : List Char → Option (List Char)
  | d :: rest => if d = c then some rest else none
  | [] => none

/-- The days of a month. -/
def daysIn (year month : Nat) : Nat :=
  let leap := year % 4 = 0 ∧ (year % 100 ≠ 0 ∨ year % 400 = 0)
  if month = 2 then (if leap then 29 else 28)
  else if month = 4 ∨ month = 6 ∨ month = 9 ∨ month = 11 then 30
  else 31

/-- What follows a date. -/
def afterDate? (s : List Char) : Option (List Char) := do
  let (year, s) ← fixed? 4 s
  let (month, s) ← fixed? 2 (← after? '-' s)
  let (day, s) ← fixed? 2 (← after? '-' s)
  if 1 ≤ month ∧ month ≤ 12 ∧ 1 ≤ day ∧ day ≤ daysIn year month then some s else none

/-- What follows a time of day. -/
def afterTime? (s : List Char) : Option (List Char) := do
  let (hour, s) ← fixed? 2 s
  let (minute, s) ← fixed? 2 (← after? ':' s)
  let (second, s) ← fixed? 2 (← after? ':' s)
  if hour ≤ 23 ∧ minute ≤ 59 ∧ second ≤ 60 then
    match s with
    | '.' :: f =>
      match f.span Char.isDigit with
      | ([], _) => none
      | (_, rest) => some rest
    | _ => some s
  else none

/-- A text is a distance from universal time. -/
def isOffset (s : List Char) : Bool :=
  match s with
  | [c] => c == 'Z' || c == 'z'
  | c :: rest =>
    if c = '+' ∨ c = '-' then
      match fixed? 2 rest with
      | some (hour, ':' :: r) =>
        match fixed? 2 r with
        | some (minute, []) => hour ≤ 23 && minute ≤ 59
        | _ => false
      | _ => false
    else false
  | [] => false

/-- A text is a date, a time of day, or both with or without an offset. -/
def isMoment (s : List Char) : Bool :=
  match afterDate? s with
  | some [] => true
  | some (c :: rest) =>
    if c = 'T' ∨ c = 't' ∨ c = ' ' then
      match afterTime? rest with
      | some [] => true
      | some offset => isOffset offset
      | none => false
    else false
  | none => afterTime? s = some []

/-- The run of characters that make up a number, a date or a time, and what follows it. -/
def scalarRun (s : List Char) : List Char × List Char :=
  let (word, rest) := s.span isScalarChar
  match afterDate? word, rest with
  | some [], ' ' :: more =>
    match more with
    | a :: b :: ':' :: _ =>
      if a.isDigit && b.isDigit then
        let (time, left) := more.span isScalarChar
        (word ++ ' ' :: time, left)
      else (word, rest)
    | _ => (word, rest)
  | _, _ => (word, rest)

/-- Read a number, a date or a time. -/
def readScalar (s : List Char) : Option (Json × List Char) :=
  let (word, rest) := scalarRun s
  if isMoment word then some (.obj [("datetime", .str (String.ofList word))], rest)
  else
    match real? word with
    | some j => some (j, rest)
    | none => (whole? word).map (·, rest)

end WebBundler.Toml
