import WebBundler.Json.Decimal
set_option autoImplicit false

/-!
# Json: string literals

`quote` writes a text as a JSON string literal and `readLiteral` reads one.  A literal is
self-delimiting: reading it back from in front of any further text gives the text and leaves the
rest (`readLiteral_escape`), so a reader needs no mark after it.
-/

namespace WebBundler.Json

/-- A hexadecimal digit in lower case. -/
def hexDigit (n : Nat) : Char := Nat.digitChar (n % 16)

/-- A character as it stands inside a literal: the quote, the backslash and the controls below
the space are escaped, all else is written as it is. -/
def escapeChar (c : Char) : List Char :=
  if c = '"' then ['\\', '"']
  else if c = '\\' then ['\\', '\\']
  else if c = '\x08' then ['\\', 'b']
  else if c = '\x0c' then ['\\', 'f']
  else if c = '\n' then ['\\', 'n']
  else if c = '\r' then ['\\', 'r']
  else if c = '\t' then ['\\', 't']
  else if c.toNat < 0x20 then ['\\', 'u', '0', '0', hexDigit (c.toNat / 16), hexDigit c.toNat]
  else [c]

/-- The inside of the literal of a text. -/
def escape (s : List Char) : List Char := s.flatMap escapeChar

/-- The literal of a text. -/
def quoteChars (s : List Char) : List Char := '"' :: escape s ++ ['"']

/-- The literal of a text. -/
def quote (s : String) : String := String.ofList (quoteChars s.toList)

theorem toList_quote (s : String) : (quote s).toList = quoteChars s.toList :=
  String.toList_ofList

/-- Where a reader stands inside a literal. -/
inductive LiteralState where
  /-- Between characters. -/
  | plain
  /-- After a backslash. -/
  | escaped
  /-- Inside `\uXXXX`, `left` digits before its end; `lead` is the high surrogate before it. -/
  | unicode (lead : Option Nat) (left : Nat) (code : Nat)
  /-- After a high surrogate, before the backslash of the low one. -/
  | lowSlash (lead : Nat)
  /-- After a high surrogate and a backslash. -/
  | lowMark (lead : Nat)
  deriving DecidableEq, Repr

/-- The value of a hexadecimal digit. -/
def hexValue? (c : Char) : Option Nat :=
  if '0' ≤ c ∧ c ≤ '9' then some (c.toNat - 48)
  else if 'a' ≤ c ∧ c ≤ 'f' then some (c.toNat - 87)
  else if 'A' ≤ c ∧ c ≤ 'F' then some (c.toNat - 55)
  else none

/-- The character that a one-letter escape stands for. -/
def shortEscape? (c : Char) : Option Char :=
  if c = '"' ∨ c = '\\' ∨ c = '/' then some c
  else if c = 'b' then some '\x08'
  else if c = 'f' then some '\x0c'
  else if c = 'n' then some '\n'
  else if c = 'r' then some '\r'
  else if c = 't' then some '\t'
  else none

/-- The character whose code point is written in hexadecimal digits; a surrogate is none. -/
def charOfHex? (ds : List Char) : Option Char :=
  (ds.foldlM (fun n c => (hexValue? c).map (n * 16 + ·)) 0).bind fun n =>
    if n < 0xD800 ∨ (0xDFFF < n ∧ n < 0x110000) then some (Char.ofNat n) else none

/-- What a completed `\uXXXX` adds: a character, the first half of a pair, or nothing where the
surrogates do not pair up. -/
def finishUnicode (lead : Option Nat) (code : Nat) : Option (Char ⊕ Nat) :=
  match lead with
  | none =>
    if 0xD800 ≤ code ∧ code ≤ 0xDBFF then some (.inr code)
    else if 0xDC00 ≤ code ∧ code ≤ 0xDFFF then none
    else some (.inl (Char.ofNat code))
  | some high =>
    if 0xDC00 ≤ code ∧ code ≤ 0xDFFF then
      some (.inl (Char.ofNat (0x10000 + (high - 0xD800) * 0x400 + (code - 0xDC00))))
    else none

/-- Read the inside of a literal up to its closing quote: the text, with the characters read so
far in reverse before it, and what follows the quote. -/
def readInside : LiteralState → List Char → List Char → Option (List Char × List Char)
  | _, _, [] => none
  | .plain, acc, c :: rest =>
    if c = '"' then some (acc.reverse, rest)
    else if c = '\\' then readInside .escaped acc rest
    else if c.toNat < 0x20 then none
    else readInside .plain (c :: acc) rest
  | .escaped, acc, c :: rest =>
    if c = 'u' then readInside (.unicode none 4 0) acc rest
    else
      match shortEscape? c with
      | some d => readInside .plain (d :: acc) rest
      | none => none
  | .unicode lead left code, acc, c :: rest =>
    match hexValue? c with
    | none => none
    | some v =>
      if left ≤ 1 then
        match finishUnicode lead (code * 16 + v) with
        | none => none
        | some (.inl d) => readInside .plain (d :: acc) rest
        | some (.inr high) => readInside (.lowSlash high) acc rest
      else readInside (.unicode lead (left - 1) (code * 16 + v)) acc rest
  | .lowSlash high, acc, c :: rest =>
    if c = '\\' then readInside (.lowMark high) acc rest else none
  | .lowMark high, acc, c :: rest =>
    if c = 'u' then readInside (.unicode (some high) 4 0) acc rest else none

/-- Read a literal after its opening quote. -/
def readLiteral (s : List Char) : Option (List Char × List Char) := readInside .plain [] s

theorem hexValue?_hexDigit (n : Nat) : hexValue? (hexDigit n) = some (n % 16) := by
  have key : ∀ m < 16, hexValue? (Nat.digitChar m) = some m := by decide
  exact key (n % 16) (Nat.mod_lt n (by decide))

theorem readInside_control (n : Nat) (h : n < 0x20) (acc rest : List Char) :
    readInside .plain acc
      (['\\', 'u', '0', '0', hexDigit (n / 16), hexDigit n] ++ rest) =
    readInside .plain (Char.ofNat n :: acc) rest := by
  have h0 : hexValue? '0' = some 0 := rfl
  have hcode : n / 16 % 16 * 16 + n % 16 = n := by omega
  have hlead : ¬ (55296 ≤ n ∧ n ≤ 56319) := by omega
  have htrail : ¬ (56320 ≤ n ∧ n ≤ 57343) := by omega
  simp [readInside, hexValue?_hexDigit, h0, hcode, finishUnicode, hlead, htrail]

theorem readInside_escapeChar (c : Char) (acc rest : List Char) :
    readInside .plain acc (escapeChar c ++ rest) = readInside .plain (c :: acc) rest := by
  unfold escapeChar
  iterate 7
    split
    next h => subst h; rfl
  split
  next h => simpa using readInside_control c.toNat h acc rest
  next hquote hslash _ _ _ _ _ hcontrol => simp [readInside, hquote, hslash, hcontrol]

theorem readInside_escape (s acc rest : List Char) :
    readInside .plain acc (escape s ++ '"' :: rest) = some (acc.reverse ++ s, rest) := by
  induction s generalizing acc with
  | nil => simp [escape, readInside]
  | cons c s ih =>
    have : escape (c :: s) = escapeChar c ++ escape s := by simp [escape]
    rw [this, List.append_assoc, readInside_escapeChar, ih]
    simp

theorem readLiteral_escape (s rest : List Char) :
    readLiteral (escape s ++ '"' :: rest) = some (s, rest) := by
  simpa [readLiteral] using readInside_escape s [] rest

end WebBundler.Json
