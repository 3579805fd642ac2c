set_option autoImplicit false

/-!
# Text: bytes and characters

Source files are bytes; scripts, styles and templates are text.  `decode?` reads bytes as UTF-8
and refuses anything else; `decodeLossy` reads any bytes, and writes U+FFFD for each longest
start of a well-formed sequence that is not completed.  Offsets into a text count the bytes of
its UTF-8 form.
-/

namespace WebBundler.Text

/-- The text whose UTF-8 form is the given bytes, when there is one. -/
def decode? (bytes : ByteArray) : Option String := String.fromUTF8? bytes

/-- Whether two contents hold the same bytes is decided by comparing their bytes. -/
instance decideEqBytes : DecidableEq ByteArray := ByteArray.instDecidableEq

/-- The UTF-8 form of a text. -/
def encode (s : String) : ByteArray := s.toUTF8

theorem decode?_encode (s : String) : decode? (encode s) = some s := by
  simp only [decode?, encode, String.fromUTF8?, String.toUTF8_eq_toByteArray,
    dif_pos s.isValidUTF8]
  rfl

/-- The length in bytes of the UTF-8 form of some characters. -/
def byteLength : List Char → Nat
  | [] => 0
  | c :: s => c.utf8Size + byteLength s

@[simp] theorem byteLength_nil : byteLength [] = 0 := rfl

@[simp] theorem byteLength_cons (c : Char) (s : List Char) :
    byteLength (c :: s) = c.utf8Size + byteLength s := rfl

theorem byteLength_append (s t : List Char) :
    byteLength (s ++ t) = byteLength s + byteLength t := by
  induction s with
  | nil => simp
  | cons c s ih => simp [ih, Nat.add_assoc]

/-- What is written for a malformed sequence of bytes. -/
def replacement : Char := '\uFFFD'

/-- The ranges of the continuation bytes that a first byte asks for, with the bits that the
first byte contributes; nothing for a byte that starts no sequence. -/
def continuation (b : Nat) : Option (Nat × List (Nat × Nat)) :=
  if b < 0x80 then some (b, [])
  else if 0xC2 ≤ b ∧ b ≤ 0xDF then some (b - 0xC0, [(0x80, 0xBF)])
  else if b = 0xE0 then some (0, [(0xA0, 0xBF), (0x80, 0xBF)])
  else if b = 0xED then some (0xD, [(0x80, 0x9F), (0x80, 0xBF)])
  else if 0xE1 ≤ b ∧ b ≤ 0xEF then some (b - 0xE0, [(0x80, 0xBF), (0x80, 0xBF)])
  else if b = 0xF0 then some (0, [(0x90, 0xBF), (0x80, 0xBF), (0x80, 0xBF)])
  else if 0xF1 ≤ b ∧ b ≤ 0xF3 then some (b - 0xF0, [(0x80, 0xBF), (0x80, 0xBF), (0x80, 0xBF)])
  else if b = 0xF4 then some (4, [(0x80, 0x8F), (0x80, 0xBF), (0x80, 0xBF)])
  else none

/-- Read the continuation bytes asked for: the code point, or nothing where a byte is missing or
out of range, and the bytes not read. -/
def readTail : List (Nat × Nat) → Nat → List UInt8 → Option Nat × List UInt8
  | [], code, rest => (some code, rest)
  | _ :: _, _, [] => (none, [])
  | (low, high) :: ranges, code, b :: rest =>
    if low ≤ b.toNat ∧ b.toNat ≤ high then readTail ranges (code * 64 + b.toNat % 64) rest
    else (none, b :: rest)

theorem readTail_length (ranges : List (Nat × Nat)) (code : Nat) (bytes : List UInt8) :
    (readTail ranges code bytes).2.length ≤ bytes.length := by
  fun_induction readTail ranges code bytes with
  | case1 => simp
  | case2 => simp
  | case3 low high ranges code b rest h ih => simp only [List.length_cons]; omega
  | case4 => simp

/-- The characters of bytes read as UTF-8, each malformed stretch as one replacement
character. -/
def decodeLossy : List UInt8 → List Char
  | [] => []
  | b :: rest =>
    match continuation b.toNat with
    | none => replacement :: decodeLossy rest
    | some (bits, ranges) =>
      (match (readTail ranges bits rest).1 with
        | some n => Char.ofNat n
        | none => replacement) :: decodeLossy (readTail ranges bits rest).2
termination_by bytes => bytes.length
decreasing_by
  · simp
  · have := readTail_length ranges bits rest
    simp only [List.length_cons]
    omega

/-- The text of bytes read as UTF-8, each malformed stretch as one replacement character. -/
def lossyText (bytes : ByteArray) : String := String.ofList (decodeLossy bytes.toList)

end WebBundler.Text
