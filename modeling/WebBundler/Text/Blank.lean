set_option autoImplicit false

/-!
# Text: blank characters and trimming

The blank characters are those with the Unicode property `White_Space`.  They separate the
tokens of a reference, pad configuration values and the lines of an ignore file, and are dropped
from both ends of a module's path.
-/

namespace WebBundler.Text

/-- The characters with the Unicode property `White_Space`. -/
def isBlank (c : Char) : Bool :=
  let n := c.toNat
  (9 ≤ n && n ≤ 13) || n == 32 || n == 0x85 || n == 0xA0 || n == 0x1680 ||
    (0x2000 ≤ n && n ≤ 0x200A) || n == 0x2028 || n == 0x2029 || n == 0x202F || n == 0x205F ||
    n == 0x3000

/-- The six blanks of ASCII less the vertical tab. -/
def isAsciiBlank (c : Char) : Bool :=
  c == ' ' || c == '\t' || c == '\n' || c == '\r' || c == '\x0c'

/-- A text without the leading characters of a class. -/
def dropStart (p : Char → Bool) (s : List Char) : List Char := s.dropWhile p

/-- A text without the trailing characters of a class. -/
def dropEnd (p : Char → Bool) (s : List Char) : List Char := (s.reverse.dropWhile p).reverse

/-- A text without the characters of a class at either end. -/
def strip (p : Char → Bool) (s : List Char) : List Char := dropEnd p (dropStart p s)

theorem dropStart_eq_self {p : Char → Bool} {c : Char} {s : List Char} (h : p c = false) :
    dropStart p (c :: s) = c :: s := by
  simp [dropStart, List.dropWhile, h]

theorem dropEnd_append_singleton {p : Char → Bool} {c : Char} {s : List Char}
    (h : p c = false) :
    dropEnd p (s ++ [c]) = s ++ [c] := by
  simp [dropEnd, h]

@[simp] theorem strip_nil (p : Char → Bool) : strip p [] = [] := rfl

/-- A text without its leading and trailing blanks. -/
def trim (s : String) : String := String.ofList (strip isBlank s.toList)

/-- A text of blanks alone, the empty one included. -/
def isAllBlank (s : String) : Bool := s.toList.all isBlank

/-- A text without its trailing blanks. -/
def trimEnd (s : String) : String := String.ofList (dropEnd isBlank s.toList)

/-- A text without the given character at its start. -/
def trimStartChar (c : Char) (s : String) : String :=
  String.ofList (dropStart (· == c) s.toList)

/-- A text without the given character at its end. -/
def trimEndChar (c : Char) (s : String) : String := String.ofList (dropEnd (· == c) s.toList)

/-- A text without the given character at either end. -/
def trimChar (c : Char) (s : String) : String := String.ofList (strip (· == c) s.toList)

end WebBundler.Text
