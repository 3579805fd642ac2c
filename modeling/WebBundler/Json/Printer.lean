import WebBundler.Json.Basic
import WebBundler.Json.Quote
set_option autoImplicit false

/-!
# Json: writing values

`compress` writes a value without blanks, `pretty` with one item or field a line and two spaces
of indentation for each level.  Fields are written in the order in which the object lists them.
-/

namespace WebBundler.Json

/-- The text of a number. -/
def Number.text : Number → String
  | .whole n => toString n
  | .real d => d.text

/-- The given pieces with a comma between neighbours. -/
def commaSeparated (pieces : List String) : String := String.intercalate "," pieces

mutual

/-- A value without blanks. -/
def compress : Json → String
  | .null => "null"
  | .bool true => "true"
  | .bool false => "false"
  | .num n => n.text
  | .str s => quote s
  | .arr items => "[" ++ commaSeparated (compressItems items) ++ "]"
  | .obj fields => "\x7b" ++ commaSeparated (compressFields fields) ++ "\x7d"

def compressItems : List Json → List String
  | [] => []
  | item :: rest => compress item :: compressItems rest

def compressFields : List (String × Json) → List String
  | [] => []
  | (key, value) :: rest => (quote key ++ ":" ++ compress value) :: compressFields rest

end

theorem toList_compress_arr (items : List Json) :
    (compress (.arr items)).toList =
      '[' :: ((commaSeparated (compressItems items)).toList ++ [']']) := by
  rw [compress, String.toList_append, String.toList_append]
  rfl

theorem toList_compress_obj (fields : List (String × Json)) :
    (compress (.obj fields)).toList = '\x7b' ::
      ((commaSeparated (compressFields fields)).toList ++ ['\x7d']) := by
  rw [compress, String.toList_append, String.toList_append]
  rfl

theorem toList_commaSeparated_singleton (piece : String) :
    (commaSeparated [piece]).toList = piece.toList := by
  rw [commaSeparated, String.intercalate_singleton]

theorem toList_commaSeparated_cons_cons (piece next : String) (pieces : List String) :
    (commaSeparated (piece :: next :: pieces)).toList =
      piece.toList ++ ',' :: (commaSeparated (next :: pieces)).toList := by
  rw [commaSeparated, String.intercalate_cons_cons, String.toList_append, String.toList_append,
    commaSeparated]
  simp

/-- A line break followed by the indentation of a level. -/
def newline (level : Nat) : String := "\n" ++ String.ofList (List.replicate (2 * level) ' ')

/-- Pieces one a line between two brackets, or just the brackets for none. -/
def bracketed (opening closing : String) (level : Nat) (pieces : List String) : String :=
  if pieces.isEmpty then opening ++ closing
  else
    opening ++ newline (level + 1) ++ String.intercalate ("," ++ newline (level + 1)) pieces ++
      newline level ++ closing

mutual

/-- A value with one item or field a line, as it stands at a level of indentation. -/
def prettyAt (level : Nat) : Json → String
  | .arr items => bracketed "[" "]" level (prettyItems (level + 1) items)
  | .obj fields => bracketed "\x7b" "\x7d" level (prettyFields (level + 1) fields)
  | .null => "null"
  | .bool true => "true"
  | .bool false => "false"
  | .num n => n.text
  | .str s => quote s

def prettyItems (level : Nat) : List Json → List String
  | [] => []
  | item :: rest => prettyAt level item :: prettyItems level rest

def prettyFields (level : Nat) : List (String × Json) → List String
  | [] => []
  | (key, value) :: rest =>
    (quote key ++ ": " ++ prettyAt level value) :: prettyFields level rest

end

/-- A value with one item or field a line. -/
def pretty (j : Json) : String := prettyAt 0 j

end WebBundler.Json
