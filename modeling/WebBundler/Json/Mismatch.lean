import WebBundler.Json.Printer
import WebBundler.Text.Quoted
set_option autoImplicit false

/-!
# Json: reading values as something

A value that is to be read as a number, a text or a record may be of another kind.  A `Mismatch`
says what was found and what was asked for; `message` words it.  The readers of this module take
the plain shapes; records are read where they are defined.
-/

namespace WebBundler.Json

/-- Why a value cannot be read as what was asked for. -/
inductive Mismatch where
  /-- A value of another kind. -/
  | kind (found : Json) (expected : String)
  /-- A value of the right kind, but out of range. -/
  | value (found : Json) (expected : String)
  /-- A list of the wrong length. -/
  | length (found : Nat) (expected : String)
  /-- A word that is none of the admitted ones. -/
  | unlisted (found : String) (expected : List String)
  /-- A field that a record needs and does not have. -/
  | missingField (name : String)
  /-- A text that its reader refuses, with the reason. -/
  | refused (reason : String)
  deriving Repr, Inhabited

/-- What a value is, in the words of a message. -/
def describe : Json → String
  | .null => "null"
  | .bool b => "boolean `" ++ (if b then "true" else "false") ++ "`"
  | .num (.whole n) => "integer `" ++ toString n ++ "`"
  | .num (.real d) => "floating point `" ++ d.text ++ "`"
  | .str s => "string " ++ Text.quoted s
  | .arr _ => "sequence"
  | .obj _ => "map"

/-- The admitted words, in the words of a message. -/
def oneOf (names : List String) : String :=
  let ticked := names.map fun name => "`" ++ name ++ "`"
  match ticked with
  | [] => "there are no variants"
  | [a] => "expected " ++ a
  | [a, b] => "expected " ++ a ++ " or " ++ b
  | more => "expected one of " ++ String.intercalate ", " more

/-- The wording of a mismatch. -/
def Mismatch.message : Mismatch → String
  | .kind found expected => "invalid type: " ++ found.describe ++ ", expected " ++ expected
  | .value found expected => "invalid value: " ++ found.describe ++ ", expected " ++ expected
  | .length found expected => "invalid length " ++ toString found ++ ", expected " ++ expected
  | .unlisted found expected => "unknown variant `" ++ found ++ "`, " ++ oneOf expected
  | .missingField name => "missing field `" ++ name ++ "`"
  | .refused reason => reason

/-- A value that can be read as `α`, or the reason why not. -/
abbrev Reader (α : Type) := Json → Except Mismatch α

namespace Reader

/-- A text. -/
def text : Reader String
  | .str s => .ok s
  | j => .error (.kind j "a string")

/-- The path of a file or a directory. -/
def path : Reader String
  | .str s => .ok s
  | j => .error (.kind j "path string")

/-- A truth value. -/
def bool : Reader Bool
  | .bool b => .ok b
  | j => .error (.kind j "a boolean")

/-- A count that fits a machine word of 64 bits. -/
def count : Reader Nat
  | .num (.whole n) => if 0 ≤ n then .ok n.toNat else .error (.value (.num (.whole n)) "usize")
  | j => .error (.kind j "usize")

/-- `null` for nothing, or a value. -/
def optional {α : Type} (read : Reader α) : Reader (Option α)
  | .null => .ok none
  | j => (read j).map some

/-- A list of values. -/
def list {α : Type} (read : Reader α) : Reader (List α)
  | .arr items => items.mapM read
  | j => .error (.kind j "a sequence")

/-- One of some words, alone or as the only key of an object whose value is `null`. -/
def word {α : Type} (names : List String) (ofName? : String → Option α) : Reader α
  | .str s =>
    match ofName? s with
    | some a => .ok a
    | none => .error (.unlisted s names)
  | .obj [(key, value)] =>
    match ofName? key with
    | none => .error (.unlisted key names)
    | some a =>
      match value with
      | .null => .ok a
      | j => .error (.kind j "unit")
  | .obj fields => .error (.value (.obj fields) "map with a single key")
  | j => .error (.kind j "string or map")

end Reader

end WebBundler.Json
