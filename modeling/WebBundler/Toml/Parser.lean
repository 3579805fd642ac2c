import WebBundler.Toml.Text
import WebBundler.Toml.Scalar
import WebBundler.Toml.Table
set_option autoImplicit false

/-!
# Toml: reading documents

A document is read line by line: a header opens a table, and a key with its value goes into the
table opened last.  The value of a document is one JSON object; dates and times stand in it as
objects.
-/

namespace WebBundler.Toml

/-- The text after the rest of a line: blanks, a comment, and the line end or the end of the
text. -/
def afterLine? (s : List Char) : Option (List Char) :=
  let body :=
    match skipGaps s with
    | '#' :: comment => comment.dropWhile isCommentChar
    | r => r
  if body.isEmpty then some [] else afterNewline? body

/-- Skip blanks, line ends and comments between the items of a list. -/
def skipBetween (fuel : Nat) (s : List Char) : Option (List Char) :=
  match fuel with
  | 0 => none
  | fuel + 1 =>
    match skipGaps s with
    | '#' :: comment =>
      (afterNewline? (comment.dropWhile isCommentChar)).bind (skipBetween fuel)
    | r =>
      match afterNewline? r with
      | some left => skipBetween fuel left
      | none => some r

mutual

/-- Read a value; `depth` is the number of containers that may still be opened. -/
def readValue (fuel depth : Nat) (s : List Char) : Option (Json × List Char) :=
  match fuel with
  | 0 => none
  | fuel + 1 =>
    match s with
    | [] => none
    | c :: rest =>
      if c = '"' ∨ c = '\x27' then (readString s).map fun (t, r) => (.str (String.ofList t), r)
      else if c = '[' then if depth = 0 then none else readItems fuel (depth - 1) [] rest
      else if c = '{' then
        if depth = 0 then none
        else
          match skipGaps rest with
          | '}' :: r => some (.obj [], r)
          | r => readInline fuel (depth - 1) [] r
      else if c = 't' then Json.readWord "true".toList (.bool true) s
      else if c = 'f' then Json.readWord "false".toList (.bool false) s
      else readScalar s

/-- Read the items of a list up to its bracket, after those read so far in reverse. -/
def readItems (fuel depth : Nat) (acc : List Json) (s : List Char) :
    Option (Json × List Char) :=
  match fuel with
  | 0 => none
  | fuel + 1 =>
    match skipBetween (s.length + 1) s with
    | none => none
    | some (']' :: r) => some (.arr acc.reverse, r)
    | some t =>
      match readValue fuel depth t with
      | none => none
      | some (item, rest) =>
        match skipBetween (rest.length + 1) rest with
        | some (',' :: r) => readItems fuel depth (item :: acc) r
        | some (']' :: r) => some (.arr (item :: acc).reverse, r)
        | _ => none

/-- Read the fields of an inline table up to its bracket, after those read so far. -/
def readInline (fuel depth : Nat) (acc : Fields) (s : List Char) : Option (Json × List Char) :=
  match fuel with
  | 0 => none
  | fuel + 1 =>
    match readKey s with
    | none => none
    | some (path, rest) =>
      match skipGaps rest with
      | '=' :: r =>
        match readValue fuel depth (skipGaps r) with
        | none => none
        | some (value, r) =>
          match insertDotted acc path.dropLast (path.getLast?.getD "") value with
          | none => none
          | some fields =>
            match skipGaps r with
            | ',' :: r => readInline fuel depth fields r
            | '}' :: r => some (.object (finishFields fields), r)
            | _ => none
      | _ => none

end

/-- A document as far as it was read: its root table, and the path of the table opened last. -/
structure Draft where
  root : Fields
  current : List String

/-- Read the line of a header after its opening bracket. -/
def readHeader (draft : Draft) (s : List Char) : Option (Draft × List Char) := do
  let (path, rest) ← readKey s
  let rest ← after? ']' (skipGaps rest)
  let root ← openHeader draft.root path
  let rest ← afterLine? rest
  return (⟨root, path⟩, rest)

/-- Read the line of a header of a list of tables after its opening brackets. -/
def readListHeader (draft : Draft) (s : List Char) : Option (Draft × List Char) := do
  let (path, rest) ← readKey s
  let rest ← after? ']' (← after? ']' (skipGaps rest))
  let root ← openListHeader draft.root path
  let rest ← afterLine? rest
  return (⟨root, path⟩, rest)

/-- Read the line of a key and its value. -/
def readPair (draft : Draft) (s : List Char) : Option (Draft × List Char) := do
  let (path, rest) ← readKey s
  let rest ← after? '=' (skipGaps rest)
  let (value, rest) ← readValue (2 * rest.length + 2) maxDepth (skipGaps rest)
  let rest ← afterLine? rest
  let root ← updateAt draft.root draft.current fun fields =>
    insertDotted fields path.dropLast (path.getLast?.getD "") value
  return (⟨root, draft.current⟩, rest)

/-- Read the lines of a document. -/
def readLines (fuel : Nat) (draft : Draft) (s : List Char) : Option Fields :=
  match fuel with
  | 0 => none
  | fuel + 1 =>
    match skipGaps s with
    | [] => some draft.root
    | '#' :: rest => (afterLine? ('#' :: rest)).bind (readLines fuel draft)
    | '[' :: '[' :: rest =>
      match readListHeader draft rest with
      | some (next, r) => readLines fuel next r
      | none => none
    | '[' :: rest =>
      match readHeader draft rest with
      | some (next, r) => readLines fuel next r
      | none => none
    | r =>
      match afterNewline? r with
      | some left => readLines fuel draft left
      | none =>
        match readPair draft r with
        | some (next, left) => readLines fuel next left
        | none => none

/-- Read a document; a byte order mark before it is dropped. -/
def parse? (s : String) : Option Json :=
  let chars := s.toList
  let body := if chars.head? = some '\uFEFF' then chars.tail else chars
  (readLines (body.length + 1) ⟨[], []⟩ body).map fun root => .object (finishFields root)

end WebBundler.Toml
