import WebBundler.Json.Quote
set_option autoImplicit false

/-!
# Toml: keys and strings

The four kinds of strings (basic and literal, on one line or several), and the keys, which are
bare words or strings on one line.  Every reader takes the text after its opening mark and hands
back what it leaves.
-/

namespace WebBundler.Toml

/-- The space and the tab. -/
def isGap (c : Char) : Bool := c == ' ' || c == '\t'

/-- A text without its leading spaces and tabs. -/
def skipGaps (s : List Char) : List Char := s.dropWhile isGap

/-- The characters that may stand in a comment: all but the controls, and the tab. -/
def isCommentChar (c : Char) : Bool :=
  c == '\t' || (0x20 ≤ c.toNat && c.toNat != 0x7F)

/-- The characters of a bare key. -/
def isBareChar (c : Char) : Bool := c.isAlphanum || c == '_' || c == '-'

/-- The text after a line end, if there is one at the start. -/
def afterNewline? : List Char → Option (List Char)
  | '\n' :: rest => some rest
  | '\r' :: '\n' :: rest => some rest
  | _ => none

/-- The character of an escape, after its backslash. -/
def readEscape : List Char → Option (Char × List Char)
  | 'b' :: rest => some ('\x08', rest)
  | 't' :: rest => some ('\t', rest)
  | 'n' :: rest => some ('\n', rest)
  | 'f' :: rest => some ('\x0c', rest)
  | 'r' :: rest => some ('\r', rest)
  | '"' :: rest => some ('"', rest)
  | '\\' :: rest => some ('\\', rest)
  | 'u' :: rest =>
    if rest.length < 4 then none
    else (Json.charOfHex? (rest.take 4)).map (·, rest.drop 4)
  | 'U' :: rest =>
    if rest.length < 8 then none
    else (Json.charOfHex? (rest.take 8)).map (·, rest.drop 8)
  | _ => none

theorem readEscape_length {s rest : List Char} {c : Char} (h : readEscape s = some (c, rest)) :
    rest.length < s.length := by
  unfold readEscape at h
  split at h
  case h_8 =>
    split at h
    · simp at h
    · simp only [Option.map_eq_some_iff, Prod.mk.injEq] at h
      obtain ⟨_, _, _, rfl⟩ := h
      simp only [List.length_drop, List.length_cons]
      omega
  case h_9 =>
    split at h
    · simp at h
    · simp only [Option.map_eq_some_iff, Prod.mk.injEq] at h
      obtain ⟨_, _, _, rfl⟩ := h
      simp only [List.length_drop, List.length_cons]
      omega
  case h_10 => simp at h
  all_goals
    simp only [Option.some.injEq, Prod.mk.injEq] at h
    obtain ⟨_, rfl⟩ := h
    simp

/-- Read a basic string up to its closing quote. -/
def readBasic (acc : List Char) (s : List Char) : Option (List Char × List Char) :=
  match s with
  | [] => none
  | c :: rest =>
    if c = '"' then some (acc.reverse, rest)
    else if c = '\\' then
      match h : readEscape rest with
      | some (d, left) =>
        have := readEscape_length h
        readBasic (d :: acc) left
      | none => none
    else if isCommentChar c then readBasic (c :: acc) rest
    else none
termination_by s.length
decreasing_by all_goals simp only [List.length_cons]; omega

/-- Read a literal string up to its closing apostrophe. -/
def readLiteral (acc : List Char) : List Char → Option (List Char × List Char)
  | [] => none
  | c :: rest =>
    if c = '\x27' then some (acc.reverse, rest)
    else if isCommentChar c then readLiteral (c :: acc) rest
    else none

/-- How many of the first five characters are the given one, counted from the start. -/
def quoteRun (q : Char) (s : List Char) : Nat := ((s.take 5).takeWhile (· == q)).length

/-- What a backslash at the end of a line of a string skips: the rest of the line, and all
blanks and line ends up to the next text. -/
def afterLineEnd? (s : List Char) : Option (List Char) :=
  (afterNewline? (skipGaps s)).map fun rest =>
    let isBlankOrEnd (c : Char) : Bool := isGap c || c == '\n' || c == '\r'
    rest.dropWhile isBlankOrEnd

/-- Read a string of several lines up to its three closing quotes; up to two quotes right before
them belong to the text.  Line ends are read as line feeds. -/
def readLong (fuel : Nat) (quote : Char) (acc : List Char) (s : List Char) :
    Option (List Char × List Char) :=
  match fuel with
  | 0 => none
  | fuel + 1 =>
    match s with
    | [] => none
    | c :: rest =>
      if c = quote then
        let run := quoteRun quote s
        if 3 ≤ run then some ((List.replicate (run - 3) quote ++ acc).reverse, s.drop run)
        else readLong fuel quote (c :: acc) rest
      else if c = '\\' ∧ quote = '"' then
        match afterLineEnd? rest with
        | some left => readLong fuel quote acc left
        | none =>
          match readEscape rest with
          | some (d, left) => readLong fuel quote (d :: acc) left
          | none => none
      else
        match afterNewline? s with
        | some left => readLong fuel quote ('\n' :: acc) left
        | none => if isCommentChar c then readLong fuel quote (c :: acc) rest else none

/-- The text of a long string after its opening quotes: a line end right after them is
dropped. -/
def readLongAfterOpening (quote : Char) (s : List Char) : Option (List Char × List Char) :=
  readLong (s.length + 1) quote [] ((afterNewline? s).getD s)

/-- Read a string of any kind. -/
def readString : List Char → Option (List Char × List Char)
  | '"' :: '"' :: '"' :: rest => readLongAfterOpening '"' rest
  | '"' :: rest => readBasic [] rest
  | '\x27' :: '\x27' :: '\x27' :: rest => readLongAfterOpening '\x27' rest
  | '\x27' :: rest => readLiteral [] rest
  | _ => none

/-- Read one part of a key: a bare word, or a string on one line. -/
def readKeyPart (s : List Char) : Option (String × List Char) :=
  match s with
  | '"' :: rest => (readBasic [] rest).map fun (t, r) => (String.ofList t, r)
  | '\x27' :: rest => (readLiteral [] rest).map fun (t, r) => (String.ofList t, r)
  | _ =>
    match s.span isBareChar with
    | ([], _) => none
    | (word, rest) => some (String.ofList word, rest)

/-- Read the parts of a key, separated by dots with spaces and tabs around them. -/
def readKeyParts (fuel : Nat) (s : List Char) : Option (List String × List Char) :=
  match fuel with
  | 0 => none
  | fuel + 1 =>
    match readKeyPart (skipGaps s) with
    | none => none
    | some (part, rest) =>
      match skipGaps rest with
      | '.' :: r => (readKeyParts fuel r).map fun (parts, left) => (part :: parts, left)
      | r => some ([part], r)

/-- How deep keys and values may nest. -/
def maxDepth : Nat := 79

/-- Read a key. -/
def readKey (s : List Char) : Option (List String × List Char) :=
  match readKeyParts (s.length + 1) s with
  | some (parts, rest) => if parts.length ≤ maxDepth then some (parts, rest) else none
  | none => none

end WebBundler.Toml
