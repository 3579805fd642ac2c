import WebBundler.Text.Split
set_option autoImplicit false

/-!
# Ignore: globs

A glob is a pattern of paths.  `parse` reads its text into tokens, and `accepts` compares them
with the bytes of a path, so that `?` and a class take one byte.  Only the three forms of `**`
and a class can take a slash.

A class that is never closed is no class: its bracket, and every later one, stands for itself.
A branch of a group that can only take the empty text is left out of the group.
-/

namespace WebBundler

namespace Glob

/-- A part of a glob. -/
inductive Token where
  | literal (c : Char)
  /-- `?`: one byte other than a slash. -/
  | any
  /-- `*`: bytes other than slashes. -/
  | star
  /-- `**/` at the start: nothing, or a text that ends in a slash. -/
  | anyStart
  /-- `/**` at the end: a slash and all that follows. -/
  | anyEnd
  /-- `/**/`: a slash, or a text between two slashes with both of them. -/
  | anyBetween
  /-- A class: one byte in a range, or in none. -/
  | oneOf (negated : Bool) (ranges : List (Char × Char))
  /-- A group: the text of one of the branches. -/
  | group (branches : List (List Token))
  deriving Repr, Inhabited

end Glob

/-- A glob: its parts in order. -/
abbrev Glob := List Glob.Token

namespace Glob

/-- Why a text is no glob. -/
inductive Fault where
  | danglingEscape
  | unopenedGroup
  | unclosedGroup
  | invalidRange (first last : Char)
  deriving DecidableEq, Repr, Inhabited

def Fault.message : Fault → String
  | .danglingEscape => "dangling '\\'"
  | .unopenedGroup =>
    "unopened alternate group; missing '\x7b' (maybe escape '\x7d' with '[\x7d]'?)"
  | .unclosedGroup =>
    "unclosed alternate group; missing '\x7d' (maybe escape '\x7b' with '[\x7b]'?)"
  | .invalidRange first last =>
    "invalid range; '" ++ String.ofList [first] ++ "' > '" ++ String.ofList [last] ++ "'"

/-! ## Reading -/

/-- What has been read of a class. -/
structure ClassState where
  /-- The ranges, the last one first. -/
  ranges : List (Char × Char)
  /-- The last range is still to get its end. -/
  inRange : Bool
  deriving Repr

/-- One more character of a class, which is not the bracket that ends it. -/
def ClassState.push (st : ClassState) (c : Char) : Except Fault ClassState :=
  match st.ranges with
  | (low, high) :: before =>
    if st.inRange then
      if c < low then .error (.invalidRange low c) else .ok ⟨(low, c) :: before, false⟩
    else if c = '-' then .ok ⟨st.ranges, true⟩
    else .ok ⟨(c, c) :: (low, high) :: before, false⟩
  | [] => .ok ⟨[(c, c)], false⟩

/-- The ranges of a class that has been read. -/
def ClassState.finish (st : ClassState) : List (Char × Char) :=
  (if st.inRange then ('-', '-') :: st.ranges else st.ranges).reverse

/-- Read a class up to its bracket, which stands for itself at the start: the ranges and what
follows, or nothing if the class is not closed. -/
def readRanges (st : ClassState) :
    List Char → Except Fault (Option (List (Char × Char) × List Char))
  | [] => .ok none
  | c :: rest =>
    if c = ']' ∧ !st.ranges.isEmpty then .ok (some (st.finish, rest))
    else
      match st.push c with
      | .error e => .error e
      | .ok next => readRanges next rest

theorem readRanges_length {st : ClassState} {s rest : List Char} {ranges : List (Char × Char)}
    (h : readRanges st s = .ok (some (ranges, rest))) : rest.length < s.length := by
  induction s generalizing st with
  | nil => simp [readRanges] at h
  | cons c s ih =>
    simp only [readRanges] at h
    split at h
    · simp only [Except.ok.injEq, Option.some.injEq, Prod.mk.injEq] at h
      simp [h.2]
    · split at h
      · simp at h
      · have := ih h
        simp only [List.length_cons]
        omega

/-- The mark at the start of a class that negates it. -/
def splitNegation : List Char → Bool × List Char
  | c :: rest => if c = '!' ∨ c = '^' then (true, rest) else (false, c :: rest)
  | [] => (false, [])

theorem splitNegation_length (s : List Char) : (splitNegation s).2.length ≤ s.length := by
  cases s with
  | nil => simp [splitNegation]
  | cons c s => simp only [splitNegation]; split <;> simp

/-- A group that is still open: the tokens before it, the last one first, and its finished
branches, the last one first. -/
structure Frame where
  before : List Token
  branches : List (List Token)

/-- What has been read of a glob. -/
structure State where
  /-- The tokens of the current branch, the last one first. -/
  tokens : List Token
  /-- The open groups, the innermost first. -/
  frames : List Frame
  /-- The last character read. -/
  last : Option Char
  /-- Brackets open classes. -/
  classes : Bool

namespace State

def push (st : State) (t : Token) (last : Char) : State :=
  { st with tokens := t :: st.tokens, last := some last }

/-- Open a group. -/
def openGroup (st : State) : State :=
  { st with tokens := [], frames := ⟨st.tokens, []⟩ :: st.frames, last := some '{' }

/-- Begin the next branch of the innermost group; outside of groups a comma is itself. -/
def nextBranch (st : State) : State :=
  match st.frames with
  | [] => st.push (.literal ',') ','
  | frame :: frames =>
    { st with
      tokens := []
      frames := ⟨frame.before, st.tokens.reverse :: frame.branches⟩ :: frames
      last := some ',' }

/-- Close the innermost group. -/
def closeGroup (st : State) : Except Fault State :=
  match st.frames with
  | [] => .error .unopenedGroup
  | frame :: frames =>
    .ok { st with
      tokens := .group (st.tokens.reverse :: frame.branches).reverse :: frame.before
      frames
      last := some '}' }

/-- Two stars that are just two stars. -/
def twoStars (st : State) : State := (st.push .star '*').push .star '*'

/-- Put a form of `**` in the place of the last token, which is the slash before it; forms of
`**` in a row count once. -/
def replaceSlash (st : State) (form : Token) (last : Char) : State :=
  match st.tokens with
  | .anyStart :: _ | .anyEnd :: _ => { st with last := some last }
  | _ :: before => { st with tokens := form :: before, last := some last }
  | [] => st.push form last

/-- The current branch can have a form of `**` here: a slash, or the start of a branch, is
before it. -/
def isAfterSlash (st : State) : Bool :=
  st.last == some '/' || (!st.frames.isEmpty && (st.last == some ',' || st.last == some '{'))

/-- Read `**`, before the characters that follow it, of which a slash is read too. -/
def pushStars (st : State) (rest : List Char) : State × List Char :=
  if st.tokens.isEmpty then
    match rest with
    | [] => (st.push .anyStart '*', [])
    | c :: after => if c = '/' then (st.push .anyStart '/', after) else (st.twoStars, rest)
  else if !st.isAfterSlash then (st.twoStars, rest)
  else
    match rest with
    | [] => (st.replaceSlash .anyEnd '*', [])
    | c :: after =>
      if c = '/' then (st.replaceSlash .anyBetween '/', after)
      else if !st.frames.isEmpty && (c = ',' || c = '}')
        then (st.replaceSlash .anyEnd '*', rest)
      else (st.twoStars, rest)

theorem pushStars_length (st : State) (rest : List Char) :
    (st.pushStars rest).2.length ≤ rest.length := by
  unfold pushStars
  repeat' split
  all_goals simp

end State

/-- Read the rest of a glob. -/
def readFrom (st : State) (s : List Char) : Except Fault Glob :=
  match s with
  | [] => if st.frames.isEmpty then .ok st.tokens.reverse else .error .unclosedGroup
  | '?' :: rest => readFrom (st.push .any '?') rest
  | '*' :: '*' :: rest => readFrom (st.pushStars rest).1 (st.pushStars rest).2
  | '*' :: rest => readFrom (st.push .star '*') rest
  | '{' :: rest => readFrom st.openGroup rest
  | ',' :: rest => readFrom st.nextBranch rest
  | '}' :: rest =>
    match st.closeGroup with
    | .error e => .error e
    | .ok closed => readFrom closed rest
  | '\\' :: rest =>
    match rest with
    | [] => .error .danglingEscape
    | c :: after => readFrom (st.push (.literal c) c) after
  | '[' :: rest =>
    if st.classes then
      match _h : readRanges ⟨[], false⟩ (splitNegation rest).2 with
      | .error e => .error e
      | .ok (some (ranges, after)) =>
        readFrom (st.push (.oneOf (splitNegation rest).1 ranges) ']') after
      | .ok none => readFrom { st.push (.literal '[') '[' with classes := false } rest
    else readFrom (st.push (.literal '[') '[') rest
  | c :: rest => readFrom (st.push (.literal c) c) rest
termination_by s.length
decreasing_by
  all_goals simp only [List.length_cons]
  all_goals first
    | omega
    | (have h₀ := st.pushStars_length rest; omega)
    | (have h₁ := readRanges_length _h; have h₂ := splitNegation_length rest; omega)

/-- Read the text of a glob. -/
def parse (s : String) : Except Fault Glob := readFrom ⟨[], [], none, true⟩ s.toList

/-! ## Matching -/

/-- The bytes of a text. -/
def bytesOf (s : List Char) : List UInt8 := s.flatMap String.utf8EncodeChar

/-- The slash. -/
def slash : UInt8 := 47

/-- What is left of some bytes after a start that is the given text. -/
def dropLiteral : List UInt8 → List UInt8 → List (List UInt8)
  | [], s => [s]
  | _ :: _, [] => []
  | b :: bs, c :: s => if b = c then dropLiteral bs s else []

/-- What can be left of some bytes after a start without slashes. -/
def dropSegment : List UInt8 → List (List UInt8)
  | [] => [[]]
  | b :: s => if b = slash then [b :: s] else (b :: s) :: dropSegment s

/-- What can be left of some bytes after any start. -/
def dropAny : List UInt8 → List (List UInt8)
  | [] => [[]]
  | b :: s => (b :: s) :: dropAny s

/-- What follows the slashes of some bytes. -/
def afterSlashes : List UInt8 → List (List UInt8)
  | [] => []
  | b :: s => if b = slash then s :: afterSlashes s else afterSlashes s

/-- The ranges of bytes that a range of characters stands for.  The bytes of its ends are
written one after the other with the range between the last byte of the one and the first of the
other. -/
def byteRanges : Char × Char → List (UInt8 × UInt8)
  | (low, high) =>
    let first := String.utf8EncodeChar low
    let last := String.utf8EncodeChar high
    let alone := fun b : UInt8 => (b, b)
    if low = high then first.map alone
    else
      first.dropLast.map alone ++ first.getLast?.toList.zip last.head?.toList ++
        last.tail.map alone

/-- A byte lies in one of the ranges. -/
def inRanges (ranges : List (Char × Char)) (b : UInt8) : Bool :=
  ranges.any fun r => (byteRanges r).any fun (low, high) => low ≤ b && b ≤ high

mutual

/-- The token stands for nothing: a group whose branches do. -/
def Token.isVoid : Token → Bool
  | .group branches => areVoidBranches branches
  | _ => false

/-- All tokens stand for nothing. -/
def areVoid : List Token → Bool
  | [] => true
  | t :: ts => t.isVoid && areVoid ts

/-- All branches stand for nothing. -/
def areVoidBranches : List (List Token) → Bool
  | [] => true
  | b :: bs => areVoid b && areVoidBranches bs

end

mutual

/-- What can be left of some bytes after a start that a token matches. -/
def Token.rests : Token → List UInt8 → List (List UInt8)
  | .literal c, s => dropLiteral (String.utf8EncodeChar c) s
  | .any, s =>
    match s with
    | b :: after => if b = slash then [] else [after]
    | [] => []
  | .star, s => dropSegment s
  | .anyStart, s => s :: afterSlashes s
  | .anyEnd, s =>
    match s with
    | b :: after => if b = slash then dropAny after else []
    | [] => []
  | .anyBetween, s =>
    match s with
    | b :: after => if b = slash then after :: afterSlashes after else []
    | [] => []
  | .oneOf negated ranges, s =>
    match s with
    | b :: after => if inRanges ranges b = !negated then [after] else []
    | [] => []
  | .group branches, s => if areVoidBranches branches then [s] else restsOfBranches branches s

/-- What can be left of any of some texts after a start that tokens match in turn. -/
def restsOf : List Token → List (List UInt8) → List (List UInt8)
  | [], left => left
  | t :: ts, left => restsOf ts (left.flatMap fun s => t.rests s).eraseDups

/-- What can be left of some bytes after a start that one of the branches matches. -/
def restsOfBranches : List (List Token) → List UInt8 → List (List UInt8)
  | [], _ => []
  | b :: bs, s => (if areVoid b then [] else restsOf b [s]) ++ restsOfBranches bs s

end

/-- The character that the token stands for. -/
def Token.literal? : Token → Option Char
  | .literal c => some c
  | _ => none

/-- The characters that the glob stands for, if it is a text. -/
def text? (glob : Glob) : Option (List Char) := glob.mapM Token.literal?

/-- The glob asks for the name or the extension of a file, and a dot ends it.  A text asks for a
whole path, and one that follows any directories for the end of a path if it has a slash. -/
def asksNameEndingInDot (glob : Glob) : Bool :=
  (glob.getLast?.bind Token.literal?) == some '.' &&
    match glob with
    | .anyStart :: rest => (text? rest).all fun t => !t.contains '/'
    | _ => (text? glob).isNone

/-- The last segment of the path is `..`, which names no file. -/
def endsInParent (path : String) : Bool := path == ".." || Text.endsWith path "/.."

/-- The glob matches the whole of a path.  `**` alone matches every path. -/
def accepts (glob : Glob) (path : String) : Bool :=
  match glob with
  | [.anyStart] => true
  | _ =>
    (restsOf glob [bytesOf path.toList]).contains [] &&
      !(endsInParent path && glob.asksNameEndingInDot)

end Glob

end WebBundler
