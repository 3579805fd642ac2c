import WebBundler.Config.Basic
set_option autoImplicit false

/-!
# Command line: arguments of one level

A command line has levels: the arguments of the program, then those of one of its commands.  A
level is described by its options, its positional arguments and its commands, and `Level.scan`
reads arguments from the left until they end or a command is named.

An option that takes a value may have it attached (`--dest=x`, `-ox`, `-o=x`) or as the next
argument, unless that starts with a dash.  A value that was read is checked when the next option
or positional argument is taken in, so that of two faults an earlier value can be reported after
a later name.
-/

namespace WebBundler.CommandLine

/-- Why a command line is refused, or answered without running a command. -/
inductive UsageError where
  /-- An option or a positional argument that the level does not have. -/
  | unknownArgument
  /-- An option that is given twice, or with one that it excludes. -/
  | conflict
  /-- A value that is missing or none of the admitted ones. -/
  | invalidValue
  /-- A value that cannot be read. -/
  | malformedValue
  /-- A value for an option that takes none. -/
  | unneededValue
  | missingArgument
  | missingCommand
  | invalidCommand
  /-- Help is asked for. -/
  | help
  /-- No argument is given, so that help is shown. -/
  | helpInstead
  /-- The version is asked for. -/
  | version
  deriving DecidableEq, Repr, Inhabited

/-- The values of arguments. -/
inductive Value where
  /-- The argument has no value. -/
  | given
  | path (p : HostPath)
  | text (s : String)
  | count (n : Nat)
  | mode (m : EmitMode)
  deriving DecidableEq, Repr, Inhabited

/-- The kinds of values. -/
inductive ValueKind where
  /-- A path, which is not empty. -/
  | path
  | text
  /-- A whole number of 64 bits, perhaps with a plus sign. -/
  | count
  | mode
  deriving DecidableEq, Repr, Inhabited

/-- What an argument is for. -/
inductive ArgumentKind where
  /-- To be given or not. -/
  | flag
  | help
  | version
  | value (kind : ValueKind)
  deriving DecidableEq, Repr, Inhabited

/-- An option, or a positional argument. -/
structure Argument where
  /-- The long name. -/
  name : String
  /-- The short name. -/
  short : Option Char
  kind : ArgumentKind
  /-- The argument may be given again. -/
  repeatable : Bool
  deriving DecidableEq, Repr, Inhabited

/-- What can be given at a level of a command line. -/
structure Level where
  options : List Argument
  positionals : List Argument
  /-- The names of the commands. -/
  commands : List String
  deriving DecidableEq, Repr, Inhabited

namespace Argument

def takesValue (a : Argument) : Bool :=
  match a.kind with
  | .value _ => true
  | _ => false

def flag (name : String) (short : Option Char) : Argument := ⟨name, short, .flag, false⟩

def option (name : String) (short : Option Char) (kind : ValueKind) : Argument :=
  ⟨name, short, .value kind, false⟩

def positional (name : String) (kind : ValueKind) : Argument := ⟨name, none, .value kind, false⟩

end Argument

/-- The value of digits, if they are digits. -/
def digitsValue? (s : List Char) : Option Nat :=
  if s.isEmpty || !s.all Char.isDigit then none
  else some (s.foldl (fun n c => n * 10 + (c.toNat - 48)) 0)

/-- The whole number of 64 bits that a text is. -/
def count? (s : String) : Option Nat :=
  let digits := match s.toList with
    | '+' :: rest => rest
    | rest => rest
  match digitsValue? digits with
  | some n => if n < UInt64.size then some n else none
  | none => none

namespace ValueKind

/-- Read a value. -/
def read (kind : ValueKind) (s : String) : Except UsageError Value :=
  match kind with
  | .path => if s = "" then .error .invalidValue else .ok (.path ⟨s⟩)
  | .text => .ok (.text s)
  | .count =>
    match count? s with
    | some n => .ok (.count n)
    | none => .error .malformedValue
  | .mode =>
    match EmitMode.ofName? s with
    | some m => .ok (.mode m)
    | none => .error .invalidValue

end ValueKind

/-! ## Scanning -/

/-- What has been read of a level. -/
structure Scan where
  /-- The arguments that were taken in, in order. -/
  taken : List (Argument × Value)
  /-- An argument that was named and not taken in yet, with its value if it has one. -/
  pending : Option (Argument × Option String)
  /-- The positional arguments still to come. -/
  positionals : List Argument
  /-- No more options are expected. -/
  trailing : Bool
  deriving Repr, Inhabited

namespace Scan

def start (level : Level) : Scan := ⟨[], none, level.positionals, false⟩

/-- The argument was taken in. -/
def has (scan : Scan) (a : Argument) : Bool := scan.taken.any (·.1 = a)

/-- Take an argument in. -/
def take (scan : Scan) (a : Argument) (value : Option String) : Except UsageError Scan :=
  match a.kind with
  | .help => .error .help
  | .version => .error .version
  | .flag =>
    if scan.has a && !a.repeatable then .error .conflict
    else .ok { scan with taken := scan.taken ++ [(a, .given)] }
  | .value kind =>
    match value with
    | none => .error .invalidValue
    | some s =>
      if scan.has a && !a.repeatable then .error .conflict
      else do
        let v ← kind.read s
        return { scan with taken := scan.taken ++ [(a, v)] }

/-- Take in the argument that is pending. -/
def resolve (scan : Scan) : Except UsageError Scan :=
  match scan.pending with
  | none => .ok scan
  | some (a, value) => { scan with pending := none }.take a value

/-- Take an argument in after the one that is pending. -/
def react (scan : Scan) (a : Argument) (value : Option String) : Except UsageError Scan := do
  (← scan.resolve).take a value

/-- Name an argument after taking in the one that is pending. -/
def await (scan : Scan) (a : Argument) (value : Option String) : Except UsageError Scan := do
  return { (← scan.resolve) with pending := some (a, value) }

/-- The pending argument can have the next one as its value. -/
def isAwaiting (scan : Scan) : Bool := scan.pending.any (·.2.isNone)

end Scan

namespace Level

def findLong (level : Level) (name : String) : Option Argument :=
  level.options.find? (·.name = name)

def findShort (level : Level) (c : Char) : Option Argument :=
  level.options.find? (·.short = some c)

/-- Read an argument that starts with two dashes. -/
def readLong (level : Level) (scan : Scan) (s : List Char) : Except UsageError Scan :=
  let (name, value) := match Text.cutFirst '=' s with
    | some (name, value) => (name, some (String.ofList value))
    | none => (s, none)
  match level.findLong (String.ofList name) with
  | none => .error .unknownArgument
  | some a =>
    if a.takesValue then
      match value with
      | some v => scan.react a (some v)
      | none => scan.await a none
    else if value.isSome then .error .unneededValue
    else scan.react a none

/-- Read the short names after a dash; what follows the name of an option with a value is the
value. -/
def readShorts (level : Level) (scan : Scan) : List Char → Except UsageError Scan
  | [] => .ok scan
  | c :: rest =>
    match level.findShort c with
    | none => .error .unknownArgument
    | some a =>
      if a.takesValue then
        match rest with
        | [] => scan.await a none
        | '=' :: value => scan.react a (some (String.ofList value))
        | value => scan.react a (some (String.ofList value))
      else do level.readShorts (← scan.react a none) rest

/-- Read a positional argument. -/
def readPositional (level : Level) (scan : Scan) (s : String) : Except UsageError Scan :=
  match scan.positionals with
  | a :: others => { scan with positionals := others }.await a (some s)
  | [] =>
    if level.commands.isEmpty || (scan.trailing && level.commands.contains s) then
      .error .unknownArgument
    else .error .invalidCommand

/-- Read one argument, which names no command. -/
def readArgument (level : Level) (scan : Scan) (s : String) : Except UsageError Scan :=
  if scan.trailing then level.readPositional scan s
  else
    match s.toList with
    | '-' :: '-' :: [] => .ok { scan with trailing := true }
    | '-' :: '-' :: long => level.readLong scan long
    | '-' :: c :: shorts => level.readShorts scan (c :: shorts)
    | _ =>
      match scan.pending with
      | some (a, none) => .ok { scan with pending := some (a, some s) }
      | _ => level.readPositional scan s

/-- Read arguments until they end or a command is named: what was taken in, and the command with
the arguments that follow it. -/
def scan (level : Level) (state : Scan) :
    List String → Except UsageError (Scan × Option (String × List String))
  | [] => do return (← state.resolve, none)
  | s :: rest =>
    if !state.trailing && !state.isAwaiting && level.commands.contains s then
      .ok (state, some (s, rest))
    else do level.scan (← level.readArgument state s) rest

end Level

end WebBundler.CommandLine
