import WebBundler.Json.Basic
set_option autoImplicit false

/-!
# Toml: tables under construction

A document builds up its root table line by line.  How a table came about decides how it may be
reached again: a table with a header of its own only through further headers below it, a table
made by a dotted key only through dotted keys of the same table.  `insertDotted` and
`openHeader` refuse all else, a second value for a key included.
-/

namespace WebBundler.Toml

/-- How a table came about. -/
inductive Origin where
  /-- By its own header. -/
  | header
  /-- By the header of a table below it. -/
  | implied
  /-- By a dotted key. -/
  | dotted
  deriving DecidableEq, Repr

/-- What a key stands for while a document is read. -/
inductive Node where
  /-- A finished value. -/
  | leaf (value : Json)
  | table (origin : Origin) (fields : List (String × Node))
  /-- A list of tables: the finished ones, and the fields of the last. -/
  | tables (done : List Json) (last : List (String × Node))

/-- The fields of a table. -/
abbrev Fields := List (String × Node)

namespace Fields

/-- What a key stands for. -/
def get? (key : String) (fields : Fields) : Option Node := (fields.find? (·.1 = key)).map (·.2)

/-- The fields with a key set. -/
def set (key : String) (node : Node) (fields : Fields) : Fields :=
  fields.filter (·.1 ≠ key) ++ [(key, node)]

end Fields

mutual

/-- The finished value of what a key stands for. -/
def Node.finish : Node → Json
  | .leaf value => value
  | .table _ fields => .object (finishFields fields)
  | .tables done last => .arr (done ++ [.object (finishFields last)])

/-- The finished fields of a table. -/
def finishFields : List (String × Node) → List (String × Json)
  | [] => []
  | (key, node) :: rest => (key, node.finish) :: finishFields rest

end

/-- Set a dotted key below some fields: the tables on the way are made, or were made by dotted
keys. -/
def insertDotted (fields : Fields) (path : List String) (key : String) (value : Json) :
    Option Fields :=
  match path with
  | [] => if (fields.get? key).isSome then none else some (fields.set key (.leaf value))
  | step :: rest =>
    match fields.get? step with
    | none => (insertDotted [] rest key value).map fun sub =>
      fields.set step (.table .dotted sub)
    | some (.table .dotted sub) =>
      (insertDotted sub rest key value).map fun sub => fields.set step (.table .dotted sub)
    | some (.table .implied sub) =>
      if rest.isEmpty then none
      else (insertDotted sub rest key value).map fun sub =>
        fields.set step (.table .implied sub)
    | some (.tables done last) =>
      if rest.isEmpty then none
      else (insertDotted last rest key value).map fun last =>
        fields.set step (.tables done last)
    | some (.table .header _) | some (.leaf _) => none

/-- Change the fields of the table at a path of headers; missing tables on the way are made, and
a list of tables stands for its last one. -/
def updateAt (fields : Fields) (path : List String) (change : Fields → Option Fields) :
    Option Fields :=
  match path with
  | [] => change fields
  | step :: rest =>
    match fields.get? step with
    | none => (updateAt [] rest change).map fun sub => fields.set step (.table .implied sub)
    | some (.table origin sub) =>
      (updateAt sub rest change).map fun sub => fields.set step (.table origin sub)
    | some (.tables done last) =>
      (updateAt last rest change).map fun last => fields.set step (.tables done last)
    | some (.leaf _) => none

/-- Open the table of a header: a new one, or one that only headers below it have made. -/
def openHeader (root : Fields) (path : List String) : Option Fields :=
  match path.getLast? with
  | none => none
  | some key =>
    updateAt root path.dropLast fun fields =>
      match fields.get? key with
      | none => some (fields.set key (.table .header []))
      | some (.table .implied sub) => some (fields.set key (.table .header sub))
      | _ => none

/-- Open a further table of the list of a header. -/
def openListHeader (root : Fields) (path : List String) : Option Fields :=
  match path.getLast? with
  | none => none
  | some key =>
    updateAt root path.dropLast fun fields =>
      match fields.get? key with
      | none => some (fields.set key (.tables [] []))
      | some (.tables done last) =>
        some (fields.set key (.tables (done ++ [.object (finishFields last)]) []))
      | _ => none

end WebBundler.Toml
