import WebBundler.FileTree
set_option autoImplicit false

/-!
# File trees: lookups

A lookup is a question to a file tree: it has an answer, and a list of the paths that it looks
at on the way.  The paths are what a lookup may depend on, so a lookup that only looks at paths
below a directory cannot tell two trees apart that agree there.
-/

namespace WebBundler

/-- A question to a file tree: its answer, and the paths that it looks at. -/
def Lookup (α : Type) : Type := FileTree → α × List HostPath

namespace Lookup

variable {α β : Type}

/-- The answer. -/
def answer (l : Lookup α) (t : FileTree) : α := (l t).1

/-- The paths looked at, in order. -/
def asked (l : Lookup α) (t : FileTree) : List HostPath := (l t).2

instance : Monad Lookup where
  pure a := fun _ => (a, [])
  bind l f := fun t => ((f (l t).1 t).1, (l t).2 ++ (f (l t).1 t).2)

/-- Look at one path. -/
def look (path : HostPath) (question : FileTree → α) : Lookup α := fun t => (question t, [path])

@[simp] theorem answer_pure (a : α) (t : FileTree) : (pure a : Lookup α).answer t = a := rfl

@[simp] theorem asked_pure (a : α) (t : FileTree) : (pure a : Lookup α).asked t = [] := rfl

@[simp] theorem answer_bind (l : Lookup α) (f : α → Lookup β) (t : FileTree) :
    (l >>= f).answer t = (f (l.answer t)).answer t := rfl

@[simp] theorem asked_bind (l : Lookup α) (f : α → Lookup β) (t : FileTree) :
    (l >>= f).asked t = l.asked t ++ (f (l.answer t)).asked t := rfl

@[simp] theorem answer_look (path : HostPath) (question : FileTree → α) (t : FileTree) :
    (Lookup.look path question).answer t = question t := rfl

@[simp] theorem asked_look (path : HostPath) (question : FileTree → α) (t : FileTree) :
    (Lookup.look path question).asked t = [path] := rfl

/-- A regular file is at a path, and can be asked about. -/
def isFile (path : HostPath) : Lookup Bool :=
  Lookup.look path fun t =>
    match t.metadata path with
    | .ok (.file _) => true
    | _ => false

/-- The text of a file that is there and can be read. -/
def text? (path : HostPath) : Lookup (Option String) :=
  Lookup.look path fun t =>
    if t.holds path then
      match t.read path with
      | .ok content => Text.decode? content
      | .error _ => none
    else none

end Lookup

end WebBundler
