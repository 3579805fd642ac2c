import WebBundler.Output.Modules
import WebBundler.Proofs.FileTree.Writing
set_option autoImplicit false

/-!
# What writing adds to a tree

All that a build writes goes through the destination, so whatever is new in a tree is an output
in its place (`Destination.Adds`).  An output of a set of modules is one of a member, a bundle
of what members say, or the manifest (`ModuleSet.OutputOf`).
-/

namespace WebBundler

namespace FileTree

variable {t : FileTree}

end FileTree

namespace Destination

variable {d : Destination} {made made' : Output → Prop} {t t' t'' : FileTree}

/-- Whatever is new in a tree is an output of a kind, in its place. -/
def Adds (d : Destination) (made : Output → Prop) (t t' : FileTree) : Prop :=
  ∀ entry ∈ t'.entries, entry ∈ t.entries ∨
    ∃ o target, made o ∧ d.place o.path = .ok target ∧
    entry = (target.location, .file o.content)

theorem Adds.refl : d.Adds made t t := fun _ h => Or.inl h

theorem Adds.trans (h : d.Adds made t t') (h' : d.Adds made t' t'') : d.Adds made t t'' := by
  intro entry hentry
  rcases h' entry hentry with hold | hnew
  · exact h entry hold
  · exact Or.inr hnew

-- Unfolding the recursion must not open the write.
attribute [local irreducible] write in
theorem writeGroup_cons (d : Destination) (t : FileTree) (o : Output) (group : List Output) :
    d.writeGroup t (o :: group) =
      match d.write t o with
      | .ok written => d.writeGroup written group
      | .error e => (t, some e) :=
  rfl

end Destination

/-! ## The outputs of a set of modules -/

namespace ModuleSet

variable {set : ModuleSet} {merged : Merged}

/-- What is written for a set of modules: the outputs of a member, what members say put
together, or the list of all bundles. -/
inductive OutputOf (set : ModuleSet) (merged : Merged) : Output → Prop where
  | own {m : Module} {o : Output} (hm : m ∈ set.modules) (ho : o ∈ m.outputs) :
      OutputOf set merged o
  | bundle {modules : List Module} (hmodules : modules ⊆ set.modules) (target : String) :
      OutputOf set merged
        (.ofText target (Text.joinText "\n" (modules.filterMap (·.bundlePart? target))))
  | manifest : OutputOf set merged (.ofText manifestFile merged.manifest)

end ModuleSet

end WebBundler
