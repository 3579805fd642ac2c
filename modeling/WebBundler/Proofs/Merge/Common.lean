import WebBundler.Proofs.Merge.Placement
set_option autoImplicit false

/-!
# The common bundle

The common bundle is put together from walks that start at different shared modules, each of
which passes over what is listed already.  What is listed never requires anything that is not
(`CommonList.closed`), so no requirement leads from one walk into a later one, and the list as a
whole is in loading order.
-/

namespace WebBundler.ModuleSet

variable {set : ModuleSet} {shared : QueryPath → Bool} {p start : QueryPath}

/-- In a list, what a module requires stands before it, unless it lies on the way to the
module. -/
def Ordered (set : ModuleSet) (modules : List QueryPath) : Prop :=
  ∀ listed u rest, modules = listed ++ u :: rest →
    ∀ v ∈ modules, set.Requires u v → v ∈ listed ∨ set.Reaches v u

/-- An item of a list in two parts is in the second part or in the first. -/
theorem place_of_append {first second listed rest : List QueryPath} {u : QueryPath}
    (hsplit : first ++ second = listed ++ u :: rest) :
    (∃ before, listed = first ++ before ∧ second = before ++ u :: rest) ∨
      ∃ after, first = listed ++ u :: after := by
  rcases List.append_eq_append_iff.1
    hsplit with ⟨before, hlisted, hsecond⟩ | ⟨after, hfirst, hrest⟩
  · exact .inl ⟨before, hlisted, hsecond⟩
  · cases after with
    | nil => exact .inl ⟨[], by simpa using hfirst.symm, hrest.symm⟩
    | cons w after =>
      obtain ⟨rfl, -⟩ : u = w ∧ rest = after ++ second := by simpa using hrest
      exact .inr ⟨after, hfirst⟩

/-- What a shared module requires is shared. -/
def Inherited (set : ModuleSet) (shared : QueryPath → Bool) : Prop :=
  ∀ a b, set.Requires a b → shared a = true → shared b = true

/-- What the common list is at each moment. -/
structure CommonList (set : ModuleSet) (shared : QueryPath → Bool) (common : List QueryPath) :
    Prop where
  nodup : common.Nodup
  shared : ∀ p ∈ common, shared p = true
  closed : ∀ u ∈ common, ∀ v, set.Requires u v → v ∈ common
  ordered : set.Ordered common

/-- The modules that the next walk may enter: the shared ones that are not listed. -/
def unlisted (shared : QueryPath → Bool) (common : List QueryPath) (p : QueryPath) : Bool :=
  shared p && !common.contains p

theorem unlisted_iff {common : List QueryPath} :
    unlisted shared common p = true ↔ shared p = true ∧ p ∉ common := by
  simp [unlisted]

section Walk

variable {common : List QueryPath} {u v : QueryPath}

theorem unlisted_of_mem_walk (hp : p ∈ set.walkOrder (unlisted shared common) start) :
    shared p = true ∧ p ∉ common := by
  obtain ⟨hfree, hreach⟩ := mem_walkOrder_iff.1 hp
  exact unlisted_iff.1 (hreach.allowed_of hfree)

/-- What a module of the next walk requires is listed already, or the walk may enter it. -/
theorem listed_or_unlisted (hclosed : Inherited set shared)
    (hu : u ∈ set.walkOrder (unlisted shared common) start) (hedge : set.Requires u v) :
    v ∈ common ∨ unlisted shared common v = true := by
  by_cases hv : v ∈ common
  · exact Or.inl hv
  · have hshared := hclosed u v hedge (unlisted_of_mem_walk hu).1
    exact Or.inr (unlisted_iff.2 ⟨hshared, hv⟩)

theorem shared_of_reaches (hclosed : Inherited set shared) (hstart : shared start = true)
    (hreach : set.Reaches start p) : shared p = true := by
  induction hreach with
  | refl => exact hstart
  | tail _ hstep ih => exact hclosed _ _ hstep ih

/-- The next walk lists what its start reaches and was not listed before: no module on the way
to one that is not listed is listed. -/
theorem CommonList.mem_append_walk_iff (h : CommonList set shared common)
    (hclosed : Inherited set shared) (hstart : shared start = true) :
    p ∈ common ++ set.walkOrder (unlisted shared common) start ↔
      p ∈ common ∨ set.Reaches start p := by
  rw [List.mem_append, mem_walkOrder_iff]
  constructor
  · rintro (hp | ⟨-, hreach⟩)
    · exact Or.inl hp
    · exact Or.inr hreach.reaches
  · rintro (hp | hreach)
    · exact Or.inl hp
    by_cases hlisted : p ∈ common
    · exact Or.inl hlisted
    right
    have hp : unlisted shared common p = true :=
      unlisted_iff.2 ⟨shared_of_reaches hclosed hstart hreach, hlisted⟩
    apply hreach.through _ hp
    intro a b ha hedge hb
    have hb' := (unlisted_iff.1 hb).2
    apply unlisted_iff.2
    exact ⟨shared_of_reaches hclosed hstart ha, fun ha' => hb' (h.closed a ha' b hedge)⟩

/-- No requirement leads from what is listed into the next walk, and within the walk the order
is that of the walk. -/
theorem CommonList.ordered_append_walk (h : CommonList set shared common)
    (hclosed : Inherited set shared) :
    set.Ordered (common ++ set.walkOrder (unlisted shared common) start) := by
  intro listed u rest hsplit v hv hedge
  rcases place_of_append hsplit with ⟨before, hlisted, hwalk⟩ | ⟨after, hcommon⟩
  · have hu : u ∈ set.walkOrder (unlisted shared common) start := by simp [hwalk]
    rw [hlisted]
    rcases listed_or_unlisted hclosed hu hedge with hmem | hfree
    · exact Or.inl (List.mem_append_left _ hmem)
    · rcases walkOrder_before hwalk hedge hfree with hbefore | hway
      · exact Or.inl (List.mem_append_right _ hbefore)
      · exact Or.inr hway.reaches
  · have hu : u ∈ common := by simp [hcommon]
    exact h.ordered listed u after hcommon v (h.closed u hu v hedge) hedge

theorem CommonList.append_walk (h : CommonList set shared common)
    (hclosed : Inherited set shared) :
    CommonList set shared (common ++ set.walkOrder (unlisted shared common) start) := by
  constructor
  · apply List.nodup_append'.2
    refine ⟨h.nodup, walkOrder_nodup, ?_⟩
    intro p hp hwalk
    exact (unlisted_of_mem_walk hwalk).2 hp
  · intro p hp
    rcases List.mem_append.1 hp with hp | hp
    · exact h.shared p hp
    · exact (unlisted_of_mem_walk hp).1
  · intro u hu v hedge
    rcases List.mem_append.1 hu with hu | hu
    · exact List.mem_append_left _ (h.closed u hu v hedge)
    · rcases listed_or_unlisted hclosed hu hedge with hmem | hfree
      · exact List.mem_append_left _ hmem
      · obtain ⟨hfirst, hreach⟩ := mem_walkOrder_iff.1 hu
        have hv := hreach.tail ⟨hedge, hfree⟩
        exact List.mem_append_right _ (mem_walkOrder_iff.2 ⟨hfirst, hv⟩)
  · exact h.ordered_append_walk hclosed

end Walk

/-- All walks together list what their starts reach. -/
theorem commonModules_spec (hclosed : Inherited set shared) {frontier : List QueryPath}
    (hfrontier : ∀ f ∈ frontier, shared f = true) :
    CommonList set shared (set.commonModules shared frontier) ∧
      ∀ p, p ∈ set.commonModules shared frontier ↔ ∃ f ∈ frontier, set.Reaches f p := by
  unfold commonModules
  generalize hcommon : ([] : List QueryPath) = common
  have h : CommonList set shared common := by
    subst hcommon
    exact ⟨by simp, by simp, by simp, fun listed u rest hsplit => by simp at hsplit⟩
  suffices hgeneral : CommonList set shared (frontier.foldl _ common) ∧
      ∀ p, p ∈ frontier.foldl _ common ↔ p ∈ common ∨ ∃ f ∈ frontier, set.Reaches f p by
    refine ⟨hgeneral.1, fun p => ?_⟩
    rw [hgeneral.2 p, ← hcommon]
    simp
  clear hcommon
  induction frontier generalizing common with
  | nil => exact ⟨h, by simp⟩
  | cons f frontier ih =>
    rw [List.forall_mem_cons] at hfrontier
    rw [List.foldl_cons, dependencyFirst_stateless]
    obtain ⟨hfinal, hall⟩ := ih hfrontier.2 _ (h.append_walk hclosed)
    refine ⟨hfinal, ?_⟩
    intro p
    apply (hall p).trans
    rw [List.exists_mem_cons_iff, ← or_assoc]
    exact or_congr_left (h.mem_append_walk_iff hclosed hfrontier.1)

end WebBundler.ModuleSet
