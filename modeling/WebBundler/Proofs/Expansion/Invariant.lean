import WebBundler.Proofs.Expansion.Closures
set_option autoImplicit false

/-!
# What holds in every state of an expansion

A path is needed when it is a seed or required by a needed path, and was not claimed before the
expansion.  The invariant `Expanding` ties the claimed paths to the closures: each path that the
expansion has claimed is needed, and is pending or settled in exactly one closure.  It holds at
the start, each step keeps it, and so it holds after every run, whatever the order of the moves.
-/

namespace WebBundler.Expansion

/-- What an expansion has to compile, given what was claimed before it. -/
inductive Needed (task : Task) (seeds : List String) (visited : VisitedPaths) :
    String → Prop where
  | seed {seed : String} (hseed : seed ∈ seeds)
      (hfresh : QueryPath.normalize seed ∉ visited.paths) :
      Needed task seeds visited (QueryPath.normalize seed)
  | origin {path origin : String} (hpath : Needed task seeds visited path)
      (hrequires : RequiresOrigin task path origin) (hfresh : origin ∉ visited.paths) :
      Needed task seeds visited origin

/-- Nothing is needed beyond paths that hold the seeds and all that they require. -/
theorem Needed.mem_of_closed {task : Task} {seeds : List String} {visited : VisitedPaths}
    {area : List String} (hseeds : ∀ seed ∈ seeds, QueryPath.normalize seed ∈ area)
    (hclosed : ∀ path ∈ area, ∀ origin ∈ originsOf task path, origin ∈ area) {path : String}
    (h : Needed task seeds visited path) : path ∈ area := by
  induction h with
  | seed hseed hfresh => exact hseeds _ hseed
  | origin hpath hrequires hfresh ih => exact hclosed _ ih _ (mem_originsOf.2 hrequires)

/-- Seeds whose canonical form is canonical. -/
def NormalSeeds (seeds : List String) : Prop :=
  ∀ seed ∈ seeds, QueryPath.normalize (QueryPath.normalize seed) = QueryPath.normalize seed

/-- The paths that were claimed in the course of the expansion. -/
def State.claimed (st : State) : List String := st.closures.flatMap Closure.claimed

theorem State.claimed_perm {st : State} {before after : List Closure} {c : Closure}
    (h : st.closures = before ++ c :: after) :
    st.claimed.Perm (c.claimed ++ (before ++ after).flatMap Closure.claimed) := by
  unfold State.claimed
  rw [h, List.flatMap_append, List.flatMap_cons, List.flatMap_append]
  exact List.perm_append_comm_assoc ..

theorem eraseDups_append_singleton {α : Type} [DecidableEq α] {l : List α} {a : α} (h : a ∉ l) :
    (l ++ [a]).eraseDups = l.eraseDups ++ [a] := by
  have hremove : [a].removeAll l = [a] := by simp [List.removeAll, h]
  rw [List.eraseDups_append, hremove, List.eraseDups_cons]
  rfl

/-- Seeds whose turn has come: each was claimed, and those that nobody had claimed have opened
the closures, in the order in which they first stood among the seeds. -/
structure State.Handled (st : State) (seeds : List String) : Prop where
  claimed : ∀ seed ∈ seeds, QueryPath.normalize seed ∈ st.visited.paths
  opened : (st.closures.map Closure.seed).Sublist (seeds.map QueryPath.normalize).eraseDups

/-- What holds of every state of the expansion of seeds, given what was claimed before it. -/
structure Expanding (task : Task) (seeds : List String) (visited : VisitedPaths) (st : State) :
    Prop where
  handled : ∃ handled, seeds = handled ++ st.seeds ∧ st.Handled handled
  mem_visited : ∀ path, path ∈ st.visited.paths ↔ path ∈ visited.paths ∨ path ∈ st.claimed
  nodup : st.claimed.Nodup
  needed : ∀ path ∈ st.claimed, Needed task seeds visited path
  sound : ∀ c ∈ st.closures, c.Sound task st.visited

section Steps

variable {task : Task} {seeds : List String} {visited : VisitedPaths} {st st' : State}

theorem expanding_initial : Expanding task seeds visited (State.initial seeds visited) := by
  constructor
  · exact ⟨[], rfl, fun seed hseed => absurd hseed List.not_mem_nil, List.Sublist.refl _⟩
  · intro path
    constructor
    · exact Or.inl
    · intro h
      exact h.resolve_right List.not_mem_nil
  · exact List.nodup_nil
  · intro path hpath
    cases hpath
  · intro c hc
    cases hc

/-- Each step claims nothing, or one path that is needed. -/
theorem Step.growth (h : Step task st st') (hnormal : NormalOrigins task)
    (hseeds : NormalSeeds seeds) (hst : Expanding task seeds visited st) :
    Growth (Needed task seeds visited) st.visited st.claimed st'.visited st'.claimed := by
  have hnew : ∀ path, path ∉ st.visited.paths → path ∉ visited.paths :=
    fun path hpath hvisited => hpath ((hst.mem_visited path).2 (Or.inl hvisited))
  cases h with
  | known seed rest hrest hknown => exact .same (List.Perm.refl _)
  | fresh seed rest hrest hfresh =>
    obtain ⟨handled, hsplit, -⟩ := hst.handled
    have hseed : seed ∈ seeds := mem_of_split (hrest ▸ hsplit)
    have hcanonical := hseeds seed hseed
    rw [hcanonical] at hfresh
    refine .claim (.seed hseed (hnew _ hfresh)) hcanonical hfresh ?_
    unfold State.claimed
    rw [List.flatMap_append, List.flatMap_singleton]
    exact List.perm_append_comm
  | closure before after c next visited' hclosures hstep =>
    have hc : c ∈ st.closures := mem_of_split hclosures
    have hgrowth := hstep.growth hnormal (hst.sound c hc)
    refine (hgrowth.imp ?_).frame (State.claimed_perm hclosures) (State.claimed_perm rfl)
    rintro path hfresh ⟨parent, hleads⟩
    have hparent : parent ∈ st.claimed :=
      List.mem_flatMap.2 ⟨c, hc, Closure.mem_claimed.2 (Or.inr hleads.1)⟩
    exact .origin (hst.needed parent hparent) hleads.2 (hnew path hfresh)

/-- The seeds that were handled stay handled, and a seed that a step takes is handled then. -/
theorem Step.handled (h : Step task st st') (hseeds : NormalSeeds seeds)
    (hvisited : st.visited.paths ⊆ st'.visited.paths)
    (hst : ∃ handled, seeds = handled ++ st.seeds ∧ st.Handled handled) :
    ∃ handled, seeds = handled ++ st'.seeds ∧ st'.Handled handled := by
  obtain ⟨handled, hsplit, hclaimed, hopened⟩ := hst
  have hold : ∀ seed ∈ handled, QueryPath.normalize seed ∈ st'.visited.paths :=
    fun seed hseed => hvisited (hclaimed seed hseed)
  have hnext : ∀ seed rest, st.seeds = seed :: rest →
      seeds = (handled ++ [seed]) ++ rest ∧
        QueryPath.normalize (QueryPath.normalize seed) = QueryPath.normalize seed := by
    intro seed rest hrest
    rw [hrest] at hsplit
    constructor
    · rw [hsplit, List.append_assoc, List.singleton_append]
    · exact hseeds seed (mem_of_split hsplit)
  cases h with
  | known seed rest hrest hknown =>
    obtain ⟨hsplit', hcanonical⟩ := hnext seed rest hrest
    refine ⟨handled ++ [seed], hsplit', ?_, ?_⟩
    · intro other hother
      rcases List.mem_append.1 hother with hother | hother
      · exact hold other hother
      · rw [List.mem_singleton.1 hother, ← hcanonical]
        exact hknown
    · rw [List.map_append, List.eraseDups_append]
      exact hopened.trans (List.sublist_append_left ..)
  | fresh seed rest hrest hfresh =>
    obtain ⟨hsplit', hcanonical⟩ := hnext seed rest hrest
    refine ⟨handled ++ [seed], hsplit', ?_, ?_⟩
    · intro other hother
      rcases List.mem_append.1 hother with hother | hother
      · exact hold other hother
      · rw [List.mem_singleton.1 hother, VisitedPaths.mem_mark, hcanonical]
        exact Or.inl rfl
    · have hnew : QueryPath.normalize seed ∉ handled.map QueryPath.normalize := by
        intro hmem
        obtain ⟨other, hother, hsame⟩ := List.mem_map.1 hmem
        rw [hcanonical, ← hsame] at hfresh
        exact hfresh (hclaimed other hother)
      rw [List.map_append, List.map_append, List.map_singleton, List.map_singleton,
        Closure.seed_opened, eraseDups_append_singleton hnew]
      exact hopened.append (List.Sublist.refl _)
  | closure before after c next visited' hclosures hstep =>
    refine ⟨handled, hsplit, hold, ?_⟩
    rw [hclosures] at hopened
    rw [List.map_append, List.map_cons, hstep.seed_eq, ← List.map_cons, ← List.map_append]
    exact hopened

theorem Step.sound (h : Step task st st') (hnormal : NormalOrigins task)
    (hvisited : st.visited.paths ⊆ st'.visited.paths)
    (hst : ∀ c ∈ st.closures, c.Sound task st.visited) :
    ∀ c ∈ st'.closures, c.Sound task st'.visited := by
  intro c hc
  cases h with
  | known seed rest hrest hknown => exact hst c hc
  | fresh seed rest hrest hfresh =>
    rcases List.mem_append.1 hc with hold | hopened
    · exact (hst c hold).mono hvisited
    · rw [List.mem_singleton.1 hopened]
      exact Closure.sound_opened _
  | closure before after old next visited' hclosures hstep =>
    rw [hclosures] at hst
    rcases List.mem_append.1 hc with hbefore | hc
    · exact (hst c (List.mem_append_left _ hbefore)).mono hvisited
    · rcases List.mem_cons.1 hc with rfl | hafter
      · exact hstep.sound hnormal (hst old (List.mem_append_right _ List.mem_cons_self))
      · exact (hst c (List.mem_append_right _ (List.mem_cons_of_mem _ hafter))).mono hvisited

/-- Each step keeps the invariant. -/
theorem Expanding.step (hst : Expanding task seeds visited st) (hnormal : NormalOrigins task)
    (hseeds : NormalSeeds seeds) (h : Step task st st') : Expanding task seeds visited st' := by
  have hgrowth := h.growth hnormal hseeds hst
  have hsubset := hgrowth.visited_subset
  have hhandled := h.handled hseeds hsubset hst.handled
  have hsound := h.sound hnormal hsubset hst.sound
  have hclaimed : st.claimed ⊆ st.visited.paths :=
    fun path hpath => (hst.mem_visited path).2 (Or.inr hpath)
  exact ⟨hhandled, hgrowth.mem_visited hst.mem_visited, hgrowth.nodup hclaimed hst.nodup,
    hgrowth.forall_mem hst.needed, hsound⟩

/-- A run keeps the invariant, by one step after the other. -/
theorem Expanding.of_exec {limit : Nat} {moves : List Move}
    (hst : Expanding task seeds visited st) (hnormal : NormalOrigins task)
    (hseeds : NormalSeeds seeds) (h : exec task limit st moves = some st') :
    Expanding task seeds visited st' := by
  induction moves generalizing st with
  | nil =>
    cases h
    exact hst
  | cons move moves ih =>
    obtain ⟨next, hnext, hrest⟩ := exec_cons_eq_some.1 h
    exact ih (hst.step hnormal hseeds (step_of_step? hnext)) hrest

end Steps

end WebBundler.Expansion
