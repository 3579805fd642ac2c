import Mathlib.Data.Set.Finite.Basic
import WebBundler.Proofs.Expansion.Termination
set_option autoImplicit false

/-!
# An expansion compiles exactly what is needed

When no move can be made any more, the paths that have settled are the needed ones, each once;
the modules and the errors are what became of them; and the modules are grouped by the seeds
that claimed them.  This holds whatever the order of the moves, and every run comes to such an
end when only finitely many paths are needed.
-/

namespace WebBundler.Expansion

/-- A path that stands for a local module, and of which nothing is rewritten. -/
def Canonical (path : String) : Prop :=
  QueryPath.normalize path = path ∧ QueryPath.ofText path = .ok ⟨path⟩

/-- The state of an expansion that has compiled exactly what is needed. -/
structure Exact (task : Task) (seeds : List String) (visited : VisitedPaths) (st : State) :
    Prop where
  /-- Each needed path was compiled once, and nothing else. -/
  nodup : st.outcome.settled.Nodup
  mem_settled : ∀ path, path ∈ st.outcome.settled ↔ Needed task seeds visited path
  requests : st.outcome.requests = st.outcome.settled.map fun path => .of ⟨path⟩
  modules : st.outcome.modules = st.outcome.settled.filterMap (compiled? task)
  errors : st.outcome.errors = st.outcome.settled.filterMap (failure? task)
  mem_visited : ∀ path, path ∈ st.outcome.visited.paths ↔
    path ∈ visited.paths ∨ Needed task seeds visited path
  /-- The groups of the outcome stand in the order of their seeds. -/
  ordered : (st.closures.map Closure.seed).Sublist (seeds.map QueryPath.normalize).eraseDups
  /-- A group holds its seed and what was reached from it within the group. -/
  grouped : ∀ c ∈ st.closures, c.modules = c.settled.filterMap (compiled? task) ∧
    c.seed ∈ c.settled ∧ ∀ path ∈ c.settled, Relation.ReflTransGen (c.Leads task) c.seed path

section Exactness

variable {task : Task} {seeds : List String} {visited : VisitedPaths} {st : State}

theorem State.Done.claimed_eq (h : st.Done) : st.claimed = st.settled := by
  unfold State.claimed State.settled
  apply List.flatMap_congr
  intro c hc
  unfold Closure.claimed
  rw [h.pending c hc, List.nil_append]

/-- When everything is done, all that is needed was claimed. -/
theorem Expanding.claimed_of_needed (hst : Expanding task seeds visited st) (hdone : st.Done)
    {path : String} (h : Needed task seeds visited path) : path ∈ st.claimed := by
  induction h with
  | seed hseed hfresh =>
    obtain ⟨handled, hsplit, hhandled⟩ := hst.handled
    rw [hdone.seeds, List.append_nil] at hsplit
    have hclaimed := hhandled.claimed _ (hsplit ▸ hseed)
    exact ((hst.mem_visited _).1 hclaimed).resolve_left hfresh
  | origin hpath hrequires hfresh ih =>
    rw [hdone.claimed_eq] at ih
    obtain ⟨c, hc, hsettled⟩ := List.mem_flatMap.1 ih
    rcases (hst.sound c hc).looked _ _ ⟨hsettled, hrequires⟩ with hclaimed | horigin
    · exact ((hst.mem_visited _).1 hclaimed).resolve_left hfresh
    · rw [hdone.origins c hc] at horigin
      cases horigin

theorem filterMap_flatMap_settled {α : Type} (f : String → Option α) (parts : Closure → List α)
    (hparts : ∀ c ∈ st.closures, parts c = c.settled.filterMap f) :
    st.closures.flatMap parts = st.settled.filterMap f := by
  unfold State.settled
  rw [List.filterMap_flatMap]
  exact List.flatMap_congr hparts

theorem requests_eq (h : ∀ path ∈ st.settled, Canonical path) :
    st.outcome.requests = st.settled.map fun path => .of ⟨path⟩ := by
  have hnames : st.settled.filterMap QueryPath.ofText? = st.settled.map QueryPath.mk := by
    rw [← List.filterMap_eq_map]
    apply List.filterMap_congr
    intro path hpath
    unfold QueryPath.ofText?
    rw [(h path hpath).2]
    rfl
  have hrequests : st.outcome.requests =
      (st.settled.filterMap QueryPath.ofText?).map CompileRequest.of := rfl
  rw [hrequests, hnames, List.map_map]
  rfl

/-- What every run brings back: each needed path was compiled once, and its module or its
failure is kept. -/
structure Completed (task : Task) (seeds : List String) (visited : VisitedPaths)
    (outcome : Outcome) :
    Prop where
  nodup : outcome.settled.Nodup
  mem_settled : ∀ path, path ∈ outcome.settled ↔ Needed task seeds visited path
  modules : outcome.modules = outcome.settled.filterMap (compiled? task)
  errors : outcome.errors = outcome.settled.filterMap (failure? task)

theorem Expanding.completed (hst : Expanding task seeds visited st) (hdone : st.Done) :
    Completed task seeds visited st.outcome where
  nodup := by
    show st.settled.Nodup
    rw [← hdone.claimed_eq]
    exact hst.nodup
  mem_settled := by
    intro path
    show path ∈ st.settled ↔ _
    rw [← hdone.claimed_eq]
    exact ⟨hst.needed path, hst.claimed_of_needed hdone⟩
  modules := filterMap_flatMap_settled _ _ fun c hc => (hst.sound c hc).modules
  errors := filterMap_flatMap_settled _ _ fun c hc => (hst.sound c hc).errors

theorem Completed.mem_modules {outcome : Outcome} (h : Completed task seeds visited outcome)
    {m : Module} :
    m ∈ outcome.modules ↔ ∃ path ∈ outcome.settled, task path = .ok m := by
  rw [h.modules, List.mem_filterMap]
  exact exists_congr fun path => and_congr_right fun _ => compiled?_eq_some

theorem Completed.mem_errors {outcome : Outcome} (h : Completed task seeds visited outcome)
    {e : BuildError} : e ∈ outcome.errors ↔ ∃ path ∈ outcome.settled, task path = .error e := by
  rw [h.errors, List.mem_filterMap]
  refine exists_congr fun path => and_congr_right fun _ => ?_
  unfold failure?
  cases task path <;> simp

/-- Two runs bring back the same, in whatever order. -/
theorem Completed.perm {outcome outcome' : Outcome} (h : Completed task seeds visited outcome)
    (h' : Completed task seeds visited outcome') :
    outcome.modules.Perm outcome'.modules ∧ outcome.errors.Perm outcome'.errors := by
  have hperm : outcome.settled.Perm outcome'.settled := by
    rw [List.perm_ext_iff_of_nodup h.nodup h'.nodup]
    intro path
    rw [h.mem_settled, h'.mem_settled]
  rw [h.modules, h'.modules, h.errors, h'.errors]
  exact ⟨hperm.filterMap _, hperm.filterMap _⟩

/-- What has been done when everything is done. -/
theorem Expanding.exact (hst : Expanding task seeds visited st) (hdone : st.Done)
    (hcanonical : ∀ path, Needed task seeds visited path → Canonical path) :
    Exact task seeds visited st := by
  obtain ⟨hnodup, hmem, hmodules, herrors⟩ := hst.completed hdone
  refine ⟨hnodup, hmem, ?_, hmodules, herrors, ?_, ?_, ?_⟩
  · exact requests_eq fun path hpath => hcanonical path ((hmem path).1 hpath)
  · intro path
    rw [← hmem]
    show path ∈ st.visited.paths ↔ path ∈ visited.paths ∨ path ∈ st.settled
    rw [← hdone.claimed_eq]
    exact hst.mem_visited path
  · obtain ⟨handled, hsplit, hhandled⟩ := hst.handled
    rw [hdone.seeds, List.append_nil] at hsplit
    rw [hsplit]
    exact hhandled.opened
  · intro c hc
    have hsound := hst.sound c hc
    have hsettled : c.claimed = c.settled := by
      unfold Closure.claimed
      rw [hdone.pending c hc, List.nil_append]
    rw [← hsettled]
    refine ⟨?_, hsound.seed_mem, hsound.reached⟩
    rw [hsettled]
    exact hsound.modules

end Exactness

/-! ## Compiling -/

section Compile

variable {compiler : Compiler} {root : HostPath} {t : FileTree} {seeds : List String}
  {visited : VisitedPaths}

theorem passThrough_requiresOrigin {name : QueryPath} {m : Module}
    (h : passThrough root t name = .ok m) : m.requiresOrigin = [] := by
  unfold passThrough at h
  dsimp only at h
  split at h
  · cases h
  · split at h
    · cases h
    · cases h
      rfl

theorem exists_of_requiresOrigin {path origin : String}
    (h : RequiresOrigin (compileTask compiler root t) path origin) :
    ∃ name m, compiler t (.of name) = .ok m ∧ origin ∈ m.requiresOrigin := by
  obtain ⟨m, hm, horigin⟩ := h
  unfold compileTask at hm
  split at hm
  · cases hm
  · next name hname =>
    split at hm
    · next hcompiled =>
      cases hm
      exact ⟨name, m, hcompiled, horigin⟩
    · rw [passThrough_requiresOrigin hm] at horigin
      cases horigin
    · cases hm

/-- Everything needed is canonical when the seeds become so and the compiler names what is
required so. -/
theorem canonical_of_needed (hseeds : ∀ seed ∈ seeds, Canonical (QueryPath.normalize seed))
    (horigins : ∀ name m, compiler t (.of name) = .ok m →
      ∀ origin ∈ m.requiresOrigin, Canonical origin)
    {path : String} (h : Needed (compileTask compiler root t) seeds visited path) :
    Canonical path := by
  cases h with
  | seed hseed hfresh => exact hseeds _ hseed
  | origin hpath hrequires hfresh =>
    obtain ⟨name, m, hm, horigin⟩ := exists_of_requiresOrigin hrequires
    exact horigins name m hm _ horigin

/-- The expansion of seeds is exact in whatever order seeds are claimed, closures are started,
tasks settle and paths are looked at: no run is longer than some bound, every run can be brought
to an end, and when a run has come to its end exactly what is needed was compiled. -/
theorem expansion_exact {limit : Nat} (hlimit : 0 < limit)
    (hseeds : ∀ seed ∈ seeds, Canonical (QueryPath.normalize seed))
    (horigins : ∀ name m, compiler t (.of name) = .ok m →
      ∀ origin ∈ m.requiresOrigin, Canonical origin)
    (hfinite : {path | Needed (compileTask compiler root t) seeds visited path}.Finite) :
    (∃ bound, ∀ moves st,
      exec (compileTask compiler root t) limit (.initial seeds visited) moves = some st →
        moves.length ≤ bound) ∧
    (∀ moves st, exec (compileTask compiler root t) limit (.initial seeds visited) moves =
      some st →
      ∃ more final, exec (compileTask compiler root t) limit st more = some final ∧
        Finished (compileTask compiler root t) limit final) ∧
    ∀ moves st, exec (compileTask compiler root t) limit (.initial seeds visited) moves =
      some st →
      Finished (compileTask compiler root t) limit st →
        Exact (compileTask compiler root t) seeds visited st := by
  have hnormal : NormalOrigins (compileTask compiler root t) := by
    intro path origin hrequires
    obtain ⟨name, m, hm, horigin⟩ := exists_of_requiresOrigin hrequires
    exact (horigins name m hm origin horigin).1
  have hnormal' : NormalSeeds seeds := fun seed hseed => (hseeds seed hseed).1
  have hall : ∀ path, Needed (compileTask compiler root t) seeds visited path →
      path ∈ hfinite.toFinset := fun path hpath => hfinite.mem_toFinset.2 hpath
  have hinitial : Expanding (compileTask compiler root t) seeds visited
      (.initial seeds visited) :=
    expanding_initial
  refine ⟨⟨work (compileTask compiler root t) hfinite.toFinset (.initial seeds visited), ?_⟩,
    ?_, ?_⟩
  · intro moves st hrun
    have hwork := hinitial.length_add_work_le hnormal hnormal' hall hrun
    omega
  · intro moves st hrun
    exact Expanding.exists_finished limit hnormal hnormal' hall st
      (hinitial.of_exec hnormal hnormal' hrun)
  · intro moves st hrun hfinished
    have hst := hinitial.of_exec hnormal hnormal' hrun
    exact hst.exact (hfinished.done hlimit) fun path => canonical_of_needed hseeds horigins

end Compile

/-! ## A race

Two closures reach the same path.  The later one looks at it first, so it is compiled there. -/

/-- A compiler that knows paths by what they require, and fails on others. -/
def tableCompiler (table : List (String × List String)) : Compiler := fun _ request =>
  match table.lookup request.path.text with
  | some origins => .ok { Module.empty request.path .script with requiresOrigin := origins }
  | none => .error (.failed request.realPath "unexpected token")

def raceTable : List (String × List String) :=
  [("/d/x", ["/d/shared", "/d/broken"]), ("/d/y", ["/d/shared", "/d/old"]),
    ("/d/shared", ["/d/leaf", "/d/x"]), ("/d/leaf", [])]

def raceTask : Task := compileTask (tableCompiler raceTable) ⟨"/project"⟩ default

def raceSeeds : List String := ["/d/x", "d\\y", "/d/./x"]

def raceVisited : VisitedPaths := VisitedPaths.empty.mark "/d/old"

def raceMoves : List Move :=
  [.claim, .start 0, .settle 0 0, .claim, .start 1, .settle 1 0, .look 1, .look 0, .look 1,
    .settle 1 0, .look 0, .claim, .look 1, .look 1, .settle 0 0, .settle 1 0]

theorem requiresOrigin_tableCompiler {table : List (String × List String)} {t : FileTree}
    {request : CompileRequest} {m : Module} (h : tableCompiler table t request = .ok m) :
    (request.path.text, m.requiresOrigin) ∈ table := by
  unfold tableCompiler at h
  split at h
  · next origins horigins =>
    cases h
    obtain ⟨before, after, rfl, -⟩ := List.lookup_eq_some_iff.1 horigins
    exact List.mem_append_right _ List.mem_cons_self
  · cases h

instance (path : String) : Decidable (Canonical path) :=
  inferInstanceAs (Decidable (_ ∧ _))

/-- In the race every path is compiled once, the one that both closures reach by the second of
them. -/
theorem expansion_exact_race :
    ∃ st, exec raceTask 2 (.initial raceSeeds raceVisited) raceMoves = some st ∧
      Finished raceTask 2 st ∧ Exact raceTask raceSeeds raceVisited st ∧
      st.closures.map (fun c => (c.seed, c.settled)) =
        [("/d/x", ["/d/x", "/d/broken"]), ("/d/y", ["/d/y", "/d/shared", "/d/leaf"])] := by
  have hseeds : ∀ seed ∈ raceSeeds, Canonical (QueryPath.normalize seed) := by decide +kernel
  have horigins : ∀ name m, tableCompiler raceTable default (.of name) = .ok m →
      ∀ origin ∈ m.requiresOrigin, Canonical origin := by
    intro name m hm
    have hrows : ∀ row ∈ raceTable, ∀ origin ∈ row.2, Canonical origin := by decide
    exact hrows _ (requiresOrigin_tableCompiler hm)
  have hfinite : {path | Needed raceTask raceSeeds raceVisited path}.Finite := by
    apply (List.finite_toSet ("/d/broken" :: "/d/old" :: raceTable.map Prod.fst)).subset
    intro path hpath
    exact hpath.mem_of_closed (by decide) (by decide)
  obtain ⟨-, -, hexact⟩ := expansion_exact (by decide : 0 < 2) hseeds horigins hfinite
  have hrun : ((exec raceTask 2 (.initial raceSeeds raceVisited) raceMoves).any fun st =>
      st.seeds.isEmpty && st.closures.all fun c =>
        c.begun && c.pending.isEmpty && c.origins.isEmpty) = true := by
    decide +kernel
  have hgroups : ((exec raceTask 2 (.initial raceSeeds raceVisited) raceMoves).map fun st =>
      st.closures.map fun c => (c.seed, c.settled)) =
      some [("/d/x", ["/d/x", "/d/broken"]), ("/d/y", ["/d/y", "/d/shared", "/d/leaf"])] := by
    decide +kernel
  obtain ⟨st, hst, hgroups⟩ := Option.map_eq_some_iff.1 hgroups
  rw [hst] at hrun
  simp only [Option.any_some, Bool.and_eq_true, List.all_eq_true, List.isEmpty_iff] at hrun
  obtain ⟨hseeds, hclosures⟩ := hrun
  have hdone : st.Done :=
    ⟨hseeds, fun c hc => (hclosures c hc).1.2, fun c hc => (hclosures c hc).2⟩
  have hfinished : Finished raceTask 2 st := hdone.finished fun c hc => (hclosures c hc).1.1
  exact ⟨st, hst, hfinished, hexact raceMoves st hst hfinished, hgroups⟩

end WebBundler.Expansion
