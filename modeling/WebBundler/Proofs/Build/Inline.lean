import Mathlib.Data.Set.Card
import WebBundler.Build.Inline
import WebBundler.Proofs.Graph.DepthFirst
import WebBundler.Proofs.Graph.OfList
set_option autoImplicit false

/-!
# Inline builds in any order

The requests of an inline build can settle in any order.  An order is a list of places among the
requests that are pending at the time; a failure ends the run.

`Reachable` says what the entry requires locally, directly or not.  Each reachable path is
requested once, whatever the order (`Building`), so when nothing is pending the modules are
those of the reachable paths.  Their order in the result depends on the references of the
modules alone: it is that of the descent from the entry (`inline_exact`).
-/

namespace WebBundler.Inline

/-! ## What an entry reaches -/

section Reach

variable (compile : CompileRequest → Except CompileError Module) (entry : CompileRequest)

/-- The request for a path: that of the entry, or one for the file of the path. -/
def requestFor (p : QueryPath) : CompileRequest := if p = entry.path then entry else .of p

/-- The entry, and what a reachable module requires locally. -/
inductive Reachable : QueryPath → Prop where
  | entry : Reachable entry.path
  | required {p q : QueryPath} {m : Module} (hp : Reachable p)
      (hm : compile (requestFor entry p) = .ok m) (hq : q ∈ m.requires)
      (hlocal : q.isRemote = false) : Reachable q

/-- What the module of a path requires locally, in order. -/
def localRequires (p : QueryPath) : List QueryPath :=
  match compile (requestFor entry p) with
  | .ok m => m.requires.filter fun q => !q.isRemote
  | .error _ => []

/-- The code of the module of a path. -/
def codeOf (p : QueryPath) : String :=
  match compile (requestFor entry p) with
  | .ok m => m.outputCode
  | .error _ => ""

end Reach

/-- What an entry reaches lies in every area that holds the entry and from which nothing local
leads out. -/
theorem Reachable.mem_of_closed {compile : CompileRequest → Except CompileError Module}
    {entry : CompileRequest} {area : List QueryPath} (hentry : entry.path ∈ area)
    (hclosed : ∀ p ∈ area, ∀ q ∈ localRequires compile entry p, q ∈ area) {p : QueryPath}
    (hp : Reachable compile entry p) : p ∈ area := by
  induction hp with
  | entry => exact hentry
  | required _ hm hq hlocal ih =>
    apply hclosed _ ih
    rw [localRequires, hm]
    exact List.mem_filter.2 ⟨hq, by simp [hlocal]⟩

/-! ## Runs -/

section Runs

variable (compile : CompileRequest → Except CompileError Module)

/-- What settling the requests at given places in turn leads to, if there are requests at the
places.  A failure ends the run. -/
def exec (st : State) : List Nat → Option (Except CompileError State)
  | [] => some (.ok st)
  | i :: places =>
    if i < st.pending.length then
      match settle compile st i with
      | .ok next => exec next places
      | .error e => if places.isEmpty then some (.error e) else none
    else none

/-- The result of an inline build at the end of a run, which is reached when nothing is pending
or a compilation has failed. -/
def result? (entry : QueryPath) :
    Except CompileError State → Option (Except BuildError (List String))
  | .ok st => if st.pending.isEmpty then some (.ok (codes entry st.modules)) else none
  | .error e => some (.error e.toBuildError)

/-- A run of an inline build ends with a result. -/
def Completes (entry : CompileRequest) (result : Except BuildError (List String)) : Prop :=
  ∃ places final, exec compile (start entry) places = some final ∧
    result? entry.path final = some result

/-- What settling one request leads to. -/
inductive Step (st : State) : Except CompileError State → Prop where
  | compiled {before after : List CompileRequest} {request : CompileRequest} {m : Module}
      (hpending : st.pending = before ++ request :: after) (hm : compile request = .ok m) :
      Step st (.ok ⟨before ++ after ++ (claim st.seen m.requires).1.map .of,
        (claim st.seen m.requires).2, st.modules ++ [m]⟩)
  | failed {request : CompileRequest} {e : CompileError} (hpending : request ∈ st.pending)
      (he : compile request = .error e) : Step st (.error e)

end Runs

variable {compile : CompileRequest → Except CompileError Module} {entry : CompileRequest}
  {st next : State} {final : Except CompileError State} {places : List Nat} {i : Nat}

theorem step_settle (hi : i < st.pending.length) : Step compile st (settle compile st i) := by
  have hrequest : st.pending[i]? = some st.pending[i] := List.getElem?_eq_getElem hi
  unfold settle
  rw [hrequest]
  dsimp only
  cases hm : compile st.pending[i] with
  | error e => exact .failed (List.getElem_mem hi) hm
  | ok m =>
    have hsplit : st.pending = st.pending.take i ++ st.pending[i] ::
        st.pending.drop (i + 1) := by
      rw [List.getElem_cons_drop, List.take_append_drop]
    have hstep := Step.compiled hsplit hm
    rw [← List.eraseIdx_eq_take_drop_succ] at hstep
    exact hstep

/-! ## Claims -/

/-- What is claimed for the references of a module: those that are local and were not seen, each
once. -/
structure Claimed (seen paths claimed seen' : List QueryPath) : Prop where
  nodup : claimed.Nodup
  mem_seen : ∀ p, p ∈ seen' ↔ p ∈ claimed ∨ p ∈ seen
  fresh : ∀ p ∈ claimed, p ∉ seen
  required : ∀ p ∈ claimed, p ∈ paths ∧ p.isRemote = false
  complete : ∀ p ∈ paths, p.isRemote = false → p ∈ seen'

theorem claimed_claim (seen paths : List QueryPath) :
    Claimed seen paths (claim seen paths).1 (claim seen paths).2 := by
  fun_induction claim seen paths with
  | case1 seen => exact ⟨.nil, by simp, by simp, by simp, by simp⟩
  | case2 seen path paths hpassed ih =>
    refine ⟨ih.nodup, ih.mem_seen, ih.fresh, fun p hp => ?_, ?_⟩
    · exact ⟨List.mem_cons_of_mem _ (ih.required p hp).1, (ih.required p hp).2⟩
    · rw [List.forall_mem_cons]
      refine ⟨fun hlocal => (ih.mem_seen path).2 (.inr ?_), ih.complete⟩
      simpa [hlocal] using hpassed
  | case3 seen path paths hnew claimed seen' hclaim ih =>
    rw [hclaim] at ih
    rw [Bool.or_eq_true, not_or, List.contains_iff_mem] at hnew
    obtain ⟨hlocal, hnew⟩ := hnew
    refine ⟨?_, fun p => ?_, ?_, ?_, ?_⟩
    · exact List.nodup_cons.2 ⟨fun hp => ih.fresh path hp List.mem_cons_self, ih.nodup⟩
    · rw [ih.mem_seen, List.mem_cons, List.mem_cons, or_assoc, or_left_comm]
    · rw [List.forall_mem_cons]
      exact ⟨hnew, fun p hp hold => ih.fresh p hp (List.mem_cons_of_mem _ hold)⟩
    · rw [List.forall_mem_cons]
      refine ⟨⟨List.mem_cons_self, by simpa using hlocal⟩, fun p hp => ?_⟩
      exact ⟨List.mem_cons_of_mem _ (ih.required p hp).1, (ih.required p hp).2⟩
    · rw [List.forall_mem_cons]
      exact ⟨fun _ => (ih.mem_seen path).2 (.inr List.mem_cons_self), ih.complete⟩

/-! ## What holds in every run -/

/-- The paths that were requested, those pending first. -/
def State.requested (st : State) : List QueryPath :=
  st.pending.map CompileRequest.path ++ st.modules.map Module.path

/-- What holds of an inline build under way. -/
structure Building (compile : CompileRequest → Except CompileError Module)
    (entry : CompileRequest) (st : State) : Prop where
  nodup : st.requested.Nodup
  seen : ∀ p, p ∈ st.seen ↔ p ∈ st.requested
  entry_mem : entry.path ∈ st.requested
  reachable : ∀ p ∈ st.requested, Reachable compile entry p
  pending : ∀ request ∈ st.pending, request = requestFor entry request.path
  compiled : ∀ m ∈ st.modules, compile (requestFor entry m.path) = .ok m
  /-- What a module requires locally was requested. -/
  closed : ∀ m ∈ st.modules, ∀ q ∈ m.requires, q.isRemote = false → q ∈ st.requested

namespace Building

theorem initial : Building compile entry (start entry) where
  nodup := by simp [State.requested, start]
  seen p := by simp [State.requested, start]
  entry_mem := by simp [State.requested, start]
  reachable p hp := by
    obtain rfl : p = entry.path := by simpa [State.requested, start] using hp
    exact .entry
  pending request hrequest := by
    rw [List.mem_singleton.1 hrequest, requestFor, if_pos rfl]
  compiled m hm := absurd hm List.not_mem_nil
  closed m hm := absurd hm List.not_mem_nil

/-- A path leaves its place among those pending and joins those of the modules, while others are
claimed. -/
theorem perm_requested (before after claimed compiled : List QueryPath) (p : QueryPath) :
    (before ++ after ++ claimed ++ (compiled ++ [p])).Perm
      (claimed ++ (before ++ p :: after ++ compiled)) := by
  rw [List.perm_iff_count]
  intro q
  simp only [List.count_append, List.count_cons, List.count_nil]
  omega

/-- What fails is the compilation of a reachable path. -/
theorem failed (h : Building compile entry st) {e : CompileError}
    (hstep : Step compile st (.error e)) :
    ∃ p, p ∈ st.pending.map CompileRequest.path ∧ compile (requestFor entry p) = .error e := by
  cases hstep with
  | @failed request _ hpending he =>
    rw [h.pending request hpending] at he
    exact ⟨request.path, List.mem_map_of_mem hpending, he⟩

/-- Settling a request keeps the invariant, and makes one more module. -/
theorem step (hkeeps : ∀ request m, compile request = .ok m → m.path = request.path)
    (h : Building compile entry st) (hstep : Step compile st (.ok next)) :
    Building compile entry next ∧ next.modules.length = st.modules.length + 1 := by
  cases hstep with
  | @compiled before after request m hpending hm =>
    have hpath := hkeeps request m hm
    have hclaimed := claimed_claim st.seen m.requires
    generalize (claim st.seen m.requires).1 = claimed at hclaimed
    generalize (claim st.seen m.requires).2 = seen' at hclaimed
    have hof : (claimed.map CompileRequest.of).map CompileRequest.path = claimed := by
      rw [List.map_map]
      exact List.map_id claimed
    have hrequest : request = requestFor entry request.path :=
      h.pending request (hpending ▸ List.mem_append_right _ List.mem_cons_self)
    have hperm : (State.mk (before ++ after ++ claimed.map .of) seen'
        (st.modules ++ [m])).requested.Perm (claimed ++ st.requested) := by
      unfold State.requested
      simp only [hpending, List.map_append, List.map_cons, List.map_nil, hof, hpath]
      exact perm_requested _ _ _ _ _
    have hmem : ∀ p,
        p ∈ (State.mk (before ++ after ++ claimed.map .of) seen'
          (st.modules ++ [m])).requested ↔
          p ∈ claimed ∨ p ∈ st.requested := fun p => by rw [hperm.mem_iff, List.mem_append]
    have hreachable : Reachable compile entry m.path := by
      rw [hpath]
      apply h.reachable
      simp [State.requested, hpending]
    have hcompiled : compile (requestFor entry m.path) = .ok m := by
      rw [hpath, ← hrequest, hm]
    refine ⟨⟨?_, fun p => ?_, ?_, fun p hp => ?_, fun other hother => ?_,
      fun other hother => ?_, fun other hother => ?_⟩, List.length_append⟩
    · rw [hperm.nodup_iff]
      refine List.nodup_append.2 ⟨hclaimed.nodup, h.nodup, ?_⟩
      rintro p hp q hq rfl
      exact hclaimed.fresh p hp ((h.seen p).2 hq)
    · rw [hmem, ← h.seen, hclaimed.mem_seen]
    · exact (hmem _).2 (.inr h.entry_mem)
    · rcases (hmem p).1 hp with hnew | hold
      · exact .required hreachable hcompiled (hclaimed.required p hnew).1
          (hclaimed.required p hnew).2
      · exact h.reachable p hold
    · rcases List.mem_append.1 hother with hold | hnew
      · apply h.pending
        rw [hpending]
        rcases List.mem_append.1 hold with hbefore | hafter
        · exact List.mem_append_left _ hbefore
        · exact List.mem_append_right _ (List.mem_cons_of_mem _ hafter)
      · obtain ⟨p, hp, rfl⟩ := List.mem_map.1 hnew
        have hother : p ≠ entry.path := by
          rintro rfl
          exact hclaimed.fresh _ hp ((h.seen _).2 h.entry_mem)
        exact (if_neg hother).symm
    · rcases List.mem_append.1 hother with hold | hnew
      · exact h.compiled other hold
      · rw [List.mem_singleton.1 hnew]
        exact hcompiled
    · intro q hq hlocal
      rcases List.mem_append.1 hother with hold | hnew
      · exact (hmem q).2 (.inr (h.closed other hold q hq hlocal))
      · rw [List.mem_singleton.1 hnew] at hq
        have hseen := hclaimed.complete q hq hlocal
        rw [hclaimed.mem_seen, h.seen] at hseen
        exact (hmem q).2 hseen

/-- When nothing is pending, the modules are those of the reachable paths. -/
theorem mem_modules_iff (h : Building compile entry st) (hdone : st.pending = [])
    {p : QueryPath} :
    p ∈ st.modules.map Module.path ↔ Reachable compile entry p := by
  have hrequested : st.requested = st.modules.map Module.path := by
    rw [State.requested, hdone]
    rfl
  rw [← hrequested]
  refine ⟨h.reachable p, fun hp => ?_⟩
  induction hp with
  | entry => exact h.entry_mem
  | required _ hm hq hlocal ih =>
    rw [hrequested] at ih
    obtain ⟨other, hother, rfl⟩ := List.mem_map.1 ih
    obtain rfl := Except.ok.inj (hm.symm.trans (h.compiled other hother))
    exact h.closed _ hother _ hq hlocal

/-! ## Runs end -/

section Length

variable (hfinite : {p | Reachable compile entry p}.Finite)
include hfinite

theorem length_requested_le (h : Building compile entry st) :
    st.pending.length + st.modules.length ≤ {p | Reachable compile entry p}.ncard := by
  have hlength : st.requested.length = st.pending.length + st.modules.length := by
    rw [State.requested, List.length_append, List.length_map, List.length_map]
  rw [← hlength, ← List.toFinset_card_of_nodup h.nodup, Set.ncard_eq_toFinset_card _ hfinite]
  apply Finset.card_le_card
  intro p hp
  exact hfinite.mem_toFinset.2 (h.reachable p (List.mem_toFinset.1 hp))

end Length

end Building

theorem exec_cons_iff :
    exec compile st (i :: places) = some final ↔
      i < st.pending.length ∧
        ((∃ next, settle compile st i = .ok next ∧ exec compile next places = some final) ∨
          ∃ e, settle compile st i = .error e ∧ places = [] ∧ final = .error e) := by
  rw [exec]
  split
  · next hi =>
    rw [and_iff_right hi]
    cases settle compile st i with
    | ok next => simp
    | error e => cases places <;> simp [eq_comm]
  · next hi => simp [hi]

theorem exec_append {more : List Nat} (h : exec compile st places = some (.ok next))
    (hmore : exec compile next more = some final) :
    exec compile st (places ++ more) = some final := by
  induction places generalizing st with
  | nil =>
    cases h
    exact hmore
  | cons i places ih =>
    obtain ⟨hi, ⟨middle, hsettle, hrest⟩ | ⟨_, _, _, hfailed⟩⟩ := exec_cons_iff.1 h
    · exact exec_cons_iff.2 ⟨hi, .inl ⟨middle, hsettle, ih hrest⟩⟩
    · cases hfailed

/-- What a run has come to: each place in it stands for one more module, or for the failure at
its end. -/
inductive RunOf (compile : CompileRequest → Except CompileError Module) (entry : CompileRequest)
    (count : Nat) : Except CompileError State → Prop where
  | going {st : State} (h : Building compile entry st) (hcount : st.modules.length = count) :
      RunOf compile entry count (.ok st)
  | failed {st : State} {p : QueryPath} {e : CompileError} (h : Building compile entry st)
      (hcount : st.modules.length + 1 = count) (hp : p ∈ st.pending.map CompileRequest.path)
      (he : compile (requestFor entry p) = .error e) : RunOf compile entry count (.error e)

section Exactness

variable (hkeeps : ∀ request m, compile request = .ok m → m.path = request.path)
include hkeeps

/-- The invariant holds until the end of a run, by induction on its places. -/
theorem Building.run (h : Building compile entry st)
    (hrun : exec compile st places = some final) :
    RunOf compile entry (st.modules.length + places.length) final := by
  induction places generalizing st with
  | nil =>
    cases hrun
    exact .going h rfl
  | cons i places ih =>
    obtain ⟨hi, ⟨next, hsettle, hrest⟩ | ⟨e, hsettle, rfl, rfl⟩⟩ := exec_cons_iff.1 hrun
    · have hstep : Step compile st (settle compile st i) := step_settle hi
      rw [hsettle] at hstep
      obtain ⟨hnext, hcount⟩ := h.step hkeeps hstep
      have hrunOf := ih hnext hrest
      rwa [hcount, Nat.add_assoc, Nat.add_comm 1] at hrunOf
    · have hstep : Step compile st (settle compile st i) := step_settle hi
      rw [hsettle] at hstep
      obtain ⟨p, hp, he⟩ := h.failed hstep
      exact .failed h rfl hp he

theorem length_le_of_exec (hfinite : {p | Reachable compile entry p}.Finite)
    (hrun : exec compile (start entry) places = some final) :
    places.length ≤ {p | Reachable compile entry p}.ncard := by
  have hrunOf := Building.initial.run hkeeps hrun
  rw [show (start entry).modules.length = 0 from rfl, Nat.zero_add] at hrunOf
  cases hrunOf with
  | going h hcount =>
    exact hcount ▸ Nat.le_trans (Nat.le_add_left _ _) (h.length_requested_le hfinite)
  | failed h hcount hp _ =>
    have hle := h.length_requested_le hfinite
    have hpos := List.length_pos_of_mem hp
    rw [List.length_map] at hpos
    omega

/-- Settling the oldest request again and again ends with nothing pending or with a failure, if
as many as are reachable may be settled. -/
theorem exists_exec_settleAll (hfinite : {p | Reachable compile entry p}.Finite) (bound : Nat)
    (h : Building compile entry st)
    (hbound : {p | Reachable compile entry p}.ncard ≤ bound + st.modules.length) :
    (∃ places, exec compile st places = some (settleAll compile bound st)) ∧
      ∀ st', settleAll compile bound st = .ok st' → st'.pending = [] := by
  induction bound generalizing st with
  | zero =>
    refine ⟨⟨[], rfl⟩, ?_⟩
    rintro _ ⟨⟩
    have hle := h.length_requested_le hfinite
    exact List.eq_nil_of_length_eq_zero (by omega)
  | succ bound ih =>
    rw [settleAll]
    split
    · next hempty =>
      refine ⟨⟨[], rfl⟩, ?_⟩
      rintro _ ⟨⟩
      exact List.isEmpty_iff.1 hempty
    · next hmore =>
      have hi : 0 < st.pending.length := List.length_pos_of_ne_nil (mt List.isEmpty_iff.2 hmore)
      have hstep : Step compile st (settle compile st 0) := step_settle hi
      cases hsettle : settle compile st 0 with
      | error e =>
        exact ⟨⟨[0], exec_cons_iff.2 ⟨hi, .inr ⟨e, hsettle, rfl, rfl⟩⟩⟩,
          fun _ hok => nomatch hok⟩
      | ok next =>
        rw [hsettle] at hstep
        obtain ⟨hnext, hcount⟩ := h.step hkeeps hstep
        obtain ⟨⟨places, hrest⟩, hdone⟩ := ih hnext (by omega)
        exact ⟨⟨0 :: places, exec_cons_iff.2 ⟨hi, .inl ⟨next, hsettle, hrest⟩⟩⟩, hdone⟩

/-- What is run is one of the runs, if the tree is as large as what the entry reaches. -/
theorem completes_run {compiler : Compiler} {t : FileTree} (hcompiler : compiler t = compile)
    (hfinite : {p | Reachable compile entry p}.Finite)
    (hbound : {p | Reachable compile entry p}.ncard ≤ requestBound t) :
    Completes compile entry (run compiler t entry) := by
  obtain ⟨⟨places, hrun⟩, hdone⟩ :=
    exists_exec_settleAll hkeeps hfinite (requestBound t) Building.initial hbound
  refine ⟨places, _, hrun, ?_⟩
  unfold run
  rw [hcompiler]
  cases hend : settleAll compile (requestBound t) (start entry) with
  | error e => rfl
  | ok st => rw [result?, hdone st hend]; rfl

end Exactness

/-! ## The order of the result -/

theorem Reachable.isRemote_eq_false {p : QueryPath} (hp : Reachable compile entry p)
    (hother : p ≠ entry.path) :
    p.isRemote = false := by
  cases hp with
  | entry => exact absurd rfl hother
  | required _ _ _ hlocal => exact hlocal

/-- The order in which the codes of an inline build stand. -/
structure InOrder (compile : CompileRequest → Except CompileError Module)
    (entry : CompileRequest) (order : List QueryPath) : Prop where
  /-- It is that of the descent from the entry. -/
  descent : ∃ visited, DepthFirst (localRequires compile entry) [] [entry.path] order visited
  nodup : order.Nodup
  mem_iff : ∀ p, p ∈ order ↔ Reachable compile entry p
  last : order.getLast? = some entry.path

section Order

variable (h : Building compile entry st) (hdone : st.pending = [])
include h hdone

theorem mem_paths_iff {p : QueryPath} :
    p ∈ (ModuleSet.ofList st.modules).paths ↔ Reachable compile entry p := by
  rw [ModuleSet.mem_paths_ofList, h.mem_modules_iff hdone]

theorem find?_eq {p : QueryPath} (hp : Reachable compile entry p) :
    ∃ m, (ModuleSet.ofList st.modules).find? p = some m ∧
      compile (requestFor entry p) = .ok m := by
  cases hfind : (ModuleSet.ofList st.modules).find? p with
  | none => exact absurd ((mem_paths_iff h hdone).2 hp) (ModuleSet.find?_eq_none_iff.1 hfind)
  | some m =>
    rw [ModuleSet.find?_eq] at hfind
    have hm := ModuleSet.mem_of_mem_ofList (List.mem_of_find?_eq_some hfind)
    obtain rfl : m.path = p := by simpa using List.find?_some hfind
    exact ⟨m, rfl, h.compiled m hm⟩

/-- In the set, a module leads on to what it requires locally, and to the entry if that is not
local. -/
theorem localRequires_eq {p : QueryPath} (hp : Reachable compile entry p) :
    localRequires compile entry p =
      ((ModuleSet.ofList st.modules).allowedNext (fun _ => true) p).filter fun q =>
        !q.isRemote := by
  obtain ⟨m, hfind, hm⟩ := find?_eq h hdone hp
  unfold localRequires ModuleSet.allowedNext ModuleSet.requiresOf
  rw [hm, hfind]
  dsimp only
  rw [List.filter_filter]
  apply List.filter_congr
  intro q hq
  cases hremote : q.isRemote with
  | true => rfl
  | false =>
    have hmem : q ∈ (ModuleSet.ofList st.modules).paths :=
      (mem_paths_iff h hdone).2 (.required hp hm hq hremote)
    have henter : (ModuleSet.ofList st.modules).mayEnter (fun _ => true) q = true :=
      ModuleSet.mayEnter_iff.2 ⟨hmem, rfl⟩
    rw [henter]
    rfl

theorem mem_walkOrder_entry_iff {p : QueryPath} :
    p ∈ (ModuleSet.ofList st.modules).walkOrder (fun _ => true) entry.path ↔
      Reachable compile entry p := by
  rw [ModuleSet.mem_walkOrder_iff, and_iff_right rfl]
  constructor
  · intro hreach
    have hentry : entry.path ∈ (ModuleSet.ofList st.modules).paths :=
      (mem_paths_iff h hdone).2 .entry
    exact (mem_paths_iff h hdone).1 (hreach.reaches.mem_paths hentry)
  · intro hp
    induction hp with
    | entry => exact .refl
    | @required p q m hp hm hq hlocal ih =>
      obtain ⟨other, hfind, hother⟩ := find?_eq h hdone hp
      obtain rfl := Except.ok.inj (hm.symm.trans hother)
      refine ih.tail ⟨ModuleSet.requires_iff.2 ⟨?_, ?_⟩, rfl⟩
      · rw [ModuleSet.requiresOf, hfind]
        exact hq
      · exact (mem_paths_iff h hdone).2 (.required hp hm hq hlocal)

theorem inOrder_walkOrder :
    InOrder compile entry ((ModuleSet.ofList st.modules).walkOrder (fun _ => true)
      entry.path) := by
  obtain ⟨visited, hwalk⟩ :=
    (ModuleSet.ofList st.modules).depthFirst_walkOrder (fun _ => true) entry.path rfl
  refine ⟨?_, ModuleSet.walkOrder_nodup, fun p => mem_walkOrder_entry_iff h hdone,
    hwalk.getLast?_order⟩
  have hreachable := fun p => (mem_walkOrder_entry_iff h hdone (p := p)).1
  generalize (ModuleSet.ofList st.modules).walkOrder (fun _ => true) entry.path =
    order at hwalk hreachable
  cases hwalk with
  | known hp => exact absurd hp List.not_mem_nil
  | @enter _ _ _ below inner order _ hnew hbelow hrest =>
    cases hrest
    -- Below the entry, a reference that is not local can only be one to the entry itself.
    have hknown : ∀ p, ∀ q ∈ (ModuleSet.ofList st.modules).allowedNext (fun _ => true) p,
        (!q.isRemote) = false → q ∈ [entry.path] := by
      intro p q hq hremote
      have hmem := (ModuleSet.mayEnter_iff.1 (List.mem_filter.1 hq).2).1
      rw [List.mem_singleton]
      by_contra hother
      rw [((mem_paths_iff h hdone).1 hmem).isRemote_eq_false hother] at hremote
      contradiction
    have hsame : ∀ p ∈ below, localRequires compile entry p = _ :=
      fun p hp => localRequires_eq h hdone (hreachable p (List.mem_append_left _ hp))
    refine ⟨visited, .enter hnew ?_ (.done visited)⟩
    rw [localRequires_eq h hdone .entry]
    exact hbelow.of_filter (List.Subset.refl _) (hknown entry.path) (fun p _ => hknown p) hsame

/-- The codes are those of the reachable paths, in the order of the descent. -/
theorem codes_eq : ∃ order, InOrder compile entry order ∧
    codes entry.path st.modules = order.map (codeOf compile entry) := by
  refine ⟨_, inOrder_walkOrder h hdone, ?_⟩
  have hentry : (ModuleSet.ofList st.modules).contains entry.path = true :=
    ModuleSet.contains_iff.2 ((mem_paths_iff h hdone).2 .entry)
  unfold codes
  dsimp only
  rw [if_pos hentry, ModuleSet.dependencyFirst_stateless _ (fun _ => true), List.map_filterMap]
  have hreachable := fun p => (mem_walkOrder_entry_iff h hdone (p := p)).1
  generalize (ModuleSet.ofList st.modules).walkOrder (fun _ => true) entry.path =
    order at hreachable ⊢
  rw [← List.filterMap_eq_map]
  apply List.filterMap_congr
  intro p hp
  obtain ⟨m, hfind, hm⟩ := find?_eq h hdone (hreachable p hp)
  rw [hfind, Function.comp_apply, codeOf, hm]
  rfl

end Order

/-! ## The result -/

theorem InOrder.unique {order order' : List QueryPath} (h : InOrder compile entry order)
    (h' : InOrder compile entry order') : order = order' := by
  obtain ⟨visited, hdescent⟩ := h.descent
  obtain ⟨visited', hdescent'⟩ := h'.descent
  exact (hdescent.unique hdescent').1

section Result

variable (hkeeps : ∀ request m, compile request = .ok m → m.path = request.path)
include hkeeps

/-- The result of a run: the codes in the order of the descent, or why a reachable path does not
compile. -/
theorem Completes.result {result : Except BuildError (List String)}
    (h : Completes compile entry result) :
    (∃ order, InOrder compile entry order ∧ result = .ok (order.map (codeOf compile entry)) ∧
        ∀ p, Reachable compile entry p → ∃ m, compile (requestFor entry p) = .ok m) ∨
      ∃ p e, Reachable compile entry p ∧ compile (requestFor entry p) = .error e ∧
        result = .error e.toBuildError := by
  obtain ⟨places, final, hrun, hresult⟩ := h
  cases Building.initial.run hkeeps hrun with
  | @going st h _ =>
    obtain ⟨hdone, rfl⟩ : st.pending = [] ∧ Except.ok (codes entry.path st.modules) =
        result := by
      simpa [result?] using hresult
    obtain ⟨order, horder, hcodes⟩ := codes_eq h hdone
    refine .inl ⟨order, horder, by rw [hcodes], fun p hp => ?_⟩
    obtain ⟨m, -, hm⟩ := find?_eq h hdone hp
    exact ⟨m, hm⟩
  | @failed st p e h _ hp he =>
    cases hresult
    exact .inr ⟨p, e, h.reachable p (List.mem_append_left _ hp), he, rfl⟩

/-- Every run can be carried on until there is a result. -/
theorem exists_result (hfinite : {p | Reachable compile entry p}.Finite)
    (hrun : exec compile (start entry) places = some final) :
    ∃ more final' result, exec compile (start entry) (places ++ more) = some final' ∧
      result? entry.path final' = some result := by
  cases Building.initial.run hkeeps hrun with
  | failed => exact ⟨[], _, _, (List.append_nil places).symm ▸ hrun, rfl⟩
  | @going st h _ =>
    obtain ⟨⟨more, hmore⟩, hdone⟩ := exists_exec_settleAll hkeeps hfinite
      {p | Reachable compile entry p}.ncard h (Nat.le_add_right _ _)
    have hrun' := exec_append hrun hmore
    cases hend : settleAll compile {p | Reachable compile entry p}.ncard st with
    | error e => exact ⟨more, _, _, hend ▸ hrun', rfl⟩
    | ok st' =>
      refine ⟨more, .ok st', .ok (codes entry.path st'.modules), hend ▸ hrun', ?_⟩
      rw [result?, hdone st' hend]
      rfl

/-- If all that is reachable compiles, no run fails, and all give the codes in one order. -/
theorem exists_order (hfinite : {p | Reachable compile entry p}.Finite)
    (hall : ∀ p, Reachable compile entry p → ∃ m, compile (requestFor entry p) = .ok m) :
    ∃ order, InOrder compile entry order ∧
      ∀ result, Completes compile entry result →
      result = .ok (order.map (codeOf compile entry)) := by
  have hordered : ∀ result, Completes compile entry result →
      ∃ order, InOrder compile entry order ∧ result =
        .ok (order.map (codeOf compile entry)) := by
    intro result hresult
    rcases hresult.result hkeeps with ⟨order, horder, hcodes, -⟩ | ⟨p, e, hp, he, -⟩
    · exact ⟨order, horder, hcodes⟩
    · obtain ⟨m, hm⟩ := hall p hp
      rw [hm] at he
      contradiction
  obtain ⟨places, final, result, hrun, hresult⟩ :=
    exists_result hkeeps hfinite (rfl : exec compile (start entry) [] = _)
  obtain ⟨order, horder, -⟩ := hordered result ⟨_, final, hrun, hresult⟩
  refine ⟨order, horder, fun other hother => ?_⟩
  obtain ⟨order', horder', hcodes⟩ := hordered other hother
  rw [hcodes, horder.unique horder']

theorem error_iff {result : Except BuildError (List String)}
    (h : Completes compile entry result) :
    (∃ e, result = .error e) ↔
      ∃ p e, Reachable compile entry p ∧ compile (requestFor entry p) = .error e := by
  rcases h.result hkeeps with ⟨order, -, rfl, hall⟩ | ⟨p, e, hp, he, rfl⟩
  · constructor
    · rintro ⟨e, ⟨⟩⟩
    · rintro ⟨p, e, hp, he⟩
      obtain ⟨m, hm⟩ := hall p hp
      rw [hm] at he
      contradiction
  · exact ⟨fun _ => ⟨p, e, hp, he⟩, fun _ => ⟨_, rfl⟩⟩

end Result

/-- An inline build of an entry that reaches finitely many paths ends, in whatever order the
requests settle: a run has no more places than there are reachable paths, and can be carried on
until there is a result.  If all that is reachable compiles, every run gives the same codes:
those of the reachable paths, each once, in the order of the descent from the entry, with the
entry last.  A run gives an error if and only if a reachable path does not compile.  The run in
the order of the requests is one of them if the tree is large enough. -/
theorem inline_exact {p : Project} {t : FileTree} {entry : CompileRequest}
    (hkeeps : ∀ request m, p.compiler t request = .ok m → m.path = request.path)
    (hfinite : {path | Reachable (p.compiler t) entry path}.Finite) :
    (∀ places final, exec (p.compiler t) (start entry) places = some final →
      places.length ≤ {path | Reachable (p.compiler t) entry path}.ncard ∧
      ∃ more final' result, exec (p.compiler t) (start entry) (places ++ more) = some final' ∧
        result? entry.path final' = some result) ∧
    ((∀ path, Reachable (p.compiler t) entry path →
        ∃ m, p.compiler t (requestFor entry path) = .ok m) →
      ∃ order, InOrder (p.compiler t) entry order ∧
        ∀ result, Completes (p.compiler t) entry result →
          result = .ok (order.map (codeOf (p.compiler t) entry))) ∧
    (∀ result, Completes (p.compiler t) entry result →
      ((∃ e, result = .error e) ↔
        ∃ path e, Reachable (p.compiler t) entry path ∧
          p.compiler t (requestFor entry path) = .error e)) ∧
    ({path | Reachable (p.compiler t) entry path}.ncard ≤ requestBound t →
      Completes (p.compiler t) entry (p.inline t entry)) := by
  exact ⟨fun places final hrun =>
      ⟨length_le_of_exec hkeeps hfinite hrun, exists_result hkeeps hfinite hrun⟩,
    exists_order hkeeps hfinite, fun _ => error_iff hkeeps, completes_run hkeeps rfl hfinite⟩

/-! ## A knot of references

Two modules require each other and the entry, and the entry requires one of them twice. -/

/-- A compiler that knows paths by what they require, and fails on others. -/
def knotCompiler : Compiler := fun _ request =>
  match [("/app", ["/a", "https://cdn/lib", "/b", "/a"]), ("/a", ["/b", "/app"]),
      ("/b", ["/c", "/a"]), ("/c", [])].lookup request.path.text with
  | some names =>
    .ok { Module.empty request.path .script with
      requires := names.map QueryPath.mk
      code := "bare " ++ request.path.text
      wrappedCode := "wrapped " ++ request.path.text
      wrap := request.wrap }
  | none => .error (.failed request.realPath "unexpected token")

def knotProject : Project where
  config := default
  source := ⟨"/project"⟩
  compiler := knotCompiler
  rules := default

def knotEntry : CompileRequest := ⟨⟨"/app"⟩, "/app", some "", false⟩

def knotOrder : List QueryPath := [⟨"/c"⟩, ⟨"/b"⟩, ⟨"/a"⟩, ⟨"/app"⟩]

/-- What `/app` reaches is left in this order: `/a` waits for `/b`, and that for `/c`. -/
theorem depthFirst_knot :
    DepthFirst (localRequires (knotProject.compiler default) knotEntry) []
      [⟨"/app"⟩] knotOrder knotOrder := by
  have hc : localRequires (knotProject.compiler default) knotEntry ⟨"/c"⟩ = [] := by
    decide
  have hb : localRequires (knotProject.compiler default) knotEntry ⟨"/b"⟩ =
      [⟨"/c"⟩, ⟨"/a"⟩] := by
    decide
  have ha : localRequires (knotProject.compiler default) knotEntry ⟨"/a"⟩ =
      [⟨"/b"⟩, ⟨"/app"⟩] := by
    decide
  have happ : localRequires (knotProject.compiler default) knotEntry ⟨"/app"⟩ =
      [⟨"/a"⟩, ⟨"/b"⟩, ⟨"/a"⟩] := by decide
  show DepthFirst _ _ _ ([⟨"/c"⟩, ⟨"/b"⟩, ⟨"/a"⟩] ++ ⟨"/app"⟩ :: []) _
  refine .enter (by decide) ?_ (.done _)
  rw [happ]
  show DepthFirst _ _ _ ([⟨"/c"⟩, ⟨"/b"⟩] ++ ⟨"/a"⟩ :: []) _
  refine .enter (by decide) ?_ (.known (by decide) (.known (by decide) (.done _)))
  rw [ha]
  show DepthFirst _ _ _ ([⟨"/c"⟩] ++ ⟨"/b"⟩ :: []) _
  refine .enter (by decide) ?_ (.known (by decide) (.done _))
  rw [hb]
  show DepthFirst _ _ _ ([] ++ ⟨"/c"⟩ :: []) _
  refine .enter (by decide) ?_ (.known (by decide) (.done _))
  rw [hc]
  exact .done _

/-- The codes of the knot are the same in every run, and there is one in which `/b` settles
before `/a`. -/
theorem inline_exact_knot :
    Completes (knotProject.compiler default) knotEntry
        (.ok ["wrapped /c", "wrapped /b", "wrapped /a", "bare /app"]) ∧
      ∀ result, Completes (knotProject.compiler default) knotEntry result →
        result = .ok ["wrapped /c", "wrapped /b", "wrapped /a", "bare /app"] := by
  have hkeeps : ∀ request m, knotProject.compiler default request = .ok m →
      m.path = request.path := by
    intro request m hm
    unfold knotProject knotCompiler at hm
    dsimp only at hm
    split at hm
    · cases hm
      rfl
    · cases hm
  have hknot : ∀ p, Reachable (knotProject.compiler default) knotEntry p → p ∈ knotOrder := by
    intro p hp
    exact hp.mem_of_closed (by decide) (by decide)
  have hfinite : {p | Reachable (knotProject.compiler default) knotEntry p}.Finite :=
    (List.finite_toSet knotOrder).subset hknot
  have hall : ∀ p, Reachable (knotProject.compiler default) knotEntry p →
      ∃ m, knotProject.compiler default (requestFor knotEntry p) = .ok m := by
    intro p hp
    have hnone : ∀ p ∈ knotOrder,
        (knotProject.compiler default (requestFor knotEntry p)).toOption ≠ none := by
          decide
    cases hm : knotProject.compiler default (requestFor knotEntry p) with
    | ok m => exact ⟨m, rfl⟩
    | error e => exact absurd (congrArg Except.toOption hm) (hnone p (hknot p hp))
  obtain ⟨-, hordered, -, -⟩ := inline_exact hkeeps hfinite
  obtain ⟨order, horder, hresult⟩ := hordered hall
  obtain ⟨_, hdescent⟩ := horder.descent
  obtain rfl := (hdescent.unique depthFirst_knot).1
  have hcodes : knotOrder.map (codeOf (knotProject.compiler default) knotEntry) =
      ["wrapped /c", "wrapped /b", "wrapped /a", "bare /app"] := by decide
  rw [hcodes] at hresult
  refine ⟨?_, hresult⟩
  have hrun : (exec (knotProject.compiler default) (start knotEntry) [0, 1, 1, 0]).any
    (fun final =>
      final.toOption.any fun st => st.pending.isEmpty) = true := by decide
  rw [Option.any_eq_true] at hrun
  obtain ⟨e | st, hst, hdone⟩ := hrun
  · cases hdone
  · have hend : Completes (knotProject.compiler default) knotEntry
        (.ok (codes ⟨"/app"⟩ st.modules)) :=
      ⟨_, _, hst, if_pos hdone⟩
    rwa [hresult _ hend] at hend

end WebBundler.Inline
