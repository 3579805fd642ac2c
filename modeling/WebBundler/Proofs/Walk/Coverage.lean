import WebBundler.Proofs.FileTree.Writing
import WebBundler.Proofs.Path.Descent
import WebBundler.Proofs.Walk.Trace
set_option autoImplicit false

/-!
# Walks that report nothing

A walk that reports no error has read every directory that it met, and none of its visits
failed.  It has visited every file of the tree to which only directories lead that it enters
(`Visits.mem_of_offers`).  The visits may write to the tree that is walked, as long as they take
no file away.
-/

namespace WebBundler.Walk

open HostPath (IsName)

variable {σ : Type} {w : Walk σ} {limit : Option Nat} {store : σ} {visits : List WalkedFile}
  {summary : Summary σ} {s next : Schedule σ} {names : List String}

/-! ## Visits that do not fail -/

/-- No visit fails, when they are made one after the other. -/
def Succeed (w : Walk σ) : σ → List WalkedFile → Prop
  | _, [] => True
  | store, file :: visits => (w.visit file store).1.failure? = none ∧
    w.Succeed (w.visit file store).2 visits

theorem succeed_append {more : List WalkedFile} :
    w.Succeed store (visits ++ more) ↔ w.Succeed store visits ∧
      w.Succeed (w.storeAfter store visits) more := by
  induction visits generalizing store with
  | nil => exact (and_iff_right trivial).symm
  | cons file visits ih =>
    rw [List.cons_append, Succeed, Succeed, ih, and_assoc]
    rfl

theorem storeAfter_append_cons (w : Walk σ) (store : σ) (before : List WalkedFile)
    (file : WalkedFile) (after : List WalkedFile) :
      w.storeAfter store (before ++ file :: after) =
      w.storeAfter (w.visit file (w.storeAfter store before)).2 after := by
  unfold storeAfter
  rw [List.foldl_append]
  rfl

/-- What none of some visits takes away is there after them. -/
theorem Succeed.invariant {P : σ → Prop} (h : w.Succeed store visits)
    (hkeep : ∀ file ∈ visits, ∀ store, (w.visit file store).1.failure? = none → P store →
      P (w.visit file store).2)
    (hstore : P store) : P (w.storeAfter store visits) := by
  induction visits generalizing store with
  | nil => exact hstore
  | cons file visits ih =>
    rw [List.forall_mem_cons] at hkeep
    exact ih h.2 hkeep.2 (hkeep.1 store h.1 hstore)

theorem errors_of_goesOn (hstep : GoesOn w s next) (h : next.state.errors = []) :
    s.state.errors = [] := by
  cases hstep with
  | start number file hwaiting hvisiting => exact h
  | enumerate dir stack state hstack hstate =>
    cases enumerate_eq_ok hstack hstate
    exact (List.append_eq_nil_iff.1 h).1
  | settle before after number file state hwaiting hvisiting hstate =>
    rw [visitFile_eq] at hstate
    cases record_eq_ok hstate
    exact (List.append_eq_nil_iff.1 h).1

theorem failure_of_visitFile {st st' : State σ} {number : Nat} {file : WalkedFile}
    (h : w.visitFile st number file = .ok st') (herrors : st'.errors = []) :
    (w.visit file st.store).1.failure? = none ∧ st'.store = (w.visit file st.store).2 := by
  rw [visitFile_eq] at h
  cases record_eq_ok h
  refine ⟨?_, rfl⟩
  have hnone := (List.append_eq_nil_iff.1 herrors).2
  cases hfailure : (w.visit file st.store).1.failure? with
  | none => rfl
  | some e =>
    rw [hfailure] at hnone
    cases hnone

theorem succeed_step (htraced : w.Traced store s) (hstep : GoesOn w s next)
    (h : s.state.errors = [] → w.Succeed store (s.settled.map Prod.snd))
    (herrors : next.state.errors = []) :
    w.Succeed store (next.settled.map Prod.snd) := by
  have hold := h (errors_of_goesOn hstep herrors)
  cases hstep with
  | start number file hwaiting hvisiting => exact hold
  | enumerate dir stack state hstack hstate => exact hold
  | settle before after number file state hwaiting hvisiting hstate =>
    rw [List.map_append, List.map_singleton, succeed_append, ← htraced.store]
    exact ⟨hold, (failure_of_visitFile hstate herrors).1, trivial⟩

/-- In a walk that reports nothing, no visit fails. -/
theorem Visits.succeed (h : w.Visits limit store visits summary)
    (herrors : summary.errors = []) :
    w.Succeed store visits ∧ summary.store = w.storeAfter store visits ∧
      ∀ file ∈ visits, file = w.fileAt file.path := by
  obtain ⟨st, moves, final, hstart, hexec, -, rfl, rfl⟩ := h
  have hfinal := exec_invariant
    (P := fun s => w.Traced store s ∧
      (s.state.errors = [] → w.Succeed store (s.settled.map Prod.snd)))
    (fun _ _ hs hstep => ⟨hs.1.step hstep, succeed_step hs.1 hstep hs.2⟩)
    ⟨traced_start hstart, fun _ => trivial⟩ hexec
  refine ⟨hfinal.2 herrors, hfinal.1.store, fun file hfile => ?_⟩
  obtain ⟨entry, hentry, rfl⟩ := List.mem_map.1 hfile
  exact (hfinal.1.met entry (List.mem_append_left _ hentry)).eq_fileAt

/-! ## Files that are on the way -/

/-- A file lies below the source of a walk, and the walk enters every directory that leads to
it. -/
structure Offers (w : Walk σ) (t : FileTree) (names : List String) : Prop where
  ne_nil : names ≠ []
  isName : ∀ name ∈ names, IsName name
  file : t.HasFile (w.source.location ++ names)
  enters : ∀ front rest, front ≠ [] → rest ≠ [] → names = front ++ rest →
    w.enters (HostPath.relativeTo w.root (w.source.under front)) = true

/-- The directories that lead to a file are told by the beginnings of its names. -/
theorem offers_of_take {t : FileTree} (hne : names ≠ []) (hnames : ∀ name ∈ names, IsName name)
    (hfile : t.HasFile (w.source.location ++ names))
    (henters : ∀ i < names.length, i ≠ 0 →
      w.enters (HostPath.relativeTo w.root (w.source.under (names.take i))) = true) :
    w.Offers t names where
  ne_nil := hne
  isName := hnames
  file := hfile
  enters := by
    intro front rest hfront hrest hsplit
    have hbelow := henters front.length
    rw [hsplit, List.take_left, List.length_append] at hbelow
    have hlength := List.length_pos_iff.2 hrest
    exact hbelow (by omega) (mt List.length_eq_zero_iff.1 hfront)

/-- A file was found, or a directory that leads to it is still to be enumerated. -/
def OnTheWay (w : Walk σ) (names : List String) (s : Schedule σ) : Prop :=
  w.fileAt (w.source.under names) ∈ (s.settled ++ s.state.waiting).map Prod.snd ∨
    ∃ front name rest, names = front ++ name :: rest ∧ w.source.under front ∈ s.state.stack

/-- A directory that can be read leads on to a file below it. -/
theorem Offers.leads {t : FileTree} {front rest : List String} {name : String}
    (h : w.Offers t names) (hnames : names = front ++ name :: rest)
    (hreadable : t.failuresIn (w.source.under front) = []) :
    (rest = [] ∧ w.fileAt (w.source.under names) ∈ w.filesIn t (w.source.under front)) ∨
      (rest ≠ [] ∧ w.source.under (front ++ [name]) ∈
        w.subdirsIn t (w.source.under front)) := by
  subst hnames
  have hfront : ∀ other ∈ front, IsName other :=
    fun other hother => h.isName other (List.mem_append_left _ hother)
  have hname : IsName name := h.isName name (List.mem_append_right _ List.mem_cons_self)
  obtain ⟨bytes, hfile⟩ := h.file
  rw [← List.append_assoc, ← HostPath.location_under w.source hfront] at hfile
  have hplace := HostPath.location_join (w.source.under front) hname
  unfold FileTree.failuresIn at hreadable
  cases hread : t.readDir (w.source.under front) with
  | error e =>
    rw [hread] at hreadable
    cases hreadable
  | ok listed =>
    rw [hread] at hreadable
    have hlisted := FileTree.mem_of_readDir hfile hread
    have hmem : name ∈ t.namesIn (w.source.under front) := by
      unfold FileTree.namesIn
      rw [hread]
      exact hlisted
    obtain ⟨node, hnode⟩ : ∃ node, t.metadata ((w.source.under front).join ⟨name⟩) =
        .ok node := by
      have hnone := List.filterMap_eq_nil_iff.1 hreadable name hlisted
      unfold FileTree.failureAt? at hnone
      split at hnone
      · cases hnone
      · next node hnode => exact ⟨node, hnode⟩
    have hlook := FileTree.attempt_eq_ok hnode
    rw [hplace] at hlook
    cases rest with
    | nil =>
      rw [hfile] at hlook
      cases hlook
      refine .inl ⟨rfl, mem_filesIn.2 ⟨name, hmem, ?_, by rw [HostPath.under_concat]⟩⟩
      unfold FileTree.isRegular
      rw [hnode]
    | cons next rest =>
      rw [List.append_cons] at hfile
      rw [FileTree.look_above hfile] at hlook
      cases hlook
      refine .inr ⟨List.cons_ne_nil _ _, mem_subdirsIn.2
        ⟨name, hmem, ?_, by rw [HostPath.under_concat]⟩⟩
      unfold goesInto
      rw [hnode]
      dsimp only
      rw [← HostPath.under_concat]
      exact h.enters (front ++ [name]) (next :: rest) (by simp) (by simp) (by simp)

theorem onTheWay_step (hoffers : w.Offers (w.tree s.state.store) names)
    (hstep : GoesOn w s next) (herrors : next.state.errors = []) (h : w.OnTheWay names s) :
    w.OnTheWay names next := by
  cases hstep with
  | start number file hwaiting hvisiting => exact h
  | settle before after number file state hwaiting hvisiting hstate =>
    unfold OnTheWay at h ⊢
    rw [(waiting_visitFile hstate).1, (waiting_visitFile hstate).2]
    refine h.imp_left fun hfound => ?_
    rw [hwaiting] at hfound
    simp only [List.map_append, List.map_cons, List.map_nil, List.mem_append, List.mem_cons,
      List.not_mem_nil, or_false] at hfound ⊢
    tauto
  | enumerate dir stack state hstack hstate =>
    cases enumerate_eq_ok hstack hstate
    have hreadable := (List.append_eq_nil_iff.1 herrors).2
    rcases h with hfound | ⟨front, name, rest, hnames, hdir⟩
    · left
      rw [← List.append_assoc, List.map_append]
      exact List.mem_append_left _ hfound
    · rw [hstack, List.mem_cons] at hdir
      rcases hdir with hdir | hdir
      · rw [← hdir] at hreadable ⊢
        rcases hoffers.leads hnames hreadable with ⟨-, hfile⟩ | ⟨hrest, hsub⟩
        · left
          rw [← List.append_assoc, List.map_append, map_snd_numbered]
          exact List.mem_append_right _ hfile
        · right
          obtain ⟨next, rest, rfl⟩ := List.exists_cons_of_ne_nil hrest
          exact ⟨front ++ [name], next, rest, by rw [hnames]; simp, List.mem_append_left _ hsub⟩
      · exact .inr ⟨front, name, rest, hnames, List.mem_append_right _ hdir⟩

theorem onTheWay_start {st : State σ} (hoffers : w.Offers (w.tree store) names)
    (h : w.start store = .ok st) :
    w.OnTheWay names (.of st) ∧ st.store = store := by
  obtain ⟨name, rest, rfl⟩ := List.exists_cons_of_ne_nil hoffers.ne_nil
  obtain ⟨bytes, hfile⟩ := hoffers.file
  have hdir := FileTree.look_above hfile
  unfold start at h
  split at h
  · cases h
  · cases h
    exact ⟨.inr ⟨[], name, rest, rfl, List.mem_singleton_self _⟩, rfl⟩
  · next hnode hmetadata =>
    have hlook := FileTree.attempt_eq_ok hmetadata
    rw [hdir] at hlook
    cases hlook
    exact absurd rfl hnode

/-- **A walk that reports nothing visits every file that it offers**, whatever its visits write,
as long as they take no file away. -/
theorem Visits.mem_of_offers
    (hkeep : ∀ file store place, (w.visit file store).1.failure? = none →
      (w.tree store).HasFile place →
      (w.tree (w.visit file store).2).HasFile place)
    (h : w.Visits limit store visits summary) (herrors : summary.errors = [])
    (hoffers : w.Offers (w.tree store) names) : w.fileAt (w.source.under names) ∈ visits := by
  obtain ⟨st, moves, final, hstart, hexec, hdone, rfl, rfl⟩ := h
  have hinitial := onTheWay_start hoffers hstart
  have hfinal := exec_invariant
    (P := fun s => s.state.errors = [] → w.Offers (w.tree s.state.store) names ∧
      w.OnTheWay names s)
    (fun s next hs hstep herrors => ?_) (fun _ => ⟨hinitial.2.symm ▸ hoffers, hinitial.1⟩) hexec
  · obtain hfound | ⟨front, name, rest, -, hdir⟩ := (hfinal herrors).2
    · rwa [hdone.waiting, List.append_nil] at hfound
    · rw [hdone.stack] at hdir
      cases hdir
  · obtain ⟨hoffered, hway⟩ := hs (errors_of_goesOn hstep herrors)
    refine ⟨⟨hoffered.ne_nil, hoffered.isName, ?_, hoffered.enters⟩,
      onTheWay_step hoffered hstep herrors hway⟩
    cases hstep with
    | start number file hwaiting hvisiting => exact hoffered.file
    | enumerate dir stack state hstack hstate =>
      cases enumerate_eq_ok hstack hstate
      exact hoffered.file
    | settle before after number file state hwaiting hvisiting hstate =>
      obtain ⟨hok, hstore⟩ := failure_of_visitFile hstate herrors
      rw [hstore]
      exact hkeep file _ _ hok hoffered.file

end WebBundler.Walk
