import WebBundler.Proofs.Walk.Invariant
set_option autoImplicit false

/-!
# The trace of a walk

Whatever visits do, the store of a walk is what the visits that have settled made of it, one
after the other, and each module is what one of them came to (`Traced`).  A file that is visited
was met in the tree as the visits before had left it (`Met`).  Unlike `Walking`, this holds also
of visits that disturb the walk.
-/

namespace WebBundler.Walk

variable {σ : Type} {w : Walk σ} {limit : Option Nat} {store : σ} {visits : List WalkedFile}
  {summary : Summary σ} {s next : Schedule σ}

/-- A run of a walk, with its visits in the order in which they settle. -/
def Visits (w : Walk σ) (limit : Option Nat) (store : σ) (visits : List WalkedFile)
    (summary : Summary σ) : Prop :=
  ∃ st moves final, w.start store = .ok st ∧ w.exec limit (.of st) moves = some (.ok final) ∧
    final.Done ∧ final.settled.map Prod.snd = visits ∧ final.state.summary = summary

theorem completes_iff :
    w.Completes limit store summary ↔ ∃ visits, w.Visits limit store visits summary := by
  constructor
  · rintro ⟨st, moves, final, hstart, hexec, hdone, rfl⟩
    exact ⟨_, st, moves, final, hstart, hexec, hdone, rfl, rfl⟩
  · rintro ⟨visits, st, moves, final, hstart, hexec, hdone, -, rfl⟩
    exact ⟨st, moves, final, hstart, hexec, hdone, rfl⟩

/-- A file is met: as some of the visits have left the tree, it is there and is no directory,
and it is named by its path below the root. -/
structure Met (w : Walk σ) (store : σ) (visits : List WalkedFile) (file : WalkedFile) :
    Prop where
  eq_fileAt : file = w.fileAt file.path
  present : ∃ before node, before <+: visits ∧
    (w.tree (w.storeAfter store before)).metadata file.path = .ok node ∧ node ≠ .dir

theorem Met.append {more : List WalkedFile} {file : WalkedFile} (h : w.Met store visits file) :
    w.Met store (visits ++ more) file := by
  obtain ⟨hfile, before, node, hbefore, hnode⟩ := h
  exact ⟨hfile, before, node, hbefore.trans (List.prefix_append visits more), hnode⟩

/-- Some visit of a list of visits, made one after the other, came to the module. -/
def Processed (w : Walk σ) (store : σ) (visits : List WalkedFile) (m : Module) : Prop :=
  ∃ before file after, visits = before ++ file :: after ∧
    (w.visit file (w.storeAfter store before)).1 = .processed m

/-- What the visits that have settled tell about a walk under way. -/
structure Traced (w : Walk σ) (store : σ) (s : Schedule σ) : Prop where
  met : ∀ entry ∈ s.settled ++ s.state.waiting, w.Met store (s.settled.map Prod.snd) entry.2
  modules : ∀ entry ∈ s.state.modules, w.Processed store (s.settled.map Prod.snd) entry.2
  store : s.state.store = w.storeAfter store (s.settled.map Prod.snd)

theorem Processed.append {more : List WalkedFile} {m : Module}
    (h : w.Processed store visits m) :
    w.Processed store (visits ++ more) m := by
  obtain ⟨before, file, after, rfl, hvisit⟩ := h
  exact ⟨before, file, after ++ more, by rw [List.append_assoc, List.cons_append], hvisit⟩

theorem traced_start {st : State σ} (h : w.start store = .ok st) : w.Traced store (.of st) := by
  unfold start at h
  split at h
  · cases h
  · cases h
    exact ⟨fun _ h => absurd h List.not_mem_nil, fun _ h => absurd h List.not_mem_nil, rfl⟩
  · next hnode hmetadata =>
    cases h
    refine ⟨fun entry hentry => ?_, fun _ h => absurd h List.not_mem_nil, rfl⟩
    rw [List.mem_singleton.1 hentry]
    exact ⟨rfl, [], _, List.nil_prefix, hmetadata, hnode⟩

theorem Traced.step (h : w.Traced store s) (hstep : GoesOn w s next) : w.Traced store next := by
  cases hstep with
  | start number file hwaiting hvisiting => exact ⟨h.met, h.modules, h.store⟩
  | enumerate dir stack state hstack hstate =>
    cases enumerate_eq_ok hstack hstate
    refine ⟨?_, h.modules, h.store⟩
    intro entry hentry
    rw [← List.append_assoc] at hentry
    rcases List.mem_append.1 hentry with hold | hnew
    · exact h.met entry hold
    · have hfile : entry.2 ∈ w.filesIn (w.tree s.state.store) dir := by
        rw [← map_snd_numbered s.state.found (w.filesIn (w.tree s.state.store) dir)]
        exact List.mem_map_of_mem hnew
      obtain ⟨name, -, hregular, hname⟩ := mem_filesIn.1 hfile
      obtain ⟨content, hcontent⟩ := FileTree.exists_content_of_isRegular hregular
      rw [← hname]
      refine ⟨rfl, _, .file content, List.prefix_rfl, ?_, nofun⟩
      rw [← h.store]
      exact hcontent
  | settle before after number file state hwaiting hvisiting hstate =>
    rw [visitFile_eq] at hstate
    cases record_eq_ok hstate
    refine ⟨?_, ?_, ?_⟩
    · intro entry hentry
      rw [List.map_append]
      apply (h.met entry ?_).append
      rw [hwaiting]
      simp only [List.mem_append, List.mem_cons, List.not_mem_nil, or_false] at hentry ⊢
      tauto
    · intro entry hentry
      rw [List.map_append]
      rcases List.mem_append.1 hentry with hold | hnew
      · exact (h.modules entry hold).append
      · obtain ⟨m, hm, rfl⟩ := Option.map_eq_some_iff.1 (Option.mem_toList.1 hnew)
        refine ⟨s.settled.map Prod.snd, file, [], rfl, ?_⟩
        rw [← h.store]
        exact VisitOutcome.eq_processed_of_module? hm
    · rw [List.map_append, List.map_singleton, storeAfter_append, ← h.store]

/-! ## What a run brings back -/

theorem Visits.traced (h : w.Visits limit store visits summary) :
    ∃ final, w.Traced store final ∧ final.settled.map Prod.snd = visits ∧
      final.state.summary = summary := by
  obtain ⟨st, moves, final, hstart, hexec, -, hvisits, hsummary⟩ := h
  exact ⟨final, exec_invariant (fun _ _ hs hstep => hs.step hstep) (traced_start hstart) hexec,
    hvisits, hsummary⟩

theorem Visits.met (h : w.Visits limit store visits summary) :
    ∀ file ∈ visits, w.Met store visits file := by
  obtain ⟨final, htraced, rfl, -⟩ := h.traced
  intro file hfile
  obtain ⟨entry, hentry, rfl⟩ := List.mem_map.1 hfile
  exact htraced.met entry (List.mem_append_left _ hentry)

theorem Visits.store_eq (h : w.Visits limit store visits summary) :
    summary.store = w.storeAfter store visits := by
  obtain ⟨final, htraced, rfl, rfl⟩ := h.traced
  exact htraced.store

theorem Visits.processed (h : w.Visits limit store visits summary) :
    ∀ m ∈ summary.modules, w.Processed store visits m := by
  obtain ⟨final, htraced, rfl, rfl⟩ := h.traced
  intro m hm
  obtain ⟨entry, hentry, rfl⟩ := List.mem_map.1 hm
  exact htraced.modules entry (List.mem_mergeSort.1 hentry)

end WebBundler.Walk
