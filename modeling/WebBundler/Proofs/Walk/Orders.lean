import WebBundler.Proofs.Walk.Coverage
import WebBundler.Proofs.Walk.Exactness
set_option autoImplicit false

/-!
# Every order of visits

A walk can find all files before any visit settles (`enumerateAll_eq`), and then settle the
visits in any order, as long as none of them fails (`exists_exec_settle`).  So every order of
the files is the order of the visits of some run (`exists_visits_of_perm`).
-/

namespace WebBundler.Walk

variable {σ : Type} {w : Walk σ} {store : σ} {visits : List WalkedFile} {st : State σ}
  {s : Schedule σ}

/-! ## All files are found -/

/-- No directory ends the walk if the source can be read. -/
theorem exists_enumerate (hreadable : ((w.tree st.store).readDir w.source).isOk = true) :
    ∃ found, w.enumerate st = .ok found := by
  cases hfound : w.enumerate st with
  | ok found => exact ⟨found, rfl⟩
  | error e =>
    obtain ⟨_, cause, -, hread, -⟩ := enumerate_eq_error hfound
    rw [hread] at hreadable
    cases hreadable

/-- Enumerating directories one after the other finds all files that lie ahead. -/
theorem enumerateAll_eq (hnamed : (w.tree st.store).Named)
    (hreadable : st.stack ≠ [] → ((w.tree st.store).readDir w.source).isOk = true) {bound : Nat}
    (hbound : (w.ahead (w.tree st.store) st.stack).length ≤ bound) :
    ∃ found, w.enumerateAll bound st = .ok found ∧ found.stack = [] ∧ found.store = st.store ∧
      found.waiting.map Prod.snd = st.waiting.map Prod.snd ++
        (w.ahead (w.tree st.store) st.stack).flatMap (w.filesIn (w.tree st.store)) ∧
      found.errors = st.errors ++
        (w.ahead (w.tree st.store) st.stack).flatMap (w.tree st.store).failuresIn := by
  induction bound generalizing st with
  | zero =>
    have hstack : st.stack = [] := by
      cases hstack : st.stack with
      | nil => rfl
      | cons dir stack =>
        rw [hstack, ahead_cons hnamed] at hbound
        cases hbound
    exact ⟨st, rfl, hstack, rfl, by simp [hstack], by simp [hstack]⟩
  | succ bound ih =>
    unfold enumerateAll
    cases hstack : st.stack with
    | nil => exact ⟨st, rfl, hstack, rfl, by simp, by simp⟩
    | cons dir stack =>
      have hsource := hreadable (by rw [hstack]; exact List.cons_ne_nil dir stack)
      obtain ⟨next, hnext⟩ := exists_enumerate hsource
      have hafter := enumerate_eq_ok hstack hnext
      have hstore : next.store = st.store := by rw [hafter]
      have hnext' : (w.tree next.store).Named := hstore ▸ hnamed
      rw [hstack, ahead_cons hnamed, List.length_cons] at hbound
      obtain ⟨found, hfound, hempty, hsame, hwaiting, herrors⟩ :=
        ih hnext' (fun _ => hstore ▸ hsource)
          (by rw [hstore, hafter]; exact Nat.le_of_succ_le_succ hbound)
      rw [hstore] at hsame hwaiting herrors
      simp only [hafter] at hwaiting herrors
      refine ⟨found, ?_, hempty, hsame, ?_, ?_⟩
      · simp only [List.isEmpty_cons, Bool.false_eq_true, if_false, bind, Except.bind, hnext]
        exact hfound
      · rw [hwaiting, List.map_append, map_snd_numbered, ahead_cons hnamed, List.flatMap_cons,
          List.append_assoc]
      · rw [herrors, ahead_cons hnamed, List.flatMap_cons, List.append_assoc]

/-! ## Visits settle in any order -/

theorem exists_visitFile (st : State σ) {file : WalkedFile} (number : Nat)
    (hok : (w.visit file st.store).1.failure? = none) :
    ∃ next, w.visitFile st number file = .ok next := by
  cases hnext : w.visitFile st number file with
  | ok next => exact ⟨next, rfl⟩
  | error e =>
    rw [visitFile_eq] at hnext
    rw [(record_eq_error hnext).1] at hok
    cases hok

/-- Visits settle in whatever order they are started, one at a time. -/
theorem exists_exec_settle (limit : Option Nat) (hvisiting : s.visiting = [])
    (hwaiting : visits.Perm (s.state.waiting.map Prod.snd))
    (hok : w.Succeed s.state.store visits) :
    ∃ moves final, w.exec limit s moves = some (.ok final) ∧ final.state.waiting = [] ∧
      final.state.stack = s.state.stack ∧ final.state.errors = s.state.errors ∧
      final.settled.map Prod.snd = s.settled.map Prod.snd ++ visits := by
  induction visits generalizing s with
  | nil =>
    have hnone : s.state.waiting = [] := List.map_eq_nil_iff.1 hwaiting.nil_eq.symm
    exact ⟨[], s, rfl, hnone, rfl, rfl, (List.append_nil _).symm⟩
  | cons file visits ih =>
    obtain ⟨⟨number, other⟩, hentry, hfile⟩ :=
      List.mem_map.1 (hwaiting.subset List.mem_cons_self)
    obtain rfl : other = file := hfile
    obtain ⟨i, hi⟩ := List.getElem?_of_mem hentry
    obtain ⟨before, after, hsplit, hsettle⟩ := exists_settle_eq (w := w) hi
    obtain ⟨next, hnext⟩ :=
      exists_visitFile { s.state with waiting := before ++ after } number hok.1
    obtain ⟨hrest, hstack⟩ := waiting_visitFile hnext
    have hafter := hnext
    rw [visitFile_eq] at hafter
    have hafter := record_eq_ok hafter
    have hstart : w.step? limit s (.start i) = some (.ok { s with visiting := [number] }) := by
      simp [step?, hi, hvisiting, permits_zero]
    have hmove : w.step? limit { s with visiting := [number] } (.settle i) =
        some (.ok ⟨next, [], s.settled ++ [(number, other)]⟩) := by
      simp [step?, hi, hsettle, hnext, Except.map]
    have hperm : visits.Perm (next.waiting.map Prod.snd) := by
      rw [hsplit, List.map_append, List.map_cons] at hwaiting
      rw [hrest, List.map_append]
      exact (hwaiting.trans List.perm_middle).cons_inv
    obtain ⟨moves, final, hexec, hnone, hsame, herrors, hvisits⟩ :=
      ih (s := ⟨next, [], s.settled ++ [(number, other)]⟩) rfl hperm
        (by rw [hafter]; exact hok.2)
    refine ⟨.start i :: .settle i :: moves, final, ?_, hnone, hsame.trans hstack, ?_, ?_⟩
    · rw [exec_cons hstart, exec_cons hmove, hexec]
    · rw [herrors, hafter]
      simp [hok.1]
    · rw [hvisits, List.map_append, List.append_assoc]
      rfl

/-! ## Every order is that of a run -/

theorem Readable.readDir_isOk (h : w.Readable (w.tree store)) (hstart : w.start store = .ok st)
    (hstack : st.stack ≠ []) : ((w.tree store).readDir w.source).isOk = true := by
  obtain ⟨node, hnode, hdir⟩ := h
  unfold start at hstart
  rw [hnode] at hstart
  cases node with
  | dir => exact hdir rfl
  | file content =>
    cases hstart
    exact absurd rfl hstack
  | special =>
    cases hstart
    exact absurd rfl hstack

/-- **Every order of the files is that of a run**, if no visit fails when they are made in this
order. -/
theorem exists_visits_of_perm (w : Walk σ) (store : σ) (limit : Option Nat)
    (hnamed : (w.tree store).Named) (hreadable : w.Readable (w.tree store))
    (hvisits : visits.Perm (w.files (w.tree store))) (hok : w.Succeed store visits) :
    ∃ summary, w.Visits limit store visits summary ∧
      summary.errors = w.failures (w.tree store) := by
  obtain ⟨st, hstart⟩ := exists_start hreadable
  obtain ⟨hdirectories, found, hfiles, hst⟩ := start_eq_ok hstart
  have hstore : st.store = store := by rw [hst]
  have hbound : (w.ahead (w.tree st.store) st.stack).length ≤
      (w.directories (w.tree store)).length := by
    rw [hstore, hdirectories]
  obtain ⟨all, hall, hempty, hsame, hwaiting, herrors⟩ :=
    enumerateAll_eq (hstore ▸ hnamed)
      (fun hstack => hstore ▸ hreadable.readDir_isOk hstart hstack) hbound
  obtain ⟨moves, hmoves, -⟩ := exec_enumerateAll limit (s := .of st) (hstore ▸ hnamed) hbound
  have hmoves : w.exec limit (.of st) moves = some (.ok ⟨all, [], []⟩) :=
    hmoves.trans (congrArg _ (congrArg _ hall))
  have hfound : visits.Perm (all.waiting.map Prod.snd) := by
    rw [hwaiting, hstore, hst, map_snd_numbered, ← hfiles]
    exact hvisits
  obtain ⟨more, final, hmore, hnone, hstack, hreported, hsettled⟩ :=
    exists_exec_settle limit (s := ⟨all, [], []⟩) rfl hfound (by rw [hsame, hstore]; exact hok)
  refine ⟨final.state.summary,
    ⟨st, moves ++ more, final, hstart, (exec_append hmoves).trans hmore,
      ⟨hstack.trans hempty, hnone⟩, hsettled, rfl⟩, ?_⟩
  show final.state.errors = _
  rw [hreported, herrors, hstore, hst, failures, hdirectories]
  rfl

end WebBundler.Walk
