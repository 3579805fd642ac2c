import WebBundler.Proofs.Expansion.Closures
import WebBundler.Proofs.Walk.Moves
set_option autoImplicit false

/-!
# What holds while a walk is under way

`Walking` relates a walk to what there is to find: what was enumerated and what lies ahead make
up all directories, files and failures in the order of discovery, and whatever was found has
settled or waits.  Every step keeps this, as long as visits do not change what the walk sees
(`Steady`).
-/

namespace WebBundler

namespace VisitOutcome

/-- The module that a file became. -/
def module? : VisitOutcome → Option Module
  | .processed m => some m
  | _ => none

theorem eq_processed_of_module? {outcome : VisitOutcome} {m : Module}
    (h : outcome.module? = some m) : outcome = .processed m := by
  cases outcome with
  | processed other => exact congrArg processed (Option.some.inj h)
  | ignored => cases h
  | copied => cases h
  | failed e => cases h

/-- The failure of a visit. -/
def failure? : VisitOutcome → Option BuildError
  | .failed e => some e
  | _ => none

/-- The file was not left out. -/
def counts : VisitOutcome → Bool
  | .ignored => false
  | _ => true

end VisitOutcome

namespace Walk

variable {σ : Type}

/-! ## What a move brings back -/

/-- Files with numbers from a number on. -/
def numbered (n : Nat) (files : List WalkedFile) : List (Nat × WalkedFile) :=
  (files.zipIdx n).map Prod.swap

theorem numbered_append (n : Nat) (files more : List WalkedFile) :
    numbered n (files ++ more) = numbered n files ++ numbered (n + files.length) more := by
  unfold numbered
  rw [List.zipIdx_append, List.map_append]

theorem map_snd_numbered (n : Nat) (files : List WalkedFile) :
    (numbered n files).map Prod.snd = files := by
  unfold numbered
  rw [List.map_map]
  exact List.zipIdx_map_fst n files

theorem numbered_increasing (n : Nat) (files : List WalkedFile) :
    (numbered n files).Pairwise fun a b => a.1 < b.1 := by
  induction files generalizing n with
  | nil => exact List.Pairwise.nil
  | cons file files ih =>
    refine List.pairwise_cons.2 ⟨?_, ih (n + 1)⟩
    intro entry hentry
    obtain ⟨⟨other, number⟩, hmem, rfl⟩ := List.mem_map.1 hentry
    exact List.le_snd_of_mem_zipIdx hmem

/-- The directories of a directory about which it is asked whether the walk enters them. -/
def askedIn (w : Walk σ) (t : FileTree) (dir : HostPath) : List String :=
  (t.namesIn dir).filterMap fun name =>
    match t.metadata (dir.join ⟨name⟩) with
    | .ok .dir => some (HostPath.relativeTo w.root (dir.join ⟨name⟩))
    | _ => none

section Moves

variable {w : Walk σ} {st st' : State σ} {e : BuildError}

/-- Listing names one after the other finds the files, the directories and the failures among
them. -/
theorem foldl_list (w : Walk σ) (t : FileTree) (dir : HostPath) (names : List String)
    (listing : Listing) :
    names.foldl (fun listing name => w.list t listing (dir.join ⟨name⟩)) listing =
      { files := listing.files ++
          (names.filter fun name => t.isRegular (dir.join ⟨name⟩)).map
            fun name => w.fileAt (dir.join ⟨name⟩)
        dirs := listing.dirs ++
          (names.filter fun name => w.goesInto t (dir.join ⟨name⟩)).map fun name =>
            dir.join ⟨name⟩
        asked := listing.asked ++ names.filterMap fun name =>
          match t.metadata (dir.join ⟨name⟩) with
          | .ok .dir => some (HostPath.relativeTo w.root (dir.join ⟨name⟩))
          | _ => none
        errors := listing.errors ++ names.filterMap fun name => t.failureAt? (dir.join ⟨name⟩)
        } := by
  induction names generalizing listing with
  | nil => simp
  | cons name names ih =>
    rw [List.foldl_cons, ih]
    cases hnode : t.metadata (dir.join ⟨name⟩) with
    | error cause =>
      simp [list, hnode, FileTree.isRegular, goesInto, FileTree.failureAt?]
    | ok node =>
      cases node with
      | file content => simp [list, hnode, FileTree.isRegular, goesInto, FileTree.failureAt?]
      | special => simp [list, hnode, FileTree.isRegular, goesInto, FileTree.failureAt?]
      | dir =>
        cases henters : w.enters (HostPath.relativeTo w.root (dir.join ⟨name⟩)) <;>
          simp [list, hnode, FileTree.isRegular, goesInto, FileTree.failureAt?, henters]

theorem enumerate_eq_ok {dir : HostPath} {stack : List HostPath}
    (hstack : st.stack = dir :: stack) (h : w.enumerate st = .ok st') :
    st' = { st with
      stack := w.subdirsIn (w.tree st.store) dir ++ stack
      waiting := st.waiting ++ numbered st.found (w.filesIn (w.tree st.store) dir)
      found := st.found + (w.filesIn (w.tree st.store) dir).length
      errors := st.errors ++ (w.tree st.store).failuresIn dir
      asked := st.asked ++ w.askedIn (w.tree st.store) dir } := by
  simp only [enumerate, hstack, listDir, bind, Except.bind, pure, Except.pure] at h
  cases hread : (w.tree st.store).readDir dir with
  | error cause =>
    simp only [hread] at h
    split at h
    · cases h
    · cases h
      simp [subdirsIn, filesIn, askedIn, FileTree.namesIn, FileTree.failuresIn, hread, numbered]
  | ok names =>
    simp only [hread, foldl_list] at h
    cases h
    simp [subdirsIn, filesIn, askedIn, FileTree.namesIn, FileTree.failuresIn, hread, numbered]

/-- Enumeration fails at a source that cannot be read, and nowhere else. -/
theorem enumerate_eq_error (h : w.enumerate st = .error e) :
    ∃ stack cause, st.stack = w.source :: stack ∧
      (w.tree st.store).readDir w.source = .error cause ∧ e = .walk w.source cause := by
  unfold enumerate at h
  split at h
  · cases h
  · next dir stack hstack =>
    simp only [listDir, bind, Except.bind, pure, Except.pure] at h
    cases hread : (w.tree st.store).readDir dir with
    | error cause =>
      simp only [hread] at h
      split at h
      · next hsource =>
        cases h
        subst hsource
        exact ⟨stack, cause, hstack, hread, rfl⟩
      · cases h
    | ok names =>
      simp only [hread] at h
      cases h

theorem record_eq_ok {number : Nat} {file : WalkedFile} {outcome : VisitOutcome}
    (h : w.record st number file outcome = .ok st') :
    st' = { st with
      total := st.total + (if outcome.counts then 1 else 0)
      modules := st.modules ++ (outcome.module?.map fun m => (number, m)).toList
      errors := st.errors ++ outcome.failure?.toList } := by
  cases outcome with
  | ignored =>
    cases h
    simp [VisitOutcome.counts, VisitOutcome.module?, VisitOutcome.failure?]
  | copied =>
    cases h
    simp [VisitOutcome.counts, VisitOutcome.module?, VisitOutcome.failure?]
  | processed m =>
    cases h
    simp [VisitOutcome.counts, VisitOutcome.module?, VisitOutcome.failure?]
  | failed cause =>
    simp only [record] at h
    split at h
    · cases h
    · cases h
      simp [VisitOutcome.counts, VisitOutcome.module?, VisitOutcome.failure?]

theorem record_eq_error {number : Nat} {file : WalkedFile} {outcome : VisitOutcome}
    (h : w.record st number file outcome = .error e) :
    outcome = .failed e ∧ outcome.isFatal file.relPath w.dependencyDir = true := by
  unfold record at h
  split at h
  · cases h
  · cases h
  · cases h
  · split at h
    · next hfatal =>
      cases h
      exact ⟨rfl, hfatal⟩
    · cases h

theorem record_of_isFatal {number : Nat} {file : WalkedFile} {outcome : VisitOutcome}
    (houtcome : outcome = .failed e)
    (hfatal : outcome.isFatal file.relPath w.dependencyDir = true) :
    w.record st number file outcome = .error e := by
  subst houtcome
  exact if_pos hfatal

end Moves

/-! ## Visits that do not disturb the walk -/

/-- The store after visits, made one after the other. -/
def storeAfter (w : Walk σ) (store : σ) (visited : List WalkedFile) : σ :=
  visited.foldl (fun store file => (w.visit file store).2) store

theorem storeAfter_append (w : Walk σ) (store : σ) (visited : List WalkedFile)
    (file : WalkedFile) :
    w.storeAfter store (visited ++ [file]) = (w.visit file (w.storeAfter store visited)).2 := by
  unfold storeAfter
  rw [List.foldl_append]
  rfl

/-- A walk sees the same in a directory of two trees. -/
structure SameListing (w : Walk σ) (t t' : FileTree) (dir : HostPath) : Prop where
  files : w.filesIn t' dir = w.filesIn t dir
  subdirs : w.subdirsIn t' dir = w.subdirsIn t dir
  failures : t'.failuresIn dir = t.failuresIn dir
  readable : (t'.readDir dir).isOk = (t.readDir dir).isOk

/-- Whatever was visited before, the walk sees in its directories what it would have seen at the
start. -/
def SeesSame (w : Walk σ) (store : σ) : Prop :=
  ∀ visited, visited.Subperm (w.files (w.tree store)) → ∀ dir ∈ w.directories (w.tree store),
    w.SameListing (w.tree store) (w.tree (w.storeAfter store visited)) dir

/-- Whatever was visited before, a visit has the outcome of its file, and the walk sees the
same. -/
structure Steady (w : Walk σ) (store : σ) (outcome : WalkedFile → VisitOutcome) : Prop where
  outcomes : ∀ visited file, (file :: visited).Subperm (w.files (w.tree store)) →
    (w.visit file (w.storeAfter store visited)).1 = outcome file
  listings : w.SeesSame store

/-- The source of a walk can be read. -/
def Readable (w : Walk σ) (t : FileTree) : Prop :=
  ∃ node, t.metadata w.source = .ok node ∧ (node = .dir → (t.readDir w.source).isOk = true)

/-- Visits whose outcome depends on the file alone, and that leave the tree as it is, do not
disturb a walk. -/
theorem Steady.of_const {w : Walk σ} {store : σ} {outcome : WalkedFile → VisitOutcome}
    (houtcome : ∀ file store, (w.visit file store).1 = outcome file)
    (htree : ∀ file store, w.tree (w.visit file store).2 = w.tree store) :
    w.Steady store outcome := by
  have hafter : ∀ visited store, w.tree (w.storeAfter store visited) = w.tree store := by
    intro visited
    induction visited with
    | nil => exact fun store => rfl
    | cons file visited ih => exact fun store => (ih _).trans (htree file store)
  constructor
  · intro visited file _
    exact houtcome file _
  · intro visited _ dir _
    rw [hafter]
    exact ⟨rfl, rfl, rfl, rfl⟩

/-! ## The invariant -/

/-- The directories that are entered from those on a stack. -/
def ahead (w : Walk σ) (t : FileTree) (stack : List HostPath) : List HostPath :=
  stack.flatMap (w.dirsBelow t)

/-- The module of a file that settled, with the number of the file. -/
def numberedModule? (outcome : WalkedFile → VisitOutcome) (entry : Nat × WalkedFile) :
    Option (Nat × Module) :=
  (outcome entry.2).module?.map fun m => (entry.1, m)

/-- What holds while a walk is under way. -/
structure Walking (w : Walk σ) (store : σ) (outcome : WalkedFile → VisitOutcome)
    (s : Schedule σ) :
    Prop where
  directories : ∃ entered,
    w.directories (w.tree store) = entered ++ w.ahead (w.tree store) s.state.stack
  files : ∃ found,
    w.files (w.tree store) =
      found ++ (w.ahead (w.tree store) s.state.stack).flatMap (w.filesIn (w.tree store)) ∧
    s.state.found = found.length ∧ (s.settled ++ s.state.waiting).Perm (numbered 0 found)
  failures : ∃ failed,
    w.failures (w.tree store) =
      failed ++ (w.ahead (w.tree store) s.state.stack).flatMap (w.tree store).failuresIn ∧
    s.state.errors.Perm (s.settled.filterMap (fun entry => (outcome entry.2).failure?) ++
      failed)
  modules : s.state.modules = s.settled.filterMap (numberedModule? outcome)
  total : s.state.total = s.settled.countP fun entry => (outcome entry.2).counts
  store : s.state.store = w.storeAfter store (s.settled.map Prod.snd)

section Invariant

variable {w : Walk σ} {store : σ} {outcome : WalkedFile → VisitOutcome} {s next : Schedule σ}
  {t : FileTree}

@[simp] theorem ahead_nil (w : Walk σ) (t : FileTree) : w.ahead t [] = [] := rfl

/-- A directory on the stack comes before its subdirectories, and these before the rest. -/
theorem ahead_cons (hnamed : t.Named) (dir : HostPath) (stack : List HostPath) :
    w.ahead t (dir :: stack) = dir :: w.ahead t (w.subdirsIn t dir ++ stack) := by
  unfold ahead
  rw [List.flatMap_cons, dirsBelow_eq hnamed, List.flatMap_append, List.cons_append]

/-- A walk starts with all its directories ahead, and has found its source if that is no
directory. -/
theorem start_eq_ok {st : State σ} (h : w.start store = .ok st) :
    w.directories (w.tree store) = w.ahead (w.tree store) st.stack ∧
      ∃ found,
        w.files (w.tree store) =
          found ++ (w.ahead (w.tree store) st.stack).flatMap (w.filesIn (w.tree store)) ∧
        st = ⟨st.stack, numbered 0 found, found.length, [], [], 0, [], store⟩ := by
  unfold start at h
  split at h
  · cases h
  · next hsource =>
    cases h
    have hdirectories : w.directories (w.tree store) = w.ahead (w.tree store) [w.source] := by
      rw [directories_of_dir hsource]
      exact (List.append_nil _).symm
    refine ⟨hdirectories, [], ?_, rfl⟩
    rw [files_of_dir hsource, hdirectories]
    rfl
  · next node hnode hsource =>
    cases h
    exact ⟨directories_of_not_dir hsource hnode, [w.fileAt w.source],
      files_of_not_dir hsource hnode, rfl⟩

theorem walking_start {st : State σ} (h : w.start store = .ok st) :
    w.Walking store outcome (.of st) := by
  obtain ⟨hdirectories, found, hfiles, hst⟩ := start_eq_ok h
  have hfailures : w.failures (w.tree store) =
      (w.ahead (w.tree store) st.stack).flatMap (w.tree store).failuresIn := by
    unfold failures
    rw [hdirectories]
  rw [hst]
  exact ⟨⟨[], hdirectories⟩, ⟨found, hfiles, rfl, List.Perm.refl _⟩,
    ⟨[], hfailures, List.Perm.nil⟩, rfl, rfl, rfl⟩

theorem Walking.subperm (h : w.Walking store outcome s) :
    ((s.settled ++ s.state.waiting).map Prod.snd).Subperm (w.files (w.tree store)) := by
  obtain ⟨found, hfiles, -, hfound⟩ := h.files
  have hperm := hfound.map Prod.snd
  rw [map_snd_numbered] at hperm
  rw [hfiles]
  exact hperm.subperm.trans (List.sublist_append_left _ _).subperm

/-- What the walk sees in its next directory is what it would have seen at the start. -/
theorem Walking.sameListing (h : w.Walking store outcome s) (hsteady : w.Steady store outcome)
    (hnamed : (w.tree store).Named) {dir : HostPath} {stack : List HostPath}
    (hstack : s.state.stack = dir :: stack) :
    w.SameListing (w.tree store) (w.tree s.state.store) dir := by
  obtain ⟨entered, hdirectories⟩ := h.directories
  rw [h.store]
  apply hsteady.listings
  · refine List.Subperm.trans ?_ h.subperm
    rw [List.map_append]
    exact (List.sublist_append_left _ _).subperm
  · rw [hdirectories, hstack, ahead_cons hnamed]
    exact List.mem_append_right _ List.mem_cons_self

/-- A visit that is made has the outcome of its file. -/
theorem Walking.visit_eq (h : w.Walking store outcome s) (hsteady : w.Steady store outcome)
    {before after : List (Nat × WalkedFile)} {number : Nat} {file : WalkedFile}
    (hwaiting : s.state.waiting = before ++ (number, file) :: after) :
    (w.visit file s.state.store).1 = outcome file := by
  rw [h.store]
  apply hsteady.outcomes
  refine List.Subperm.trans ?_ h.subperm
  rw [hwaiting, List.map_append, List.map_append, List.map_cons, ← List.append_assoc]
  refine List.Subperm.trans ?_ List.perm_middle.symm.subperm
  rw [List.append_assoc]
  exact ((List.sublist_append_left _ _).cons_cons file).subperm

/-! ### Steps -/

/-- What was found is numbered on. -/
theorem Walking.enumerate (h : w.Walking store outcome s) (hsteady : w.Steady store outcome)
    (hnamed : (w.tree store).Named) {dir : HostPath} {stack : List HostPath}
    (hstack : s.state.stack = dir :: stack) {state : State σ}
    (hstate : w.enumerate s.state = .ok state) : w.Walking store outcome { s with state } := by
  have hsame := h.sameListing hsteady hnamed hstack
  have hahead : w.ahead (w.tree store) s.state.stack =
      dir :: w.ahead (w.tree store) (w.subdirsIn (w.tree store) dir ++ stack) := by
    rw [hstack, ahead_cons hnamed]
  rw [enumerate_eq_ok hstack hstate, hsame.files, hsame.subdirs, hsame.failures]
  constructor
  · obtain ⟨entered, hdirectories⟩ := h.directories
    refine ⟨entered ++ [dir], ?_⟩
    rw [hdirectories, hahead, List.append_assoc]
    rfl
  · obtain ⟨found, hfiles, hcount, hfound⟩ := h.files
    refine ⟨found ++ w.filesIn (w.tree store) dir, ?_, ?_, ?_⟩
    · rw [hfiles, hahead, List.flatMap_cons, List.append_assoc]
    · rw [List.length_append, ← hcount]
    · rw [numbered_append, Nat.zero_add, ← hcount, ← List.append_assoc]
      exact hfound.append_right _
  · obtain ⟨failed, hfailures, herrors⟩ := h.failures
    refine ⟨failed ++ (w.tree store).failuresIn dir, ?_, ?_⟩
    · rw [hfailures, hahead, List.flatMap_cons, List.append_assoc]
    · rw [← List.append_assoc]
      exact herrors.append_right _
  · exact h.modules
  · exact h.total
  · exact h.store

/-- What has settled was taken in. -/
theorem Walking.settle (h : w.Walking store outcome s) (hsteady : w.Steady store outcome)
    {before after : List (Nat × WalkedFile)} {number : Nat} {file : WalkedFile}
    (hwaiting : s.state.waiting = before ++ (number, file) :: after) {state : State σ}
    (hstate : w.visitFile { s.state with waiting := before ++ after } number file = .ok state)
    (visiting : List Nat) :
    w.Walking store outcome ⟨state, visiting, s.settled ++ [(number, file)]⟩ := by
  rw [visitFile_eq, h.visit_eq hsteady hwaiting] at hstate
  rw [record_eq_ok hstate]
  constructor
  · exact h.directories
  · obtain ⟨found, hfiles, hcount, hfound⟩ := h.files
    refine ⟨found, hfiles, hcount, List.Perm.trans ?_ hfound⟩
    rw [hwaiting, List.append_assoc, List.singleton_append]
    exact List.Perm.append_left _ List.perm_middle.symm
  · obtain ⟨failed, hfailures, herrors⟩ := h.failures
    refine ⟨failed, hfailures, ?_⟩
    rw [List.filterMap_append, Expansion.filterMap_singleton_toList, List.append_assoc]
    refine (herrors.append_right _).trans ?_
    rw [List.append_assoc]
    exact List.Perm.append_left _ List.perm_append_comm
  · rw [List.filterMap_append, Expansion.filterMap_singleton_toList, ← h.modules]
    rfl
  · rw [List.countP_append, List.countP_singleton, ← h.total]
  · rw [List.map_append, List.map_singleton, storeAfter_append, ← h.store]

/-- Every step that goes on keeps the invariant. -/
theorem Walking.step (h : w.Walking store outcome s) (hsteady : w.Steady store outcome)
    (hnamed : (w.tree store).Named) (hstep : GoesOn w s next) :
    w.Walking store outcome next := by
  cases hstep with
  | enumerate dir stack state hstack hstate => exact h.enumerate hsteady hnamed hstack hstate
  | start number file hwaiting hvisiting =>
    exact ⟨h.directories, h.files, h.failures, h.modules, h.total, h.store⟩
  | settle before after number file state hwaiting hvisiting hstate =>
    exact h.settle hsteady hwaiting hstate _

/-- A walk whose source can be read is not ended by a directory. -/
theorem Walking.exists_enumerate (h : w.Walking store outcome s)
    (hsteady : w.Steady store outcome) (hnamed : (w.tree store).Named)
    (hreadable : w.Readable (w.tree store)) {dir : HostPath} {stack : List HostPath}
    (hstack : s.state.stack = dir :: stack) :
    ∃ state, w.enumerate s.state = .ok state := by
  cases hstate : w.enumerate s.state with
  | ok state => exact ⟨state, rfl⟩
  | error cause =>
    exfalso
    obtain ⟨rest, cause, hsource, hread, -⟩ := enumerate_eq_error hstate
    obtain ⟨rfl, -⟩ := List.cons_eq_cons.1 (hstack.symm.trans hsource)
    have hsame := (h.sameListing hsteady hnamed hstack).readable
    obtain ⟨entered, hdirectories⟩ := h.directories
    obtain ⟨node, hnode, hdir⟩ := hreadable
    have hsourceDir : node = .dir := by
      rw [hstack, ahead_cons hnamed] at hdirectories
      unfold Walk.directories at hdirectories
      split at hdirectories
      · next hdir => exact Except.ok.inj (hnode.symm.trans hdir)
      · simp at hdirectories
    rw [hdir hsourceDir, hread] at hsame
    cases hsame

/-- A visit that is made ends the walk if the outcome of its file is fatal, and not
otherwise. -/
theorem Walking.visitFile_eq_error_iff (h : w.Walking store outcome s)
    (hsteady : w.Steady store outcome) {before after : List (Nat × WalkedFile)} {number : Nat}
    {file : WalkedFile} {e : BuildError}
    (hwaiting : s.state.waiting = before ++ (number, file) :: after) :
    w.visitFile { s.state with waiting := before ++ after } number file = .error e ↔
      outcome file = .failed e ∧ (outcome file).isFatal file.relPath w.dependencyDir =
        true := by
  rw [visitFile_eq, h.visit_eq hsteady hwaiting]
  exact ⟨record_eq_error, fun hends => record_of_isFatal hends.1 hends.2⟩

/-- A walk whose source can be read is ended by nothing but a fatal outcome. -/
theorem Walking.fatal_of_step (h : w.Walking store outcome s) (hsteady : w.Steady store outcome)
    (hnamed : (w.tree store).Named) (hreadable : w.Readable (w.tree store)) {e : BuildError}
    (hstep : Step w s (.error e)) :
    ∃ file ∈ w.files (w.tree store), outcome file = .failed e ∧
      (outcome file).isFatal file.relPath w.dependencyDir = true := by
  generalize hresult : Except.error e = result at hstep
  cases hstep with
  | enumerate dir stack hstack =>
    obtain ⟨state, hstate⟩ := h.exists_enumerate hsteady hnamed hreadable hstack
    rw [hstate] at hresult
    cases hresult
  | start number file hwaiting hvisiting => cases hresult
  | settle before after number file hwaiting hvisiting =>
    cases hstate : w.visitFile { s.state with waiting := before ++ after } number file with
    | ok state =>
      rw [hstate] at hresult
      cases hresult
    | error cause =>
      rw [hstate] at hresult
      cases hresult
      refine ⟨file, h.subperm.subset ?_, (h.visitFile_eq_error_iff hsteady hwaiting).1 hstate⟩
      rw [hwaiting]
      exact List.mem_map.2 ⟨(number, file), by simp, rfl⟩

end Invariant

end Walk

end WebBundler
