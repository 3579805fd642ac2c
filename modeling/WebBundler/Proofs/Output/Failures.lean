import Mathlib.Data.List.Flatten
import WebBundler.Proofs.Output.Bundled
import WebBundler.Proofs.Output.Places
set_option autoImplicit false

/-!
# What a failed write stops

A failed write ends its group.  So a run makes only a part of its writes, those of
`Destination.attempted`, and it is the run of these writes as groups of their own
(`writeGroups_eq_attempted`).  Where the outcome of a write is decided by its path
(`Destination.DecidedByPath`), which writes are made, what they leave and which failures they
report is known without running them (`attempted_eq`, `wrote_attempted`, `Wrote.fileAt?`).

In bundles every group is one file.  A module by itself has a second file if it is a stylesheet,
and a failure of the first stops this one, and nothing else (`emission_after_failures`).
-/

namespace WebBundler

namespace Destination

variable {d : Destination} {t t' : FileTree} {o : Output} {group outputs tried : List Output}
  {groups : List (List Output)} {failing : List String → Bool} {place : List String}

/-! ## The writes that a run makes -/

/-- The writes of a group: up to the first that fails, which is the last. -/
def attemptedIn (d : Destination) (t : FileTree) : List Output → List Output
  | [] => []
  | o :: group =>
    match d.write t o with
    | .ok written => o :: d.attemptedIn written group
    | .error _ => [o]

/-- The writes of groups, one group after the other. -/
def attempted (d : Destination) (t : FileTree) : List (List Output) → List Output
  | [] => []
  | group :: groups => d.attemptedIn t group ++ d.attempted (d.writeGroup t group).1 groups

-- Unfolding the recursion must not open the write.
attribute [local irreducible] write in
theorem attemptedIn_cons (d : Destination) (t : FileTree) (o : Output) (group : List Output) :
    d.attemptedIn t (o :: group) =
      match d.write t o with
      | .ok written => o :: d.attemptedIn written group
      | .error _ => [o] :=
  rfl

theorem writeGroups_cons (d : Destination) (t : FileTree) (group : List Output)
    (groups : List (List Output)) :
    d.writeGroups t (group :: groups) =
      ((d.writeGroups (d.writeGroup t group).1 groups).1,
        (d.writeGroup t group).2.toList ++ (d.writeGroups (d.writeGroup t group).1 groups).2) :=
  rfl

theorem writeGroups_append (d : Destination) (t : FileTree) (groups more : List (List Output)) :
    d.writeGroups t (groups ++ more) =
      ((d.writeGroups (d.writeGroups t groups).1 more).1,
        (d.writeGroups t groups).2 ++ (d.writeGroups (d.writeGroups t groups).1 more).2) := by
  induction groups generalizing t with
  | nil => rfl
  | cons group groups ih =>
    rw [List.cons_append, writeGroups_cons, writeGroups_cons, ih, List.append_assoc]

/-- Outputs, none of which stops another. -/
def each (outputs : List Output) : List (List Output) := outputs.map ([·])

theorem writeGroups_each_cons (d : Destination) (t : FileTree) (o : Output)
    (outputs : List Output) :
    d.writeGroups t (each (o :: outputs)) =
      match d.write t o with
      | .ok written => d.writeGroups written (each outputs)
      | .error e =>
        ((d.writeGroups t (each outputs)).1, e :: (d.writeGroups t (each outputs)).2) := by
  unfold each
  rw [List.map_cons, writeGroups_cons, writeGroup_cons]
  cases d.write t o with
  | ok written => rfl
  | error e => rfl

/-- What a group does is what its attempts do, each for itself. -/
theorem writeGroup_eq_attemptedIn (d : Destination) (t : FileTree) (group : List Output) :
    d.writeGroups t (each (d.attemptedIn t group)) =
      ((d.writeGroup t group).1, (d.writeGroup t group).2.toList) := by
  induction group generalizing t with
  | nil => rfl
  | cons o group ih =>
    rw [attemptedIn_cons, writeGroup_cons]
    cases hwrite : d.write t o with
    | ok written =>
      dsimp only
      rw [writeGroups_each_cons, hwrite]
      exact ih written
    | error e =>
      dsimp only
      rw [writeGroups_each_cons, hwrite]
      rfl

/-- A run is that of its attempts, none of which stops another. -/
theorem writeGroups_eq_attempted (d : Destination) (t : FileTree)
    (groups : List (List Output)) :
    d.writeGroups t groups = d.writeGroups t (each (d.attempted t groups)) := by
  induction groups generalizing t with
  | nil => rfl
  | cons group groups ih =>
    have hattempts : each (d.attempted t (group :: groups)) =
        each (d.attemptedIn t group) ++ each (d.attempted (d.writeGroup t group).1 groups) :=
          List.map_append
    rw [hattempts, writeGroups_append, writeGroup_eq_attemptedIn, ← ih, writeGroups_cons]

/-! ## Outcomes that paths decide -/

/-- The place of an output, if its path does not climb out. -/
def placeOf? (d : Destination) (o : Output) : Option (List String) :=
  (d.place o.path).toOption.map HostPath.location

/-- The write of an output is to fail: it has no place, or one that fails. -/
def fails (d : Destination) (failing : List String → Bool) (o : Output) : Bool :=
  (d.placeOf? o).all failing

/-- Whatever has been written of some outputs, each of them can be written unless its place
fails. -/
def DecidedByPath (d : Destination) (t : FileTree) (outputs : List Output)
    (failing : List String → Bool) : Prop :=
  ∀ before t', before ⊆ outputs → d.Wrote t before t' →
    ∀ o ∈ outputs, (d.write t' o).isOk = !d.fails failing o

/-- The outputs of a group up to the first that fails, which is the last. -/
def upToFailure (fails : Output → Bool) : List Output → List Output
  | [] => []
  | o :: group => if fails o then [o] else o :: upToFailure fails group

theorem upToFailure_singleton (fails : Output → Bool) (o : Output) :
    upToFailure fails [o] = [o] := by
  rw [upToFailure, upToFailure, ite_self]

theorem upToFailure_pair (fails : Output → Bool) (o o' : Output) :
    upToFailure fails [o, o'] = if fails o then [o] else [o, o'] := by
  rw [upToFailure, upToFailure_singleton]

theorem upToFailure_subset (fails : Output → Bool) (group : List Output) :
    upToFailure fails group ⊆ group := by
  induction group with
  | nil => exact List.nil_subset _
  | cons o group ih =>
    rw [upToFailure]
    split
    · exact List.cons_subset_cons o (List.nil_subset _)
    · exact List.cons_subset_cons o ih

theorem flatMap_upToFailure_subset (fails : Output → Bool) (groups : List (List Output)) :
    groups.flatMap (upToFailure fails) ⊆ groups.flatten := by
  intro o ho
  obtain ⟨group, hgroup, ho⟩ := List.mem_flatMap.1 ho
  exact List.mem_flatten.2 ⟨group, hgroup, upToFailure_subset fails group ho⟩

theorem upToFailure_begins {fails fails' : Output → Bool}
    (hmore : ∀ o, fails o = true → fails' o = true) (group : List Output) :
    upToFailure fails' group <+: upToFailure fails group := by
  induction group with
  | nil => exact List.prefix_rfl
  | cons o group ih =>
    rw [upToFailure, upToFailure]
    cases hfails : fails o with
    | true =>
      rw [hmore o hfails]
      exact List.prefix_rfl
    | false =>
      cases hfails' : fails' o with
      | true => exact List.cons_prefix_cons.2 ⟨rfl, List.nil_prefix⟩
      | false => exact List.cons_prefix_cons.2 ⟨rfl, ih⟩

/-- The failure that is reported for an output. -/
def Reports (o : Output) (e : BuildError) : Prop := ∃ reason, e = .writeFailure o.path reason

theorem reports_of_write {e : BuildError} (h : d.write t o = .error e) : Reports o e := by
  unfold write at h
  split at h
  · next hplace =>
    cases h
    exact eq_writeFailure_of_place hplace
  · split at h
    · cases h
    · cases h
      exact ⟨_, rfl⟩

namespace DecidedByPath

theorem write_cases (h : d.DecidedByPath t outputs failing) (ho : o ∈ outputs) :
    (d.fails failing o = true ∧ ∃ e, d.write t o = .error e) ∨
      (d.fails failing o = false ∧ ∃ written, d.write t o = .ok written) := by
  have hwrite := h [] t (List.nil_subset _) .nil o ho
  cases hfails : d.fails failing o with
  | true =>
    cases hresult : d.write t o with
    | error e => exact .inl ⟨rfl, e, rfl⟩
    | ok written =>
      rw [hresult, hfails] at hwrite
      cases hwrite
  | false =>
    cases hresult : d.write t o with
    | ok written => exact .inr ⟨rfl, written, rfl⟩
    | error e =>
      rw [hresult, hfails] at hwrite
      cases hwrite

theorem write (h : d.DecidedByPath t outputs failing) (ho : o ∈ outputs)
    (hwrite : d.write t o = .ok t') :
    d.DecidedByPath t' outputs failing :=
  fun before t'' hbefore hwrote => h (o :: before) t'' (List.cons_subset.2 ⟨ho, hbefore⟩)
    (.cons hwrite hwrote)

/-- A group is tried up to its first output that fails, and paths decide after the group too. -/
theorem attemptedIn_eq (h : d.DecidedByPath t outputs failing) (hgroup : group ⊆ outputs) :
    d.attemptedIn t group = upToFailure (d.fails failing) group ∧
      d.DecidedByPath (d.writeGroup t group).1 outputs failing := by
  induction group generalizing t with
  | nil => exact ⟨rfl, h⟩
  | cons o group ih =>
    obtain ⟨ho, hrest⟩ := List.cons_subset.1 hgroup
    rw [attemptedIn_cons, writeGroup_cons, upToFailure]
    obtain ⟨hfails, e, hwrite⟩ | ⟨hfails, written, hwrite⟩ := h.write_cases ho
    · rw [hwrite, hfails]
      exact ⟨rfl, h⟩
    · obtain ⟨hattempts, hafter⟩ := ih (h.write ho hwrite) hrest
      rw [hwrite, hfails]
      exact ⟨congrArg (o :: ·) hattempts, hafter⟩

theorem attempted_eq_of_subset (h : d.DecidedByPath t outputs failing)
    (hgroups : groups.flatten ⊆ outputs) :
    d.attempted t groups = groups.flatMap (upToFailure (d.fails failing)) := by
  induction groups generalizing t with
  | nil => rfl
  | cons group groups ih =>
    rw [List.flatten_cons, List.append_subset] at hgroups
    obtain ⟨hattempts, hafter⟩ := h.attemptedIn_eq hgroups.1
    rw [attempted, hattempts, ih hafter hgroups.2, List.flatMap_cons]

/-- Of outputs none of which stops another, those that do not fail are written, and the others
reported. -/
theorem wrote_each (h : d.DecidedByPath t outputs failing) (htried : tried ⊆ outputs) :
    d.Wrote t (tried.filter (!d.fails failing ·)) (d.writeGroups t (each tried)).1 ∧
      List.Forall₂ Reports (tried.filter (d.fails failing))
        (d.writeGroups t (each tried)).2 := by
  induction tried generalizing t with
  | nil => exact ⟨.nil, .nil⟩
  | cons o tried ih =>
    obtain ⟨ho, hrest⟩ := List.cons_subset.1 htried
    rw [writeGroups_each_cons, List.filter_cons, List.filter_cons]
    obtain ⟨hfails, e, hwrite⟩ | ⟨hfails, written, hwrite⟩ := h.write_cases ho
    · obtain ⟨hwrote, hreports⟩ := ih h hrest
      rw [hwrite, hfails]
      exact ⟨hwrote, .cons (reports_of_write hwrite) hreports⟩
    · obtain ⟨hwrote, hreports⟩ := ih (h.write ho hwrite) hrest
      rw [hwrite, hfails]
      exact ⟨.cons hwrite hwrote, hreports⟩

theorem attempted_eq (h : d.DecidedByPath t groups.flatten failing) :
    d.attempted t groups = groups.flatMap (upToFailure (d.fails failing)) :=
  h.attempted_eq_of_subset (List.Subset.refl _)

/-- Of its attempts a run writes those that do not fail, and reports the others. -/
theorem wrote_attempted (h : d.DecidedByPath t groups.flatten failing) :
    d.Wrote t ((d.attempted t groups).filter (!d.fails failing ·)) (d.writeGroups t groups).1 ∧
      List.Forall₂ Reports ((d.attempted t groups).filter (d.fails failing))
        (d.writeGroups t groups).2 := by
  rw [writeGroups_eq_attempted, h.attempted_eq]
  exact h.wrote_each (flatMap_upToFailure_subset (d.fails failing) groups)

end DecidedByPath

/-! ## What is left of the writes -/

/-- After writes the files are those of before, and at each place that was written what was
written there last. -/
theorem Wrote.fileAt? (h : d.Wrote t outputs t') (place : List String) :
    t'.fileAt? place =
      (outputs.filter (d.placeOf? · = some place)).foldl (fun _ o => some o.content)
      (t.fileAt? place) := by
  induction h with
  | nil => rfl
  | @cons t written t' o outputs hwrite _ ih =>
    obtain ⟨target, htarget, hwritten⟩ := write_eq_ok hwrite
    have hplace : d.placeOf? o = some target.location := by
      unfold placeOf?
      rw [htarget]
      rfl
    rw [ih, FileTree.fileAt?_write hwritten, List.filter_cons, hplace]
    by_cases hsame : target.location = place
    · rw [if_pos hsame, if_pos (decide_eq_true (congrArg some hsame)), List.foldl_cons]
    · rw [if_neg hsame, if_neg (by simpa using hsame)]

theorem filter_placeOf?_of_not_failing (hplace : failing place = false) (tried : List Output) :
    (tried.filter (!d.fails failing ·)).filter (d.placeOf? · = some place) =
      tried.filter (d.placeOf? · = some place) := by
  rw [List.filter_filter]
  refine List.filter_congr fun o _ => ?_
  by_cases hgoes : d.placeOf? o = some place
  · simp [hgoes, fails, hplace]
  · simp [hgoes]

/-- What goes to a place is the same in two lists if nothing that one of them lacks goes
there. -/
theorem filter_eq_of_perm_append {goes : Output → Bool} {fewer gone : List Output}
    (hsub : fewer.Sublist outputs) (hperm : outputs.Perm (fewer ++ gone))
    (hgone : ∀ o ∈ gone, goes o = false) :
    fewer.filter goes = outputs.filter goes := by
  have hnone : gone.filter goes = [] :=
    List.filter_eq_nil_iff.2 fun o ho => by simp [hgone o ho]
  have hlength := (hperm.filter goes).length_eq
  rw [List.filter_append, hnone, List.append_nil] at hlength
  exact (hsub.filter goes).eq_of_length hlength.symm

/-! ## Trees in which paths decide -/

/-- The places of some outputs are free: no file is above one of them, no directory at it, and
no other of them above it. -/
structure Clear (d : Destination) (t : FileTree) (outputs : List Output) : Prop where
  free : ∀ place ∈ outputs.filterMap d.placeOf?,
    place ≠ [] ∧ t.isBlocked place = false ∧ t.node? place ≠ some .dir
  apart : ∀ place ∈ outputs.filterMap d.placeOf?, ∀ other ∈ outputs.filterMap d.placeOf?,
    other <+: place → other = place

instance (d : Destination) (t : FileTree) (outputs : List Output) :
    Decidable (d.Clear t outputs) :=
  decidable_of_iff (_ ∧ _) ⟨fun h => ⟨h.1, h.2⟩, fun h => ⟨h.1, h.2⟩⟩

namespace Clear

theorem isOk_write (h : d.Clear t outputs) (ho : o ∈ outputs) :
    (d.write t o).isOk = !d.fails t.writeFails o := by
  unfold Destination.write fails placeOf?
  cases hplace : d.place o.path with
  | error e => rfl
  | ok target =>
    have hmem : target.location ∈ outputs.filterMap d.placeOf? :=
      List.mem_filterMap.2 ⟨o, ho, by rw [placeOf?, hplace]; rfl⟩
    obtain ⟨hne, hfree, hdir⟩ := h.free _ hmem
    have hok : (t.write target o.content).isOk = !t.writeFails target.location :=
      FileTree.isOk_write_of_free hne hfree hdir
    refine .trans ?_ hok
    dsimp only
    cases t.write target o.content with
    | ok written => rfl
    | error e => rfl

theorem write (h : d.Clear t outputs) (ho : o ∈ outputs) (hwrite : d.write t o = .ok t') :
    d.Clear t' outputs ∧ t'.writeFails = t.writeFails := by
  obtain ⟨target, htarget, hwritten⟩ := write_eq_ok hwrite
  have hmem : target.location ∈ outputs.filterMap d.placeOf? :=
    List.mem_filterMap.2 ⟨o, ho, by rw [placeOf?, htarget]; rfl⟩
  obtain ⟨rfl, -, -⟩ := FileTree.write_eq_ok hwritten
  refine ⟨⟨fun place hplace => ?_, h.apart⟩, rfl⟩
  obtain ⟨hne, hfree, hdir⟩ := h.free place hplace
  exact ⟨hne, FileTree.isBlocked_put hfree (h.apart _ hplace _ hmem),
    FileTree.node?_put_ne_dir hdir (h.apart _ hmem _ hplace)⟩

/-- Where the places of outputs are free, the writes that are made to fail are those that
fail. -/
theorem decidedByPath (h : d.Clear t outputs) : d.DecidedByPath t outputs t.writeFails := by
  intro before t' hbefore hwrote
  induction hwrote with
  | nil => exact fun o ho => h.isOk_write ho
  | cons hwrite _ ih =>
    obtain ⟨ho, hrest⟩ := List.cons_subset.1 hbefore
    obtain ⟨hclear, hfails⟩ := h.write ho hwrite
    rw [← hfails]
    exact ih hclear hrest

end Clear

end Destination

/-! ## The outputs of a set of modules -/

open Destination (upToFailure upToFailure_singleton upToFailure_pair upToFailure_begins Reports
  each)

variable {d : Destination} {t calm : FileTree} {failing : List String → Bool}

/-- The module has a plain stylesheet beside its own file, and its own file fails. -/
def Module.LosesStyle (m : Module) (d : Destination) (failing : List String → Bool) : Prop :=
  m.kind = .style ∧ cssPath m.realPath ≠ m.path.withoutScheme ∧
    (d.placeOf? m.ownOutput).any failing = true

instance (m : Module) (d : Destination) (failing : List String → Bool) :
    Decidable (m.LosesStyle d failing) :=
  inferInstanceAs (Decidable (_ ∧ _ ∧ _))

/-- Without failures a module is tried as with them, but for a stylesheet that is lost. -/
theorem Module.upToFailure_outputs (m : Module) (d : Destination)
    (failing : List String → Bool) :
    upToFailure (d.fails fun _ => false) m.outputs =
      upToFailure (d.fails failing) m.outputs ++ if m.LosesStyle d failing then [m.plainStyle]
        else [] := by
  by_cases hbeside : m.kind = .style ∧ cssPath m.realPath ≠ m.path.withoutScheme
  · have houtputs : m.outputs = [m.ownOutput, m.plainStyle] := by
      unfold outputs
      rw [if_pos hbeside.1, if_neg hbeside.2]
    have hloses : m.LosesStyle d failing ↔ (d.placeOf? m.ownOutput).any failing = true :=
      ⟨fun h => h.2.2, fun h => ⟨hbeside.1, hbeside.2, h⟩⟩
    rw [houtputs, upToFailure_pair, upToFailure_pair, if_congr hloses rfl rfl]
    unfold Destination.fails
    cases d.placeOf? m.ownOutput with
    | none => rfl
    | some place => cases hfails : failing place <;> simp [hfails]
  · have hkeeps : ¬ m.LosesStyle d failing := fun h => hbeside ⟨h.1, h.2.1⟩
    have houtputs : ∃ o, m.outputs = [o] := by
      unfold outputs
      split
      · next hstyle => exact ⟨_, if_pos (Decidable.not_not.1 fun hne => hbeside ⟨hstyle, hne⟩)⟩
      · exact ⟨_, rfl⟩
    obtain ⟨o, ho⟩ := houtputs
    rw [ho, upToFailure_singleton, upToFailure_singleton, if_neg hkeeps, List.append_nil]

namespace ModuleSet

variable {set : ModuleSet} {merged : Merged} {mode : EmitMode} {commonBundle : String}

/-- The plain stylesheets that are not written because the files before them fail. -/
def dropped (set : ModuleSet) (merged : Merged) (mode : EmitMode) (d : Destination)
    (failing : List String → Bool) : List Output :=
  match mode with
  | .modules =>
    ((merged.modules.filterMap set.find?).filter (·.LosesStyle d failing)).map Module.plainStyle
  | .bundles => []

/-- Without failures a set is tried as with them, but for the stylesheets that are dropped. -/
theorem perm_upToFailure (set : ModuleSet) (merged : Merged) (mode : EmitMode)
    (commonBundle : String) (d : Destination) (failing : List String → Bool) :
    ((set.outputs merged mode commonBundle).flatMap (upToFailure (d.fails fun _ => false))).Perm
      ((set.outputs merged mode commonBundle).flatMap (upToFailure (d.fails failing)) ++
        set.dropped merged mode d failing) := by
  cases mode with
  | modules =>
    have hdropped : ∀ modules : List Module,
        (modules.filter (·.LosesStyle d failing)).map Module.plainStyle =
          modules.flatMap fun m => if m.LosesStyle d failing then [m.plainStyle] else [] := by
      intro modules
      induction modules with
      | nil => rfl
      | cons m modules ih =>
        rw [List.filter_cons, List.flatMap_cons, ← ih]
        by_cases hloses : m.LosesStyle d failing
        · rw [if_pos hloses, if_pos (decide_eq_true hloses)]
          rfl
        · rw [if_neg hloses, if_neg (by simpa using hloses)]
          rfl
    unfold outputs separateOutputs dropped
    dsimp only
    rw [hdropped, List.flatMap_map, List.flatMap_map]
    refine .trans (.of_eq ?_) (List.flatMap_append_perm _ _ _).symm
    exact List.flatMap_congr fun m _ => m.upToFailure_outputs d failing
  | bundles =>
    unfold outputs dropped
    dsimp only
    rw [bundledOutputs_eq, List.append_nil, List.flatMap_map, List.flatMap_map]
    simp only [upToFailure_singleton]
    exact .refl _

/-- The attempts of a run are among those of a run without failures. -/
theorem sublist_upToFailure (d : Destination) (failing : List String → Bool)
    (groups : List (List Output)) :
    (groups.flatMap (upToFailure (d.fails failing))).Sublist
      (groups.flatMap (upToFailure (d.fails fun _ => false))) := by
  refine List.Sublist.flatMap_right _ fun group _ =>
    (upToFailure_begins (fun o hfails => ?_) group).sublist
  unfold Destination.fails at hfails ⊢
  cases hplace : d.placeOf? o with
  | none => rfl
  | some place =>
    rw [hplace] at hfails
    cases hfails

/-- **A failed write stops the plain stylesheet beside it, and no other write.**  Let paths
decide which writes fail, and compare a run with one in which no place fails.  Each run is that
of its attempts, none of which stops another.  The attempts are those of the run without failing
places, in their order, without the stylesheets that are dropped: so they are the same exactly
if none is dropped, which is so in bundles.  One failure is reported for each attempt that
fails, and a place that does not fail ends with the same file, unless a dropped stylesheet goes
there. -/
theorem emission_after_failures (set : ModuleSet) (merged : Merged) (mode : EmitMode)
    (commonBundle : String) (hentries : t.entries = calm.entries)
    (hcalm : d.DecidedByPath calm (set.outputs merged mode commonBundle).flatten fun _ => false)
    (hfailing : d.DecidedByPath t (set.outputs merged mode commonBundle).flatten failing) :
    let groups := set.outputs merged mode commonBundle
    let dropped := set.dropped merged mode d failing
    d.writeGroups t groups = d.writeGroups t (each (d.attempted t groups)) ∧
      (d.attempted t groups).Sublist (d.attempted calm groups) ∧
      (d.attempted calm groups).Perm (d.attempted t groups ++ dropped) ∧
      (d.attempted t groups = d.attempted calm groups ↔ dropped = []) ∧
      List.Forall₂ Reports ((d.attempted t groups).filter (d.fails failing))
        (d.writeGroups t groups).2 ∧
      ∀ place, failing place = false → (∀ o ∈ dropped, d.placeOf? o ≠ some place) →
        (d.writeGroups t groups).1.fileAt? place =
          (d.writeGroups calm groups).1.fileAt? place := by
  intro groups dropped
  have hsub : (d.attempted t groups).Sublist (d.attempted calm groups) := by
    rw [hfailing.attempted_eq, hcalm.attempted_eq]
    exact sublist_upToFailure d failing groups
  have hperm : (d.attempted calm groups).Perm (d.attempted t groups ++ dropped) := by
    rw [hfailing.attempted_eq, hcalm.attempted_eq]
    exact perm_upToFailure set merged mode commonBundle d failing
  obtain ⟨hwrote, hreports⟩ := hfailing.wrote_attempted
  obtain ⟨hcalmWrote, -⟩ := hcalm.wrote_attempted
  refine ⟨d.writeGroups_eq_attempted t groups, hsub, hperm, ⟨fun hsame => ?_, fun hnone => ?_⟩,
    hreports, fun place hplace hkept => ?_⟩
  · have hlength := hperm.length_eq
    rw [hsame, List.length_append] at hlength
    exact List.eq_nil_of_length_eq_zero (Nat.left_eq_add.1 hlength)
  · rw [hnone, List.append_nil] at hperm
    exact hsub.eq_of_length hperm.length_eq.symm
  · have hgone : ∀ o ∈ dropped, decide (d.placeOf? o = some place) = false :=
      fun o ho => decide_eq_false (hkept o ho)
    have hsame := Destination.filter_eq_of_perm_append hsub hperm hgone
    rw [hwrote.fileAt?, hcalmWrote.fileAt?, Destination.filter_placeOf?_of_not_failing hplace,
      Destination.filter_placeOf?_of_not_failing rfl, hsame, FileTree.fileAt?_congr hentries]

/-- An empty tree in which one place cannot be written. -/
def lockedAt (place : List String) : FileTree := ⟨[], [⟨.write, place, .failed "disk full"⟩]⟩

/-- The pages are written in bundles although the common bundle cannot be: all other files are
as they would be. -/
theorem emission_after_failures_pages :
    let t := lockedAt ["out", "common.js"]
    let groups := pages.outputs (pages.merge []) .bundles "/common.js"
    pagesOutput.attempted t groups = pagesOutput.attempted ⟨[], []⟩ groups ∧
      (pagesOutput.writeGroups t groups).1.fileAt? ["out", "a.js"] =
        (pagesOutput.writeGroups ⟨[], []⟩ groups).1.fileAt? ["out", "a.js"] := by
  intro t groups
  have hclear : pagesOutput.Clear ⟨[], []⟩ groups.flatten ∧
      pagesOutput.Clear t groups.flatten := by
    unfold groups
    rw [merge_pages]
    decide +kernel
  have hentries : t.entries = (⟨[], []⟩ : FileTree).entries := rfl
  obtain ⟨-, -, -, hsame, -, hfiles⟩ :=
    emission_after_failures pages (pages.merge []) .bundles "/common.js" hentries
      hclear.1.decidedByPath hclear.2.decidedByPath
  exact ⟨hsame.2 rfl, hfiles _ (by decide) nofun⟩

/-! ## A stylesheet that is dropped -/

/-- A stylesheet in another language. -/
def theme : Module :=
  { Module.empty ⟨"/s/theme.less"⟩ .style with code := "body", wrappedCode := "wrapped" }

theorem outputs_theme :
    (alone theme).outputs ((alone theme).merge []) .modules "/common.js" =
      [[theme.ownOutput, theme.plainStyle]] := by
  have hrequires : theme.requires = [] := rfl
  rw [merge_alone hrequires]
  decide

/-- Paths decide that the stylesheet fails at its own path, and nowhere else.  But its plain
form is not written either, as it would be without that failure. -/
theorem plain_stylesheet_dropped :
    let t := lockedAt ["out", "s", "theme.less"]
    let groups := (alone theme).outputs ((alone theme).merge []) .modules "/common.js"
    (pagesOutput.DecidedByPath ⟨[], []⟩ groups.flatten (fun _ => false) ∧
        pagesOutput.DecidedByPath t groups.flatten
          (fun place => place = ["out", "s", "theme.less"])) ∧
      pagesOutput.attempted t groups = [theme.ownOutput] ∧
      pagesOutput.attempted ⟨[], []⟩ groups = [theme.ownOutput, theme.plainStyle] ∧
      (pagesOutput.writeGroups t groups).1.fileAt? ["out", "s", "theme.css"] = none ∧
      (pagesOutput.writeGroups ⟨[], []⟩ groups).1.fileAt? ["out", "s", "theme.css"] =
        some (Text.encode "body") := by
  intro t groups
  have hfails : t.writeFails = fun place => decide (place = ["out", "s", "theme.less"]) := by
    funext place
    simp [FileTree.writeFails, t, lockedAt, eq_comm]
  have hclear : pagesOutput.Clear ⟨[], []⟩ groups.flatten ∧
      pagesOutput.Clear t groups.flatten := by
    unfold groups
    rw [outputs_theme]
    decide +kernel
  refine ⟨⟨hclear.1.decidedByPath, hfails ▸ hclear.2.decidedByPath⟩, ?_⟩
  unfold groups
  rw [outputs_theme]
  decide +kernel

end ModuleSet

end WebBundler
