import WebBundler.Proofs.Output.Places
import WebBundler.Proofs.Path.Containment
set_option autoImplicit false

/-!
# No output leaves the destination

The path of an output is cleaned by itself before it is appended to the destination.  What
cleaning keeps of a relative path is names alone if no step of it climbs above the start, and
begins with a step up if one does; nothing takes back a step up at the front
(`getLast?_foldl_cleanStep`).  So the one step that the destination looks at tells whether an
output would leave it (`place_confined`).
-/

namespace WebBundler

namespace HostPath

open QueryPath (IsMove)

/-! ## Cleaning a relative path -/

theorem cleanComponents_relative {p : HostPath} (h : p.isAbsolute = false) :
    p.cleanComponents = (((segments p.text).filterMap Component.ofSegment?).foldl cleanStep
      []).reverse := by
  have hhere : Component.ofSegment? "." = none := rfl
  unfold cleanComponents
  rw [components_eq, h, stepsOf, if_neg Bool.false_ne_true]
  split
  · next hhead =>
    obtain ⟨rest, hrest⟩ := List.head?_eq_some_iff.1 hhead
    rw [hrest, List.filterMap_cons_none hhere]
    rfl
  · rfl

theorem cleanStep_up_names (front : List String) (name : String) :
    cleanStep ((front ++ [name]).map Component.name).reverse .up =
      (front.map Component.name).reverse := by
  simp [cleanStep]

theorem cleanStep_name_names (names : List String) (name : String) :
    cleanStep (names.map Component.name).reverse (.name name) =
      ((names ++ [name]).map Component.name).reverse := by
  simp [cleanStep]

/-- Steps that do not climb above their start are kept as the names that they lead to. -/
theorem foldl_cleanStep_of_staysBelow {steps : List Component}
    (hmoves : ∀ step ∈ steps, IsMove step) (names : List String)
    (h : staysBelow names.length steps = true) :
    steps.foldl cleanStep (names.map Component.name).reverse =
      ((steps.foldl descend names).map Component.name).reverse := by
  induction steps generalizing names with
  | nil => rfl
  | cons step steps ih =>
    have hrest := fun other hother => hmoves other (List.mem_cons_of_mem _ hother)
    rw [List.foldl_cons, List.foldl_cons]
    obtain rfl | ⟨name, -, rfl⟩ := hmoves step List.mem_cons_self
    · rcases List.eq_nil_or_concat names with rfl | ⟨front, name, rfl⟩
      · cases h
      · rw [List.concat_eq_append] at h ⊢
        rw [List.length_append, List.length_singleton] at h
        rw [cleanStep_up_names, descend, List.dropLast_concat]
        exact ih hrest _ h
    · rw [cleanStep_name_names, descend]
      refine ih hrest _ ?_
      rw [List.length_append, List.length_singleton]
      exact h

theorem getLast?_cleanStep {kept : List Component} {step : Component} (hmove : IsMove step)
    (h : kept.getLast? = some .up) : (cleanStep kept step).getLast? = some .up := by
  have hcons : ∀ step : Component, (step :: kept).getLast? = some .up := by
    intro step
    rw [List.getLast?_cons, h]
    rfl
  obtain rfl | ⟨name, -, rfl⟩ := hmove
  · cases kept with
    | nil => cases h
    | cons last rest =>
      cases last with
      | root => exact h
      | name other =>
        rw [cleanStep]
        cases rest with
        | nil => cases h
        | cons next rest => rwa [List.getLast?_cons_cons] at h
      | up => exact hcons .up
      | here => exact hcons .up
  · exact hcons (.name name)

theorem getLast?_foldl_cleanStep_of_up {steps kept : List Component}
    (hmoves : ∀ step ∈ steps, IsMove step) (h : kept.getLast? = some .up) :
    (steps.foldl cleanStep kept).getLast? = some .up := by
  induction steps generalizing kept with
  | nil => exact h
  | cons step steps ih =>
    rw [List.forall_mem_cons] at hmoves
    exact ih hmoves.2 (getLast?_cleanStep hmoves.1 h)

/-- Steps that climb above their start leave a step up at the front. -/
theorem getLast?_foldl_cleanStep {steps : List Component} (hmoves : ∀ step ∈ steps, IsMove step)
    (names : List String) (h : staysBelow names.length steps = false) :
    (steps.foldl cleanStep (names.map Component.name).reverse).getLast? = some .up := by
  induction steps generalizing names with
  | nil => cases h
  | cons step steps ih =>
    have hrest := fun other hother => hmoves other (List.mem_cons_of_mem _ hother)
    rw [List.foldl_cons]
    obtain rfl | ⟨name, -, rfl⟩ := hmoves step List.mem_cons_self
    · rcases List.eq_nil_or_concat names with rfl | ⟨front, name, rfl⟩
      · exact getLast?_foldl_cleanStep_of_up hrest rfl
      · rw [List.concat_eq_append] at h ⊢
        rw [List.length_append, List.length_singleton] at h
        rw [cleanStep_up_names]
        exact ih hrest _ h
    · rw [cleanStep_name_names]
      refine ih hrest _ ?_
      rw [List.length_append, List.length_singleton]
      exact h

theorem mem_cleanStep {kept : List Component} {step other : Component}
    (h : other ∈ cleanStep kept step) :
    other = step ∨ other ∈ kept := by
  unfold cleanStep at h
  split at h
  · exact .inr h
  · split at h
    · exact .inr h
    · exact .inr (List.mem_cons_of_mem _ h)
    · exact List.mem_cons.1 h
  · exact List.mem_cons.1 h

theorem mem_foldl_cleanStep {steps kept : List Component} {step : Component}
    (h : step ∈ steps.foldl cleanStep kept) : step ∈ steps ∨ step ∈ kept := by
  induction steps generalizing kept with
  | nil => exact .inr h
  | cons first steps ih =>
    rcases ih h with hsteps | hkept
    · exact .inl (List.mem_cons_of_mem _ hsteps)
    · rcases mem_cleanStep hkept with rfl | hkept
      · exact .inl List.mem_cons_self
      · exact .inr hkept

theorem components_steps {steps : List Component} (h : ∀ step ∈ steps, IsMove step) :
    (HostPath.mk (String.intercalate "/" (steps.map Component.text))).components = steps := by
  have hread := QueryPath.filterMap_segments_steps h
  rw [components_eq, not_isAbsolute_steps h, stepsOf, if_neg Bool.false_ne_true]
  split
  · next hhead =>
    exfalso
    cases steps with
    | nil => exact absurd hhead (by decide)
    | cons step steps =>
      have hslash : ∀ text ∈ (step :: steps).map Component.text, '/' ∉ text.toList := by
        intro text htext
        obtain ⟨other, hother, rfl⟩ := List.mem_map.1 htext
        exact (h other hother).segment.1
      have hhere : Component.ofSegment? "." = none := rfl
      rw [segments_intercalate hslash (List.cons_ne_nil _ _), List.map_cons, List.head?_cons,
        Option.some_inj] at hhead
      have hstep := (h step List.mem_cons_self).segment.2
      rw [hhead, hhere] at hstep
      cases hstep
  · exact hread

end HostPath

/-! ## Segments that climb -/

namespace Destination

open HostPath (Component IsName staysBelow descend)
open QueryPath (IsStep IsMove pathOf)

/-- The segments of the path of an output, with backslashes read as slashes and the slashes at
the start dropped. -/
def outputSegments (path : String) : List String :=
  HostPath.segments (Text.trimStartChar '/' (Text.replaceChar '\\' '/' path))

/-- Some of the first segments lead up more often than they lead down by a name, even from some
levels down. -/
def Climbs (levels : Nat) (segs : List String) : Prop :=
  ∃ front, front <+: segs ∧ levels + front.countP (fun seg => IsName seg) < front.count ".."

theorem not_climbs_nil (levels : Nat) : ¬ Climbs levels [] := by
  rintro ⟨front, hfront, hclimbs⟩
  rw [List.prefix_nil.1 hfront] at hclimbs
  exact absurd hclimbs (Nat.not_lt_zero _)

/-- The first segment takes a level or adds one, or does neither. -/
theorem climbs_cons {levels : Nat} {seg : String} {segs : List String} :
    Climbs levels (seg :: segs) ↔ ∃ front, front <+: segs ∧
      levels + (if IsName seg then 1 else 0) + front.countP (fun seg => IsName seg) <
        (if seg = ".." then 1 else 0) + front.count ".." := by
  constructor
  · rintro ⟨front, hfront, hclimbs⟩
    rcases List.prefix_cons_iff.1 hfront with rfl | ⟨rest, rfl, hrest⟩
    · exact absurd hclimbs (Nat.not_lt_zero _)
    · refine ⟨rest, hrest, ?_⟩
      rw [List.countP_cons, List.count_cons] at hclimbs
      simp only [decide_eq_true_eq, beq_iff_eq] at hclimbs
      omega
  · rintro ⟨rest, hrest, hclimbs⟩
    refine ⟨seg :: rest, List.prefix_cons_iff.2 (.inr ⟨rest, rfl, hrest⟩), ?_⟩
    rw [List.countP_cons, List.count_cons]
    simp only [decide_eq_true_eq, beq_iff_eq]
    omega

theorem climbs_iff {segs : List String} (hsegs : ∀ seg ∈ segs, '/' ∉ seg.toList)
    (levels : Nat) :
    Climbs levels segs ↔ staysBelow levels (segs.filterMap Component.ofSegment?) = false := by
  induction segs generalizing levels with
  | nil => exact ⟨fun h => absurd h (not_climbs_nil levels), fun h => (nomatch h)⟩
  | cons seg segs ih =>
    rw [List.forall_mem_cons] at hsegs
    have ih := ih hsegs.2
    rw [climbs_cons]
    by_cases hname : IsName seg
    · rw [List.filterMap_cons_some hname.ofSegment?, staysBelow, ← ih, if_pos hname,
        if_neg hname.ne_up]
      simp only [Nat.zero_add]
      rfl
    · rw [if_neg hname, Nat.add_zero]
      by_cases hup : seg = ".."
      · have hstep : Component.ofSegment? seg = some .up := by rw [hup]; rfl
        rw [List.filterMap_cons_some hstep, if_pos hup]
        cases levels with
        | zero =>
          refine ⟨fun _ => rfl, fun _ => ⟨[], List.nil_prefix, ?_⟩⟩
          decide
        | succ levels =>
          rw [staysBelow, ← ih]
          unfold Climbs
          simp only [Nat.add_comm 1, Nat.succ_add, Nat.succ_lt_succ_iff]
      · have hstep : Component.ofSegment? seg = none := by
          unfold Component.ofSegment?
          split
          · rfl
          · next hplain =>
            rw [not_or] at hplain
            exact absurd ⟨hplain.1, hplain.2, hup, hsegs.1⟩ hname
        rw [List.filterMap_cons_none hstep, if_neg hup, ← ih]
        simp only [Nat.zero_add]
        rfl

/-! ## Where outputs can go -/

/-- The names that the path of an output leads to, when it does not climb. -/
def namesOf (path : String) : List String :=
  ((outputSegments path).filterMap Component.ofSegment?).foldl descend []

section Confinement

variable {path : String}

theorem no_slash_of_mem_outputSegments {seg : String} (h : seg ∈ outputSegments path) :
    '/' ∉ seg.toList := by
  obtain ⟨piece, hpiece, rfl⟩ := List.mem_map.1 h
  rw [String.toList_ofList]
  exact (Text.mem_splitOn hpiece).1

theorem isMove_of_mem_outputSteps {step : Component}
    (h : step ∈ (outputSegments path).filterMap Component.ofSegment?) : IsMove step := by
  obtain ⟨seg, hseg, hstep⟩ := List.mem_filterMap.1 h
  exact HostPath.isMove_of_mem_segments hseg hstep

theorem isStep_of_mem_namesOf : ∀ name ∈ namesOf path, IsStep name := by
  intro name hname
  have hstep := (HostPath.mem_foldl_descend hname).resolve_left List.not_mem_nil
  obtain ⟨seg, hseg, hname⟩ := List.mem_filterMap.1 hstep
  have hbackslash : '\\' ∉
      (Text.trimStartChar '/' (Text.replaceChar '\\' '/' path)).toList := by
    intro hmem
    unfold Text.trimStartChar Text.dropStart at hmem
    rw [String.toList_ofList] at hmem
    exact Text.not_mem_replaceChar path (by decide) ((List.dropWhile_sublist _).subset hmem)
  exact QueryPath.isStep_of_mem_segments hbackslash hseg hname

theorem not_isAbsolute_trimStartChar (s : String) :
    (HostPath.mk (Text.trimStartChar '/' s)).isAbsolute = false := by
  rw [HostPath.isAbsolute_eq, Text.trimStartChar, String.toList_ofList, beq_eq_false_iff_ne]
  intro hhead
  have hother := List.head?_dropWhile_not (· == '/') s.toList
  unfold Text.dropStart at hhead
  rw [hhead] at hother
  simp at hother

/-- A path that does not climb goes down from the destination by its names. -/
theorem place_of_staysBelow (d : Destination)
    (h : staysBelow 0 ((outputSegments path).filterMap Component.ofSegment?) = true) :
    d.place path = .ok (d.dir.join (HostPath.wayOf (namesOf path))) := by
  have hkept := HostPath.foldl_cleanStep_of_staysBelow (fun _ => isMove_of_mem_outputSteps) [] h
  rw [List.map_nil, List.reverse_nil] at hkept
  refine place_of_clean (fun name hname => (isStep_of_mem_namesOf name hname).isName)
    (HostPath.clean_of_names ?_)
  rw [HostPath.cleanComponents_relative (not_isAbsolute_trimStartChar _)]
  unfold outputSegments at hkept
  rw [hkept, List.reverse_reverse]
  rfl

theorem place_of_climbs (d : Destination)
    (h : staysBelow 0 ((outputSegments path).filterMap Component.ofSegment?) = false) :
    d.place path = .error (.writeFailure path "path escapes the destination directory") := by
  generalize hp : HostPath.mk (Text.trimStartChar '/' (Text.replaceChar '\\' '/' path)) = p
  have hsteps : p.cleanComponents =
      (((outputSegments path).filterMap Component.ofSegment?).foldl HostPath.cleanStep
        []).reverse := by
    rw [← hp]
    exact HostPath.cleanComponents_relative (not_isAbsolute_trimStartChar _)
  have hhead : p.cleanComponents.head? = some .up := by
    have hlast := HostPath.getLast?_foldl_cleanStep (fun _ => isMove_of_mem_outputSteps) [] h
    rw [List.map_nil, List.reverse_nil] at hlast
    rw [hsteps, List.head?_reverse, hlast]
  obtain ⟨rest, hrest⟩ := List.head?_eq_some_iff.1 hhead
  have hmoves : ∀ step ∈ Component.up :: rest, IsMove step := by
    intro step hstep
    rw [← hrest, hsteps, List.mem_reverse] at hstep
    exact isMove_of_mem_outputSteps
      ((HostPath.mem_foldl_cleanStep hstep).resolve_right List.not_mem_nil)
  have hclean : p.clean =
      ⟨String.intercalate "/" ((Component.up :: rest).map Component.text)⟩ := by
    unfold HostPath.clean
    rw [hrest]
    rfl
  have hout : climbsOut p.clean = true := by
    unfold climbsOut
    rw [hclean, HostPath.components_steps hmoves]
    rfl
  unfold place
  dsimp only
  rw [hp, hout]
  rfl

theorem climbs_outputSegments_iff : Climbs 0 (outputSegments path) ↔
    staysBelow 0 ((outputSegments path).filterMap Component.ofSegment?) = false :=
  climbs_iff (fun _ => no_slash_of_mem_outputSegments) 0

theorem eq_of_place {d : Destination} {target : HostPath} (h : d.place path = .ok target) :
    target = d.dir.join (HostPath.wayOf (namesOf path)) := by
  cases hstays : staysBelow 0 ((outputSegments path).filterMap Component.ofSegment?) with
  | false =>
    rw [place_of_climbs d hstays] at h
    cases h
  | true =>
    rw [place_of_staysBelow d hstays] at h
    exact (Except.ok.inj h).symm

/-- What climbs is refused, and nothing else. -/
theorem exists_place_eq_error_iff (d : Destination) :
    (∃ e, d.place path = .error e) ↔ Climbs 0 (outputSegments path) := by
  rw [climbs_outputSegments_iff]
  cases hstays : staysBelow 0 ((outputSegments path).filterMap Component.ofSegment?) with
  | false => exact ⟨fun _ => rfl, fun _ => ⟨_, place_of_climbs d hstays⟩⟩
  | true =>
    rw [place_of_staysBelow d hstays]
    exact ⟨fun ⟨_, he⟩ => (nomatch he), fun h => (nomatch h)⟩

/-- A canonical path goes down from the destination by its own names. -/
theorem exists_place_of_normalized (d : Destination) {p : QueryPath}
    (h : QueryPath.normalize p.text = p.text) :
    ∃ names target, (∀ name ∈ names, IsStep name) ∧ p.text = pathOf names ∧
      d.place p.withoutScheme = .ok target ∧ target.location = d.dir.location ++ names := by
  obtain ⟨names, hnames, hpath⟩ := QueryPath.exists_normalize_eq p.text
  obtain ⟨target, htarget, hplace⟩ := location_place d hnames
  rw [h] at hpath
  refine ⟨names, target, hnames, hpath, ?_, hplace⟩
  have hlocal : p.withoutScheme = p.text := (QueryPath.withoutScheme_of_normalized h).2
  rw [hlocal, hpath, htarget]

/-- **No output leaves the destination.**  Wherever the path of an output leads, it goes down
from the destination by names alone; it is refused, with a failure to write it, exactly if some
of its first segments lead up more often than they lead down.  Canonical paths are never
refused, and no two of them lead to one file. -/
theorem place_confined (d : Destination) :
    (∀ path target, d.place path = .ok target → (∀ name ∈ namesOf path, IsStep name) ∧
      target = d.dir.join (HostPath.wayOf (namesOf path)) ∧
      target.location = d.dir.location ++ namesOf path) ∧
      (∀ path, (∃ e, d.place path = .error e) ↔ Climbs 0 (outputSegments path)) ∧
      (∀ path e, d.place path = .error e → ∃ reason, e = .writeFailure path reason) ∧
      (∀ p : QueryPath, QueryPath.normalize p.text = p.text →
        ∃ target, d.place p.withoutScheme = .ok target) ∧
      ∀ p q : QueryPath, QueryPath.normalize p.text = p.text →
        QueryPath.normalize q.text = q.text →
        ∀ target target', d.place p.withoutScheme = .ok target →
          d.place q.withoutScheme = .ok target' →
          target.location = target'.location → p = q := by
  refine ⟨?_, fun path => exists_place_eq_error_iff d,
    fun path e he => eq_writeFailure_of_place he, ?_, ?_⟩
  · intro path target htarget
    have hway := eq_of_place htarget
    have hsteps : ∀ name ∈ namesOf path, IsStep name := isStep_of_mem_namesOf
    refine ⟨hsteps, hway, ?_⟩
    rw [hway]
    exact HostPath.location_join_wayOf d.dir fun name hname => (hsteps name hname).isName
  · intro p hp
    obtain ⟨-, target, -, -, htarget, -⟩ := exists_place_of_normalized d hp
    exact ⟨target, htarget⟩
  · intro p q hp hq target target' htarget htarget' hsame
    obtain ⟨names, found, -, hpath, hfound, hplace⟩ := exists_place_of_normalized d hp
    obtain ⟨names', found', -, hpath', hfound', hplace'⟩ := exists_place_of_normalized d hq
    cases htarget.symm.trans hfound
    cases htarget'.symm.trans hfound'
    rw [hplace, hplace', List.append_right_inj] at hsame
    obtain ⟨text⟩ := p
    obtain ⟨text'⟩ := q
    rw [QueryPath.mk.injEq]
    exact hpath.trans (hsame ▸ hpath'.symm)

end Confinement

/-! ## The current directory -/

/-- Output goes below the current directory. -/
def currentDir : Destination := ⟨⟨"."⟩, none, "/common.js"⟩

/-- Backslashes, dots and repeated slashes lead down to one file, a path with a scheme climbs
out, and two canonical paths lead to two files. -/
theorem place_confined_current :
    (∃ target, currentDir.place "src\\..//lib/./a.js" = .ok target ∧
      target.location = ["lib", "a.js"]) ∧
      (∃ reason, currentDir.place "pkg:a/../../x" =
        .error (.writeFailure "pkg:a/../../x" reason)) ∧
      ∃ target target', currentDir.place "/a.js" = .ok target ∧
        currentDir.place "/b.js" = .ok target' ∧
        target.location ≠ target'.location := by
  obtain ⟨hinside, hrefused, hfailure, hlocal, hapart⟩ := place_confined currentDir
  refine ⟨?_, ?_, ?_⟩
  · have hplace : currentDir.place "src\\..//lib/./a.js" = .ok ⟨"./lib/a.js"⟩ := by
      decide
    obtain ⟨-, -, hlocation⟩ := hinside _ _ hplace
    exact ⟨_, hplace, hlocation.trans (by decide)⟩
  · have hclimbs : Climbs 0 (outputSegments "pkg:a/../../x") :=
      ⟨["pkg:a", "..", ".."], by decide, by decide⟩
    obtain ⟨e, he⟩ := (hrefused _).2 hclimbs
    obtain ⟨reason, rfl⟩ := hfailure _ _ he
    exact ⟨reason, he⟩
  · have ha : QueryPath.normalize (QueryPath.mk "/a.js").text =
      (QueryPath.mk "/a.js").text := by decide
    have hb : QueryPath.normalize (QueryPath.mk "/b.js").text =
      (QueryPath.mk "/b.js").text := by decide
    obtain ⟨target, htarget⟩ := hlocal ⟨"/a.js"⟩ ha
    obtain ⟨target', htarget'⟩ := hlocal ⟨"/b.js"⟩ hb
    refine ⟨target, target', htarget, htarget', fun hsame => ?_⟩
    have hsamePath := hapart _ _ ha hb target target' htarget htarget' hsame
    exact absurd hsamePath (by decide)

end Destination

end WebBundler
