import WebBundler.Proofs.Build.Application
import WebBundler.Proofs.Build.Undisturbed
import WebBundler.Proofs.Compiler.Locality
import WebBundler.Proofs.Output.Additions
import WebBundler.Proofs.Output.Confinement
set_option autoImplicit false

/-!
# Builds whose output lies apart from the project

When the destination lies neither inside the project nor around it, no visit changes anything
below the root: the walk sees the same, and a compiler that reads below the root answers alike
(`untouched_of_apart`).  Where names are plain no two files are copied to one place, nor one
above the other, so copies do not disturb each other either, and the build does not disturb
itself (`undisturbed_of_apart`).
-/

namespace WebBundler

open FileTree (AgreeOutside Apart)
open HostPath (IsName)
open QueryPath (IsStep normalize pathOf)

/-! ## What is written below the destination -/

namespace Destination

variable {d : Destination} {t t' : FileTree} {base : List String} {path : String}
  {target : HostPath}

theorem prefix_location_of_place (h : d.place path = .ok target) :
    d.dir.location <+: target.location := by
  have hnames : ∀ name ∈ namesOf path, IsName name :=
    fun name hname => (isStep_of_mem_namesOf name hname).isName
  rw [eq_of_place h, HostPath.location_join_wayOf d.dir hnames]
  exact List.prefix_append _ _

theorem agreeOutside_write {o : Output} (h : d.write t o = .ok t') :
    AgreeOutside d.dir.location t t' := by
  obtain ⟨target, htarget, hwrite⟩ := write_eq_ok h
  exact .of_write hwrite (prefix_location_of_place htarget)

theorem agreeOutside_writeGroup (d : Destination) (t : FileTree) (group : List Output) :
    AgreeOutside d.dir.location t (d.writeGroup t group).1 := by
  induction group generalizing t with
  | nil => exact ⟨rfl, rfl⟩
  | cons o group ih =>
    rw [writeGroup_cons]
    split
    · next written hwritten => exact (agreeOutside_write hwritten).trans (ih written)
    · exact .refl _ t

theorem exists_place_of_copy {source : HostPath} (h : d.copy t source path = .ok t') :
    ∃ target, d.place path = .ok target ∧ AgreeOutside target.location t t' := by
  unfold copy at h
  split at h
  · cases h
  · obtain ⟨target, htarget, hwrite⟩ := write_eq_ok h
    exact ⟨target, htarget, .of_write hwrite List.prefix_rfl⟩

/-- Where an output goes, if it goes anywhere, lies apart from where the trees differ: so it can
be written in both trees, or in neither for the same reason. -/
theorem write_cases (h : AgreeOutside base t t')
    (hplace : ∀ target, d.place path = .ok target → Apart base target.location)
    (content : ByteArray) :
    (∃ e, d.write t ⟨path, content⟩ = .error e ∧ d.write t' ⟨path, content⟩ = .error e) ∨
      ∃ written written', d.write t ⟨path, content⟩ = .ok written ∧
        d.write t' ⟨path, content⟩ = .ok written' := by
  unfold write
  cases htarget : d.place path with
  | error e => exact .inl ⟨e, rfl, rfl⟩
  | ok target =>
    dsimp only
    obtain ⟨e, he, he'⟩ | ⟨written, written', hok, hok'⟩ :=
      h.write_cases (hplace target htarget) content
    · rw [he, he']
      exact .inl ⟨_, rfl, rfl⟩
    · rw [hok, hok']
      exact .inr ⟨_, _, rfl, rfl⟩

end Destination

namespace Project

variable {p : Project} {d : Destination} {mode : VisitMode} {ws : Workspace} {t t' : FileTree}
  {base : List String} {file other : WalkedFile} {visits : List WalkedFile}
  {enters : String → Bool} {visit : Visitor Workspace}

theorem agreeOutside_copy (d : Destination) (file : WalkedFile) (ws : Workspace) :
    AgreeOutside d.dir.location ws.tree (copy d file ws).2.tree := by
  unfold copy Destination.copy
  cases ws.tree.read file.path with
  | error e => exact .refl _ ws.tree
  | ok content =>
    dsimp only
    split
    · next written hwritten => exact Destination.agreeOutside_write hwritten
    · exact .refl _ ws.tree

/-- A visit changes nothing outside of the destination. -/
theorem agreeOutside_visitor (p : Project) (d : Destination) (mode : VisitMode)
    (file : WalkedFile) (ws : Workspace) :
    AgreeOutside d.dir.location ws.tree (p.visitor d mode file ws).2.tree := by
  unfold visitor
  cases p.rules.classify file.relPath with
  | ignore => exact .refl _ ws.tree
  | skip => exact agreeOutside_copy d file ws
  | build =>
    cases QueryPath.ofText file.relPath with
    | error e => exact .refl _ ws.tree
    | ok path =>
      simp only [compile]
      cases p.compiler ws.tree (.of path) with
      | error e =>
        cases e with
        | failed name reason => exact .refl _ ws.tree
        | unknownType name =>
          exact agreeOutside_copy d file { ws with compiled := ws.compiled ++ [.of path] }
      | ok m =>
        cases mode with
        | collect => exact .refl _ ws.tree
        | emit =>
          have hgroup := Destination.agreeOutside_writeGroup d ws.tree m.outputs
          unfold finish emit
          dsimp only
          cases (d.writeGroup ws.tree m.outputs).2 <;> exact hgroup

theorem agreeOutside_storeAfter (p : Project) (d : Destination) (mode : VisitMode)
    (visits : List WalkedFile) (ws : Workspace) :
    AgreeOutside d.dir.location ws.tree
      ((p.walk enters (p.visitor d mode)).storeAfter ws visits).tree := by
  induction visits generalizing ws with
  | nil => exact .refl _ ws.tree
  | cons file visits ih =>
    exact (agreeOutside_visitor p d mode file ws).trans (ih (p.visitor d mode file ws).2)

end Project

/-! ## What a walk sees -/

/-- A walk sees the same in a directory that lies apart from where the trees differ. -/
theorem Walk.sameListing_of_agreeOutside {σ : Type} {w : Walk σ} {t t' : FileTree}
    {base : List String} {dir : HostPath} (h : AgreeOutside base t t') (hnamed : t.Named)
    (hdir : Apart base dir.location) : w.SameListing t t' dir := by
  obtain ⟨hnames, hfailures⟩ := h.failuresIn_eq hnamed hdir
  have hpath : ∀ name ∈ t.namesIn dir, Apart base (dir.join ⟨name⟩).location :=
    fun name hname => by
    rw [hnamed.location_join hname]
    exact hdir.append [name]
  refine ⟨?_, ?_, hfailures, by rw [h.readDir_eq hdir]⟩
  · unfold filesIn
    rw [hnames, List.filter_congr fun name hname => h.isRegular_eq (hpath name hname)]
  · unfold subdirsIn
    rw [hnames]
    congr 1
    refine List.filter_congr fun name hname => ?_
    unfold goesInto
    rw [h.metadata_eq (hpath name hname)]

namespace Project

variable {p : Project} {d : Destination} {mode : VisitMode} {ws : Workspace} {t t' : FileTree}
  {base : List String} {file other : WalkedFile} {visits : List WalkedFile}
  {enters : String → Bool} {visit : Visitor Workspace}

theorem exists_location_of_entered (hnamed : t.Named) (hinside : p.WalksInside) {dir : HostPath}
    (h : (p.walk enters visit).Entered t dir) :
    ∃ names, dir.location = p.config.root.location ++ names := by
  obtain ⟨base, hbase, hsource⟩ := hinside
  obtain ⟨names, hnames, rfl⟩ := h.exists_under hnamed
  refine ⟨base ++ names, ?_⟩
  show (p.source.under names).location = _
  rw [HostPath.location_under p.source hnames, hsource, HostPath.location_under _ hbase,
    List.append_assoc]

/-- The place of a file that is found is named by a canonical path. -/
theorem normalize_realPath_of_found (hnamed : t.Named) (hinside : p.WalksInside)
    (h : (p.walk enters visit).Found t file) {path : QueryPath}
    (hpath : QueryPath.ofText file.relPath = .ok path) :
    normalize (CompileRequest.of path).realPath = (CompileRequest.of path).realPath := by
  obtain ⟨names, node, -, rfl, -, -⟩ := exists_under_of_found hnamed hinside h
  have hnormal := QueryPath.normalize_of_ofText (HostPath.normalize_relativeTo _ _) hpath
  have hreal : (CompileRequest.of path).realPath = path.text :=
    (QueryPath.withoutScheme_of_normalized hnormal).2
  rw [hreal, hnormal]

section Untouched

variable (hnamed : ws.tree.Named) (hinside : p.WalksInside)
  (hapart : Apart d.dir.location p.config.root.location)
include hnamed hinside hapart

theorem seesSame_of_apart : (p.walk enters (p.visitor d mode)).SeesSame ws := by
  intro visits _ dir hdir
  refine Walk.sameListing_of_agreeOutside (agreeOutside_storeAfter p d mode visits ws) hnamed ?_
  obtain ⟨names, hnames⟩ :=
    exists_location_of_entered hnamed hinside ((Walk.mem_directories_iff hnamed).1 hdir)
  rw [hnames]
  exact hapart.append names

/-- **Visits that write apart from the project leave what a walk reads untouched.** -/
theorem untouched_of_apart (hlocal : p.compiler.ReadsBelow p.config.root) :
    p.Untouched (p.walk enters (p.visitor d mode)) ws where
  listings := seesSame_of_apart hnamed hinside hapart
  answers := by
    intro visits file hvisits _ path hpath
    have hfound := (Walk.mem_files_iff hnamed).1 (hvisits.subset List.mem_cons_self)
    exact hlocal (agreeOutside_storeAfter p d mode visits ws) hapart _
      (normalize_realPath_of_found hnamed hinside hfound hpath)

end Untouched

/-! ## What is reached -/

theorem Reached.normalize_text {name : QueryPath} (h : p.Reached d t name)
    (hregular : p.compiler.Regular) : normalize name.text = name.text := by
  have horigins : ∀ {request m origin}, p.compiler t request = .ok m →
      origin ∈ m.requiresOrigin →
      QueryPath.ofText origin = .ok name → normalize name.text = name.text := by
    intro request m origin hm horigin hname
    obtain ⟨hnormal, hself⟩ := hregular.canonical hm origin horigin
    cases hself.symm.trans hname
    exact hnormal
  cases h with
  | file hfile hrule hpath hm horigin hname => exact horigins hm horigin hname
  | package hparent hm horigin hname => exact horigins hm horigin hname

theorem passThrough_of_agreeOutside {root : HostPath} (h : AgreeOutside base t t')
    (hroot : Apart base root.location) {name : QueryPath}
    (hname : normalize name.text = name.text) :
    Expansion.passThrough root t' name = Expansion.passThrough root t name := by
  have hplace : normalize name.withoutScheme = name.withoutScheme := by
    rw [(QueryPath.withoutScheme_of_normalized hname).2, hname]
  unfold Expansion.passThrough
  dsimp only
  rw [h.read_eq ((Resolver.isDown_of_normalized hplace).apart hroot)]

/-! ## Copies of different files -/

/-- A file can be copied in both trees, or in neither for the same reason. -/
theorem copyOutcome_of_agreeOutside (h : AgreeOutside base t t')
    (hpath : Apart base file.path.location)
    (hplace : ∀ target, d.place file.relPath = .ok target → Apart base target.location) :
    copyOutcome d t' file = copyOutcome d t file := by
  unfold copyOutcome Destination.copy
  rw [h.read_eq hpath]
  cases t.read file.path with
  | error e => rfl
  | ok content =>
    dsimp only
    obtain ⟨e, he, he'⟩ | ⟨written, written', hok, hok'⟩ :=
      Destination.write_cases h hplace content
    · rw [he, he']
    · rw [hok, hok']

/-- Where names are plain, a file is copied to the place of its names below the destination. -/
theorem location_place_of_found (hnamed : t.Named)
    (hplain : t.NoBackslashOrEndBlank p.config.root) (hinside : p.WalksInside)
    (h : (p.walk enters visit).Found t file) :
    ∃ names node, file = ⟨p.config.root.under names, pathOf names⟩ ∧
      file.path.location = p.config.root.location ++ names ∧
      node ≠ .dir ∧ t.look (p.config.root.location ++ names) = .ok node ∧
      ∀ target, d.place file.relPath = .ok target →
      target.location = d.dir.location ++ names := by
  obtain ⟨names, hnames, rfl, -, node, hnode, hlook⟩ :=
    exists_names_of_found hnamed hplain hinside h
  have hlocation :=
    HostPath.location_under p.config.root fun name hname => (hnames name hname).isName
  refine ⟨names, node, rfl, hlocation, hnode, hlocation ▸ hlook, fun target htarget => ?_⟩
  obtain ⟨place, hplace, hbelow⟩ := Destination.location_place d hnames
  cases hplace.symm.trans htarget
  exact hbelow

section Undisturbed

variable (hnamed : ws.tree.Named) (hplain : ws.tree.NoBackslashOrEndBlank p.config.root)
  (hinside : p.WalksInside) (hapart : Apart d.dir.location p.config.root.location)
include hnamed hplain hinside hapart

/-- The visit of another file does not change whether a file can be copied: neither lies above
the other, so neither do the places to which they are copied. -/
theorem copyOutcome_visit (hfile : (p.smartWalk d).Found ws.tree file)
    (hother : (p.smartWalk d).Found ws.tree other) (hne : other ≠ file) (later : Workspace) :
    copyOutcome d ((p.smartWalk d).visit other later).2.tree file =
      copyOutcome d later.tree file := by
  obtain hkept | ⟨-, hcopied⟩ := tree_visit_smartWalk p d other later
  · rw [hkept]
  obtain ⟨target', htarget', hagree⟩ := Destination.exists_place_of_copy hcopied
  obtain ⟨names, node, hnames, hlocation, hnode, hlook, hplace⟩ :=
    location_place_of_found (d := d) hnamed hplain hinside hfile
  obtain ⟨names', node', hnames', -, hnode', hlook', hplace'⟩ :=
    location_place_of_found (d := d) hnamed hplain hinside hother
  have hlocation' := hplace' target' htarget'
  refine copyOutcome_of_agreeOutside hagree ?_ fun target htarget => ?_
  · rw [hlocation, hlocation']
    exact ((hapart.append names).symm.append names').symm
  · have hdiffer : p.config.root.location ++ names' ≠ p.config.root.location ++ names := by
      intro hsame
      rw [List.append_cancel_left hsame] at hnames'
      exact hne (hnames'.trans hnames.symm)
    have hfiles := FileTree.apart_of_look hlook hlook' hnode hnode' hdiffer
    rw [hplace target htarget, hlocation', FileTree.apart_append_left_iff]
    exact FileTree.apart_append_left_iff.1 hfiles

theorem copyOutcome_storeAfter (hfile : (p.smartWalk d).Found ws.tree file)
    (hvisits : ∀ other ∈ visits, (p.smartWalk d).Found ws.tree other ∧ other ≠ file)
    (later : Workspace) :
    copyOutcome d ((p.smartWalk d).storeAfter later visits).tree file =
      copyOutcome d later.tree file := by
  induction visits generalizing later with
  | nil => rfl
  | cons other visits ih =>
    obtain ⟨⟨hother, hne⟩, hrest⟩ := List.forall_mem_cons.1 hvisits
    exact (ih hrest _).trans
      (copyOutcome_visit hnamed hplain hinside hapart hfile hother hne later)

/-- **A build whose output lies apart from the project does not disturb itself**, if names are
plain. -/
theorem undisturbed_of_apart (hregular : p.compiler.Regular)
    (hlocal : p.compiler.ReadsBelow p.config.root) : p.Undisturbed d ws where
  toUntouched := untouched_of_apart hnamed hinside hapart hlocal
  copies := by
    intro visited file hvisited _
    have hfound : ∀ other ∈ file :: visited, (p.smartWalk d).Found ws.tree other :=
      fun other hother => (Walk.mem_files_iff hnamed).1 (hvisited.subset hother)
    obtain ⟨files, hperm, hsublist⟩ := hvisited
    have hfresh : file ∉ visited :=
      (List.nodup_cons.1 (hperm.nodup_iff.1 ((Walk.nodup_files hnamed).sublist hsublist))).1
    refine copyOutcome_storeAfter hnamed hplain hinside hapart (hfound file List.mem_cons_self)
      (fun other hother => ⟨hfound other (List.mem_cons_of_mem file hother), ?_⟩) ws
    rintro rfl
    exact hfresh hother
  reached := by
    intro visited _ name hreached
    have hnormal := hreached.normalize_text hregular
    have hreal : (CompileRequest.of name).realPath = name.text :=
      (QueryPath.withoutScheme_of_normalized hnormal).2
    have hagree : AgreeOutside d.dir.location ws.tree
        ((p.smartWalk d).storeAfter ws visited).tree :=
      agreeOutside_storeAfter p d .collect visited ws
    unfold compileName
    rw [hlocal hagree hapart _ (by rw [hreal, hnormal]),
      passThrough_of_agreeOutside hagree hapart hnormal]

end Undisturbed

end Project

end WebBundler
