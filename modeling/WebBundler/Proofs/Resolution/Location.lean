import WebBundler.Proofs.FileTree.Writing
import WebBundler.Proofs.Resolution.Forms
set_option autoImplicit false

/-!
# Where a specifier is looked for

A specifier without a scheme names a location in the project (`locationOf`): from the directory
of the referrer, from the root, or from the directory of packages.  All that is done with it is
to look for a first file among some forms (`resolve_eq`, `answer_search`).  These are the three
forms of the location, but for the name of a package, which is entered through its description
and its index.

So a module is missing only if there is no file at any form of its location, unless a package is
named: what lies where the package would, or there with `.js`, is not looked at
(`missing_reliable_iff`).
-/

namespace WebBundler

theorem Lookup.ext {α : Type} {l l' : Lookup α} (hanswer : ∀ t, l.answer t = l'.answer t)
    (hasked : ∀ t, l.asked t = l'.asked t) : l = l' :=
  funext fun t => Prod.ext (hanswer t) (hasked t)

namespace Resolver

open QueryPath

variable {r : Resolver} {t : FileTree} {specifier : String} {referrer : QueryPath}

/-! ## The location -/

/-- A specifier names something in the project. -/
structure IsLocal (specifier : String) : Prop where
  not_blank : Text.trim specifier ≠ ""
  no_scheme : schemeOf (Text.trim specifier) = none

instance (specifier : String) : Decidable (IsLocal specifier) :=
  decidable_of_iff (Text.trim specifier ≠ "" ∧ schemeOf (Text.trim specifier) = none)
    ⟨fun h => ⟨h.1, h.2⟩, fun h => ⟨h.1, h.2⟩⟩

/-- A specifier names a package, and nothing inside of it. -/
structure NamesPackage (specifier : String) : Prop where
  not_relative : Text.startsWith (Text.trim specifier) "." = false
  not_rooted : Text.startsWith (Text.trim specifier) "/" = false
  no_subpath : (splitPackage (Text.trim specifier)).2 = ""

instance (specifier : String) : Decidable (NamesPackage specifier) :=
  decidable_of_iff (Text.startsWith (Text.trim specifier) "." = false ∧
      Text.startsWith (Text.trim specifier) "/" = false ∧
      (splitPackage (Text.trim specifier)).2 = "")
    ⟨fun h => ⟨h.1, h.2.1, h.2.2⟩, fun h => ⟨h.1, h.2, h.3⟩⟩

/-- The location that a specifier names in the script of a referrer. -/
def locationOf (r : Resolver) (specifier : String) (referrer : QueryPath) : String :=
  if Text.startsWith (Text.trim specifier) "." then
    normalize (directoryOf referrer ++ "/" ++ Text.trim specifier)
  else if Text.startsWith (Text.trim specifier) "/" then normalize (Text.trim specifier)
  else normalize (r.dependencyDir ++ "/" ++ Text.trim specifier)

theorem normalize_locationOf :
    normalize (r.locationOf specifier referrer) = r.locationOf specifier referrer := by
  unfold locationOf
  split
  · exact normalize_normalize _
  · split <;> exact normalize_normalize _

/-- The name of a package and the path in it make up the specifier, but for a last slash. -/
theorem splitPackage_cases (s : String) :
    (splitPackage s = (s, "")) ∨ s = (splitPackage s).1 ++ "/" ++ (splitPackage s).2 := by
  unfold splitPackage
  split
  · exact .inl rfl
  · next first rest hcut =>
    obtain ⟨hs, -⟩ := Text.cutFirst_eq_some hcut
    split
    · split
      · exact .inl rfl
      · next name subpath hcut' =>
        obtain ⟨hrest, -⟩ := Text.cutFirst_eq_some hcut'
        refine .inr (String.toList_inj.1 ?_)
        rw [hs, hrest]
        simp
    · refine .inr (String.toList_inj.1 ?_)
      rw [hs]
      simp

/-- The path in a package leads where the whole specifier does from the directory of
packages. -/
theorem normalize_subpath (dir s : String) (h : (splitPackage s).2 ≠ "") :
    normalize (normalize (dir ++ "/" ++ (splitPackage s).1) ++ "/" ++ (splitPackage s).2) =
      normalize (dir ++ "/" ++ s) := by
  rcases splitPackage_cases s with hwhole | hsplit
  · rw [hwhole] at h
    exact absurd rfl h
  · conv_rhs => rw [hsplit]
    rw [normalize_join]
    simp only [String.append_assoc]

theorem normalize_packageDir (dir s : String) (h : (splitPackage s).2 = "") :
    normalize (dir ++ "/" ++ (splitPackage s).1) = normalize (dir ++ "/" ++ s) := by
  rcases splitPackage_cases s with hwhole | hsplit
  · rw [hwhole]
  · conv_rhs => rw [hsplit, h]
    rw [String.append_empty, ← String.append_assoc, normalize_append_slash]

/-- What names something in the project is looked for at its location, and a package by its
entry. -/
theorem resolve_eq (h : IsLocal specifier) :
    r.resolve specifier referrer = if NamesPackage specifier
      then r.resolveEntry (r.locationOf specifier referrer)
        else r.resolvePlace (r.locationOf specifier referrer) := by
  unfold resolve locationOf
  dsimp only
  rw [if_neg h.not_blank, h.no_scheme, if_neg (by simp)]
  by_cases hdot : Text.startsWith (Text.trim specifier) "." = true
  · have hpackage : ¬NamesPackage specifier := fun hnames => by
      rw [hnames.not_relative] at hdot
      cases hdot
    rw [if_pos hdot, if_pos hdot, if_neg hpackage]
  · rw [if_neg hdot, if_neg hdot]
    by_cases hslash : Text.startsWith (Text.trim specifier) "/" = true
    · have hpackage : ¬NamesPackage specifier := fun hnames => by
        rw [hnames.not_rooted] at hslash
        cases hslash
      rw [if_pos hslash, if_pos hslash, if_neg hpackage]
    · rw [if_neg hslash, if_neg hslash]
      unfold resolvePackage
      dsimp only
      by_cases hsub : (splitPackage (Text.trim specifier)).2 = ""
      · have hpackage : NamesPackage specifier :=
          ⟨eq_false_of_ne_true hdot, eq_false_of_ne_true hslash, hsub⟩
        rw [if_pos hsub, if_pos hpackage, normalize_packageDir _ _ hsub]
      · rw [if_neg hsub, if_neg fun hnames : NamesPackage specifier => hsub hnames.no_subpath,
          normalize_subpath _ _ hsub]

/-! ## Searches -/

/-- Look for the module at a place in some files, in order. -/
def search (r : Resolver) (place : String) (files : List String) :
    Lookup (Option Resolution) := do
  return settle place (← r.firstFile files)

/-- The files that a package can be entered at, given its description. -/
def entryFiles (packageDir : String) (description : Option String) : List String :=
  (match description.bind entryOf with
    | some entry => forms (normalize (packageDir ++ "/" ++ entry))
    | none => []) ++ forms (packageDir ++ "/index.js")

/-- There is a file at a path below the root. -/
def hasFile (r : Resolver) (t : FileTree) (path : String) : Bool :=
  t.isRegular (r.root.below path)

theorem firstFile_append (first more : List String) :
    r.firstFile (first ++ more) = (do
      match ← r.firstFile first with
      | some file => return some file
      | none => r.firstFile more) := by
  induction first with
  | nil => rfl
  | cons file first ih =>
    rw [List.cons_append, firstFile, firstFile, ih]
    refine Lookup.ext (fun t => ?_) fun t => ?_
    · simp only [Lookup.answer_bind]
      split <;> rfl
    · simp only [Lookup.asked_bind, Lookup.answer_bind]
      split
      · rfl
      · exact (List.append_assoc _ _ _).symm

theorem answer_firstFile (files : List String) :
    (r.firstFile files).answer t = files.find? (r.hasFile t) := by
  induction files with
  | nil => rfl
  | cons file files ih =>
    rw [firstFile, Lookup.answer_bind, List.find?_cons]
    show (if r.hasFile t file = true then _ else _ : Lookup (Option String)).answer t = _
    cases r.hasFile t file with
    | true => rfl
    | false => exact ih

theorem answer_search (place : String) (files : List String) :
    (r.search place files).answer t = settle place (files.find? (r.hasFile t)) := by
  rw [search, Lookup.answer_bind, Lookup.answer_pure, answer_firstFile]

theorem resolvePlace_eq (place : String) :
    r.resolvePlace place = r.search place (forms place) := rfl

/-- A file that is found among the first ones is settled alike at every place. -/
theorem search_append (place other : String) (first more : List String) :
    r.search place (first ++ more) = (do
      match ← r.firstFile first with
      | some file => return settle other (some file)
      | none => r.search place more) := by
  rw [search, firstFile_append]
  refine Lookup.ext (fun t => ?_) fun t => ?_
  · simp only [Lookup.answer_bind]
    split <;> rfl
  · simp only [Lookup.asked_bind, Lookup.answer_bind]
    split
    · simp only [Lookup.asked_pure, List.append_nil]
    · rw [List.append_assoc]
      rfl

/-- Enter a package where its description says, or at its index. -/
def enterAt (r : Resolver) (packageDir : String) : Option String → Lookup (Option Resolution)
  | some entry => do
    match ← r.probe (normalize (packageDir ++ "/" ++ entry)) with
    | some file => return settle (normalize (packageDir ++ "/" ++ entry)) (some file)
    | none => r.resolvePlace (packageDir ++ "/index.js")
  | none => r.resolvePlace (packageDir ++ "/index.js")

theorem resolveEntry_eq_bind (packageDir : String) :
    r.resolveEntry packageDir = r.packageEntry packageDir >>= r.enterAt packageDir := by
  unfold resolveEntry
  refine congrArg (r.packageEntry packageDir >>= ·) (funext fun entry => ?_)
  cases entry with
  | none => rfl
  | some entry => rfl

theorem enterAt_eq (packageDir : String) (description : Option String) :
    r.enterAt packageDir (description.bind entryOf) =
      r.search (packageDir ++ "/index.js") (entryFiles packageDir description) := by
  rw [entryFiles]
  cases description.bind entryOf with
  | none => rfl
  | some entry => exact (search_append _ _ _ _).symm

theorem resolveEntry_eq (packageDir : String) :
    r.resolveEntry packageDir = (do
      let description ← Lookup.text? (r.root.below (packageDir ++ "/package.json"))
      r.search (packageDir ++ "/index.js") (entryFiles packageDir description)) := by
  simp only [← enterAt_eq]
  rw [resolveEntry_eq_bind, packageEntry]
  refine Lookup.ext (fun t => ?_) fun t => ?_
  · rw [Lookup.answer_bind, Lookup.answer_bind, Lookup.answer_pure, Lookup.answer_bind]
  · rw [Lookup.asked_bind, Lookup.asked_bind, Lookup.asked_pure, List.append_nil,
      Lookup.answer_bind, Lookup.answer_pure, Lookup.asked_bind]

/-! ## The answer -/

/-- The description of a package, if it can be read. -/
def description (r : Resolver) (t : FileTree) (packageDir : String) : Option String :=
  (Lookup.text? (r.root.below (packageDir ++ "/package.json"))).answer t

/-- The files that a specifier is looked for in, in order. -/
def filesFor (r : Resolver) (t : FileTree) (specifier : String) (referrer : QueryPath) :
    List String :=
  if NamesPackage specifier then
    entryFiles (r.locationOf specifier referrer)
      (r.description t (r.locationOf specifier referrer))
  else forms (r.locationOf specifier referrer)

/-- The place that names a module whose file is missing. -/
def placeFor (r : Resolver) (specifier : String) (referrer : QueryPath) : String :=
  if NamesPackage specifier then r.locationOf specifier referrer ++ "/index.js"
  else r.locationOf specifier referrer

/-- What names something in the project is settled with the first file that it is looked for
in. -/
theorem answer_resolve (h : IsLocal specifier) : (r.resolve specifier referrer).answer t =
    settle (r.placeFor specifier referrer)
    ((r.filesFor t specifier referrer).find? (r.hasFile t)) := by
  rw [resolve_eq h, placeFor, filesFor]
  by_cases hpackage : NamesPackage specifier
  · rw [if_pos hpackage, if_pos hpackage, if_pos hpackage, resolveEntry_eq, Lookup.answer_bind,
      answer_search]
    rfl
  · rw [if_neg hpackage, if_neg hpackage, if_neg hpackage, resolvePlace_eq, answer_search]

theorem kind_of_settle {place : String} {found : Option String} {res : Resolution}
    (h : settle place found = some res) :
    res.kind = .missing ↔ found = none := by
  cases found with
  | none =>
    obtain ⟨_, -, rfl⟩ := Option.map_eq_some_iff.1 h
    exact iff_of_true rfl rfl
  | some file =>
    obtain ⟨_, -, rfl⟩ := Option.map_eq_some_iff.1 h
    exact iff_of_false nofun nofun

/-- A module is missing exactly if there is none of the files that it is looked for in. -/
theorem kind_eq_missing_iff (h : IsLocal specifier) {res : Resolution}
    (hres : (r.resolve specifier referrer).answer t = some res) :
    res.kind = .missing ↔ ∀ file ∈ r.filesFor t specifier referrer,
      r.hasFile t file = false := by
  rw [answer_resolve h] at hres
  rw [kind_of_settle hres, List.find?_eq_none]
  simp only [Bool.not_eq_true]

/-! ## What is not looked at -/

theorem hasFile_congr {path other : String} {names : List String} (h : LeadsDown path names)
    (hother : LeadsDown other names) : r.hasFile t path = r.hasFile t other := by
  unfold hasFile
  rw [h.below, hother.below]

theorem exists_form_index {names : List String} (h : ∀ name ∈ names, IsStep name) :
    ∃ form ∈ forms (pathOf names), LeadsDown form (names ++ ["index.js"]) :=
  exists_form_of_mem_formNames (isPlace_pathOf h)
    (List.mem_cons_of_mem _ (List.mem_cons_of_mem _ List.mem_cons_self))

theorem not_hasFile_index (h : IsLocal specifier) {res : Resolution}
    (hres : (r.resolve specifier referrer).answer t = some res) (hkind : res.kind = .missing) :
    r.hasFile t (r.locationOf specifier referrer ++ "/index.js") = false := by
  have hnone := (kind_eq_missing_iff h hres).1 hkind
  unfold filesFor at hnone
  split at hnone
  · refine hnone _ (List.mem_append_right _ ?_)
    exact List.mem_cons_self
  · obtain ⟨names, hnames, hlocation⟩ := exists_normalize_eq (r.locationOf specifier referrer)
    rw [normalize_locationOf] at hlocation
    rw [hlocation] at hnone ⊢
    obtain ⟨form, hform, hdown⟩ := exists_form_index hnames
    rw [hasFile_congr (isPlace_index hnames).leadsDown hdown]
    exact hnone form hform

/-- A tree with one file and nothing else. -/
def loneFile (place : List String) : FileTree := ⟨[(place, .file ByteArray.empty)], []⟩

theorem look_loneFile (place : List String) :
    (loneFile place).look place = .ok (.file ByteArray.empty) := by
  have hnode : (loneFile place).node? place = some (.file ByteArray.empty) := by
    simp [loneFile, FileTree.node?]
  refine FileTree.look_eq_ok_iff.2
    ⟨FileTree.isBlocked_eq_false_iff.2 fun other _ hne node hnode => ?_, hnode⟩
  by_contra hdir
  obtain ⟨entry, hfound⟩ := (FileTree.node?_eq_some_iff hdir).1 hnode
  have hmem := List.mem_of_find?_eq_some hfound
  have hplace := List.find?_some hfound
  simp only [loneFile, List.mem_singleton, Prod.mk.injEq, decide_eq_true_eq] at hmem hplace
  exact hne (hplace.symm.trans hmem.1)

theorem look_below_file {place more : List String} {bytes : ByteArray}
    (h : t.look place = .ok (.file bytes)) (hmore : more ≠ []) :
    t.look (place ++ more) = .error .notDirectory := by
  have hblocked : t.isBlocked (place ++ more) = true := by
    by_contra hfree
    have hdir := FileTree.isBlocked_eq_false_iff.1 (eq_false_of_ne_true hfree) place
      (List.prefix_append _ _) (fun hsame => hmore (List.self_eq_append_right.1 hsame)) _
      (FileTree.look_eq_ok_iff.1 h).2
    cases hdir
  unfold FileTree.look
  rw [if_pos hblocked]

theorem exists_look_of_isRegular {path : HostPath} (h : t.isRegular path = true) :
    ∃ bytes, t.look path.location = .ok (.file bytes) := by
  unfold FileTree.isRegular at h
  split at h
  · next bytes hmetadata => exact ⟨bytes, FileTree.attempt_eq_ok hmetadata⟩
  · cases h

section BelowFile

variable {names more : List String} {path : String} {bytes : ByteArray}
  (hfile : t.look (r.root.location ++ names) = .ok (.file bytes)) (hmore : more ≠ [])
  (hsteps : ∀ name ∈ names ++ more, IsStep name) (hdown : LeadsDown path (names ++ more))
include hfile hmore hsteps hdown

theorem look_of_leadsDown : t.look (r.root.below path).location = .error .notDirectory := by
  rw [hdown.below, location_below_pathOf r.root fun name hname => (hsteps name hname).isName,
    ← List.append_assoc]
  exact look_below_file hfile hmore

theorem hasFile_below_file : r.hasFile t path = false := by
  refine eq_false_of_ne_true fun hregular => ?_
  obtain ⟨bytes, hlook⟩ := exists_look_of_isRegular hregular
  rw [look_of_leadsDown hfile hmore hsteps hdown] at hlook
  cases hlook

end BelowFile

/-- A package whose directory is a file has no description, and none of its files. -/
theorem not_hasFile_of_file {names : List String} {bytes : ByteArray}
    (hnames : ∀ name ∈ names, IsStep name)
    (hfile : t.look (r.root.location ++ names) = .ok (.file bytes)) :
    ∀ file ∈ entryFiles (pathOf names) (r.description t (pathOf names)),
      r.hasFile t file = false := by
  have hdescription : r.description t (pathOf names) = none := by
    have hsteps : ∀ name ∈ names ++ ["package.json"], IsStep name :=
      List.forall_mem_append.2 ⟨hnames, List.forall_mem_singleton.2 isStep_description⟩
    have hlook :=
      look_of_leadsDown hfile (List.cons_ne_nil _ _) hsteps (leadsDown_description names)
    unfold description Lookup.text?
    rw [Lookup.answer_look, if_neg]
    unfold FileTree.holds
    rw [hlook]
    exact Bool.false_ne_true
  have hindex := isPlace_index hnames
  intro file hform
  rw [hdescription] at hform
  obtain ⟨down, hmem, hdown⟩ := exists_names_of_mem_forms hindex hform
  have hsteps := isStep_of_mem_formNames hindex.steps down hmem
  obtain ⟨more, hmore, rfl⟩ : ∃ more, more ≠ [] ∧ down = names ++ more := by
    unfold formNames at hmem
    rw [List.dropLast_concat, List.append_assoc names, List.mem_cons, List.mem_cons,
      List.mem_singleton] at hmem
    rcases hmem with rfl | rfl | rfl
    · exact ⟨_, List.cons_ne_nil _ _, rfl⟩
    · exact ⟨_, List.cons_ne_nil _ _, rfl⟩
    · exact ⟨_, List.cons_ne_nil _ _, rfl⟩
  exact hasFile_below_file hfile hmore hsteps hdown

theorem hasFile_loneFile {names : List String} (hnames : ∀ name ∈ names, IsStep name) :
    r.hasFile (loneFile (r.root.location ++ names)) (pathOf names) = true := by
  rw [hasFile, FileTree.isRegular, FileTree.metadata,
    location_below_pathOf r.root fun name hname => (hnames name hname).isName, look_loneFile]
  rfl

/-- **When a missing module is missing.**  A specifier that names something in the project is
always resolved, and to a missing module exactly if there is none of the files that it is looked
for in.  Then there is no index at its location.  That there is neither a file at the location
nor one with `.js` is sure exactly if the specifier does not name a package: the directory of a
package is looked into, but not at. -/
theorem missing_reliable_iff (r : Resolver) (h : IsLocal specifier) (referrer : QueryPath) :
    (∀ t, ∃ res, (r.resolve specifier referrer).answer t = some res ∧
      (res.kind = .missing ↔ ∀ file ∈ r.filesFor t specifier referrer,
        r.hasFile t file = false) ∧
      (res.kind = .missing → r.hasFile t (r.locationOf specifier referrer ++ "/index.js") =
        false)) ∧
    ((∀ t res, (r.resolve specifier referrer).answer t = some res → res.kind = .missing →
        r.hasFile t (r.locationOf specifier referrer) = false ∧
          r.hasFile t (r.locationOf specifier referrer ++ ".js") = false) ↔
      ¬NamesPackage specifier) := by
  have hresolved : ∀ t, ∃ res, (r.resolve specifier referrer).answer t = some res := fun t => by
    have hnames : Names ((r.resolve specifier referrer).answer t) := names_resolve h.not_blank
    obtain ⟨res, -, hres, -⟩ := hnames
    exact ⟨res, hres⟩
  refine ⟨fun t => ?_, fun hsure hpackage => ?_, fun hplain t res hres hkind => ?_⟩
  · obtain ⟨res, hres⟩ := hresolved t
    exact ⟨res, hres, kind_eq_missing_iff h hres, not_hasFile_index h hres⟩
  · -- A file in the place of the package is overlooked.
    obtain ⟨names, hnames, hlocation⟩ := exists_normalize_eq (r.locationOf specifier referrer)
    rw [normalize_locationOf] at hlocation
    obtain ⟨res, hres⟩ := hresolved (loneFile (r.root.location ++ names))
    have hmissing : res.kind = .missing := by
      rw [kind_eq_missing_iff h hres, filesFor, if_pos hpackage, hlocation]
      exact not_hasFile_of_file hnames (look_loneFile _)
    have hnone := (hsure _ res hres hmissing).1
    rw [hlocation, hasFile_loneFile hnames] at hnone
    cases hnone
  · have hnone := (kind_eq_missing_iff h hres).1 hkind
    rw [filesFor, if_neg hplain] at hnone
    exact ⟨hnone _ List.mem_cons_self, hnone _ (List.mem_cons_of_mem _ List.mem_cons_self)⟩

/-- What is missing inside of a package is not there. -/
theorem missing_reliable_inside_package :
    let r := Resolver.of ⟨"/project"⟩ "/node_modules/"
    IsLocal "@scope/pkg\\lib/../x" ∧
      ∀ t res, (r.resolve "@scope/pkg\\lib/../x" ⟨"/src/app.js"⟩).answer t = some res →
        res.kind = .missing →
        r.hasFile t "/node_modules/@scope/pkg/x" = false ∧
        r.hasFile t "/node_modules/@scope/pkg/x.js" = false := by
  intro r
  have hlocal : IsLocal "@scope/pkg\\lib/../x" := by decide
  have hinside : ¬NamesPackage "@scope/pkg\\lib/../x" := by decide
  have hlocation : r.locationOf "@scope/pkg\\lib/../x" ⟨"/src/app.js"⟩ =
      "/node_modules/@scope/pkg/x" := by
    decide
  have hsure := (missing_reliable_iff r hlocal ⟨"/src/app.js"⟩).2.2 hinside
  rw [hlocation] at hsure
  exact ⟨hlocal, hsure⟩

/-- A project with a package that is a single file. -/
def singleFileTree : FileTree where
  entries :=
    [(["project", "node_modules", "lodash.js"], .file (Text.encode "module.exports = 1;"))]
  faults := []

/-- The file of a package that is no directory is not found, though it is there. -/
theorem single_file_package_missing :
    let r := Resolver.of ⟨"/project"⟩ "node_modules"
    r.locationOf "lodash" ⟨"/app.js"⟩ = "/node_modules/lodash" ∧
      r.hasFile singleFileTree ("/node_modules/lodash" ++ ".js") = true ∧
      (r.resolve "lodash" ⟨"/app.js"⟩).answer singleFileTree =
        some ⟨⟨"/node_modules/lodash/index.js"⟩, .missing⟩ := by
  decide

end Resolver

end WebBundler
