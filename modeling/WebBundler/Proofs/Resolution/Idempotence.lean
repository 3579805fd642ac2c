import WebBundler.Proofs.Build.OwnSource
import WebBundler.Proofs.Resolution.Location
set_option autoImplicit false

/-!
# Resolving what was resolved

The name of a module is a specifier too, which names the module from everywhere: it is looked
for first at the path that it spells, and a module that is found lies there
(`resolve_pathOf_of_file`).  For one that is missing the name is looked for in the same forms as
the specifier was (`resolve_pathOf_of_none`).  Only a blank at the end of a name would be lost,
so no blank may end a segment of what the name is made from (`NoEndBlanks`).
-/

namespace WebBundler

namespace Text

theorem exists_suffix_of_mem_splitOn {sep : Char} (front : List Char) {rest piece : List Char}
    (h : piece ∈ splitOn sep rest) :
    ∃ whole ∈ splitOn sep (front ++ rest), piece <:+ whole := by
  induction front with
  | nil => exact ⟨piece, h, List.suffix_refl piece⟩
  | cons c front ih =>
    obtain ⟨whole, hwhole, hends⟩ := ih
    rw [List.cons_append, splitOn]
    split
    · exact ⟨whole, List.mem_cons_of_mem _ hwhole, hends⟩
    · split
      · next hnone => exact absurd hnone (splitOn_ne_nil sep _)
      · next first pieces hpieces =>
        rw [hpieces] at hwhole
        rcases List.mem_cons.1 hwhole with rfl | hwhole
        · exact ⟨c :: whole, List.mem_cons_self, hends.trans (List.suffix_cons c whole)⟩
        · exact ⟨whole, List.mem_cons_of_mem _ hwhole, hends⟩

theorem trimEnd_eq_self_iff_getLast? {s : String} :
    trimEnd s = s ↔ ∀ c ∈ s.toList.getLast?, isBlank c = false := by
  rcases List.eq_nil_or_concat s.toList with hnil | ⟨init, c, hc⟩
  · rw [String.toList_eq_nil_iff.1 hnil]
    exact iff_of_true rfl nofun
  · rw [List.concat_eq_append] at hc
    rw [trimEnd_eq_self_iff hc, hc, List.getLast?_concat]
    exact ⟨fun h d hd => by rwa [← Option.mem_some_iff.1 hd], fun h => h c rfl⟩

theorem trimEnd_of_suffix {s : String} {rest : List Char} (h : trimEnd s = s)
    (hrest : rest <:+ s.toList) :
    trimEnd (String.ofList rest) = String.ofList rest := by
  obtain ⟨front, hfront⟩ := hrest
  rw [trimEnd_eq_self_iff_getLast?] at h ⊢
  intro c hc
  rw [String.toList_ofList] at hc
  refine h c ?_
  rw [← hfront, List.getLast?_append, Option.mem_def.1 hc]
  rfl

end Text

namespace QueryPath

/-! ## Blanks at ends -/

/-- No blank ends a segment of a text. -/
def NoEndBlanks (raw : String) : Prop := ∀ seg ∈ slashedSegments raw, Text.trimEnd seg = seg

instance (raw : String) : Decidable (NoEndBlanks raw) :=
  inferInstanceAs (Decidable (∀ _ ∈ _, _))

variable {raw rest : String} {names : List String}

theorem noEndBlanks_join {a b : String} :
    NoEndBlanks (a ++ "/" ++ b) ↔ NoEndBlanks a ∧ NoEndBlanks b := by
  unfold NoEndBlanks
  rw [slashedSegments_join]
  exact List.forall_mem_append

theorem NoEndBlanks.of_suffix (h : NoEndBlanks raw) (hrest : rest.toList <:+ raw.toList) :
    NoEndBlanks rest := by
  intro seg hseg
  obtain ⟨piece, hpiece, rfl⟩ := List.mem_map.1 hseg
  rw [Text.replaceChar, String.toList_ofList] at hpiece
  obtain ⟨front, hfront⟩ := hrest
  obtain ⟨whole, hwhole, hends⟩ := Text.exists_suffix_of_mem_splitOn
    (front.map fun c => if c = '\\' then '/' else c) hpiece
  rw [← List.map_append, hfront] at hwhole
  have hmem : String.ofList whole ∈ slashedSegments raw := by
    unfold slashedSegments HostPath.segments Text.replaceChar
    rw [String.toList_ofList]
    exact List.mem_map_of_mem hwhole
  exact Text.trimEnd_of_suffix (h _ hmem) (by rwa [String.toList_ofList])

theorem NoEndBlanks.trimEnd (h : NoEndBlanks raw) : Text.trimEnd raw = raw := by
  rw [Text.trimEnd_eq_self_iff_getLast?]
  intro c hc
  by_contra hblank
  rw [Bool.not_eq_false] at hblank
  have hslash : c ≠ '/' := by
    rintro rfl
    cases hblank
  have hbackslash : c ≠ '\\' := by
    rintro rfl
    cases hblank
  obtain ⟨init, hinit⟩ := List.getLast?_eq_some_iff.1 hc
  have hlast : NoEndBlanks (String.ofList [c]) := h.of_suffix (by
    rw [String.toList_ofList, hinit]
    exact List.suffix_append init [c])
  have hseg : String.ofList [c] ∈ slashedSegments (String.ofList [c]) := by
    unfold slashedSegments HostPath.segments Text.replaceChar
    simp only [String.toList_ofList, List.map_cons, List.map_nil, if_neg hbackslash,
      Text.splitOn, if_neg hslash]
    exact List.mem_cons_self
  have hplain :=
    Text.trimEnd_eq_self_iff_getLast?.1 (hlast _ hseg) c (by rw [String.toList_ofList]; rfl)
  rw [hblank] at hplain
  cases hplain

theorem NoEndBlanks.trim (h : NoEndBlanks raw) : NoEndBlanks (Text.trim raw) := by
  have hstart : (Text.dropStart Text.isBlank raw.toList) <:+ raw.toList :=
    List.dropWhile_suffix _
  have htrim : Text.trim raw = String.ofList (Text.dropStart Text.isBlank raw.toList) := by
    have hkept := Text.trimEnd_of_suffix h.trimEnd hstart
    rw [Text.trimEnd, String.toList_ofList] at hkept
    exact hkept
  rw [htrim]
  exact h.of_suffix (by rwa [String.toList_ofList])

/-- Some names lead down to a path, and no blank ends any of them. -/
structure StepsWithoutEndBlanks (names : List String) : Prop where
  steps : ∀ name ∈ names, IsStep name
  ends : ∀ name ∈ names, Text.trimEnd name = name

theorem NoEndBlanks.exists_names (h : NoEndBlanks raw) :
    ∃ names, StepsWithoutEndBlanks names ∧ normalize raw = pathOf names := by
  obtain ⟨names, hsteps, hsublist, hraw⟩ := exists_normalize_sublist raw
  exact ⟨names, ⟨hsteps, fun name hname => h name (hsublist.subset hname)⟩, hraw⟩

theorem StepsWithoutEndBlanks.trim (h : StepsWithoutEndBlanks names) :
    Text.trim (pathOf names) = pathOf names := by
  rw [Text.trim_eq_trimEnd (toList_pathOf names) (by decide),
    trimEnd_pathOf_iff fun name hname => (h.steps name hname).isName]
  exact fun name hname => h.ends name (List.mem_of_getLast? hname)

theorem StepsWithoutEndBlanks.ofText? (h : StepsWithoutEndBlanks names) {path : String}
    (hpath : LeadsDown path names) :
    ofText? path = some ⟨pathOf names⟩ := by
  rw [hpath.ofText?_eq, QueryPath.ofText?, ofText_of_slash (toList_pathOf names), h.trim,
    normalize_pathOf h.steps]
  rfl

theorem StepsWithoutEndBlanks.of_mem_formNames (h : StepsWithoutEndBlanks names)
    {form : List String} (hform : form ∈ Resolver.formNames names) :
    StepsWithoutEndBlanks form := by
  refine ⟨Resolver.isStep_of_mem_formNames h.steps form hform, ?_⟩
  unfold Resolver.formNames at hform
  rw [List.mem_cons, List.mem_cons, List.mem_singleton] at hform
  rcases hform with rfl | rfl | rfl
  · exact h.ends
  · refine List.forall_mem_append.2
      ⟨fun name hname => h.ends name (List.dropLast_subset _ hname),
        List.forall_mem_singleton.2 ?_⟩
    have hend : ∀ last : String, (last ++ ".js").toList =
        (last.toList ++ ['.', 'j']) ++ ['s'] := fun last => by
      rw [String.toList_append, List.append_assoc]
      rfl
    exact (Text.trimEnd_eq_self_iff (hend _)).2 (by decide)
  · exact List.forall_mem_append.2 ⟨h.ends, List.forall_mem_singleton.2 (by decide)⟩

theorem StepsWithoutEndBlanks.index (h : StepsWithoutEndBlanks names) :
    StepsWithoutEndBlanks (names ++ ["index.js"]) :=
  h.of_mem_formNames (List.mem_cons_of_mem _ (List.mem_cons_of_mem _ List.mem_cons_self))

end QueryPath

namespace Resolver

open QueryPath

variable {r : Resolver} {t : FileTree} {specifier path raw : String}
  {referrer other : QueryPath} {names : List String} {res : Resolution}

/-! ## The names of what is looked for -/

/-- No blank ends a segment of what goes into a resolution: the specifier, the path of the
referrer, the directory of packages, and the entry of a package that is named. -/
structure AsksWithoutEndBlanks (r : Resolver) (t : FileTree) (specifier : String)
    (referrer : QueryPath) : Prop where
  specifier_ends : NoEndBlanks specifier
  referrer_ends : NoEndBlanks referrer.text
  dependencyDir_ends : NoEndBlanks r.dependencyDir
  entry_ends : NamesPackage specifier → ∀ entry,
    (r.description t (r.locationOf specifier referrer)).bind entryOf = some entry →
    NoEndBlanks entry

instance (r : Resolver) (t : FileTree) (specifier : String) (referrer : QueryPath) :
    Decidable (r.AsksWithoutEndBlanks t specifier referrer) :=
  decidable_of_iff (NoEndBlanks specifier ∧ NoEndBlanks referrer.text ∧
      NoEndBlanks r.dependencyDir ∧
      (NamesPackage specifier →
        ∀ entry ∈ (r.description t (r.locationOf specifier referrer)).bind entryOf,
          NoEndBlanks entry))
    ⟨fun h => ⟨h.1, h.2.1, h.2.2.1, h.2.2.2⟩, fun h => ⟨h.1, h.2, h.3, h.4⟩⟩

theorem noEndBlanks_directoryOf (h : NoEndBlanks referrer.text) :
    NoEndBlanks (directoryOf referrer) := by
  have hplace : NoEndBlanks referrer.withoutScheme := by
    unfold withoutScheme
    split
    · exact h.of_suffix (by rw [String.toList_ofList]; exact List.drop_suffix _ _)
    · exact h
  unfold directoryOf
  split
  · next dir last hcut =>
    have hjoin : referrer.withoutScheme = String.ofList dir ++ "/" ++ String.ofList last := by
      rw [← String.toList_inj, Text.cutLast_eq_some hcut]
      simp
    rw [hjoin] at hplace
    exact (noEndBlanks_join.1 hplace).1
  · intro seg hseg
    rw [List.mem_singleton.1 hseg]
    rfl

theorem AsksWithoutEndBlanks.exists_raw (h : r.AsksWithoutEndBlanks t specifier referrer) :
    ∃ raw, NoEndBlanks raw ∧ r.locationOf specifier referrer = normalize raw := by
  unfold locationOf
  split
  · exact ⟨_, noEndBlanks_join.2
      ⟨noEndBlanks_directoryOf h.referrer_ends, h.specifier_ends.trim⟩, rfl⟩
  · split
    · exact ⟨_, h.specifier_ends.trim, rfl⟩
    · exact ⟨_, noEndBlanks_join.2 ⟨h.dependencyDir_ends, h.specifier_ends.trim⟩, rfl⟩

/-- A path leads down by names that no blank ends. -/
def IsDownWithoutEndBlanks (path : String) : Prop :=
  ∃ names, StepsWithoutEndBlanks names ∧ LeadsDown path names

theorem isDownWithoutEndBlanks_of_mem_forms {place form : String} (h : IsPlace place names)
    (hnames : StepsWithoutEndBlanks names) (hform : form ∈ forms place) :
    IsDownWithoutEndBlanks form := by
  obtain ⟨down, hdown, hleads⟩ := exists_names_of_mem_forms h hform
  exact ⟨down, hnames.of_mem_formNames hdown, hleads⟩

theorem isDownWithoutEndBlanks_of_mem_forms_normalize (h : NoEndBlanks raw) {form : String}
    (hform : form ∈ forms (normalize raw)) : IsDownWithoutEndBlanks form := by
  obtain ⟨names, hnames, hraw⟩ := h.exists_names
  rw [hraw] at hform
  exact isDownWithoutEndBlanks_of_mem_forms (isPlace_pathOf hnames.steps) hnames hform

/-- A specifier is looked for in files whose names no blank ends. -/
theorem AsksWithoutEndBlanks.isDownWithoutEndBlanks_of_mem_filesFor
    (h : r.AsksWithoutEndBlanks t specifier referrer) {file : String}
    (hfile : file ∈ r.filesFor t specifier referrer) : IsDownWithoutEndBlanks file := by
  obtain ⟨raw, hraw, hlocation⟩ := h.exists_raw
  unfold filesFor at hfile
  split at hfile
  · next hpackage =>
    have hentry := h.entry_ends hpackage
    rw [hlocation] at hfile hentry
    rcases List.mem_append.1 hfile with hfile | hfile
    · split at hfile
      · next entry hnamed =>
        rw [normalize_join] at hfile
        exact isDownWithoutEndBlanks_of_mem_forms_normalize
          (noEndBlanks_join.2 ⟨hraw, hentry entry hnamed⟩) hfile
      · exact absurd hfile List.not_mem_nil
    · obtain ⟨names, hnames, hdown⟩ := hraw.exists_names
      rw [hdown] at hfile
      exact isDownWithoutEndBlanks_of_mem_forms (isPlace_index hnames.steps) hnames.index hfile
  · rw [hlocation] at hfile
    exact isDownWithoutEndBlanks_of_mem_forms_normalize hraw hfile

/-- A module that is missing is named by names that no blank ends, and was looked for in the
forms of its place. -/
theorem AsksWithoutEndBlanks.exists_isPlace (h : r.AsksWithoutEndBlanks t specifier referrer) :
    ∃ names, StepsWithoutEndBlanks names ∧ IsPlace (r.placeFor specifier referrer) names ∧
      ∀ form ∈ forms (r.placeFor specifier referrer),
        form ∈ r.filesFor t specifier referrer := by
  obtain ⟨raw, hraw, hlocation⟩ := h.exists_raw
  obtain ⟨names, hnames, hdown⟩ := hraw.exists_names
  unfold placeFor filesFor
  rw [hlocation, hdown]
  split
  · exact ⟨_, hnames.index, isPlace_index hnames.steps,
      fun form hform => List.mem_append_right _ hform⟩
  · exact ⟨_, hnames, isPlace_pathOf hnames.steps, fun form hform => hform⟩

/-! ## Names as specifiers -/

/-- A name is looked for at the path that it spells. -/
theorem answer_resolve_pathOf (h : StepsWithoutEndBlanks names) :
    (r.resolve (pathOf names) other).answer t =
    settle (pathOf names) ((forms (pathOf names)).find? (r.hasFile t)) := by
  have hslash : Text.startsWith (Text.trim (pathOf names)) "/" = true := by
    unfold Text.startsWith
    rw [h.trim, toList_pathOf]
    rfl
  have hdot : Text.startsWith (Text.trim (pathOf names)) "." = false := by
    unfold Text.startsWith
    rw [h.trim, toList_pathOf]
    rfl
  have hlocal : IsLocal (pathOf names) :=
    ⟨Text.trim_ne_empty (toList_pathOf names) (by decide), by
      rw [h.trim, schemeOf_eq_none (toList_pathOf names)]⟩
  have hplain : ¬NamesPackage (pathOf names) := fun hpackage => by
    rw [hpackage.not_rooted] at hslash
    cases hslash
  have hlocation : r.locationOf (pathOf names) other = pathOf names := by
    rw [locationOf, hdot, if_neg Bool.false_ne_true, if_pos hslash, h.trim,
      normalize_pathOf h.steps]
  rw [answer_resolve hlocal, placeFor, filesFor, if_neg hplain, if_neg hplain, hlocation]

/-- A module that is found is found again. -/
theorem resolve_pathOf_of_file (h : StepsWithoutEndBlanks names) (hdown : LeadsDown path names)
    (hfile : r.hasFile t path = true) :
    (r.resolve (pathOf names) other).answer t = some ⟨⟨pathOf names⟩, .found⟩ := by
  have hthere : r.hasFile t (pathOf names) = true := by rwa [← hasFile_congr hdown (.inl rfl)]
  rw [answer_resolve_pathOf h, forms, List.find?_cons_of_pos hthere, settle,
    h.ofText? (.inl rfl)]
  rfl

/-- A module that is missing is missing again. -/
theorem resolve_pathOf_of_none {place : String} (h : StepsWithoutEndBlanks names)
    (hplace : IsPlace place names) (hnone : ∀ form ∈ forms place, r.hasFile t form = false) :
    (r.resolve (pathOf names) other).answer t = some ⟨⟨pathOf names⟩, .missing⟩ := by
  have hforms : (forms (pathOf names)).find? (r.hasFile t) = none := by
    rw [List.find?_eq_none]
    intro form hform
    obtain ⟨down, hdown, hleads⟩ := exists_names_of_mem_forms (isPlace_pathOf h.steps) hform
    obtain ⟨same, hsame, hleads'⟩ := exists_form_of_mem_formNames hplace hdown
    rw [hasFile_congr hleads hleads', hnone same hsame]
    exact Bool.false_ne_true
  rw [answer_resolve_pathOf h, hforms, settle, h.ofText? (.inl rfl)]
  rfl

theorem resolve_of_scheme (h : (schemeOf (Text.trim specifier)).isSome = true) :
    (r.resolve specifier referrer).answer t = some ⟨⟨Text.trim specifier⟩, .remote⟩ := by
  have hblank : Text.trim specifier ≠ "" := by
    intro hblank
    rw [hblank] at h
    cases h
  unfold resolve ofText? ofText
  dsimp only
  rw [if_neg hblank, if_pos h, Text.trim_trim, if_neg hblank, if_pos h]
  rfl

/-- What a specifier is resolved to is resolved to itself. -/
theorem resolve_again (h : r.AsksWithoutEndBlanks t specifier referrer)
    (hres : (r.resolve specifier referrer).answer t = some res) :
    (r.resolve res.path.text other).answer t = some res := by
  have hblank : Text.trim specifier ≠ "" := fun hblank => by
    rw [resolve_eq_none_iff.2 hblank] at hres
    cases hres
  cases hscheme : schemeOf (Text.trim specifier) with
  | some scheme =>
    have hremote : (schemeOf (Text.trim specifier)).isSome = true := by
      rw [hscheme, Option.isSome_some]
    rw [resolve_of_scheme hremote] at hres
    rw [← Option.some.inj hres]
    dsimp only
    rw [resolve_of_scheme (by rwa [Text.trim_trim]), Text.trim_trim]
  | none =>
    rw [answer_resolve ⟨hblank, hscheme⟩] at hres
    cases hfound : (r.filesFor t specifier referrer).find? (r.hasFile t) with
    | some file =>
      -- The file is the first form of its name, whatever form of the location it was.
      obtain ⟨names, hnames, hdown⟩ :=
        h.isDownWithoutEndBlanks_of_mem_filesFor (List.mem_of_find?_eq_some hfound)
      rw [hfound, settle, hnames.ofText? hdown] at hres
      rw [← Option.some.inj hres]
      exact resolve_pathOf_of_file hnames hdown (List.find?_some hfound)
    | none =>
      -- The forms of the name are among the files that were not there.
      obtain ⟨names, hnames, hplace, hforms⟩ := h.exists_isPlace
      rw [hfound, settle, hnames.ofText? hplace.leadsDown] at hres
      rw [← Option.some.inj hres]
      refine resolve_pathOf_of_none hnames hplace fun form hform => ?_
      exact eq_false_of_ne_true (List.find?_eq_none.1 hfound form (hforms form hform))

end Resolver

/-! ## Rewritten references -/

namespace Script

variable {resolve resolve' : String → Option Resolution} {source rewritten : String}

/-- Nothing is rewritten in a source whose specifiers are names of their modules. -/
theorem linkedCode_eq_self
    (h : ∀ specifier ∈ (Cuts.of source).specifiers, linkedName resolve specifier = specifier) :
    linkedCode resolve source = source := by
  have hparts : ∀ part ∈ (Cuts.of source).parts,
      part.1 ++ written resolve part.2 = part.1 ++ id part.2 := by
    intro part hpart
    have hname := h _ (List.mem_map_of_mem hpart)
    rw [← written_eq, String.ofList_inj] at hname
    rw [hname, id]
  have htext : (Cuts.of source).textWith (written resolve) = (Cuts.of source).text := by
    unfold Cuts.text Cuts.textWith
    rw [List.flatMap_congr hparts]
  rw [linkedCode, htext, Cuts.text_of, String.ofList_toList]

/-- A source whose specifiers are resolved as those of another one requires the same. -/
theorem requirements_congr
    (hspecifiers : (Cuts.of rewritten).specifiers =
      (Cuts.of source).specifiers.map (linkedName resolve))
    (hagain : ∀ specifier ∈ (Cuts.of source).specifiers,
      resolve' (linkedName resolve specifier) = resolve specifier) :
    requirements resolve' rewritten = requirements resolve source := by
  unfold requirements
  rw [hspecifiers, List.filterMap_map]
  exact congrArg _ (List.filterMap_congr hagain)

end Script

namespace Resolver

open Script

variable {r : Resolver} {t : FileTree} {specifier : String} {referrer other : QueryPath}
  {request again : CompileRequest} {source rewritten : String}

theorem resolve_nameIn
    (h : Text.trim specifier ≠ "" → r.AsksWithoutEndBlanks t specifier referrer) :
    (r.resolve (r.nameIn t referrer specifier) other).answer t =
      (r.resolve specifier referrer).answer t := by
  cases hres : (r.resolve specifier referrer).answer t with
  | none =>
    have hname : r.nameIn t referrer specifier = specifier := by
      simp only [nameIn, linkedName, hres]
    rw [hname, resolve_eq_none_iff, ← resolve_eq_none_iff, hres]
  | some res =>
    have hblank : Text.trim specifier ≠ "" := fun hblank => by
      rw [resolve_eq_none_iff.2 hblank] at hres
      cases hres
    have hname : r.nameIn t referrer specifier = res.path.text := by
      simp only [nameIn, linkedName, hres]
    rw [hname]
    exact resolve_again (h hblank) hres

section Rewritten

variable (hplain : ∀ specifier ∈ (Cuts.of source).specifiers, Text.trim specifier ≠ "" →
    r.AsksWithoutEndBlanks t specifier request.path)
  (hspecifiers : (Cuts.of rewritten).specifiers =
    (Cuts.of source).specifiers.map (r.nameIn t request.path))
include hplain hspecifiers

/-- What a rewritten script requires is what the script requires. -/
theorem requirements_rewritten (other : QueryPath) :
    requirements (fun specifier => (r.resolve specifier other).answer t) rewritten =
      requirements (fun specifier => (r.resolve specifier request.path).answer t) source :=
  requirements_congr hspecifiers fun specifier hspecifier =>
    resolve_nameIn (hplain specifier hspecifier)

/-- A rewritten script is not rewritten any more. -/
theorem linkedCode_rewritten (other : QueryPath) :
    linkedCode (fun specifier => (r.resolve specifier other).answer t) rewritten =
      rewritten := by
  refine linkedCode_eq_self fun name hname => ?_
  rw [hspecifiers] at hname
  obtain ⟨specifier, hspecifier, rfl⟩ := List.mem_map.1 hname
  have hagain : (r.resolve (r.nameIn t request.path specifier) other).answer t =
      (r.resolve specifier request.path).answer t :=
        resolve_nameIn (hplain specifier hspecifier)
  unfold linkedName
  dsimp only
  rw [hagain]
  cases hres : (r.resolve specifier request.path).answer t with
  | none => rfl
  | some res => exact (nameIn_of_some hres).symm

end Rewritten

/-- **What was resolved is resolved to itself.**  If no blank ends a segment of what goes into a
resolution, the name of its module is resolved to the same module from everywhere.  So a script
whose references are the names of the modules that those of another script are resolved to
requires the same modules, and found the same.  The code of the module is such a script if no
name holds a quote, and compiling it again leaves it as it is. -/
theorem resolution_idempotent (r : Resolver) (t : FileTree) :
    (∀ specifier referrer res, r.AsksWithoutEndBlanks t specifier referrer →
      (r.resolve specifier referrer).answer t = some res →
      ∀ other, (r.resolve res.path.text other).answer t = some res) ∧
    ∀ request source, (∀ reference ∈ references source, Text.trim reference.specifier ≠ "" →
        r.AsksWithoutEndBlanks t reference.specifier request.path) →
      let m := r.scriptModule t request source
      (∀ again rewritten, (references rewritten).map Reference.specifier =
          (references source).map
            (fun reference => r.nameIn t request.path reference.specifier) →
        (r.scriptModule t again rewritten).requires = m.requires ∧
          (r.scriptModule t again rewritten).requiresOrigin = m.requiresOrigin) ∧
      (QuoteFree m.requires → ∀ again,
        (r.scriptModule t again m.code).requires = m.requires ∧
          (r.scriptModule t again m.code).requiresOrigin = m.requiresOrigin ∧
            (r.scriptModule t again m.code).code = m.code) := by
  refine ⟨fun specifier referrer res hplain hres other => resolve_again hplain hres,
    fun request source hplain => ?_⟩
  have hspecifiers : ∀ specifier ∈ (Cuts.of source).specifiers, Text.trim specifier ≠ "" →
      r.AsksWithoutEndBlanks t specifier request.path := by
    intro specifier hspecifier
    rw [← map_specifier_references] at hspecifier
    obtain ⟨reference, hreference, rfl⟩ := List.mem_map.1 hspecifier
    exact hplain reference hreference
  refine ⟨fun again rewritten hnames => ?_, fun hfree again => ?_⟩
  · have hrewritten : (Cuts.of rewritten).specifiers =
        (Cuts.of source).specifiers.map (r.nameIn t request.path) := by
      rw [← map_specifier_references, hnames, ← map_specifier_references, List.map_map]
      rfl
    have hsame := requirements_rewritten hspecifiers hrewritten again.path
    exact ⟨congrArg Requirements.paths hsame, congrArg Requirements.origins hsame⟩
  · have hrewritten := specifiers_scriptModule hfree
    have hsame := requirements_rewritten hspecifiers hrewritten again.path
    exact ⟨congrArg Requirements.paths hsame, congrArg Requirements.origins hsame,
      linkedCode_rewritten hspecifiers hrewritten again.path⟩

/-- A project with a script and a package. -/
def packageTree : FileTree where
  entries := [
    (["project", "src", "x.js"], .file (Text.encode "")),
    (["project", "node_modules", "pkg", "package.json"],
      .file (Text.encode "\x7b\"main\": \"lib\\\\m\"\x7d")),
    (["project", "node_modules", "pkg", "lib", "m.js"], .file (Text.encode ""))]
  faults := []

/-- A script that refers to another one, to the entry of a package, to what is remote and to
what is missing. -/
theorem package_references_resolved_once :
    let r := Resolver.of ⟨"/project"⟩ "node_modules"
    let m := r.scriptModule packageTree (.of ⟨"/src/app.js"⟩)
      "require('./x') + require('pkg') + require(\"cdn:y\") + require('../lib')"
    m.requires = [⟨"/src/x.js"⟩, ⟨"/node_modules/pkg/lib/m.js"⟩, ⟨"cdn:y"⟩, ⟨"/lib"⟩] ∧
      ∀ again, (r.scriptModule packageTree again m.code).requires = m.requires := by
  intro r m
  have hplain : ∀ reference ∈ references
      "require('./x') + require('pkg') + require(\"cdn:y\") + require('../lib')",
      Text.trim reference.specifier ≠ "" → r.AsksWithoutEndBlanks packageTree
        reference.specifier ⟨"/src/app.js"⟩ := by
    decide +kernel
  have hrequires : m.requires =
      [⟨"/src/x.js"⟩, ⟨"/node_modules/pkg/lib/m.js"⟩, ⟨"cdn:y"⟩, ⟨"/lib"⟩] := by
    decide +kernel
  have hquotes : (m.requires.all fun name => name.text.toList.all fun c => !isQuote c) =
      true := by
    rw [hrequires]
    decide
  have hfree : QuoteFree m.requires := by
    simpa only [QuoteFree, List.all_eq_true, Bool.not_eq_true'] using hquotes
  have hagain :=
    ((resolution_idempotent r packageTree).2 (.of ⟨"/src/app.js"⟩) _ hplain).2 hfree
  exact ⟨hrequires, fun again => (hagain again).1⟩

/-- The quote in the name of a directory ends the literal: the code of the module requires
nothing. -/
theorem quoted_reference_required_once :
    let r := Resolver.of ⟨"/project"⟩ "node_modules"
    let m := r.scriptModule quotedTree (.of ⟨"/it's/app.js"⟩) "var x = require('./x');"
    r.AsksWithoutEndBlanks quotedTree "./x" ⟨"/it's/app.js"⟩ ∧ m.requires = [⟨"/it's/x.js"⟩] ∧
      (r.scriptModule quotedTree (.of ⟨"/it's/app.js"⟩) m.code).requires = [] := by
  decide +kernel

end Resolver

end WebBundler
