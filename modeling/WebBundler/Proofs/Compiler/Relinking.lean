import WebBundler.Proofs.Compiler.Standard
import WebBundler.Proofs.Script.Calls
set_option autoImplicit false

/-!
# Reading back the code of a script

The specifiers of a script are replaced by the paths that they were resolved to, as they are,
between the quotes of the source.  A path has neither a blank nor a bracket at its start, so the
replacements make no call of their own, and the references of the code are the paths, unless one
of them holds a quote.  Such a path cannot be read back (`linked_references_iff`).
-/

namespace WebBundler

/-! ## Names -/

namespace QueryPath

theorem isBlank_of_isSchemeChar {c : Char} (h : isSchemeChar c = true) :
    Text.isBlank c = false := by
  have hbounds : ∀ {low high : UInt32}, 48 ≤ low.toNat → high.toNat ≤ 122 →
      low ≤ c.val ∧ c.val ≤ high →
      48 ≤ c.toNat ∧ c.toNat ≤ 122 := fun hlow hhigh hc =>
    ⟨Nat.le_trans hlow (UInt32.le_iff_toNat_le.1 hc.1),
      Nat.le_trans (UInt32.le_iff_toNat_le.1 hc.2) hhigh⟩
  have hrange : 48 ≤ c.toNat ∧ c.toNat ≤ 122 := by
    unfold isSchemeChar Char.isAlphanum Char.isAlpha Char.isUpper Char.isLower Char.isDigit at h
    simp only [Bool.or_eq_true, Bool.and_eq_true, decide_eq_true_eq, beq_iff_eq] at h
    rcases h with ((hupper | hlower) | hdigit) | rfl
    · exact hbounds (by decide) (by decide) hupper
    · exact hbounds (by decide) (by decide) hlower
    · exact hbounds (by decide) (by decide) hdigit
    · decide
  unfold Text.isBlank
  simp only [Bool.or_eq_false_iff, Bool.and_eq_false_iff, decide_eq_false_iff_not,
    beq_eq_false_iff_ne]
  omega

/-- A name begins neither with a blank nor with a bracket. -/
theorem holds_of_ofText? {s : String} {name : QueryPath} (h : ofText? s = some name) :
    Script.Holds name.text.toList := by
  unfold ofText? ofText at h
  dsimp only at h
  split at h
  · cases h
  · split at h
    · next hscheme =>
      cases h
      unfold schemeOf at hscheme
      split at hscheme
      · next scheme rest hcut =>
        split at hscheme
        · next hall =>
          obtain ⟨hsplit, -⟩ := Text.cutFirst_eq_some hcut
          rw [hsplit]
          cases scheme with
          | nil => cases hall
          | cons c scheme =>
            have hchar : isSchemeChar c = true := by
              simp only [List.all_cons, Bool.and_eq_true] at hall
              exact hall.2.1
            refine ⟨c, _, rfl, isBlank_of_isSchemeChar hchar, ?_⟩
            rintro rfl
            cases hchar
        · cases hscheme
      · cases hscheme
    · have hname : QueryPath.mk (normalize (Text.trim s)) = name := Option.some.inj h
      obtain ⟨rest, hrest⟩ := exists_toList_normalize (Text.trim s)
      rw [← hname]
      dsimp only
      rw [hrest]
      exact ⟨'/', rest, rfl, by decide, by decide⟩

theorem exists_ofText? {s : String} (h : Text.trim s ≠ "") : ∃ name, ofText? s = some name := by
  unfold ofText? ofText
  dsimp only
  rw [if_neg h]
  split
  · exact ⟨_, rfl⟩
  · exact ⟨_, rfl⟩

end QueryPath

namespace Resolver

open QueryPath

variable {r : Resolver} {t : FileTree} {place specifier : String} {referrer : QueryPath}

/-- A module is named. -/
def Names (found : Option Resolution) : Prop :=
  ∃ res s, found = some res ∧ ofText? s = some res.path

theorem names_settle {found : Option String} (hplace : Text.trim place ≠ "")
    (hfound : ∀ file, found = some file → Text.trim file ≠ "") :
    Names (settle place found) := by
  cases found with
  | none =>
    obtain ⟨name, hname⟩ := exists_ofText? hplace
    exact ⟨⟨name, .missing⟩, place, by rw [settle, hname]; rfl, hname⟩
  | some file =>
    obtain ⟨name, hname⟩ := exists_ofText? (hfound file rfl)
    exact ⟨⟨name, .found⟩, file, by rw [settle, hname]; rfl, hname⟩

theorem trim_ne_empty_of_mem_forms {rest : List Char} (hplace : place.toList = '/' :: rest)
    {file : String} (h : file ∈ forms place) : Text.trim file ≠ "" := by
  have hblank : Text.isBlank '/' = false := by decide
  unfold forms at h
  rw [List.mem_cons, List.mem_cons, List.mem_singleton] at h
  rcases h with rfl | rfl | rfl
  · exact Text.trim_ne_empty hplace hblank
  · have hchars : (place ++ ".js").toList = '/' :: (rest ++ ".js".toList) := by
      rw [String.toList_append, hplace]
      rfl
    exact Text.trim_ne_empty hchars hblank
  · obtain ⟨more, hmore⟩ := Text.dropEnd_prefix (· == '/') place.toList
    unfold Text.trimEndChar
    cases hkept : Text.dropEnd (· == '/') place.toList with
    | nil =>
      have hchars : (String.ofList [] ++ "/index.js").toList = '/' :: "index.js".toList := by
        simp
      exact Text.trim_ne_empty hchars hblank
    | cons c kept =>
      rw [hkept, hplace] at hmore
      obtain ⟨rfl, -⟩ := List.cons_eq_cons.1 hmore
      have hchars : (String.ofList ('/' :: kept) ++ "/index.js").toList =
          '/' :: (kept ++ "/index.js".toList) := by simp
      exact Text.trim_ne_empty hchars hblank

theorem names_resolvePlace {rest : List Char} (hplace : place.toList = '/' :: rest) :
    Names ((r.resolvePlace place).answer t) := by
  refine names_settle (Text.trim_ne_empty hplace (by decide)) fun file hfile => ?_
  exact trim_ne_empty_of_mem_forms hplace (mem_of_firstFile hfile).1

theorem names_resolveNormal (raw : String) :
    Names ((r.resolvePlace (normalize raw)).answer t) := by
  obtain ⟨rest, hrest⟩ := exists_toList_normalize raw
  exact names_resolvePlace hrest

theorem names_resolveIndex (raw : String) :
    Names ((r.resolvePlace (normalize raw ++ "/index.js")).answer t) := by
  obtain ⟨rest, hrest⟩ := exists_toList_normalize raw
  have hplace : (normalize raw ++ "/index.js").toList =
      '/' :: (rest ++ "/index.js".toList) := by
    rw [String.toList_append, hrest]
    rfl
  exact names_resolvePlace hplace

theorem names_resolvePackage : Names ((r.resolvePackage specifier).answer t) := by
  unfold resolvePackage
  dsimp only
  split
  · unfold resolveEntry
    rw [Lookup.answer_bind]
    split
    · rw [Lookup.answer_bind]
      split
      · next file hfile =>
        rw [Lookup.answer_pure]
        obtain ⟨rest, hrest⟩ := exists_toList_normalize _
        have hblank := trim_ne_empty_of_mem_forms hrest (mem_of_firstFile hfile).1
        refine names_settle (Text.trim_ne_empty hrest (by decide)) fun found hfound => ?_
        rwa [← Option.some.inj hfound]
      · exact names_resolveIndex _
    · exact names_resolveIndex _
  · exact names_resolveNormal _

theorem names_resolve (hspecifier : Text.trim specifier ≠ "") :
    Names ((r.resolve specifier referrer).answer t) := by
  unfold resolve
  dsimp only
  rw [if_neg hspecifier]
  split
  · rw [Lookup.answer_pure]
    obtain ⟨c, rest, hchars, hc⟩ := (Text.trim_cases specifier).resolve_left hspecifier
    obtain ⟨name, hname⟩ := exists_ofText? (Text.trim_ne_empty hchars hc)
    exact ⟨⟨name, .remote⟩, _, by rw [hname]; rfl, hname⟩
  · split
    · exact names_resolveNormal _
    · split
      · exact names_resolveNormal _
      · exact names_resolvePackage

theorem resolve_eq_none_iff :
    (r.resolve specifier referrer).answer t = none ↔ Text.trim specifier = "" := by
  constructor
  · intro hnone
    by_contra hspecifier
    obtain ⟨res, _, hres, -⟩ := names_resolve hspecifier
    rw [hnone] at hres
    cases hres
  · intro hblank
    unfold resolve
    dsimp only
    rw [if_pos hblank]
    rfl

/-- What a specifier is resolved to begins neither with a blank nor with a bracket. -/
theorem holds_of_resolve {res : Resolution}
    (h : (r.resolve specifier referrer).answer t = some res) :
    Script.Holds res.path.text.toList := by
  have hspecifier : Text.trim specifier ≠ "" := fun hblank => by
    rw [resolve_eq_none_iff.2 hblank] at h
    cases h
  obtain ⟨_, _, hres, hname⟩ := names_resolve hspecifier
  rw [h] at hres
  cases hres
  exact holds_of_ofText? hname

end Resolver

/-! ## The references of the code -/

namespace Script

theorem map_specifier_references (source : String) :
    (references source).map Reference.specifier = (Cuts.of source).specifiers := by
  unfold references Cuts.specifiers
  generalize (Cuts.of source).parts = parts
  generalize (0 : Nat) = offset
  induction parts generalizing offset with
  | nil => rfl
  | cons part parts ih =>
    obtain ⟨before, specifier⟩ := part
    rw [locate, List.map_cons, List.map_cons]
    dsimp only
    rw [ih]

theorem no_quote_of_mem_specifiers {source specifier : String}
    (h : specifier ∈ (Cuts.of source).specifiers) :
    ∀ c ∈ specifier.toList, isQuote c = false := by
  obtain ⟨part, hpart, rfl⟩ := List.mem_map.1 h
  rw [String.toList_ofList]
  exact (Cuts.isSpecifier_of_mem_scan none source.toList part.2
    (List.mem_map_of_mem hpart)).no_quote

/-- The name that a specifier is resolved to, or the specifier itself if it is resolved to
none. -/
def linkedName (resolve : String → Option Resolution) (specifier : String) : String :=
  match resolve specifier with
  | some res => res.path.text
  | none => specifier

theorem written_eq (resolve : String → Option Resolution) (specifier : List Char) :
    String.ofList (written resolve specifier) =
      linkedName resolve (String.ofList specifier) := by
  unfold written linkedName
  cases resolve (String.ofList specifier) with
  | none => rfl
  | some res => exact String.ofList_toList

section Linked

variable {resolve : String → Option Resolution} {source : String}
  (hresolve : ∀ specifier res, resolve specifier = some res → Holds res.path.text.toList)
include hresolve

/-- If no name holds a quote, the specifiers of the code are the names. -/
theorem specifiers_linkedCode
    (hnames : ∀ specifier ∈ (Cuts.of source).specifiers, ∀ res, resolve specifier = some res →
      ∀ c ∈ res.path.text.toList, isQuote c = false) :
    (Cuts.of (linkedCode resolve source)).specifiers =
      (Cuts.of source).specifiers.map (linkedName resolve) := by
  have hwrite : ∀ specifier ∈ (Cuts.scan none source.toList).parts.map Prod.snd,
      Cuts.Replaces (written resolve) specifier := by
    intro specifier hspecifier
    have hmem : String.ofList specifier ∈ (Cuts.of source).specifiers := by
      obtain ⟨part, hpart, rfl⟩ := List.mem_map.1 hspecifier
      exact List.mem_map_of_mem hpart
    unfold Cuts.Replaces written
    split
    · next res hres =>
      have hholds := hresolve _ res hres
      refine .inr ⟨⟨?_, hnames _ hmem res hres⟩, hholds⟩
      obtain ⟨c, rest, hchars, -⟩ := hholds
      rw [hchars]
      exact List.cons_ne_nil c rest
    · exact .inl rfl
  have hscan := Cuts.scan_textWith none source.toList hwrite
  unfold linkedCode Cuts.of Cuts.specifiers
  rw [String.toList_ofList, hscan, Cuts.mapSpecifiers, List.map_map, List.map_map]
  apply List.map_congr_left
  intro part _
  exact written_eq resolve part.2

end Linked

/-! ## What is required -/

theorem mem_foldl_addNew {α : Type} [BEq α] [LawfulBEq α] {items more : List α} {a : α} :
    a ∈ more.foldl addNew items ↔ a ∈ items ∨ a ∈ more := by
  induction more generalizing items with
  | nil => simp
  | cons item more ih => rw [List.foldl_cons, ih, mem_addNew, List.mem_cons, or_assoc]

theorem map_text_foldl_addNew (paths more : List QueryPath) :
    (more.foldl addNew paths).map QueryPath.text =
      (more.map QueryPath.text).foldl addNew (paths.map QueryPath.text) := by
  induction more generalizing paths with
  | nil => rfl
  | cons path more ih =>
    have hmem : path.text ∈ paths.map QueryPath.text ↔ path ∈ paths := by
      rw [List.mem_map]
      refine ⟨fun ⟨other, hother, hsame⟩ => ?_, fun hpath => ⟨path, hpath, rfl⟩⟩
      obtain ⟨text⟩ := path
      obtain ⟨_⟩ := other
      cases hsame
      exact hother
    have hadd : (addNew paths path).map QueryPath.text =
        addNew (paths.map QueryPath.text) path.text := by
      unfold addNew
      by_cases hpath : path ∈ paths
      · rw [if_pos (List.contains_iff_mem.2 hpath),
          if_pos (List.contains_iff_mem.2 (hmem.2 hpath))]
      · rw [if_neg (mt List.contains_iff_mem.1 hpath),
          if_neg (mt List.contains_iff_mem.1 (mt hmem.1 hpath)), List.map_append]
        rfl
    rw [List.foldl_cons, ih, hadd, List.map_cons, List.foldl_cons]

theorem paths_foldl_add (found : List Resolution) (known : Requirements) :
    (found.foldl Requirements.add known).paths =
      (found.map Resolution.path).foldl addNew known.paths := by
  induction found generalizing known with
  | nil => rfl
  | cons res found ih =>
    rw [List.foldl_cons, ih, List.map_cons, List.foldl_cons]
    rfl

/-- A script requires the names that its specifiers are resolved to, each once. -/
theorem paths_requirements (resolve : String → Option Resolution) (source : String) :
    (requirements resolve source).paths =
      (((Cuts.of source).specifiers.filterMap resolve).map Resolution.path).foldl addNew [] :=
  paths_foldl_add _ _

/-- The specifiers of a source that are not blank, each once. -/
def readable (source : String) : List String :=
  (((references source).map Reference.specifier).filter fun specifier =>
    Text.trim specifier ≠ "").foldl addNew []

/-- No name holds a quote. -/
def QuoteFree (names : List QueryPath) : Prop :=
  ∀ name ∈ names, ∀ c ∈ name.text.toList, isQuote c = false

end Script

namespace Resolver

open Script

variable (r : Resolver) (t : FileTree) (request : CompileRequest) (source : String)

/-- The module that the standard compiler makes of a script. -/
def scriptModule : Module :=
  Compiler.script (fun specifier => (r.resolve specifier request.path).answer t) request source

/-- The name that a specifier is resolved to in a tree; a blank one stays as it is. -/
def nameIn (referrer : QueryPath) (specifier : String) : String :=
  linkedName (fun specifier => (r.resolve specifier referrer).answer t) specifier

variable {r t request source}

/-- What a script requires is what its specifiers are resolved to. -/
theorem mem_requires_scriptModule {name : QueryPath} :
    name ∈ (r.scriptModule t request source).requires ↔
      ∃ specifier ∈ (Cuts.of source).specifiers,
      ∃ res, (r.resolve specifier request.path).answer t = some res ∧ res.path = name := by
  unfold scriptModule Compiler.script
  dsimp only
  rw [paths_requirements, mem_foldl_addNew, List.mem_map]
  constructor
  · rintro (hnone | ⟨res, hres, hname⟩)
    · exact absurd hnone List.not_mem_nil
    · obtain ⟨specifier, hspecifier, hfound⟩ := List.mem_filterMap.1 hres
      exact ⟨specifier, hspecifier, res, hfound, hname⟩
  · rintro ⟨specifier, hspecifier, res, hfound, hname⟩
    exact .inr ⟨res, List.mem_filterMap.2 ⟨specifier, hspecifier, hfound⟩, hname⟩

theorem nameIn_of_some {specifier : String} {res : Resolution}
    (h : (r.resolve specifier request.path).answer t = some res) :
    r.nameIn t request.path specifier = res.path.text := by
  simp only [nameIn, linkedName, h]

theorem nameIn_of_none {specifier : String}
    (h : (r.resolve specifier request.path).answer t = none) :
    r.nameIn t request.path specifier = specifier := by
  simp only [nameIn, linkedName, h]

/-- The names that are not blank are those of the modules. -/
theorem filter_nameIn (specifiers : List String) :
    ((specifiers.map (r.nameIn t request.path)).filter fun specifier =>
      Text.trim specifier ≠ "") =
      ((specifiers.filterMap fun specifier => (r.resolve specifier request.path).answer t).map
        Resolution.path).map QueryPath.text := by
  induction specifiers with
  | nil => rfl
  | cons specifier specifiers ih =>
    rw [List.map_cons]
    cases hres : (r.resolve specifier request.path).answer t with
    | none =>
      simp only [List.filterMap_cons, hres]
      rw [nameIn_of_none hres, ← ih, List.filter_cons_of_neg]
      simpa using resolve_eq_none_iff.1 hres
    | some res =>
      obtain ⟨c, rest, hchars, hblank, -⟩ := holds_of_resolve hres
      simp only [List.filterMap_cons, hres]
      rw [nameIn_of_some hres, List.map_cons, List.map_cons, ← ih, List.filter_cons_of_pos]
      simpa using Text.trim_ne_empty hchars hblank

/-- The specifiers of the code are the names that those of the source are resolved to, if none
holds a quote. -/
theorem specifiers_scriptModule (h : QuoteFree (r.scriptModule t request source).requires) :
    (Cuts.of (r.scriptModule t request source).code).specifiers =
      (Cuts.of source).specifiers.map (r.nameIn t request.path) :=
  specifiers_linkedCode (fun _ _ hres => holds_of_resolve hres)
      fun specifier hspecifier res hres =>
    h res.path (mem_requires_scriptModule.2 ⟨specifier, hspecifier, res, hres, rfl⟩)

/-- The code of a script refers to what its specifiers are resolved to, in the order of the
source, and so to what it requires, exactly if none of this holds a quote. -/
theorem linked_references_iff (r : Resolver) (t : FileTree) (request : CompileRequest)
    (source : String) :
    ((references (r.scriptModule t request source).code).map Reference.specifier =
        (references source).map (fun reference => r.nameIn t request.path reference.specifier) ↔
      QuoteFree (r.scriptModule t request source).requires) ∧
    (readable (r.scriptModule t request source).code =
        (r.scriptModule t request source).requires.map QueryPath.text ↔
      QuoteFree (r.scriptModule t request source).requires) ∧
    ∀ specifier, (r.resolve specifier request.path).answer t = none ↔
    Text.trim specifier = "" := by
  have hnames : (references source).map
      (fun reference => r.nameIn t request.path reference.specifier) =
      (Cuts.of source).specifiers.map (r.nameIn t request.path) := by
    rw [← map_specifier_references, List.map_map]
    rfl
  rw [hnames, readable, map_specifier_references]
  refine ⟨⟨fun hread name hname => ?_, specifiers_scriptModule⟩,
    ⟨fun hread name hname => ?_, fun hfree => ?_⟩, fun specifier => resolve_eq_none_iff⟩
  · obtain ⟨specifier, hspecifier, res, hres, rfl⟩ := mem_requires_scriptModule.1 hname
    have hmem : res.path.text ∈
        (Cuts.of (r.scriptModule t request source).code).specifiers := by
      rw [hread, ← nameIn_of_some hres]
      exact List.mem_map_of_mem hspecifier
    exact no_quote_of_mem_specifiers hmem
  · have hmem := List.mem_map_of_mem (f := QueryPath.text) hname
    rw [← hread, mem_foldl_addNew] at hmem
    exact no_quote_of_mem_specifiers (List.mem_filter.1 (hmem.resolve_left List.not_mem_nil)).1
  · rw [specifiers_scriptModule hfree, filter_nameIn]
    unfold scriptModule Compiler.script
    dsimp only
    rw [paths_requirements, map_text_foldl_addNew]
    rfl

/-- A project in whose directory `it's` two scripts lie. -/
def quotedTree : FileTree where
  entries := [
    (["project", "it's", "app.js"], .file (Text.encode "var x = require('./x');")),
    (["project", "it's", "x.js"], .file (Text.encode ""))]
  faults := []

/-- The quote in the name of a directory ends the literal in the code: the module is required,
and nothing can be read back. -/
theorem quoted_directory_unreadable :
    let m :=
      (Resolver.of ⟨"/project"⟩ "node_modules").scriptModule quotedTree (.of ⟨"/it's/app.js"⟩)
      "var x = require('./x');"
    m.requires = [⟨"/it's/x.js"⟩] ∧ m.code = "var x = require('/it's/x.js');" ∧
    references m.code = [] := by
  decide +kernel

end Resolver

end WebBundler
