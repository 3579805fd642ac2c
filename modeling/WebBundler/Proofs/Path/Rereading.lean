import Mathlib.Data.List.Flatten
import WebBundler.Module
import WebBundler.Proofs.Json.RoundTrip
import WebBundler.Proofs.Path.Containment
set_option autoImplicit false

/-!
# Written names are read again

A name is written as its text, and read by trimming a text and making it canonical.  The text of
a name is canonical already, but a blank may end it: cleaning drops the last slash of `a /`,
which kept the blank before it from being trimmed.  Such a text is read as the name of another
module, because cleaning makes no text longer (`length_normalize_le`).  All other names are read
back, and with them the records of modules (`written_read_back_iff`).
-/

namespace WebBundler

namespace Text

theorem trimEnd_trim (s : String) : trimEnd (trim s) = trim s := by
  unfold trimEnd trim strip
  rw [String.toList_ofList, dropEnd_dropEnd]

theorem trim_eq_trimEnd {s : String} {c : Char} {rest : List Char} (h : s.toList = c :: rest)
    (hc : isBlank c = false) : trim s = trimEnd s := by
  unfold trim trimEnd strip
  rw [h, dropStart_eq_self hc]

@[simp] theorem trim_trim (s : String) : trim (trim s) = trim s := by
  rcases trim_cases s with hempty | ⟨c, rest, hchars, hc⟩
  · rw [hempty]
    rfl
  · rw [trim_eq_trimEnd hchars hc, trimEnd_trim]

/-- A text that is no shorter without its trailing blanks has none. -/
theorem trimEnd_eq_self {s : String} (h : s.toList.length ≤ (trimEnd s).toList.length) :
    trimEnd s = s := by
  have hfront : (trimEnd s).toList <+: s.toList := by
    unfold trimEnd
    rw [String.toList_ofList]
    exact dropEnd_prefix _ _
  exact String.toList_inj.1 (hfront.eq_of_length_le h)

end Text

namespace QueryPath

/-! ## Cleaning makes no text longer -/

theorem toList_pathOf_cons (name : String) (names : List String) :
    (pathOf (name :: names)).toList = (name :: names).flatMap fun step =>
      '/' :: step.toList := by
  induction names generalizing name with
  | nil => rw [toList_pathOf, String.intercalate_singleton, List.flatMap_singleton]
  | cons next names ih =>
    have hnext := ih next
    rw [toList_pathOf] at hnext
    rw [toList_pathOf, String.intercalate_cons_cons, List.flatMap_cons, ← hnext]
    simp

theorem pathOf_sublist {names more : List String} (h : names.Sublist more) :
    (pathOf names).toList.Sublist (pathOf more).toList := by
  cases names with
  | nil =>
    rw [toList_pathOf more]
    exact (List.nil_sublist _).cons_cons '/'
  | cons name names =>
    cases more with
    | nil => cases h
    | cons other more =>
      rw [toList_pathOf_cons, toList_pathOf_cons]
      exact h.flatMap _

theorem length_normalize_le {s : String} {rest : List Char} (h : s.toList = '/' :: rest) :
    (normalize s).toList.length ≤ s.toList.length := by
  obtain ⟨below, hbelow⟩ : ∃ below, Text.replaceChar '\\' '/' s = "" ++ "/" ++ below := by
    refine ⟨String.ofList (rest.map fun c => if c = '\\' then '/' else c), ?_⟩
    rw [Text.replaceChar, h, ← String.toList_inj]
    simp
  obtain ⟨names, hnames, hsublist, hnormal⟩ := exists_normalize_sublist s
  have hsegments : HostPath.segments ("" ++ "/" ++ below) = "" :: HostPath.segments below :=
    HostPath.segments_append_cons "" below
  rw [hbelow, hsegments] at hsublist
  have hpath : pathOf (HostPath.segments below) = Text.replaceChar '\\' '/' s := by
    rw [pathOf, HostPath.intercalate_segments, hbelow, String.empty_append]
  have hlength := (pathOf_sublist (sublist_of_cons_empty hnames hsublist)).length_le
  rw [hpath, Text.replaceChar, String.toList_ofList, List.length_map] at hlength
  rwa [hnormal]

/-! ## Names read from their texts -/

/-- Some text names it.  Names are made of texts only. -/
def IsNamed (p : QueryPath) : Prop := ∃ raw, ofText raw = .ok p

/-- What the text of a name names. -/
def reread (p : QueryPath) : QueryPath := (ofText? p.text).getD p

/-- The text of a name has a scheme and no blanks around it, or is canonical. -/
theorem IsNamed.cases {p : QueryPath} (h : p.IsNamed) :
    (Text.trim p.text = p.text ∧ p.text ≠ "" ∧ (schemeOf p.text).isSome = true) ∨
      normalize p.text = p.text := by
  obtain ⟨raw, hraw⟩ := h
  unfold ofText at hraw
  dsimp only at hraw
  split at hraw
  · cases hraw
  · next hne =>
    split at hraw
    · next hscheme =>
      have hname : QueryPath.mk (Text.trim raw) = p := Except.ok.inj hraw
      rw [← hname]
      exact .inl ⟨Text.trim_trim raw, hne, hscheme⟩
    · have hname : QueryPath.mk (normalize (Text.trim raw)) = p := Except.ok.inj hraw
      rw [← hname]
      dsimp only
      exact .inr (normalize_normalize _)

/-- A canonical text is a name, and names itself unless a blank ends it. -/
theorem exists_ofText_of_normalized {s : String} (h : normalize s = s) :
    ∃ q, ofText s = .ok q ∧ (q = ⟨s⟩ ↔ Text.trimEnd s = s) := by
  obtain ⟨rest, hrest⟩ := exists_toList_normalize s
  rw [h] at hrest
  have hblank : Text.isBlank '/' = false := rfl
  have hnamed := ofText_of_slash hrest
  obtain ⟨more, hmore⟩ := Text.exists_toList_trim hrest hblank
  rw [Text.trim_eq_trimEnd hrest hblank] at hnamed hmore
  refine ⟨_, hnamed, fun hsame => ?_, fun htrim => by rw [htrim, h]⟩
  -- Trimming made the text shorter if it changed it, and cleaning does not make up for that.
  have hlength := length_normalize_le hmore
  rw [QueryPath.mk.inj hsame] at hlength
  exact Text.trimEnd_eq_self hlength

/-- The text of a name is a name again, and the same one unless a blank ends it. -/
theorem IsNamed.ofText_text {p : QueryPath} (h : p.IsNamed) :
    ofText p.text = .ok p.reread ∧ (p.reread = p ↔ Text.trimEnd p.text = p.text) := by
  have hread : ∀ {q}, ofText p.text = .ok q → p.reread = q := by
    intro q hq
    unfold reread ofText?
    rw [hq]
    rfl
  rcases h.cases with ⟨htrim, hne, hscheme⟩ | hnormal
  · have hsame : ofText p.text = .ok p := by
      unfold ofText
      dsimp only
      rw [htrim, if_neg hne, if_pos hscheme]
    rw [hread hsame]
    refine ⟨hsame, iff_of_true rfl ?_⟩
    rw [← htrim, Text.trimEnd_trim]
  · obtain ⟨q, hq, hsame⟩ := exists_ofText_of_normalized hnormal
    rw [hread hq]
    exact ⟨hq, hsame⟩

theorem IsNamed.reread_of_isRemote {p : QueryPath} (h : p.IsNamed)
    (hremote : p.isRemote = true) : p.reread = p := by
  rcases h.cases with ⟨htrim, -, -⟩ | hnormal
  · exact h.ofText_text.2.2 (by rw [← htrim, Text.trimEnd_trim])
  · rw [(withoutScheme_of_normalized hnormal).1] at hremote
    cases hremote

/-! ## Documents of names and modules -/

/-- The document that a name is written as. -/
def written (p : QueryPath) : String := p.toJson.compress

/-- The name that a document holds. -/
def ofWritten? (document : String) : Option QueryPath :=
  (Json.parse? document).bind fun j => (reader j).toOption

theorem IsNamed.reader_toJson {p : QueryPath} (h : p.IsNamed) :
    reader p.toJson = .ok p.reread := by
  simp only [reader, toJson, Json.Reader.text, bind, Except.bind, h.ofText_text.1]

theorem IsNamed.ofWritten?_written {p : QueryPath} (h : p.IsNamed) :
    ofWritten? p.written = some p.reread := by
  have hparse : Json.parse? p.toJson.compress = some p.toJson := by
    rw [toJson, Json.compress, Json.parse?_quote]
  rw [ofWritten?, written, hparse, Option.bind_some, h.reader_toJson]
  rfl

end QueryPath

namespace Json.Reader

theorem list_map {α β : Type} {read : Reader α} {write : β → Json} {f : β → α} {items : List β}
    (h : ∀ item ∈ items, read (write item) = .ok (f item)) :
    list read (.arr (items.map write)) = .ok (items.map f) := by
  show (items.map write).mapM read = _
  induction items with
  | nil => rfl
  | cons item items ih =>
    rw [List.map_cons, List.mapM_cons, h item List.mem_cons_self,
      ih fun other hother => h other (List.mem_cons_of_mem _ hother)]
    rfl

theorem list_ofTexts (texts : List String) : list text (ofTexts texts) = .ok texts := by
  have hread : ∀ s ∈ texts, text (.str s) = .ok (id s) := fun _ _ => rfl
  rw [ofTexts, list_map hread, List.map_id]

end Json.Reader

namespace Module

/-- The document that a module is written as. -/
def written (m : Module) : String := m.toJson.compress

/-- The module that a document holds. -/
def ofWritten? (document : String) : Option Module :=
  (Json.parse? document).bind fun j => (ofJson j).toOption

/-- The module with its names read from their texts. -/
def reread (m : Module) : Module :=
  { m with path := m.path.reread, requires := m.requires.map QueryPath.reread }

@[simp] theorem reread_path (m : Module) : m.reread.path = m.path.reread := by rw [reread]

@[simp] theorem reread_requires (m : Module) :
    m.reread.requires = m.requires.map QueryPath.reread := by rw [reread]

/-- A document keeps the fields of a record in increasing order of their names. -/
theorem parse?_written (m : Module) : Json.parse? m.written = some (.obj [
    ("code", .str m.code),
    ("module_type", .str m.kind.name),
    ("query_path", m.path.toJson),
    ("real_path", .str m.realPath),
    ("requires", .arr (m.requires.map QueryPath.toJson)),
    ("requires_origin", .ofTexts m.requiresOrigin),
    ("wrap", .bool m.wrap),
    ("wrapped_code", .str m.wrappedCode)]) := by
  rw [written, Json.parse?_compress]
  · rw [toJson, QueryPath.arr_map_toJson]
    simp only [Json.sorted, Json.sortedFields, Json.setField, Json.sorted_ofTexts,
      QueryPath.toJson, String.reduceEq, String.reduceLT, if_false, if_true]
  · rw [toJson, QueryPath.arr_map_toJson]
    simp only [Json.fits, Json.fitsFields, Json.fits_ofTexts, QueryPath.toJson, Json.maxDepth,
      Nat.zero_lt_succ, Nat.add_one_sub_one, decide_true, Bool.and_self]

theorem kindReader_name (k : ModuleKind) : kindReader (.str k.name) = .ok k := by
  rw [kindReader, Json.Reader.word, ModuleKind.ofName?_name]

theorem ofWritten?_written {m : Module} (hpath : m.path.IsNamed)
    (hrequires : ∀ p ∈ m.requires, p.IsNamed) :
    ofWritten? m.written = some m.reread := by
  have hnames : Json.Reader.list QueryPath.reader (.arr (m.requires.map QueryPath.toJson)) =
      .ok (m.requires.map QueryPath.reread) :=
    Json.Reader.list_map fun p hp => (hrequires p hp).reader_toJson
  rw [ofWritten?, parse?_written, Option.bind_some]
  -- Each field passes the check of its name, and is found under it.
  simp only [ofJson, ofFields, checkField, takeField, hpath.reader_toJson, hnames,
    Json.Reader.text, Json.Reader.list_ofTexts, Json.Reader.bool, kindReader_name, reread,
      Except.map, Except.toOption, bind,
    Except.bind, pure, Except.pure, List.forM, List.find?_cons, String.reduceEq, decide_false,
      decide_true]

theorem reread_eq_self_iff {m : Module} (h : ∀ p ∈ m.path :: m.requires, p.IsNamed) :
    m.reread = m ↔ ∀ p ∈ m.path :: m.requires, Text.trimEnd p.text = p.text := by
  have hsame : ∀ p ∈ m.path :: m.requires, (p.reread = p ↔ Text.trimEnd p.text = p.text) :=
    fun p hp => (h p hp).ofText_text.2
  rw [← forall₂_congr hsame, List.forall_mem_cons]
  constructor
  · intro hm
    have hpath : m.path.reread = m.path := by rw [← reread_path, hm]
    have hrequires : m.requires.map QueryPath.reread = m.requires.map id := by
      rw [← reread_requires, hm, List.map_id]
    exact ⟨hpath, List.map_inj_left.1 hrequires⟩
  · rintro ⟨hpath, hrequires⟩
    rw [reread, hpath, List.map_congr_left hrequires, List.map_id']

end Module

/-- **Names and modules are read back unless a blank ends a name.**  The text of a name always
names a module, and the name is read from its document too; it is the same name exactly if no
blank ends it, and none ends a name with a scheme.  A module is read from its document with the
names read from their texts, so it is the same module exactly if no blank ends any of them. -/
theorem written_read_back_iff {raw : String} {p : QueryPath} {m : Module}
    (hp : QueryPath.ofText raw = .ok p) (hm : ∀ q ∈ m.path :: m.requires, q.IsNamed) :
    (QueryPath.ofText p.text = .ok p.reread ∧ QueryPath.ofWritten? p.written = some p.reread ∧
        (p.reread = p ↔ Text.trimEnd p.text = p.text) ∧ (p.isRemote = true → p.reread = p)) ∧
      Module.ofWritten? m.written = some m.reread ∧
        (m.reread = m ↔ ∀ q ∈ m.path :: m.requires, Text.trimEnd q.text = q.text) := by
  have hnamed : p.IsNamed := ⟨raw, hp⟩
  obtain ⟨hpath, hrequires⟩ := List.forall_mem_cons.1 hm
  obtain ⟨hread, hsame⟩ := hnamed.ofText_text
  exact ⟨⟨hread, hnamed.ofWritten?_written, hsame, hnamed.reread_of_isRemote⟩,
    Module.ofWritten?_written hpath hrequires, Module.reread_eq_self_iff hm⟩

/-- A script that requires a module by a scheme, and one from a directory with a blank in its
name. -/
def spacedModule : Module where
  path := ⟨"/src/app.js"⟩
  realPath := "/src/app.js"
  kind := .script
  requires := [⟨"cdn:/x y.js"⟩, ⟨"/my lib/index.js"⟩]
  requiresOrigin := ["/my lib/index.js"]
  code := "require(\"cdn:/x y.js\");\n"
  wrappedCode := "\x7b\t\x7d"
  wrap := true

theorem written_read_back_spaced :
    QueryPath.ofText " src\\./lib/../app.js " = .ok spacedModule.path ∧
      QueryPath.ofWritten? spacedModule.path.written = some spacedModule.path ∧
      Module.ofWritten? spacedModule.written = some spacedModule := by
  have hpath : QueryPath.ofText " src\\./lib/../app.js " = .ok spacedModule.path := by
    decide
  have hnamed : ∀ p ∈ spacedModule.path :: spacedModule.requires,
      QueryPath.ofText p.text = .ok p := by
    decide
  have hblank : ∀ p ∈ spacedModule.path :: spacedModule.requires,
      Text.trimEnd p.text = p.text := by
    decide
  obtain ⟨⟨-, hdocument, hname, -⟩, hmodule, hsame⟩ :=
    written_read_back_iff hpath fun p hp => ⟨p.text, hnamed p hp⟩
  rw [hname.2 (hblank _ List.mem_cons_self)] at hdocument
  rw [hsame.2 hblank] at hmodule
  exact ⟨hpath, hdocument, hmodule⟩

/-- The slash behind the blank keeps it from being trimmed, and is dropped after that: the text
of the name is read as another name, and so is its document and that of a module. -/
theorem padded_name_renamed :
    let p : QueryPath := ⟨"/a "⟩
    QueryPath.ofText "a /" = .ok p ∧ QueryPath.ofText p.text = .ok ⟨"/a"⟩ ∧
      QueryPath.ofWritten? p.written = some ⟨"/a"⟩ ∧
      Module.ofWritten? (Module.empty p .script).written ≠ some (Module.empty p .script) := by
  have hnamed : QueryPath.IsNamed ⟨"/a "⟩ := ⟨"a /", by decide⟩
  have hother : QueryPath.reread ⟨"/a "⟩ = ⟨"/a"⟩ := by decide
  refine ⟨by decide, by decide, by rw [hnamed.ofWritten?_written, hother], ?_⟩
  rw [Module.ofWritten?_written hnamed fun p hp => absurd hp List.not_mem_nil]
  intro hsame
  have hpath := congrArg Module.path (Option.some.inj hsame)
  rw [Module.reread_path, Module.empty, hother] at hpath
  exact absurd hpath (by decide)

end WebBundler
