import WebBundler.Compiler
import WebBundler.Proofs.Compiler.Resolution
set_option autoImplicit false

/-!
# The standard compiler

A module of the standard compiler bears the path and the place of its request, and whatever it
requires from the project is a file that is there, and is listed with all that it requires
(`standard_eq_ok`).  A failure bears the place of the request (`path_of_standard_error`).  A
path whose file has a type is a name as it stands: no blank ends it (`ofText_of_kind`).
-/

namespace WebBundler

namespace Text

theorem toLower_of_isBlank {c : Char} (h : isBlank c = true) : c.toLower = c := by
  have hnot : ¬(65 ≤ c.toNat ∧ c.toNat ≤ 90) := by
    unfold isBlank at h
    simp only [Bool.or_eq_true, Bool.and_eq_true, decide_eq_true_eq, beq_iff_eq] at h
    omega
  unfold Char.toLower
  rw [dif_neg]
  rintro ⟨hlow, hhigh⟩
  exact hnot ⟨hlow, hhigh⟩

/-- A text with no blank at either end is trimmed already. -/
theorem trim_eq_self {s : String} {first last : Char} {rest init : List Char}
    (hfirst : s.toList = first :: rest) (hlast : s.toList = init ++ [last])
    (hfirstBlank : isBlank first = false) (hlastBlank : isBlank last = false) : trim s = s := by
  unfold trim strip
  rw [hfirst, dropStart_eq_self hfirstBlank, ← hfirst, hlast,
    dropEnd_append_singleton hlastBlank, ← hlast, String.ofList_toList]

theorem cutLast_eq_some {sep : Char} {s a b : List Char} (h : cutLast sep s = some (a, b)) :
    s = a ++ sep :: b := by
  obtain ⟨⟨after, before⟩, hcut, hsame⟩ := Option.map_eq_some_iff.1 h
  cases hsame
  have hsplit := congrArg List.reverse (cutFirst_eq_some hcut).1
  simpa using hsplit

end Text

namespace FileTypes

theorem kinds_standard : ∀ entry ∈ standard.kinds,
    entry.1 ≠ "." ∧ entry.1.toList.all (fun c => !Text.isBlank c) = true := by
  decide

theorem exists_name_of_extension {path : HostPath} {extension : String}
    (h : path.extension? = some extension) :
    ∃ name stem, path.fileName? = some name ∧
      name.toList = stem ++ '.' :: extension.toList := by
  unfold HostPath.extension? at h
  split at h
  · cases h
  · next name hname =>
    split at h
    · next stem ext hcut =>
      split at h
      · cases h
      · cases h
        exact ⟨name, stem, hname, by rw [String.toList_ofList]; exact Text.cutLast_eq_some hcut⟩
    · cases h

/-- No blank ends the name of a file that has a type. -/
theorem isBlank_last_of_kind {path : String} (h : (standard.kind? path).isSome = true) :
    ∃ name init c, (HostPath.mk path).fileName? = some name ∧ name.toList = init ++ [c] ∧
      Text.isBlank c = false := by
  unfold kind? at h
  split at h
  · cases h
  · next extension hextension =>
    obtain ⟨name, stem, hname, hsplit⟩ := exists_name_of_extension hextension
    obtain ⟨kind, hkind⟩ := Option.isSome_iff_exists.1 h
    obtain ⟨entry, hentry, -⟩ := Option.map_eq_some_iff.1 hkind
    obtain ⟨hdot, hblank⟩ := kinds_standard entry (List.mem_of_find?_eq_some hentry)
    have hsame : entry.1 = "." ++ Text.lowerAscii extension := by
      simpa using List.find?_some hentry
    rw [hsame] at hdot hblank
    have hne : extension.toList ≠ [] := by
      intro hempty
      rw [String.toList_eq_nil_iff.1 hempty] at hdot
      exact hdot rfl
    obtain ⟨init, c, hc⟩ := (List.eq_nil_or_concat extension.toList).resolve_left hne
    rw [List.concat_eq_append] at hc
    refine ⟨name, stem ++ '.' :: init, c, hname, by simp [hsplit, hc], ?_⟩
    cases hc' : Text.isBlank c with
    | false => rfl
    | true =>
      -- A blank stays itself in lower case, and would be in the list.
      have hmem : c ∈ ("." ++ Text.lowerAscii extension).toList := by
        have hin : c ∈ extension.toList := by
          rw [hc]
          exact List.mem_append_right _ List.mem_cons_self
        rw [String.toList_append, Text.lowerAscii, String.toList_ofList, String.toList_ofList]
        exact List.mem_append_right _ (List.mem_map.2 ⟨c, hin, Text.toLower_of_isBlank hc'⟩)
      have hnot := List.all_eq_true.1 hblank c hmem
      rw [hc'] at hnot
      cases hnot

/-- The canonical path of a file that has a type is a name as it stands. -/
theorem ofText_of_kind {path : String} (hpath : QueryPath.normalize path = path)
    (h : (standard.kind? path).isSome = true) : QueryPath.ofText path = .ok ⟨path⟩ := by
  obtain ⟨name, init, c, hname, hlast, hblank⟩ := isBlank_last_of_kind h
  obtain ⟨names, hnames, hcanonical⟩ := QueryPath.exists_normalize_eq path
  rw [hpath] at hcanonical
  obtain ⟨rest, hrest⟩ := QueryPath.exists_toList_normalize path
  rw [hpath] at hrest
  have hconcat : ∃ front, names = front ++ [name] := by
    unfold HostPath.fileName? at hname
    rw [hcanonical, QueryPath.components_pathOf fun name hname => (hnames name hname).isName]
      at hname
    rcases List.eq_nil_or_concat names with rfl | ⟨front, last, rfl⟩
    · cases hname
    · refine ⟨front, ?_⟩
      rw [List.concat_eq_append, List.map_append, List.map_singleton, ← List.cons_append,
        List.getLast?_concat] at hname
      cases hname
      exact List.concat_eq_append
  obtain ⟨front, rfl⟩ := hconcat
  obtain ⟨start, hstart⟩ := QueryPath.exists_pathOf_concat front
  have hend : path.toList = start.toList ++ init ++ [c] := by
    rw [hcanonical, hstart, String.toList_append, hlast, List.append_assoc]
  rw [QueryPath.ofText_of_slash hrest, Text.trim_eq_self hrest hend (by decide) hblank, hpath]

end FileTypes

namespace Script

/-- Whatever is required from the project was found, and is required. -/
structure Requirements.Found (resolve : String → Option Resolution) (known : Requirements) :
    Prop where
  found : ∀ origin ∈ known.origins,
    ∃ specifier res, resolve specifier = some res ∧ res.kind = .found ∧ res.path = ⟨origin⟩
  listed : ∀ origin ∈ known.origins, QueryPath.mk origin ∈ known.paths

theorem mem_addNew {α : Type} [BEq α] [LawfulBEq α] {items : List α} {a b : α} :
    b ∈ addNew items a ↔ b ∈ items ∨ b = a := by
  unfold addNew
  split
  · next h =>
    rw [List.contains_iff_mem] at h
    exact ⟨Or.inl, fun hb => hb.elim id fun hsame => hsame ▸ h⟩
  · rw [List.mem_append, List.mem_singleton]

theorem Requirements.Found.add {resolve : String → Option Resolution} {known : Requirements}
    (h : known.Found resolve) {specifier : String} {res : Resolution}
    (hres : resolve specifier = some res) : (known.add res).Found resolve := by
  have horigin : ∀ origin ∈ (known.add res).origins,
      origin ∈ known.origins ∨ res.kind = .found ∧ res.path = ⟨origin⟩ := by
    intro origin horigin
    unfold Requirements.add at horigin
    dsimp only at horigin
    split at horigin
    · next hkind =>
      refine (mem_addNew.1 horigin).imp_right fun hsame => ⟨hkind, ?_⟩
      rw [hsame]
    · exact Or.inl horigin
  constructor
  · intro origin hmem
    rcases horigin origin hmem with hold | ⟨hkind, hpath⟩
    · exact h.found origin hold
    · exact ⟨specifier, res, hres, hkind, hpath⟩
  · intro origin hmem
    refine mem_addNew.2 ?_
    rcases horigin origin hmem with hold | ⟨-, hpath⟩
    · exact Or.inl (h.listed origin hold)
    · exact Or.inr hpath.symm

theorem found_requirements (resolve : String → Option Resolution) (source : String) :
    (requirements resolve source).Found resolve := by
  unfold requirements
  have hinitial : Requirements.Found resolve ⟨[], []⟩ :=
    ⟨fun _ h => absurd h List.not_mem_nil, fun _ h => absurd h List.not_mem_nil⟩
  generalize (⟨[], []⟩ : Requirements) = known at hinitial
  induction (Cuts.of source).specifiers generalizing known with
  | nil => exact hinitial
  | cons specifier specifiers ih =>
    rw [List.filterMap_cons]
    split
    · exact ih known hinitial
    · next res hres => exact ih _ (hinitial.add hres)

end Script

namespace Compiler

variable {r : Resolver} {t : FileTree} {request : CompileRequest} {m : Module}
  {e : CompileError}

/-- What the standard compiler can make of a request: nothing, when its file is of unknown type
or cannot be read, and else a module of one of three kinds. -/
theorem standard_cases (r : Resolver) (t : FileTree) (request : CompileRequest) :
    standard r t request = .error (.unknownType request.realPath) ∨
      (∃ e, sourceOf r.root t request = .error e ∧ standard r t request = .error e) ∨
      (FileTypes.standard.kind? request.realPath).isSome = true ∧ ∃ source,
        standard r t request = .ok (script
          (fun specifier => (r.resolve specifier request.path).answer t) request source) ∨
        standard r t request = .ok (style request source) ∨
        standard r t request = .ok (template request source) := by
  unfold standard
  cases FileTypes.standard.kind? request.realPath with
  | none => exact Or.inl rfl
  | some kind =>
    cases sourceOf r.root t request with
    | error e =>
      cases kind with
      | verbatim => exact Or.inl rfl
      | script => exact Or.inr (Or.inl ⟨e, rfl, rfl⟩)
      | style => exact Or.inr (Or.inl ⟨e, rfl, rfl⟩)
      | template => exact Or.inr (Or.inl ⟨e, rfl, rfl⟩)
    | ok source =>
      cases kind with
      | verbatim => exact Or.inl rfl
      | script => exact Or.inr (Or.inr ⟨rfl, source, Or.inl rfl⟩)
      | style => exact Or.inr (Or.inr ⟨rfl, source, Or.inr (Or.inl rfl)⟩)
      | template => exact Or.inr (Or.inr ⟨rfl, source, Or.inr (Or.inr rfl)⟩)

theorem kind?_ne_verbatim (path : String) : FileTypes.standard.kind? path ≠ some .verbatim := by
  intro h
  have hlisted : ∀ entry ∈ FileTypes.standard.kinds, entry.2 ≠ .verbatim := by decide
  unfold FileTypes.kind? at h
  split at h
  · cases h
  · obtain ⟨entry, hentry, hkind⟩ := Option.map_eq_some_iff.1 h
    exact hlisted entry (List.mem_of_find?_eq_some hentry) hkind

theorem kind_of_standard (h : standard r t request = .ok m) :
    FileTypes.standard.kind? request.realPath = some m.kind ∧
      (m.kind = .style → sourceOf r.root t request = .ok m.code) := by
  unfold standard at h
  cases hkind : FileTypes.standard.kind? request.realPath with
  | none =>
    rw [hkind] at h
    cases h
  | some kind =>
    rw [hkind] at h
    cases hsource : sourceOf r.root t request with
    | error e =>
      rw [hsource] at h
      cases kind <;> cases h
    | ok source =>
      rw [hsource] at h
      cases kind with
      | verbatim => cases h
      | script =>
        cases h
        exact ⟨rfl, fun hstyle => nomatch hstyle⟩
      | style =>
        cases h
        exact ⟨rfl, fun _ => rfl⟩
      | template =>
        cases h
        exact ⟨rfl, fun hstyle => nomatch hstyle⟩

/-- Only a file of no type is of unknown type. -/
theorem kind?_of_unknownType {path : String}
    (h : standard r t request = .error (.unknownType path)) :
    FileTypes.standard.kind? request.realPath = none := by
  have hsource : ∀ e, sourceOf r.root t request = .error e → e ≠ .unknownType path := by
    rintro e he rfl
    unfold sourceOf at he
    split at he
    · cases he
    · split at he
      · cases he
      · split at he <;> cases he
  cases hkind : FileTypes.standard.kind? request.realPath with
  | none => rfl
  | some kind =>
    unfold standard at h
    rw [hkind] at h
    cases hread : sourceOf r.root t request with
    | error e =>
      rw [hread] at h
      cases kind with
      | verbatim => exact absurd hkind (kind?_ne_verbatim _)
      | script => exact absurd (Except.error.inj h) (hsource e hread)
      | style => exact absurd (Except.error.inj h) (hsource e hread)
      | template => exact absurd (Except.error.inj h) (hsource e hread)
    | ok source =>
      rw [hread] at h
      cases kind with
      | verbatim => exact absurd hkind (kind?_ne_verbatim _)
      | script => cases h
      | style => cases h
      | template => cases h

/-- What holds of a module that the standard compiler makes of a request. -/
structure Answers (r : Resolver) (t : FileTree) (request : CompileRequest) (m : Module) :
    Prop where
  path : m.path = request.path
  realPath : m.realPath = request.realPath
  typed : (FileTypes.standard.kind? request.realPath).isSome = true
  found : ∀ origin ∈ m.requiresOrigin, r.Finds t ⟨origin⟩
  listed : ∀ origin ∈ m.requiresOrigin, QueryPath.mk origin ∈ m.requires

theorem standard_eq_ok (h : standard r t request = .ok m) : Answers r t request m := by
  have hnone : ∀ {P : String → Prop}, ∀ origin ∈ ([] : List String), P origin :=
    fun _ horigin => absurd horigin List.not_mem_nil
  obtain hunknown | ⟨e, -, hfailed⟩ | ⟨htyped, source, hmodule⟩ := standard_cases r t request
  · cases hunknown.symm.trans h
  · cases hfailed.symm.trans h
  rcases hmodule with hscript | hstyle | htemplate
  · cases hscript.symm.trans h
    have hfound := Script.found_requirements
      (fun specifier => (r.resolve specifier request.path).answer t) source
    refine ⟨rfl, rfl, htyped, ?_, hfound.listed⟩
    intro origin horigin
    obtain ⟨specifier, res, hres, hkind, hpath⟩ := hfound.found origin horigin
    exact hpath ▸ Resolver.exists_file_of_found hres hkind
  · cases hstyle.symm.trans h
    exact ⟨rfl, rfl, htyped, hnone, hnone⟩
  · cases htemplate.symm.trans h
    exact ⟨rfl, rfl, htyped, hnone, hnone⟩

theorem path_of_sourceOf_error {root : HostPath} (h : sourceOf root t request = .error e) :
    e.path = request.realPath := by
  unfold sourceOf at h
  split at h
  · cases h
  · split at h
    · cases h
      rfl
    · split at h
      · cases h
      · cases h
        rfl

theorem path_of_standard_error (h : standard r t request = .error e) :
    e.path = request.realPath := by
  obtain hunknown | ⟨e', hsource, hfailed⟩ | ⟨-, source, hmodule⟩ := standard_cases r t request
  · cases hunknown.symm.trans h
    rfl
  · cases hfailed.symm.trans h
    exact path_of_sourceOf_error hsource
  · rcases hmodule with hscript | hstyle | htemplate
    · cases hscript.symm.trans h
    · cases hstyle.symm.trans h
    · cases htemplate.symm.trans h

end Compiler

end WebBundler
