import WebBundler.Proofs.Compiler.Relinking
import WebBundler.Proofs.Path.Composition
import WebBundler.Proofs.Path.Rereading
set_option autoImplicit false

/-!
# The forms of a place

A place that is looked for leads down from the root by names, and so do its forms
(`forms_leadDown`).  One slash in front of the names is the rule; the index of a package that
lies at the root itself has two, which lead to the same file and make the same name
(`LeadsDown.below`, `LeadsDown.ofText?_eq`).
-/

namespace WebBundler

namespace Text

theorem trimStartChar_slash (s : String) :
    trimStartChar '/' ("/" ++ s) = trimStartChar '/' s := by
  unfold trimStartChar dropStart
  rw [String.toList_append]
  exact congrArg String.ofList (List.dropWhile_cons_of_pos rfl)

theorem trim_slash {s : String} {rest : List Char} (h : s.toList = '/' :: rest) :
    trim ("/" ++ s) = "/" ++ trim s := by
  have hchars : ("/" ++ s).toList = '/' :: '/' :: rest := by
    rw [String.toList_append, h]
    rfl
  have hkept : dropEnd isBlank ['/'] = ['/'] := by decide
  rw [trim_eq_trimEnd hchars (by decide), trim_eq_trimEnd h (by decide)]
  apply String.toList_inj.1
  simp only [trimEnd, String.toList_append, String.toList_ofList]
  exact dropEnd_append hkept s.toList

end Text

namespace QueryPath

theorem normalize_slash (s : String) : normalize ("/" ++ s) = normalize s := by
  have hnone : stepsOf "" = [] := by decide
  have hsteps := stepsOf_join "" s
  rw [String.empty_append, hnone, List.nil_append] at hsteps
  rw [normalize_eq_pathOf, normalize_eq_pathOf, hsteps]

/-- A path leads down from the root by names, behind one slash or two. -/
def LeadsDown (path : String) (names : List String) : Prop :=
  path = pathOf names ∨ path = "/" ++ pathOf names

variable {path : String} {names front : List String} {last : String}

theorem leadsDown_child (names : List String) (name : String) :
    LeadsDown (pathOf names ++ "/" ++ name) (names ++ [name]) := by
  by_cases hne : names = []
  · subst hne
    refine .inr ?_
    unfold pathOf
    rw [List.nil_append, String.intercalate_singleton, String.intercalate_nil,
      String.append_empty, String.append_assoc]
  · exact .inl (pathOf_append_index hne name).symm

theorem LeadsDown.below (h : LeadsDown path names) (root : HostPath) :
    root.below path = root.below (pathOf names) := by
  rcases h with rfl | rfl
  · rfl
  · unfold HostPath.below
    rw [Text.trimStartChar_slash]

theorem LeadsDown.exists_toList (h : LeadsDown path names) :
    ∃ rest, path.toList = '/' :: rest := by
  rcases h with rfl | rfl
  · exact ⟨_, toList_pathOf names⟩
  · exact ⟨(pathOf names).toList, by rw [String.toList_append]; rfl⟩

theorem LeadsDown.ofText?_eq (h : LeadsDown path names) :
    ofText? path = ofText? (pathOf names) := by
  obtain ⟨rest, hrest⟩ := h.exists_toList
  rcases h with rfl | rfl
  · rfl
  · unfold ofText?
    rw [ofText_of_slash hrest, ofText_of_slash (toList_pathOf names),
      Text.trim_slash (toList_pathOf names), normalize_slash]

theorem LeadsDown.append (h : LeadsDown path (front ++ [last])) (more : String) :
    LeadsDown (path ++ more) (front ++ [last ++ more]) := by
  obtain ⟨start, hstart⟩ := exists_pathOf_concat front
  unfold LeadsDown at h ⊢
  rw [hstart] at h ⊢
  rcases h with rfl | rfl
  · exact .inl String.append_assoc
  · refine .inr ?_
    simp only [String.append_assoc]

theorem LeadsDown.slash (h : LeadsDown path (front ++ [last])) (name : String) :
    LeadsDown (path ++ "/" ++ name) (front ++ [last] ++ [name]) := by
  unfold LeadsDown at h ⊢
  rw [pathOf_append_index (List.append_ne_nil_of_right_ne_nil _ (List.cons_ne_nil _ _))]
  rcases h with rfl | rfl
  · exact .inl rfl
  · refine .inr ?_
    simp only [String.append_assoc]

theorem LeadsDown.trimEndChar (h : LeadsDown path (front ++ [last])) (hlast : IsStep last) :
    Text.trimEndChar '/' path = path := by
  obtain ⟨start, hstart⟩ := exists_pathOf_concat front
  unfold LeadsDown at h
  rw [hstart, ← String.append_assoc] at h
  rcases h with rfl | rfl
  · exact Resolver.trimEndChar_append hlast start
  · exact Resolver.trimEndChar_append hlast ("/" ++ start)

end QueryPath

namespace Resolver

open QueryPath

variable {place form : String} {names : List String}

/-- The names by which the forms of a place lead down. -/
def formNames (names : List String) : List (List String) :=
  [names, names.dropLast ++ [names.getLast?.getD "" ++ ".js"], names ++ ["index.js"]]

/-- A place that is looked for leads down by steps, and the root is spelled by its slash. -/
structure IsPlace (place : String) (names : List String) : Prop where
  steps : ∀ name ∈ names, IsStep name
  leadsDown : LeadsDown place names
  root : names = [] → place = pathOf []

theorem isPlace_pathOf (h : ∀ name ∈ names, IsStep name) : IsPlace (pathOf names) names :=
  ⟨h, .inl rfl, fun hroot => by rw [hroot]⟩

theorem exists_isPlace_normalize (raw : String) :
    ∃ names, normalize raw = pathOf names ∧ IsPlace (normalize raw) names := by
  obtain ⟨names, hnames, hraw⟩ := exists_normalize_eq raw
  exact ⟨names, hraw, hraw ▸ isPlace_pathOf hnames⟩

theorem isStep_index : IsStep "index.js" := ⟨by decide, by decide⟩

theorem append_index (path : String) : path ++ "/index.js" = path ++ "/" ++ "index.js" := by
  rw [String.append_assoc]
  rfl

theorem isPlace_index (h : ∀ name ∈ names, IsStep name) :
    IsPlace (pathOf names ++ "/index.js") (names ++ ["index.js"]) := by
  refine ⟨List.forall_mem_append.2 ⟨h, List.forall_mem_singleton.2 isStep_index⟩, ?_,
    fun hroot => ?_⟩
  · rw [append_index]
    exact leadsDown_child names "index.js"
  · exact absurd hroot (List.append_ne_nil_of_right_ne_nil _ (List.cons_ne_nil _ _))

theorem isStep_description : IsStep "package.json" := ⟨by decide, by decide⟩

theorem leadsDown_description (names : List String) :
    LeadsDown (pathOf names ++ "/package.json") (names ++ ["package.json"]) := by
  have hdown := leadsDown_child names "package.json"
  rw [String.append_assoc] at hdown
  exact hdown

/-- The forms of a place lead down by the forms of its names. -/
theorem forms_leadDown (h : IsPlace place names) :
    List.Forall₂ LeadsDown (forms place) (formNames names) := by
  obtain ⟨hsteps, hdown, hroot⟩ := h
  rcases List.eq_nil_or_concat names with rfl | ⟨front, last, rfl⟩
  · rw [hroot rfl]
    have hforms : forms (pathOf []) = [pathOf [], pathOf [".js"], pathOf ["index.js"]] := by
      decide
    rw [hforms]
    exact .cons (.inl rfl) (.cons (.inl rfl) (.cons (.inl rfl) .nil))
  · rw [List.concat_eq_append] at hsteps hdown ⊢
    have hlast : IsStep last := hsteps last (List.mem_append_right _ List.mem_cons_self)
    unfold forms formNames
    rw [hdown.trimEndChar hlast, List.dropLast_concat, List.getLast?_concat, append_index]
    exact .cons hdown (.cons (hdown.append ".js") (.cons (hdown.slash "index.js") .nil))

theorem exists_related {α β : Type} {R : α → β → Prop} {as : List α} {bs : List β}
    (h : List.Forall₂ R as bs) :
    (∀ a ∈ as, ∃ b ∈ bs, R a b) ∧ ∀ b ∈ bs, ∃ a ∈ as, R a b := by
  induction h with
  | nil => exact ⟨nofun, nofun⟩
  | @cons a b _ _ hab _ ih =>
    refine ⟨List.forall_mem_cons.2 ⟨⟨b, List.mem_cons_self, hab⟩, fun a ha => ?_⟩,
      List.forall_mem_cons.2 ⟨⟨a, List.mem_cons_self, hab⟩, fun b hb => ?_⟩⟩
    · obtain ⟨b, hb, hrelated⟩ := ih.1 a ha
      exact ⟨b, List.mem_cons_of_mem _ hb, hrelated⟩
    · obtain ⟨a, ha, hrelated⟩ := ih.2 b hb
      exact ⟨a, List.mem_cons_of_mem _ ha, hrelated⟩

theorem exists_names_of_mem_forms (h : IsPlace place names) (hform : form ∈ forms place) :
    ∃ down ∈ formNames names, LeadsDown form down :=
  (exists_related (forms_leadDown h)).1 form hform

theorem exists_form_of_mem_formNames (h : IsPlace place names) {down : List String}
    (hdown : down ∈ formNames names) :
    ∃ form ∈ forms place, LeadsDown form down :=
  (exists_related (forms_leadDown h)).2 down hdown

theorem isStep_of_mem_formNames (h : ∀ name ∈ names, IsStep name) :
    ∀ form ∈ formNames names, ∀ name ∈ form, IsStep name := by
  intro form hform
  unfold formNames at hform
  rw [List.mem_cons, List.mem_cons, List.mem_singleton] at hform
  rcases hform with rfl | rfl | rfl
  · exact h
  · refine List.forall_mem_append.2 ⟨fun name hname => h name (List.dropLast_subset _ hname),
      List.forall_mem_singleton.2 ?_⟩
    rcases List.eq_nil_or_concat names with rfl | ⟨front, last, rfl⟩
    · exact ⟨by decide, by decide⟩
    · rw [List.concat_eq_append] at h ⊢
      rw [List.getLast?_concat]
      have hlast : IsStep last := h last (List.mem_append_right _ List.mem_cons_self)
      exact hlast.append (by decide) (by decide) (c := 'j') (by decide) (by decide)
  · exact List.forall_mem_append.2 ⟨h, List.forall_mem_singleton.2 isStep_index⟩

end Resolver

end WebBundler
