import WebBundler.Proofs.Resolution.Location
set_option autoImplicit false

/-!
# Resolution on any disk

A tree answers a lookup all at once.  A disk answers question by question, and what it says may
change on the way.  So a resolution is also put as an inquiry, in which the answers so far
settle what is asked next: it runs with any answers (`Inquiry.Runs`), and with those of a tree
it is the resolution in the tree (`exists_runs_resolve`).

Whatever the answers are, an inquiry that looks for a file ends at the first yes, or without one
at the end of what it looks for (`runs_seek`).  All of its questions are about paths that lead
down from the root.
-/

namespace WebBundler

/-- A relative path without a step up. -/
structure HostPath.IsInner (p : HostPath) : Prop where
  relative : p.isAbsolute = false
  no_up : ".." ∉ segments p.text

/-! ## Inquiries -/

/-- A question to a disk, and what the disk said. -/
inductive Exchange where
  /-- Whether a regular file is at a path. -/
  | file (path : HostPath) (there : Bool)
  /-- The text of the file at a path, if there is one that can be read. -/
  | text (path : HostPath) (content : Option String)

namespace Exchange

/-- The path that is asked about. -/
def path : Exchange → HostPath
  | .file path _ => path
  | .text path _ => path

/-- It is what a tree says. -/
def IsTold (t : FileTree) : Exchange → Prop
  | .file path there => (Lookup.isFile path).answer t = there
  | .text path content => (Lookup.text? path).answer t = content

end Exchange

/-- Questions to a disk, one after the other, each of them given what the disk said before. -/
inductive Inquiry (α : Type) where
  | done (a : α)
  | file (path : HostPath) (next : Bool → Inquiry α)
  | text (path : HostPath) (next : Option String → Inquiry α)

namespace Inquiry

variable {α : Type}

/-- With some answers, an inquiry comes to its end. -/
inductive Runs : Inquiry α → List Exchange → α → Prop where
  | done (a : α) : Runs (.done a) [] a
  | file {path : HostPath} {next : Bool → Inquiry α} {exchanges : List Exchange} {a : α}
      (there : Bool) (h : Runs (next there) exchanges a) :
      Runs (.file path next) (.file path there :: exchanges) a
  | text {path : HostPath} {next : Option String → Inquiry α} {exchanges : List Exchange}
      {a : α} (content : Option String) (h : Runs (next content) exchanges a) :
      Runs (.text path next) (.text path content :: exchanges) a

theorem runs_done {a b : α} {exchanges : List Exchange} :
    (Inquiry.done a).Runs exchanges b ↔ exchanges = [] ∧ b = a := by
  constructor
  · rintro ⟨⟩
    exact ⟨rfl, rfl⟩
  · rintro ⟨rfl, rfl⟩
    exact .done b

theorem runs_file {path : HostPath} {next : Bool → Inquiry α} {exchanges : List Exchange}
    {a : α} :
    (Inquiry.file path next).Runs exchanges a ↔
      ∃ there rest, exchanges = .file path there :: rest ∧ (next there).Runs rest a := by
  constructor
  · rintro ⟨⟩
    exact ⟨_, _, rfl, ‹_›⟩
  · rintro ⟨there, rest, rfl, h⟩
    exact .file there h

theorem runs_text {path : HostPath} {next : Option String → Inquiry α}
    {exchanges : List Exchange} {a : α} :
    (Inquiry.text path next).Runs exchanges a ↔
      ∃ content rest, exchanges = .text path content :: rest ∧ (next content).Runs rest a := by
  constructor
  · rintro ⟨⟩
    exact ⟨_, _, rfl, ‹_›⟩
  · rintro ⟨content, rest, rfl, h⟩
    exact .text content h

/-- Put an inquiry to a tree. -/
def ask : Inquiry α → Lookup α
  | .done a => pure a
  | .file path next => do (next (← Lookup.isFile path)).ask
  | .text path next => do (next (← Lookup.text? path)).ask

/-- With the answers of a tree, an inquiry comes to the end that it has in the tree. -/
theorem exists_runs (q : Inquiry α) (t : FileTree) :
    ∃ exchanges, q.Runs exchanges (q.ask.answer t) ∧
    exchanges.map Exchange.path = q.ask.asked t ∧
    ∀ exchange ∈ exchanges, exchange.IsTold t := by
  induction q with
  | done a => exact ⟨[], .done a, rfl, nofun⟩
  | file path next ih =>
    obtain ⟨exchanges, hruns, hasked, htold⟩ := ih ((Lookup.isFile path).answer t)
    rw [ask, Lookup.answer_bind, Lookup.asked_bind]
    refine ⟨.file path ((Lookup.isFile path).answer t) :: exchanges, .file _ hruns, ?_,
      List.forall_mem_cons.2 ⟨rfl, htold⟩⟩
    rw [List.map_cons, hasked]
    rfl
  | text path next ih =>
    obtain ⟨exchanges, hruns, hasked, htold⟩ := ih ((Lookup.text? path).answer t)
    rw [ask, Lookup.answer_bind, Lookup.asked_bind]
    refine ⟨.text path ((Lookup.text? path).answer t) :: exchanges, .text _ hruns, ?_,
      List.forall_mem_cons.2 ⟨rfl, htold⟩⟩
    rw [List.map_cons, hasked]
    rfl

end Inquiry

namespace Resolver

open QueryPath

variable {r : Resolver} {specifier place : String} {referrer : QueryPath} {files : List String}
  {exchanges : List Exchange} {found : Option Resolution}

/-! ## The inquiry of a resolution -/

/-- Ask for the first of some files, for the module at a place. -/
def seek (r : Resolver) (place : String) : List String → Inquiry (Option Resolution)
  | [] => .done (settle place none)
  | file :: files => .file (r.root.below file) fun there =>
    if there then .done (settle place (some file)) else r.seek place files

/-- Ask for the module that a specifier names in the script of a referrer. -/
def inquiry (r : Resolver) (specifier : String) (referrer : QueryPath) :
    Inquiry (Option Resolution) :=
  if Text.trim specifier = "" then .done none
  else if (schemeOf (Text.trim specifier)).isSome then
    .done ((ofText? (Text.trim specifier)).map fun path => ⟨path, .remote⟩)
  else if NamesPackage specifier then
    .text (r.root.below (r.locationOf specifier referrer ++ "/package.json")) fun description =>
      r.seek (r.locationOf specifier referrer ++ "/index.js")
        (entryFiles (r.locationOf specifier referrer) description)
  else r.seek (r.locationOf specifier referrer) (forms (r.locationOf specifier referrer))

theorem ask_seek (place : String) (files : List String) :
    (r.seek place files).ask = r.search place files := by
  induction files with
  | nil => rfl
  | cons file files ih =>
    rw [seek, search, firstFile]
    refine Lookup.ext (fun t => ?_) fun t => ?_
    · rw [Inquiry.ask, Lookup.answer_bind, Lookup.answer_bind, Lookup.answer_bind]
      split
      · rfl
      · rw [ih]
        rfl
    · rw [Inquiry.ask, Lookup.asked_bind, Lookup.asked_bind, Lookup.asked_bind,
        Lookup.answer_bind, List.append_assoc]
      split
      · rfl
      · rw [ih]
        rfl

theorem ask_inquiry : (r.inquiry specifier referrer).ask = r.resolve specifier referrer := by
  unfold inquiry
  by_cases hblank : Text.trim specifier = ""
  · rw [if_pos hblank]
    unfold resolve
    dsimp only
    rw [if_pos hblank]
    rfl
  · rw [if_neg hblank]
    by_cases hscheme : (schemeOf (Text.trim specifier)).isSome = true
    · rw [if_pos hscheme]
      unfold resolve
      dsimp only
      rw [if_neg hblank, if_pos hscheme]
      rfl
    · rw [if_neg hscheme, resolve_eq ⟨hblank, Option.not_isSome_iff_eq_none.1 hscheme⟩]
      split
      · rw [resolveEntry_eq, Inquiry.ask]
        simp only [ask_seek]
      · rw [resolvePlace_eq, ask_seek]

/-- A resolution in a tree is the run of its inquiry with the answers of the tree. -/
theorem exists_runs_resolve (r : Resolver) (specifier : String) (referrer : QueryPath)
    (t : FileTree) :
    ∃ exchanges, (r.inquiry specifier referrer).Runs exchanges
      ((r.resolve specifier referrer).answer t) ∧
      exchanges.map Exchange.path = (r.resolve specifier referrer).asked t ∧
        ∀ exchange ∈ exchanges, exchange.IsTold t := by
  rw [← ask_inquiry]
  exact Inquiry.exists_runs _ t

/-! ## What is asked -/

/-- Files that are not there. -/
def denied (r : Resolver) (files : List String) : List Exchange :=
  files.map fun file => .file (r.root.below file) false

theorem not_mem_denied {path : HostPath} : .file path true ∉ r.denied files := by
  intro h
  obtain ⟨_, -, hsame⟩ := List.mem_map.1 h
  cases hsame

/-- The files are asked about in order, up to the first that is there. -/
theorem runs_seek (h : (r.seek place files).Runs exchanges found) :
    exchanges = r.denied files ∧ found = settle place none ∨
      ∃ (skipped : List String) (file : String), (skipped ++ [file]) <+: files ∧
        exchanges = r.denied skipped ++ [.file (r.root.below file) true] ∧
        found = settle place (some file) := by
  induction files generalizing exchanges with
  | nil => exact .inl (Inquiry.runs_done.1 h)
  | cons file files ih =>
    obtain ⟨there, rest, rfl, hnext⟩ := Inquiry.runs_file.1 h
    cases there with
    | true =>
      obtain ⟨rfl, hfound⟩ := Inquiry.runs_done.1 hnext
      exact .inr ⟨[], file, List.prefix_append [file] files, rfl, hfound⟩
    | false =>
      rcases ih hnext with ⟨rfl, hfound⟩ | ⟨skipped, last, hbegins, rfl, hfound⟩
      · exact .inl ⟨rfl, hfound⟩
      · exact .inr ⟨file :: skipped, last, List.cons_prefix_cons.2 ⟨rfl, hbegins⟩, rfl, hfound⟩

/-- A path leads down from the root. -/
def IsDown (path : String) : Prop :=
  ∃ names, (∀ name ∈ names, IsStep name) ∧ LeadsDown path names

theorem IsDown.inner {path : String} (h : IsDown path) :
    ∃ rel : HostPath, rel.IsInner ∧ r.root.below path = r.root.join rel := by
  obtain ⟨names, hsteps, hdown⟩ := h
  have hnames : ∀ name ∈ names, HostPath.IsName name :=
    fun name hname => (hsteps name hname).isName
  refine ⟨⟨String.intercalate "/" names⟩, ⟨HostPath.not_isAbsolute_intercalate hnames, ?_⟩, ?_⟩
  · by_cases hne : names = []
    · subst hne
      decide
    · rw [HostPath.segments_intercalate (fun name hname => (hnames name hname).no_slash) hne]
      exact fun hup => (hnames _ hup).ne_up rfl
  · rw [hdown.below, HostPath.below, trimStartChar_pathOf hnames]

theorem IsDown.startsWith {path : String} (h : IsDown path) :
    Text.startsWith path "/" = true := by
  obtain ⟨names, -, hdown⟩ := h
  obtain ⟨rest, hrest⟩ := hdown.exists_toList
  unfold Text.startsWith
  rw [hrest]
  rfl

theorem isDown_of_mem_forms {names : List String} (h : IsPlace place names) {form : String}
    (hform : form ∈ forms place) : IsDown form := by
  obtain ⟨down, hdown, hleads⟩ := exists_names_of_mem_forms h hform
  exact ⟨down, isStep_of_mem_formNames h.steps down hdown, hleads⟩

theorem isDown_of_mem_forms_normalize {raw form : String} (h : form ∈ forms (normalize raw)) :
    IsDown form := by
  obtain ⟨_, -, hplace⟩ := exists_isPlace_normalize raw
  exact isDown_of_mem_forms hplace h

/-- Whatever the description of a package says, its entry lies below the root. -/
theorem isDown_of_mem_entryFiles {raw form : String} {description : Option String}
    (h : form ∈ entryFiles (normalize raw) description) : IsDown form := by
  rcases List.mem_append.1 h with h | h
  · split at h
    · exact isDown_of_mem_forms_normalize h
    · exact absurd h List.not_mem_nil
  · obtain ⟨names, hnames, hraw⟩ := exists_normalize_eq raw
    rw [hraw] at h
    exact isDown_of_mem_forms (isPlace_index hnames) h

theorem isDown_description (raw : String) : IsDown (normalize raw ++ "/package.json") := by
  obtain ⟨names, hnames, hraw⟩ := exists_normalize_eq raw
  rw [hraw]
  exact ⟨_, List.forall_mem_append.2 ⟨hnames, List.forall_mem_singleton.2 isStep_description⟩,
    leadsDown_description names⟩

/-! ## What is found -/

/-- Some exchanges account for a resolution: they stay below the root, and a module is found by
the last of them, which is the only one that says that there is a file, or is missing if none
does. -/
structure Accounts (r : Resolver) (exchanges : List Exchange) (found : Option Resolution) :
    Prop where
  inner : ∀ exchange ∈ exchanges, ∃ rel : HostPath, rel.IsInner ∧
    exchange.path = r.root.join rel
  of_found : ∀ name, found = some ⟨name, .found⟩ → ∃ before form,
    exchanges = before ++ [.file (r.root.below form) true] ∧
      (∀ path, .file path true ∉ before) ∧
      Text.startsWith form "/" = true ∧ ofText? form = some name
  of_missing : ∀ name, found = some ⟨name, .missing⟩ → ∀ path, .file path true ∉ exchanges

theorem inner_denied (h : ∀ file ∈ files, IsDown file) :
    ∀ exchange ∈ r.denied files, ∃ rel : HostPath, rel.IsInner ∧
      exchange.path = r.root.join rel := by
  intro exchange hexchange
  obtain ⟨file, hfile, rfl⟩ := List.mem_map.1 hexchange
  exact (h file hfile).inner

theorem accounts_of_seek (hfiles : ∀ file ∈ files, IsDown file)
    (h : (r.seek place files).Runs exchanges found) :
    r.Accounts exchanges found := by
  rcases runs_seek h with ⟨rfl, hfound⟩ | ⟨skipped, file, hbegins, rfl, hfound⟩
  · refine ⟨inner_denied hfiles, fun name hname => ?_, fun _ _ _ => not_mem_denied⟩
    exact absurd ((kind_of_settle (hfound.symm.trans hname)).2 rfl) nofun
  · obtain ⟨hskipped, hfile⟩ :=
      List.forall_mem_append.1 fun other hother => hfiles other (hbegins.subset hother)
    have hdown := hfile file List.mem_cons_self
    refine ⟨?_, fun name hname => ⟨_, file, rfl, fun _ => not_mem_denied, hdown.startsWith, ?_⟩,
      fun name hname => ?_⟩
    · exact List.forall_mem_append.2
        ⟨inner_denied hskipped, List.forall_mem_singleton.2 hdown.inner⟩
    · obtain ⟨_, hsame, hpath⟩ := finds_of_settle (hfound.symm.trans hname) rfl
      rw [Option.some.inj hsame]
      exact hpath
    · exact absurd ((kind_of_settle (hfound.symm.trans hname)).1 rfl) nofun

/-- It makes no difference that a description was read before. -/
theorem Accounts.cons_text {path : String} {content : Option String}
    (h : r.Accounts exchanges found) (hpath : IsDown path) :
    r.Accounts (.text (r.root.below path) content :: exchanges) found := by
  have hnofile : ∀ {other : HostPath} {rest : List Exchange}, .file other true ∉ rest →
      .file other true ∉ .text (r.root.below path) content :: rest := by
    intro other rest hrest hmem
    rcases List.mem_cons.1 hmem with hsame | hmem
    · cases hsame
    · exact hrest hmem
  refine ⟨List.forall_mem_cons.2 ⟨hpath.inner, h.inner⟩, fun name hname => ?_,
      fun name hname other =>
    hnofile (h.of_missing name hname other)⟩
  obtain ⟨before, form, rfl, hbefore, hform⟩ := h.of_found name hname
  exact ⟨.text _ content :: before, form, rfl, fun other => hnofile (hbefore other), hform⟩

theorem accounts_of_isLocal (h : IsLocal specifier)
    (hruns : (r.inquiry specifier referrer).Runs exchanges found) :
    r.Accounts exchanges found := by
  unfold inquiry at hruns
  rw [if_neg h.not_blank, h.no_scheme, if_neg (by simp), ← normalize_locationOf] at hruns
  split at hruns
  · obtain ⟨content, rest, rfl, hseek⟩ := Inquiry.runs_text.1 hruns
    exact (accounts_of_seek (fun file => isDown_of_mem_entryFiles) hseek).cons_text
      (isDown_description _)
  · exact accounts_of_seek (fun file => isDown_of_mem_forms_normalize) hruns

/-- What names nothing in the project is not asked about. -/
theorem runs_inquiry_of_not_isLocal (h : ¬IsLocal specifier)
    (hruns : (r.inquiry specifier referrer).Runs exchanges found) :
    exchanges = [] ∧ found =
      if (schemeOf (Text.trim specifier)).isSome =
        true then some ⟨⟨Text.trim specifier⟩, .remote⟩ else none := by
  unfold inquiry at hruns
  by_cases hblank : Text.trim specifier = ""
  · rw [if_pos hblank] at hruns
    obtain ⟨rfl, rfl⟩ := Inquiry.runs_done.1 hruns
    rw [hblank]
    exact ⟨rfl, by decide⟩
  · have hscheme : (schemeOf (Text.trim specifier)).isSome = true := by
      by_contra hnone
      exact h ⟨hblank, Option.not_isSome_iff_eq_none.1 hnone⟩
    have hname : ofText? (Text.trim specifier) = some ⟨Text.trim specifier⟩ := by
      unfold ofText? ofText
      dsimp only
      rw [Text.trim_trim, if_neg hblank, if_pos hscheme]
      rfl
    rw [if_neg hblank, if_pos hscheme, hname] at hruns
    obtain ⟨rfl, rfl⟩ := Inquiry.runs_done.1 hruns
    rw [if_pos hscheme]
    exact ⟨rfl, rfl⟩

/-- **A resolution stays in the project and finds files.**  In a tree it is the run of an
inquiry.  Whatever the answers are that the inquiry runs with, all it asks about lies below the
root; the module that is found has the name of the last path that is asked about, the only one
at which there is a file; for a module that is missing there was none at all; and nothing is
asked for a specifier with a scheme, which is kept as it is. -/
theorem resolution_stays_in_project (r : Resolver) (specifier : String) (referrer : QueryPath) :
    (∀ t, ∃ exchanges, (r.inquiry specifier referrer).Runs exchanges
      ((r.resolve specifier referrer).answer t) ∧
      exchanges.map Exchange.path = (r.resolve specifier referrer).asked t ∧
        ∀ exchange ∈ exchanges, exchange.IsTold t) ∧
    ∀ exchanges found, (r.inquiry specifier referrer).Runs exchanges found →
      r.Accounts exchanges found ∧
      ((schemeOf (Text.trim specifier)).isSome = true →
        exchanges = [] ∧ found = some ⟨⟨Text.trim specifier⟩, .remote⟩) := by
  refine ⟨exists_runs_resolve r specifier referrer, fun exchanges found hruns => ?_⟩
  by_cases hlocal : IsLocal specifier
  · refine ⟨accounts_of_isLocal hlocal hruns, fun hscheme => ?_⟩
    rw [hlocal.no_scheme] at hscheme
    cases hscheme
  · -- A blank specifier or one with a scheme is settled without a question.
    obtain ⟨rfl, rfl⟩ := runs_inquiry_of_not_isLocal hlocal hruns
    refine ⟨⟨nofun, fun name hname => ?_, fun _ _ _ => List.not_mem_nil⟩,
      fun hscheme => ⟨rfl, if_pos hscheme⟩⟩
    split at hname
    · cases hname
    · cases hname

end Resolver

end WebBundler
