import WebBundler.Proofs.Build.Application
import WebBundler.Proofs.Build.Outputs
import WebBundler.Proofs.Path.Rereading
set_option autoImplicit false

/-!
# Whose source is compiled

A visited file is compiled under a name that is read from its path, and the compiler finds the
source by this name.  Both ways lead down from the root by names.  They are the same exactly if
no name on the way to the file holds a backslash, which reading the path takes for a slash, and
no blank ends the last one, which reading the name drops (`readsItself_iff`).
-/

namespace WebBundler

open HostPath (IsName)
open QueryPath (IsStep pathOf)

namespace HostPath

theorem components_below_pathOf (root : HostPath) {names : List String}
    (h : ∀ name ∈ names, IsName name) :
    (root.below (pathOf names)).components = root.components ++ names.map .name := by
  unfold below
  rw [QueryPath.trimStartChar_pathOf h]
  by_cases hne : names = []
  · rw [hne, List.map_nil, List.append_nil]
    exact components_join_empty root
  · rw [join_intercalate root h hne, components_under root h]

theorem append_names_inj {steps : List Component} {names names' : List String} :
    steps ++ names.map Component.name = steps ++ names'.map .name ↔ names = names' := by
  have hinj : Function.Injective Component.name := fun _ _ h => Component.name.inj h
  rw [List.append_right_inj, hinj.list_map.eq_iff]

end HostPath

theorem HostPath.location_congr {a b : HostPath} (h : a.components = b.components) :
    a.location = b.location := by
  unfold location cleanComponents
  rw [h]

/-- The source of a request that holds none is the text of the file that it names. -/
theorem Compiler.sourceOf_eq_ok_iff {root path : HostPath} {t : FileTree}
    {request : CompileRequest} {source : String} (hnone : request.source = none)
    (hplace : (root.below request.realPath).location = path.location) :
    sourceOf root t request = .ok source ↔
      ∃ content, t.read path = .ok content ∧ Text.decode? content = some source := by
  unfold sourceOf
  rw [hnone]
  dsimp only
  constructor
  · intro h
    split at h
    · cases h
    · next content hread =>
      refine ⟨content, FileTree.read_of_location hplace hread, ?_⟩
      split at h
      · next hdecoded =>
        rw [hdecoded]
        exact congrArg some (Except.ok.inj h)
      · cases h
  · rintro ⟨content, hread, hdecoded⟩
    rw [FileTree.read_of_location hplace.symm hread]
    dsimp only
    rw [hdecoded]

namespace Project

variable {p : Project} {t : FileTree} {enters : String → Bool} {visit : Visitor Workspace}
  {file other : WalkedFile} {names : List String}

/-- The path that the compiler reads for a found file is the path of the file, step by step. -/
def ReadsItself (p : Project) (file : WalkedFile) : Prop :=
  ∃ name, QueryPath.ofText file.relPath = .ok name ∧
    (p.config.root.below (CompileRequest.of name).realPath).components = file.path.components

/-- Every path is read as a name, and the name leads down from the root. -/
theorem exists_name_of_relativeTo (root path : HostPath) :
    ∃ name read, QueryPath.ofText (HostPath.relativeTo root path) = .ok name ∧
      (∀ step ∈ read, IsStep step) ∧
      (CompileRequest.of name).realPath = pathOf read := by
  obtain ⟨spelled, hspelled, hrelative⟩ := exists_relativeTo_eq root path
  obtain ⟨name, hname, -⟩ :=
    QueryPath.exists_ofText_of_normalized (QueryPath.normalize_pathOf hspelled)
  obtain ⟨read, hread, hcanonical⟩ := exists_withoutScheme_eq hspelled hname
  exact ⟨name, read, hrelative ▸ hname, hread, hcanonical⟩

/-- The name of a canonical path leads where the path does unless a blank ends the path. -/
theorem realPath_of_pathOf_iff {name : QueryPath} (hspelled : ∀ step ∈ names, IsStep step)
    (hname : QueryPath.ofText (pathOf names) = .ok name) :
    (CompileRequest.of name).realPath = pathOf names ↔
      ∀ last ∈ names.getLast?, Text.trimEnd last = last := by
  obtain ⟨q, hq, hblank⟩ :=
    QueryPath.exists_ofText_of_normalized (QueryPath.normalize_pathOf hspelled)
  cases hname.symm.trans hq
  have hlocal : (CompileRequest.of name).realPath = name.text :=
    withoutScheme_of_ofText hspelled hname
  rw [hlocal, ← QueryPath.trimEnd_pathOf_iff fun step hstep => (hspelled step hstep).isName,
    ← hblank]
  exact ⟨fun htext => congrArg QueryPath.mk htext, congrArg QueryPath.text⟩

/-- A file is read itself exactly if no backslash is in its names and no blank ends the last
one. -/
theorem readsItself_iff (hnames : ∀ name ∈ names, IsName name) :
    p.ReadsItself ⟨p.config.root.under names,
      HostPath.relativeTo p.config.root (p.config.root.under names)⟩ ↔
      QueryPath.NoBackslashOrEndBlank names := by
  obtain ⟨name, read, hname, hread, hreal⟩ :=
    exists_name_of_relativeTo p.config.root (p.config.root.under names)
  have hisName : ∀ step ∈ read, IsName step := fun step hstep => (hread step hstep).isName
  have hsteps : p.ReadsItself ⟨p.config.root.under names,
      HostPath.relativeTo p.config.root (p.config.root.under names)⟩ ↔ read = names := by
    unfold ReadsItself
    rw [hname, HostPath.components_under _ hnames, ← HostPath.append_names_inj,
      ← HostPath.components_below_pathOf p.config.root hisName, ← hreal]
    exact ⟨fun ⟨other, hother, hsame⟩ => by rwa [Except.ok.inj hother],
      fun hsame => ⟨name, rfl, hsame⟩⟩
  rw [hsteps]
  constructor
  · rintro rfl
    rw [HostPath.relativeTo_under _ hread] at hname
    exact ⟨fun step hstep => (hread step hstep).no_backslash,
      (realPath_of_pathOf_iff hread hname).1 hreal⟩
  · intro hplain
    have hspelled : ∀ step ∈ names, IsStep step := fun step hstep =>
      ⟨hnames step hstep, hplain.no_backslash step hstep⟩
    rw [HostPath.relativeTo_under _ hspelled] at hname
    exact (HostPath.pathOf_inj hisName hnames).1
      (hreal.symm.trans ((realPath_of_pathOf_iff hspelled hname).2 hplain.no_blank))

/-- Two files that are found and read themselves have different names. -/
theorem eq_of_readsItself (hnamed : t.Named) (hinside : p.WalksInside)
    (hfile : (p.walk enters visit).Found t file) (hother : (p.walk enters visit).Found t other)
    (hself : p.ReadsItself file) (hself' : p.ReadsItself other)
    (hsame : QueryPath.ofText file.relPath = QueryPath.ofText other.relPath) :
    file = other := by
  obtain ⟨names, -, hnames, rfl, -, -⟩ := exists_under_of_found hnamed hinside hfile
  obtain ⟨names', -, hnames', rfl, -, -⟩ := exists_under_of_found hnamed hinside hother
  obtain ⟨name, hname, hread⟩ := hself
  obtain ⟨name', hname', hread'⟩ := hself'
  cases (hname.symm.trans hsame).trans hname'
  dsimp only at hread hread'
  rw [hread, HostPath.components_under _ hnames, HostPath.components_under _ hnames',
    HostPath.append_names_inj] at hread'
  rw [hread']

/-- What a visit sends to the compiler. -/
theorem compiled_visitor {name : QueryPath} (d : Destination) (mode : VisitMode)
    (ws : Workspace) (hrule : p.rules.classify file.relPath = .build)
    (hname : QueryPath.ofText file.relPath = .ok name) :
    (p.visitor d mode file ws).2.compiled = ws.compiled ++ [.of name] := by
  have hcopy : ∀ ws : Workspace, (copy d file ws).2.compiled = ws.compiled := by
    intro ws
    unfold copy
    split <;> rfl
  have hemit : ∀ (m : Module) (ws : Workspace), (emit d m ws).2.compiled = ws.compiled :=
    fun _ _ => rfl
  unfold visitor
  rw [hrule, hname]
  dsimp only [compile]
  unfold finish
  split
  · exact hcopy _
  · rfl
  · next m hmodule =>
    split
    · rfl
    · refine Eq.trans ?_ (hemit m { ws with compiled := ws.compiled ++ [.of name] })
      split
      · next hemitted => rw [hemitted]
      · next hemitted => rw [hemitted]

/-- **A visited file is compiled from its own content exactly if no backslash is in its path and
no blank ends it.**  A file that a walk finds lies below the root by some names, and the
compiler is sent the name that its path is read as.  What the compiler reads for this name is
the file itself exactly if no name holds a backslash and no blank ends the last one.  Then the
source is the text of the file, and no other file of this kind has its name. -/
theorem visited_file_compiled_from_itself_iff (hnamed : t.Named) (hinside : p.WalksInside)
    (hfound : (p.walk enters visit).Found t file) :
    ∃ names name, (∀ step ∈ names, IsName step) ∧ file.path = p.config.root.under names ∧
      QueryPath.ofText file.relPath = .ok name ∧
      (p.rules.classify file.relPath = .build → ∀ d mode ws,
        (p.visitor d mode file ws).2.compiled = ws.compiled ++ [.of name]) ∧
      (p.ReadsItself file ↔ QueryPath.NoBackslashOrEndBlank names) ∧
      (p.ReadsItself file → ∀ (ws : Workspace) source,
        Compiler.sourceOf p.config.root ws.tree (.of name) = .ok source ↔
          ∃ content, ws.tree.read file.path = .ok content ∧
          Text.decode? content = some source) ∧
      ∀ other, (p.walk enters visit).Found t other → p.ReadsItself file → p.ReadsItself other →
        QueryPath.ofText other.relPath = .ok name → other = file := by
  obtain ⟨names, -, hnames, rfl, -, -⟩ := exists_under_of_found hnamed hinside hfound
  obtain ⟨name, -, hname, -, -⟩ :=
    exists_name_of_relativeTo p.config.root (p.config.root.under names)
  refine ⟨names, name, hnames, rfl, hname,
    fun hrule d mode ws => compiled_visitor d mode ws hrule hname, readsItself_iff hnames,
        fun hself ws source => ?_, fun other hother hself hself' hsame =>
      eq_of_readsItself hnamed hinside hother hfound hself' hself (hsame.trans hname.symm)⟩
  obtain ⟨name', hname', hread⟩ := hself
  cases hname.symm.trans hname'
  exact Compiler.sourceOf_eq_ok_iff rfl (HostPath.location_congr hread)

/-- A script in a directory below the root of a project. -/
def spacedTree : FileTree :=
  ⟨[(["project", "my lib ", " main page.js"], .file (Text.encode "exports.a = 1;"))], []⟩

/-- Blanks inside the names and at the end of a directory's do no harm. -/
theorem spaced_script_compiled_from_itself :
    ((writingTo "/out").fullWalk (outputAt "/out")).Found spacedTree
        ⟨⟨"/project/my lib / main page.js"⟩, "/my lib / main page.js"⟩ ∧
      (writingTo "/out").ReadsItself
        ⟨⟨"/project/my lib / main page.js"⟩, "/my lib / main page.js"⟩ := by
  have hnamed : spacedTree.Named := by decide
  have hinside : (writingTo "/out").WalksInside :=
    ⟨[], fun name hname => absurd hname List.not_mem_nil, rfl⟩
  have hdirs : spacedTree.metadata ⟨"/project"⟩ = .ok .dir ∧
      ((writingTo "/out").fullWalk (outputAt "/out")).subdirsIn spacedTree ⟨"/project"⟩ =
        [⟨"/project/my lib "⟩] ∧
      ((writingTo "/out").fullWalk (outputAt "/out")).filesIn spacedTree ⟨"/project/my lib "⟩ =
        [⟨⟨"/project/my lib / main page.js"⟩, "/my lib / main page.js"⟩] := by
    decide +kernel
  obtain ⟨hdir, hsubdirs, hfiles⟩ := hdirs
  have hfound : ((writingTo "/out").fullWalk (outputAt "/out")).Found spacedTree
      ⟨⟨"/project/my lib / main page.js"⟩, "/my lib / main page.js"⟩ := by
    have hsub : Walk.Entered ((writingTo "/out").fullWalk (outputAt "/out")) spacedTree
        ⟨"/project/my lib "⟩ :=
      .inside (.source hdir) (hsubdirs ▸ List.mem_singleton_self _)
    obtain ⟨name, hname, hregular, hfile⟩ :=
      Walk.mem_filesIn.1 (hfiles ▸ List.mem_singleton_self _)
    exact hfile ▸ .inside hsub hname hregular
  obtain ⟨names, name, hnames, hpath, -, -, hself, -⟩ :=
    visited_file_compiled_from_itself_iff hnamed hinside hfound
  have hplain : QueryPath.NoBackslashOrEndBlank names := by
    have hsteps : (HostPath.mk "/project/my lib / main page.js").components =
        (HostPath.mk "/project").components ++ ["my lib ", " main page.js"].map .name := by
          decide
    have hunder := congrArg HostPath.components hpath
    rw [HostPath.components_under _ hnames] at hunder
    have hsame := HostPath.append_names_inj.1 (hsteps.symm.trans hunder)
    rw [← hsame]
    decide
  exact ⟨hfound, hself.2 hplain⟩

/-- Two scripts of a project. -/
def twinTree : FileTree :=
  ⟨[(["project", "app.js"], .file (Text.encode "var a = 1;")),
    (["project", "app.js "], .file (Text.encode "var b = 2;"))], []⟩

theorem readDir_twins : twinTree.readDir ⟨"/project"⟩ = .ok ["app.js", "app.js "] := by
  unfold twinTree
  generalize Text.encode "var a = 1;" = source, Text.encode "var b = 2;" = other
  cbv

/-- Both are found, whatever the rules. -/
theorem found_twins {rules : ProjectRules} :
    ∀ file ∈ [⟨⟨"/project/app.js"⟩, "/app.js"⟩, ⟨⟨"/project/app.js "⟩, "/app.js "⟩],
      (({ writingTo "/out" with rules } : Project).fullWalk (outputAt "/out")).Found twinTree
        file := by
  have hdir : twinTree.metadata ⟨"/project"⟩ = .ok .dir := by decide
  have hfiles : ((writingTo "/out").fullWalk (outputAt "/out")).filesIn twinTree ⟨"/project"⟩ =
      [⟨⟨"/project/app.js"⟩, "/app.js"⟩, ⟨⟨"/project/app.js "⟩, "/app.js "⟩] := by
    unfold Walk.filesIn FileTree.namesIn
    rw [readDir_twins]
    decide
  have hroot : (({ writingTo "/out" with rules } : Project).fullWalk (outputAt "/out")).root =
      ((writingTo "/out").fullWalk (outputAt "/out")).root := rfl
  intro file hfile
  rw [← hfiles, ← Walk.filesIn_congr hroot] at hfile
  obtain ⟨name, hname, hregular, rfl⟩ := Walk.mem_filesIn.1 hfile
  exact .inside (.source hdir) hname hregular

/-- The blank that ends the name of a script is dropped: the script is compiled from the source
of another one, whose name it takes. -/
theorem blank_ended_script_compiled_from_other :
    let p := writingTo "/out"
    let file : WalkedFile := ⟨⟨"/project/app.js "⟩, "/app.js "⟩
    let other : WalkedFile := ⟨⟨"/project/app.js"⟩, "/app.js"⟩
    (p.fullWalk (outputAt "/out")).Found twinTree file ∧
      (p.fullWalk (outputAt "/out")).Found twinTree other ∧
      p.rules.classify file.relPath = .build ∧ QueryPath.ofText file.relPath = .ok ⟨"/app.js"⟩ ∧
      QueryPath.ofText other.relPath = .ok ⟨"/app.js"⟩ ∧ ¬p.ReadsItself file ∧
      twinTree.read file.path = .ok (Text.encode "var b = 2;") ∧
      Compiler.sourceOf p.config.root twinTree (.of ⟨"/app.js"⟩) = .ok "var a = 1;" := by
  intro p file other
  have hfound : ∀ entry ∈ [other, file], (p.fullWalk (outputAt "/out")).Found twinTree entry :=
    found_twins
  have hname : QueryPath.ofText file.relPath = .ok ⟨"/app.js"⟩ := by decide
  refine ⟨hfound file (by decide), hfound other (by decide), ProjectRules.classify_of_no_rules,
    hname, by decide, ?_, by decide, by decide⟩
  rintro ⟨name, hread, hsame⟩
  cases hname.symm.trans hread
  revert hsame
  decide

end Project

end WebBundler
