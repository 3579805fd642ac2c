import WebBundler.Proofs.Build.Destination
import WebBundler.Proofs.Output.Places
import WebBundler.Proofs.Walk.Coverage
set_option autoImplicit false

/-!
# What a visit writes

The outputs of a file have at most two paths: that of the main output, which is the path of the
file if this names the file, and that of a plain stylesheet beside its source.  A visit that
does not fail leaves each of them below the destination (`look_visit_self`) and all else as it
was (`look_visit_of_other`).  What takes the place of the output of another file is the plain
stylesheet of a source whose extension is spelled otherwise, and the main output of a file whose
path does not name it (`Intrudes`, `look_visit_of_intrudes`).
-/

namespace WebBundler.Project

open QueryPath (IsStep pathOf)

variable {p : Project} {d : Destination} {ws : Workspace} {t : FileTree}
  {file other : WalkedFile} {group : List Output} {o o' : Output} {names : List String}
  {dependencyDir : String}

/-! ## The outputs of a visit -/

/-- The path of the main output of a file, if it is not left out: that of its name if it is a
source, and else its own. -/
def mainPath? (p : Project) (file : WalkedFile) : Option String :=
  match p.rules.classify file.relPath, QueryPath.ofText file.relPath with
  | .ignore, _ => none
  | .build, .ok name =>
    if (FileTypes.standard.kind? name.withoutScheme).isSome then some name.withoutScheme
    else some file.relPath
  | _, _ => some file.relPath

/-- The path of the plain stylesheet of a source, if it is another than that of the source. -/
def siblingPath? (p : Project) (file : WalkedFile) : Option String :=
  match p.rules.classify file.relPath, QueryPath.ofText file.relPath with
  | .build, .ok name =>
    if FileTypes.standard.kind? name.withoutScheme = some .style ∧
        cssPath name.withoutScheme ≠ name.withoutScheme then
      some (cssPath name.withoutScheme)
    else none
  | _, _ => none

/-- What the visit of a file writes. -/
inductive Outputs (p : Project) (t : FileTree) (file : WalkedFile) : List Output → Prop where
  | ignored (hrule : p.rules.classify file.relPath = .ignore) : Outputs p t file []
  | copied {content : ByteArray} (hcopied : p.IsCopied t file)
      (hread : t.read file.path = .ok content) :
      Outputs p t file [⟨file.relPath, content⟩]
  | compiled {name : QueryPath} {m : Module} (hrule : p.rules.classify file.relPath = .build)
      (hname : QueryPath.ofText file.relPath = .ok name)
      (hmodule : p.compiler t (.of name) = .ok m) :
      Outputs p t file m.outputs

theorem copy_eq_ok (h : (copy d file ws).1.failure? = none) :
    ∃ content, ws.tree.read file.path = .ok content ∧
      d.writeGroup ws.tree [⟨file.relPath, content⟩] = ((copy d file ws).2.tree, none) := by
  unfold copy at h ⊢
  unfold Destination.copy at h ⊢
  cases hread : ws.tree.read file.path with
  | error e =>
    rw [hread] at h
    cases h
  | ok content =>
    rw [hread] at h
    refine ⟨content, rfl, ?_⟩
    rw [Destination.writeGroup_cons]
    cases hwritten : d.write ws.tree ⟨file.relPath, content⟩ with
    | error e =>
      simp only [hwritten] at h
      cases h
    | ok written =>
      simp only [hwritten]
      rfl

theorem visit_of_build {name : QueryPath} (hrule : p.rules.classify file.relPath = .build)
    (hname : QueryPath.ofText file.relPath = .ok name) :
    (p.fullWalk d).visit file ws =
      finish d .emit file { ws with compiled := ws.compiled ++ [.of name] }
        (p.compiler ws.tree (.of name)) := by
  show p.visitor d .emit file ws = _
  unfold visitor
  rw [hrule, hname]
  rfl

/-- A visit that does not fail writes all outputs of its file. -/
theorem visit_eq_ok (h : ((p.fullWalk d).visit file ws).1.failure? = none) :
    ∃ group, p.Outputs ws.tree file group ∧
      d.writeGroup ws.tree group = (((p.fullWalk d).visit file ws).2.tree, none) := by
  change (p.visitor d .emit file ws).1.failure? = none at h
  show ∃ group, p.Outputs ws.tree file group ∧
    d.writeGroup ws.tree group = ((p.visitor d .emit file ws).2.tree, none)
  unfold visitor at h ⊢
  cases hrule : p.rules.classify file.relPath with
  | ignore => exact ⟨[], .ignored hrule, rfl⟩
  | skip =>
    rw [hrule] at h
    obtain ⟨content, hread, hwritten⟩ := copy_eq_ok h
    exact ⟨_, .copied (.inl hrule) hread, hwritten⟩
  | build =>
    rw [hrule] at h
    cases hname : QueryPath.ofText file.relPath with
    | error e =>
      rw [hname] at h
      cases h
    | ok name =>
      simp only [hname, compile] at h ⊢
      cases hmodule : p.compiler ws.tree (.of name) with
      | ok m =>
        refine ⟨_, .compiled hrule hname hmodule, ?_⟩
        rw [hmodule] at h
        simp only [finish, emit] at h ⊢
        cases hfailure : (d.writeGroup ws.tree m.outputs).2 with
        | none =>
          exact Prod.ext rfl hfailure
        | some e =>
          simp only [hfailure] at h
          cases h
      | error e =>
        cases e with
        | failed path reason =>
          rw [hmodule] at h
          cases h
        | unknownType path =>
          rw [hmodule] at h
          obtain ⟨content, hread, hwritten⟩ := copy_eq_ok h
          exact ⟨_, .copied (.inr ⟨hrule, name, path, hname, hmodule⟩) hread, hwritten⟩

/-- No visit takes a file away. -/
theorem hasFile_visit {place : List String}
    (h : ((p.fullWalk d).visit file ws).1.failure? = none) (hfile : ws.tree.HasFile place) :
    ((p.fullWalk d).visit file ws).2.tree.HasFile place := by
  obtain ⟨group, -, hwritten⟩ := visit_eq_ok h
  exact Destination.writeGroup_invariant (P := fun t => t.HasFile place)
    (fun _ _ _ _ _ _ hwrite hfile => hfile.write hwrite) hwritten hfile

theorem faults_visit (h : ((p.fullWalk d).visit file ws).1.failure? = none) :
    ((p.fullWalk d).visit file ws).2.tree.faults = ws.tree.faults := by
  obtain ⟨group, -, hwritten⟩ := visit_eq_ok h
  exact Destination.writeGroup_invariant (P := fun t => t.faults = ws.tree.faults)
    (fun _ _ _ _ _ _ hwrite hfaults => (FileTree.faults_write hwrite).trans hfaults) hwritten
    rfl

/-! ## Where the outputs go -/

/-- The path of a file names the file: no backslash is in it, and no blank ends it if it is that
of a source. -/
structure NamesItself (names : List String) : Prop where
  steps : ∀ name ∈ names, IsStep name
  named : ∀ name, QueryPath.ofText (pathOf names) = .ok name →
    (FileTypes.standard.kind? name.withoutScheme).isSome = true →
    name.withoutScheme = pathOf names

/-- What the build makes of a file: its bytes if it is copied or a stylesheet with the extension
`.css`, and else the output of its module. -/
inductive Made (p : Project) (t : FileTree) (file : WalkedFile) : ByteArray → Prop where
  | copied {content : ByteArray} (hcopied : p.IsCopied t file)
      (hread : t.read file.path = .ok content) :
      Made p t file content
  | stylesheet {content : ByteArray} (hrule : p.rules.classify file.relPath = .build)
      (hkind : FileTypes.standard.kind? file.relPath = some .style)
      (hcss : Text.endsWith file.relPath ".css" = true)
      (hread : t.read file.path = .ok content) :
      Made p t file content
  | compiled {m : Module} (hrule : p.rules.classify file.relPath = .build)
      (hmodule : p.compiler t (.of ⟨file.relPath⟩) = .ok m)
      (hother : ¬(m.kind = .style ∧ Text.endsWith file.relPath ".css" = true)) :
      Made p t file (Text.encode m.outputCode)

/-- The output of a file goes to a path that is not its own: a plain stylesheet beside its
source, or the main output of a file whose path does not name it. -/
def Intrudes (p : Project) (file : WalkedFile) (path : String) : Prop :=
  p.siblingPath? file = some path ∨ p.mainPath? file = some path ∧
    ¬∃ names, NamesItself names ∧ file.path = p.config.root.under names

theorem exists_relativeTo_eq (root path : HostPath) :
    ∃ names, (∀ name ∈ names, IsStep name) ∧ HostPath.relativeTo root path = pathOf names := by
  obtain ⟨names, hnames, hpath⟩ := QueryPath.exists_normalize_eq (HostPath.relativeTo root path)
  exact ⟨names, hnames, (HostPath.normalize_relativeTo root path).symm.trans hpath⟩

theorem withoutScheme_of_ofText (hnames : ∀ name ∈ names, IsStep name) {name : QueryPath}
    (h : QueryPath.ofText (pathOf names) = .ok name) : name.withoutScheme = name.text := by
  have hnormal := QueryPath.normalize_of_ofText (QueryPath.normalize_pathOf hnames) h
  exact (QueryPath.withoutScheme_of_normalized hnormal).2

theorem exists_withoutScheme_eq (hnames : ∀ name ∈ names, IsStep name) {name : QueryPath}
    (h : QueryPath.ofText (pathOf names) = .ok name) :
    ∃ names', (∀ name ∈ names', IsStep name) ∧ name.withoutScheme = pathOf names' := by
  have hnormal := QueryPath.normalize_of_ofText (QueryPath.normalize_pathOf hnames) h
  obtain ⟨names', hnames', hcanonical⟩ := QueryPath.exists_normalize_eq name.text
  refine ⟨names', hnames', ?_⟩
  rw [withoutScheme_of_ofText hnames h, ← hnormal, hcanonical]

/-- The main output of a file that its path names has this path. -/
theorem mainPath?_of_namesItself (hspelled : NamesItself names)
    (hfile : file.relPath = pathOf names) {path : String} (h : p.mainPath? file = some path) :
    path = pathOf names := by
  unfold mainPath? at h
  split at h
  · cases h
  · next name _ hname =>
    split at h
    · next hkind =>
      rw [← Option.some.inj h]
      exact hspelled.named name (hfile ▸ hname) hkind
    · rw [← Option.some.inj h, hfile]
  · rw [← Option.some.inj h, hfile]

theorem read_of_sourceOf {root : HostPath} {source : String}
    (hnames : ∀ name ∈ names, IsStep name)
    (h : Compiler.sourceOf root t (.of ⟨pathOf names⟩) = .ok source) :
    t.read (root.under names) = .ok (Text.encode source) := by
  have hisName := fun name hname => (hnames name hname).isName
  have hlocal : QueryPath.withoutScheme ⟨pathOf names⟩ = pathOf names :=
    (QueryPath.withoutScheme_of_normalized (QueryPath.normalize_pathOf hnames)).2
  unfold Compiler.sourceOf at h
  dsimp only [CompileRequest.of] at h
  rw [hlocal] at h
  split at h
  · cases h
  · next content hread =>
    split at h
    · next text htext =>
      cases h
      rw [Text.encode_of_decode? htext]
      refine FileTree.read_of_location ?_ hread
      rw [QueryPath.location_below_pathOf root hisName, HostPath.location_under root hisName]
    · cases h

section Standard

variable (hcompiler : p.compiler = .standard (.of p.config.root dependencyDir))
include hcompiler

theorem mainPath?_of_copied (h : p.IsCopied t file) : p.mainPath? file = some file.relPath := by
  unfold mainPath?
  rcases h with hrule | ⟨hrule, name, path, hname, hunknown⟩
  · rw [hrule]
  · rw [hcompiler] at hunknown
    have hkind := Compiler.kind?_of_unknownType hunknown
    rw [hrule, hname]
    dsimp only [CompileRequest.of] at hkind ⊢
    rw [hkind]
    rfl

theorem siblingPath?_of_copied (h : p.IsCopied t file) : p.siblingPath? file = none := by
  unfold siblingPath?
  rcases h with hrule | ⟨hrule, name, path, hname, hunknown⟩
  · rw [hrule]
  · rw [hcompiler] at hunknown
    have hkind := Compiler.kind?_of_unknownType hunknown
    rw [hrule, hname]
    dsimp only [CompileRequest.of] at hkind ⊢
    rw [hkind]
    exact if_neg fun h => nomatch h.1

/-- What is written for the module of a name. -/
theorem outputs_of_name {name : QueryPath} {m : Module} (h : p.compiler t (.of name) = .ok m) :
    FileTypes.standard.kind? name.withoutScheme = some m.kind ∧
      ((m.kind ≠ .style ∧ m.outputs = [⟨name.withoutScheme, Text.encode m.outputCode⟩]) ∨
        (m.kind = .style ∧ cssPath name.withoutScheme = name.withoutScheme ∧
          m.outputs = [⟨name.withoutScheme, Text.encode m.code⟩]) ∨
        (m.kind = .style ∧ cssPath name.withoutScheme ≠ name.withoutScheme ∧
          m.outputs = [⟨name.withoutScheme, Text.encode m.outputCode⟩,
            ⟨cssPath name.withoutScheme, Text.encode m.code⟩])) := by
  rw [hcompiler] at h
  have hanswers := Compiler.standard_eq_ok h
  exact ⟨(Compiler.kind_of_standard h).1,
    Module.outputs_cases (congrArg QueryPath.withoutScheme hanswers.path) hanswers.realPath⟩

omit hcompiler in
/-- The paths of the outputs of a source. -/
theorem paths_of_name {name : QueryPath} {kind : ModuleKind}
    (hrule : p.rules.classify file.relPath = .build)
    (hname : QueryPath.ofText file.relPath = .ok name)
    (hkind : FileTypes.standard.kind? name.withoutScheme = some kind) :
    p.mainPath? file = some name.withoutScheme ∧
      p.siblingPath? file =
        if kind = .style ∧ cssPath name.withoutScheme ≠ name.withoutScheme then
          some (cssPath name.withoutScheme)
        else none := by
  unfold mainPath? siblingPath?
  rw [hrule, hname]
  dsimp only
  rw [hkind]
  exact ⟨rfl, by simp only [Option.some_inj]⟩

/-- The outputs of a file have the path of its main output and that of its plain stylesheet. -/
theorem Outputs.exists_path_iff (h : p.Outputs t file group) {path : String} :
    (∃ o ∈ group, o.path = path) ↔ p.mainPath? file = some path ∨
      p.siblingPath? file = some path := by
  cases h with
  | ignored hrule => simp [mainPath?, siblingPath?, hrule]
  | copied hcopied hread =>
    rw [mainPath?_of_copied hcompiler hcopied, siblingPath?_of_copied hcompiler hcopied]
    simp
  | compiled hrule hname hmodule =>
    obtain ⟨hkind, houtputs⟩ := outputs_of_name hcompiler hmodule
    obtain ⟨hmain, hsibling⟩ := paths_of_name hrule hname hkind
    rw [hmain, hsibling]
    obtain ⟨hother, houtputs⟩ | ⟨hstyle, hsame, houtputs⟩ | ⟨hstyle, hne, houtputs⟩ := houtputs
    · simp [houtputs, hother]
    · simp [houtputs, hsame]
    · simp [houtputs, hstyle, hne]

/-- A file has one output at a path. -/
theorem Outputs.eq_of_path (h : p.Outputs t file group) (ho : o ∈ group) (ho' : o' ∈ group)
    (hpath : o.path = o'.path) : o = o' := by
  cases h with
  | ignored hrule => cases ho
  | copied hcopied hread => rw [List.mem_singleton.1 ho, List.mem_singleton.1 ho']
  | compiled hrule hname hmodule =>
    obtain ⟨-, ⟨-, houtputs⟩ | ⟨-, -, houtputs⟩ | ⟨-, hne, houtputs⟩⟩ :=
      outputs_of_name hcompiler hmodule
    · rw [houtputs, List.mem_singleton] at ho ho'
      rw [ho, ho']
    · rw [houtputs, List.mem_singleton] at ho ho'
      rw [ho, ho']
    · rw [houtputs, List.mem_pair] at ho ho'
      rcases ho with rfl | rfl <;> rcases ho' with rfl | rfl
      · rfl
      · dsimp only at hpath
        exact absurd hpath.symm hne
      · dsimp only at hpath
        exact absurd hpath hne
      · rfl

theorem Outputs.exists_names_eq (h : p.Outputs t file group)
    (hnames : ∀ name ∈ names, IsStep name) (hfile : file.relPath = pathOf names)
    (ho : o ∈ group) :
    ∃ names', (∀ name ∈ names', IsStep name) ∧ o.path = pathOf names' := by
  cases h with
  | ignored hrule => cases ho
  | copied hcopied hread =>
    rw [List.mem_singleton.1 ho]
    exact ⟨names, hnames, hfile⟩
  | compiled hrule hname hmodule =>
    obtain ⟨names', hnames', hcanonical⟩ := exists_withoutScheme_eq hnames (hfile ▸ hname)
    obtain ⟨hkind, houtputs⟩ := outputs_of_name hcompiler hmodule
    rw [hcanonical] at hkind houtputs
    obtain ⟨-, houtputs⟩ | ⟨-, -, houtputs⟩ | ⟨-, -, houtputs⟩ := houtputs
    · rw [houtputs, List.mem_singleton] at ho
      exact ⟨names', hnames', congrArg Output.path ho⟩
    · rw [houtputs, List.mem_singleton] at ho
      exact ⟨names', hnames', congrArg Output.path ho⟩
    · rw [houtputs, List.mem_pair] at ho
      rcases ho with rfl | rfl
      · exact ⟨names', hnames', rfl⟩
      · exact QueryPath.exists_cssPath_eq hnames' (by rw [hkind]; rfl)

/-- One output of a file that its path names has this path, and holds what is made of the
file. -/
theorem Outputs.made (h : p.Outputs t file group) (hspelled : NamesItself names)
    (hpath : file.path = p.config.root.under names) (hfile : file.relPath = pathOf names)
    (hrule : p.rules.classify file.relPath ≠ .ignore) :
    ∃ content, p.Made t file content ∧ ⟨pathOf names, content⟩ ∈ group := by
  have hnames := hspelled.steps
  cases h with
  | ignored hignored => exact absurd hignored hrule
  | copied hcopied hread =>
    rw [hfile]
    exact ⟨_, .copied hcopied hread, List.mem_singleton_self _⟩
  | compiled hbuild hname hmodule =>
    next name m =>
    obtain ⟨hkind, houtputs⟩ := outputs_of_name hcompiler hmodule
    have hsame : name.withoutScheme = pathOf names :=
      hspelled.named name (hfile ▸ hname) (by rw [hkind]; rfl)
    have hself : name = ⟨file.relPath⟩ := by
      rw [hfile, ← hsame, withoutScheme_of_ofText hnames (hfile ▸ hname)]
    rw [hsame] at hkind houtputs
    have hcss := QueryPath.cssPath_eq_self_iff hnames (by rw [hkind]; rfl)
    rw [← hfile] at hcss
    obtain ⟨hother, houtputs⟩ | ⟨hstyle, hplain, houtputs⟩ | ⟨-, hne, houtputs⟩ := houtputs
    · rw [houtputs]
      exact ⟨_, .compiled hbuild (hself ▸ hmodule) (fun h => hother h.1),
        List.mem_singleton_self _⟩
    · rw [houtputs]
      refine ⟨_, .stylesheet hbuild ?_ (hcss.1 (hfile ▸ hplain)) ?_, List.mem_singleton_self _⟩
      · rw [hfile, hkind, hstyle]
      · rw [hcompiler, hself, hfile] at hmodule
        rw [hpath]
        exact read_of_sourceOf hnames ((Compiler.kind_of_standard hmodule).2 hstyle)
    · rw [houtputs]
      exact ⟨_, .compiled hbuild (hself ▸ hmodule) (fun h => hne (hfile ▸ hcss.2 h.2)),
        List.mem_cons_self⟩

/-! ## Visits one after the other -/

/-- All outputs of a visit go below the destination. -/
theorem Outputs.place (h : p.Outputs t file group)
    (hfound : file = (p.fullWalk d).fileAt file.path) (ho : o ∈ group) {target : HostPath}
    (htarget : d.place o.path = .ok target) :
    ∃ names, (∀ name ∈ names, IsStep name) ∧ o.path = pathOf names ∧
      target.location = d.dir.location ++ names := by
  obtain ⟨names, hnames, hrelPath⟩ := exists_relativeTo_eq p.config.root file.path
  have hrelPath : file.relPath = pathOf names := by
    rw [hfound]
    exact hrelPath
  obtain ⟨names', hnames', hpath⟩ := h.exists_names_eq hcompiler hnames hrelPath ho
  obtain ⟨target', htarget', hlocation⟩ := d.location_place hnames'
  rw [hpath, htarget'] at htarget
  cases htarget
  exact ⟨names', hnames', hpath, hlocation⟩

/-- A visit leaves every file outside the destination as it is. -/
theorem look_visit_of_outside {place : List String} {bytes : ByteArray}
    (h : ((p.fullWalk d).visit file ws).1.failure? = none)
    (hfound : file = (p.fullWalk d).fileAt file.path) (houtside : ¬d.dir.location <+: place)
    (hfile : ws.tree.look place = .ok (.file bytes)) :
    ((p.fullWalk d).visit file ws).2.tree.look place = .ok (.file bytes) := by
  obtain ⟨group, houtputs, hwritten⟩ := visit_eq_ok h
  refine Destination.look_writeGroup_of_ne hwritten
    (fun o ho target htarget hsame => houtside ?_) hfile
  obtain ⟨names, -, -, hlocation⟩ := houtputs.place hcompiler hfound ho htarget
  exact ⟨names, hlocation.symm.trans hsame⟩

/-- A visit leaves the output of another file as it is, unless it intrudes. -/
theorem look_visit_of_other {bytes : ByteArray}
    (h : ((p.fullWalk d).visit other ws).1.failure? = none)
    (hfound : other = (p.fullWalk d).fileAt other.path) (hnames : ∀ name ∈ names, IsStep name)
    (hother : other.path ≠ p.config.root.under names) (hfree : ¬p.Intrudes other (pathOf names))
    (hfile : ws.tree.look (d.dir.location ++ names) = .ok (.file bytes)) :
    ((p.fullWalk d).visit other ws).2.tree.look (d.dir.location ++ names) =
      .ok (.file bytes) := by
  obtain ⟨group, houtputs, hwritten⟩ := visit_eq_ok h
  refine Destination.look_writeGroup_of_ne hwritten (fun o ho target htarget hsame => hfree ?_)
    hfile
  obtain ⟨names', hnames', hpath, hlocation⟩ := houtputs.place hcompiler hfound ho htarget
  rw [hlocation, List.append_right_inj] at hsame
  subst hsame
  obtain ⟨own, hown, hrelPath⟩ := exists_relativeTo_eq p.config.root other.path
  have hrelPath : other.relPath = pathOf own := by
    rw [hfound]
    exact hrelPath
  rw [← hpath]
  obtain hmain | hsibling := (houtputs.exists_path_iff hcompiler).1 ⟨o, ho, rfl⟩
  · refine .inr ⟨hmain, fun ⟨spelled, hspelled, hplace⟩ => hother ?_⟩
    have hself : other.relPath = pathOf spelled := by
      rw [hfound, hplace]
      exact HostPath.relativeTo_under p.config.root hspelled.steps
    have hsame := mainPath?_of_namesItself hspelled hself hmain
    rw [hpath, HostPath.pathOf_inj (fun name hname => (hnames' name hname).isName)
      fun name hname => (hspelled.steps name hname).isName] at hsame
    rw [hplace, hsame]
  · exact .inl hsibling

/-- A visit leaves each output of its file at its place. -/
theorem Outputs.look (h : p.Outputs ws.tree file group)
    (hfound : file = (p.fullWalk d).fileAt file.path)
    (hwritten : d.writeGroup ws.tree group = (t, none)) (ho : o ∈ group)
    (hpath : o.path = pathOf names) (hnames : ∀ name ∈ names, IsStep name) :
    t.look (d.dir.location ++ names) = .ok (.file o.content) := by
  obtain ⟨target, htarget, hlocation⟩ := d.location_place hnames
  rw [← hlocation]
  refine Destination.look_writeGroup_self hwritten ho (hpath ▸ htarget)
    fun o' ho' target' htarget' hsame => ?_
  obtain ⟨names', -, hpath', hlocation'⟩ := h.place hcompiler hfound ho' htarget'
  rw [hlocation, hlocation', List.append_right_inj] at hsame
  exact h.eq_of_path hcompiler ho' ho (by rw [hpath, hpath', hsame])

/-- A visit leaves what is made of its file. -/
theorem look_visit_self (h : ((p.fullWalk d).visit file ws).1.failure? = none)
    (hspelled : NamesItself names)
    (hfile : file = (p.fullWalk d).fileAt (p.config.root.under names))
    (hrule : p.rules.classify (pathOf names) ≠ .ignore) :
    ∃ content, p.Made ws.tree file content ∧
      ((p.fullWalk d).visit file ws).2.tree.look (d.dir.location ++ names) =
        .ok (.file content) := by
  have hrelPath : file.relPath = pathOf names := by
    rw [hfile]
    exact HostPath.relativeTo_under p.config.root hspelled.steps
  have hpath : file.path = p.config.root.under names := by
    rw [hfile]
    rfl
  have hfound : file = (p.fullWalk d).fileAt file.path := by rw [hpath, ← hfile]
  obtain ⟨group, houtputs, hwritten⟩ := visit_eq_ok h
  obtain ⟨content, hmade, hmem⟩ :=
    houtputs.made hcompiler hspelled hpath hrelPath (hrelPath ▸ hrule)
  exact ⟨content, hmade, houtputs.look hcompiler hfound hwritten hmem rfl hspelled.steps⟩

/-- A file that intrudes puts an output of its own in the place. -/
theorem look_visit_of_intrudes (h : ((p.fullWalk d).visit other ws).1.failure? = none)
    (hfound : other = (p.fullWalk d).fileAt other.path) (hnames : ∀ name ∈ names, IsStep name)
    (hintrudes : p.Intrudes other (pathOf names)) :
    ∃ group o, p.Outputs ws.tree other group ∧ o ∈ group ∧ o.path = pathOf names ∧
      ((p.fullWalk d).visit other ws).2.tree.look (d.dir.location ++ names) =
        .ok (.file o.content) := by
  obtain ⟨group, houtputs, hwritten⟩ := visit_eq_ok h
  obtain ⟨o, ho, hpath⟩ :=
    (houtputs.exists_path_iff hcompiler).2 (hintrudes.symm.imp_left And.left)
  exact ⟨group, o, houtputs, ho, hpath, houtputs.look hcompiler hfound hwritten ho hpath hnames⟩

/-- After visits that do not fail, a file outside the destination is read as before. -/
theorem read_storeAfter_of_outside {visits : List WalkedFile} {path : HostPath}
    {bytes : ByteArray} (h : (p.fullWalk d).Succeed ws visits)
    (hfound : ∀ file ∈ visits, file = (p.fullWalk d).fileAt file.path)
    (houtside : ¬d.dir.location <+: path.location)
    (hfile : ws.tree.look path.location = .ok (.file bytes)) :
    ((p.fullWalk d).storeAfter ws visits).tree.read path = ws.tree.read path := by
  obtain ⟨hlook, hfaults⟩ := h.invariant
    (P := fun ws' => ws'.tree.look path.location = .ok (.file bytes) ∧
      ws'.tree.faults = ws.tree.faults)
    (fun file hvisit ws' hok hws' =>
      ⟨look_visit_of_outside hcompiler hok (hfound file hvisit) houtside hws'.1,
        (faults_visit hok).trans hws'.2⟩)
    ⟨hfile, rfl⟩
  exact FileTree.read_congr hfaults hfile hlook

end Standard

/-! ## A stylesheet that intrudes -/

/-- The visit of a file that is compiled under its own path. -/
def visitNamed (p : Project) (d : Destination) (file : WalkedFile) (ws : Workspace) :
    VisitOutcome × Workspace :=
  finish d .emit file ⟨ws.tree, ws.compiled ++ [.of ⟨file.relPath⟩], ws.emitted⟩
    (p.compiler ws.tree (.of ⟨file.relPath⟩))

theorem visit_eq_visitNamed (hrule : p.rules.classify file.relPath = .build)
    (hname : QueryPath.ofText file.relPath = .ok ⟨file.relPath⟩) :
    (p.fullWalk d).visit file ws = p.visitNamed d file ws :=
  visit_of_build hrule hname

/-- A file below `/project`. -/
def projectFile (names : List String) : WalkedFile :=
  ⟨HostPath.under ⟨"/project"⟩ names, pathOf names⟩

/-- Two stylesheets, one of them with its extension in capitals. -/
def themeTree : FileTree where
  entries := [
    (["project", "theme.CSS"], .file (Text.encode "b { }")),
    (["project", "theme.css"], .file (Text.encode "a { }"))]
  faults := []

theorem theme_written :
    let first := (writingTo "/out").visitNamed (outputAt "/out") (projectFile ["theme.css"])
      (.of themeTree)
    let second :=
      (writingTo "/out").visitNamed (outputAt "/out") (projectFile ["theme.CSS"]) first.2
    (first.1.failure? = none ∧ second.1.failure? = none) ∧
      first.2.tree.contentAt ["out", "theme.css"] = .ok (Text.encode "a { }") ∧
      second.2.tree.contentAt ["out", "theme.css"] = .ok (Text.encode "b { }") := by
  decide +kernel

theorem theme_named :
    (∀ name ∈ ["theme.css", "theme.CSS"],
      QueryPath.ofText (projectFile [name]).relPath = .ok ⟨(projectFile [name]).relPath⟩) ∧
      FileTypes.standard.kind? (QueryPath.withoutScheme ⟨pathOf ["theme.CSS"]⟩) = some .style ∧
      cssPath (QueryPath.withoutScheme ⟨pathOf ["theme.CSS"]⟩) = pathOf ["theme.css"] ∧
      pathOf ["theme.css"] ≠ QueryPath.withoutScheme ⟨pathOf ["theme.CSS"]⟩ := by
  decide

/-- The plain stylesheet of `theme.CSS` takes the place of `theme.css`, which was visited
before. -/
theorem theme_replaced :
    let walk := (writingTo "/out").fullWalk (outputAt "/out")
    walk.Succeed (.of themeTree) [projectFile ["theme.css"], projectFile ["theme.CSS"]] ∧
      (writingTo "/out").Intrudes (projectFile ["theme.CSS"]) (pathOf ["theme.css"]) ∧
      (walk.storeAfter (.of themeTree)
        [projectFile ["theme.css"]]).tree.contentAt ["out", "theme.css"] =
        .ok (Text.encode "a { }") ∧
      (walk.storeAfter (.of themeTree)
        [projectFile ["theme.css"], projectFile ["theme.CSS"]]).tree.contentAt
        ["out", "theme.css"] =
        .ok (Text.encode "b { }") := by
  intro walk
  obtain ⟨hnamed, hkind, hsibling, hother⟩ := theme_named
  have hvisit : ∀ name ∈ ["theme.css", "theme.CSS"], ∀ ws,
      walk.visit (projectFile [name]) ws =
        (writingTo "/out").visitNamed (outputAt "/out") (projectFile [name]) ws :=
    fun name hname ws => visit_eq_visitNamed (classify_writingTo "/out" _) (hnamed name hname)
  have hlower := hvisit "theme.css" (by decide)
  have hupper := hvisit "theme.CSS" (by decide)
  obtain ⟨⟨hok, hok'⟩, hcontent, hcontent'⟩ := theme_written
  simp only [Walk.Succeed, Walk.storeAfter, List.foldl_cons, List.foldl_nil, hlower, hupper]
  refine ⟨⟨hok, hok', trivial⟩, .inl ?_, hcontent, hcontent'⟩
  have hname := hnamed "theme.CSS" (by decide)
  unfold siblingPath?
  rw [classify_writingTo, hname]
  dsimp only [projectFile]
  rw [hkind, hsibling]
  exact if_pos ⟨rfl, hother⟩

end WebBundler.Project
