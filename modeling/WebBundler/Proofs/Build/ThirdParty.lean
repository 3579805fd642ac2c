import WebBundler.Build.Smart
import WebBundler.Config.Validation
import WebBundler.Proofs.Path.Containment
set_option autoImplicit false

/-!
# Third-party packages

The resolver looks packages up below the directory of dependencies with its path made canonical.
A build compares paths with that directory as it is spelled: the references that it follows
(`Project.seeds`), the directories that it does not enter (`Project.entersApplication`) and the
failures that it survives (`VisitOutcome.isFatal`).

Both mean the same exactly if the directory is spelled by names alone
(`packages_third_party_iff`), with any slashes around it.  Other spellings pass the checks of
the settings: with `./node_modules` a build takes every package for a part of the application
(`dotted_directory_not_third_party`).
-/

namespace WebBundler

open QueryPath (SpelledByNames slashedSegments within)

/-- The directory of a package. -/
def Resolver.packageDir (r : Resolver) (name : String) : String :=
  QueryPath.normalize (r.dependencyDir ++ "/" ++ name)

/-- No segment of the name of a package, between slashes of either kind, is empty, `.` or
`..`. -/
def IsPackageName (name : String) : Prop :=
  ∀ seg ∈ slashedSegments name, seg ≠ "" ∧ seg ≠ "." ∧ seg ≠ ".."

instance (name : String) : Decidable (IsPackageName name) :=
  inferInstanceAs (Decidable (∀ _ ∈ _, _))

theorem IsPackageName.isStep {name : String} (h : IsPackageName name) :
    ∀ seg ∈ slashedSegments name, QueryPath.IsStep seg := fun seg hseg =>
  QueryPath.isStep_of_mem_slashedSegments hseg (h seg hseg).1 (h seg hseg).2.1 (h seg hseg).2.2

theorem Config.dependencyDir_ne_empty {c : Config} (h : c.validateSchema = .ok ()) :
    Text.trimChar '/' c.dependencyDir ≠ "" := by
  unfold validateSchema at h
  split at h
  · cases h
  · split at h
    · cases h
    · split at h
      · cases h
      · next hne => exact hne

/-- The path of a package, or of something below it. -/
def InPackage (package path : String) : Prop := path = package ∨ within path package = true

theorem InPackage.within {package path dir : String} (h : InPackage package path)
    (hpackage : QueryPath.within package dir = true) : QueryPath.within path dir = true := by
  rcases h with rfl | hpath
  · exact hpackage
  · exact QueryPath.within_trans hpath hpackage

/-- The slash before the directory of dependencies does not count. -/
theorem Config.within_dependencyPrefix (c : Config) (path : String) :
    within path c.dependencyPrefix = within path c.dependencyDir := by
  have htrim : Text.trimChar '/' c.dependencyPrefix = Text.trimChar '/' c.dependencyDir := by
    have hchars : c.dependencyPrefix.toList =
        '/' :: Text.strip (· == '/') c.dependencyDir.toList := by
      unfold dependencyPrefix Text.trimChar
      rw [String.toList_append]
      simp
    unfold Text.trimChar
    rw [hchars, Text.strip_cons_strip rfl]
  unfold QueryPath.within
  rw [htrim]

namespace Project

variable {p : Project} {path : String}

/-- A build takes a path for one of third-party code. -/
structure ThirdParty (p : Project) (path : String) : Prop where
  /-- The expansion starts from every reference to it. -/
  followed : ∀ (modules : List Module) (m : Module), m ∈ modules → path ∈ m.requiresOrigin →
    path ∈ p.seeds modules
  /-- A smart build does not go into it. -/
  not_entered : p.entersApplication path = false
  /-- A walk goes on after any failure of a file there. -/
  survived : ∀ (enters : String → Bool) (visit : Visitor Workspace) (st : Walk.State Workspace)
    (number : Nat) (file : WalkedFile) (e : BuildError), file.relPath = path →
    (p.walk enters visit).record st number file (.failed e) =
      .ok { st with total := st.total + 1, errors := st.errors ++ [e] }

theorem not_isFatal_of_within {dir : String} (hpath : within path dir = true) (e : BuildError) :
    (VisitOutcome.failed e).isFatal path dir = false := by
  unfold VisitOutcome.isFatal
  rw [hpath]
  split <;> rfl

/-- Third-party code is what lies below the directory of dependencies as it is spelled. -/
theorem thirdParty_iff : p.ThirdParty path ↔ within path p.config.dependencyDir = true := by
  constructor
  · intro h
    let m : Module := { Module.empty ⟨path⟩ .script with requiresOrigin := [path] }
    obtain ⟨other, hother, hfollowed⟩ :=
      List.mem_flatMap.1 (h.followed [m] m (List.mem_singleton_self m)
        (List.mem_singleton_self path))
    exact (List.mem_filter.1 hfollowed).2
  · intro hpath
    refine ⟨fun modules m hm hrequires => ?_, ?_, fun enters visit st number file e hfile => ?_⟩
    · exact List.mem_flatMap.2 ⟨m, hm, List.mem_filter.2 ⟨hrequires, hpath⟩⟩
    · unfold entersApplication
      rw [p.config.within_dependencyPrefix, hpath, Bool.not_true, Bool.and_false,
        Bool.false_and]
    · have hfatal := not_isFatal_of_within hpath e
      rw [← hfile] at hfatal
      unfold Walk.record
      exact if_neg (ne_true_of_eq_false hfatal)

/-- **A build takes packages for third-party code exactly if the directory of dependencies is
spelled by names.**  Then all that lies in a package is followed by the expansion, not entered
by a smart build and survived by a walk; otherwise not even the path of the package lies below
the directory. -/
theorem packages_third_party_iff (p : Project) {name : String}
    (hvalid : p.config.validateSchema = .ok ()) (hname : IsPackageName name) :
    (within ((Resolver.of p.config.root p.config.dependencyDir).packageDir name)
      p.config.dependencyDir = true ↔
      SpelledByNames p.config.dependencyDir) ∧
    ((∀ path, InPackage ((Resolver.of p.config.root p.config.dependencyDir).packageDir name)
      path →
      p.ThirdParty path) ↔ SpelledByNames p.config.dependencyDir) := by
  have hwithin :
      within ((Resolver.of p.config.root p.config.dependencyDir).packageDir name)
        p.config.dependencyDir = true ↔
        SpelledByNames p.config.dependencyDir :=
    QueryPath.within_normalize_iff (Config.dependencyDir_ne_empty hvalid) hname.isStep
  refine ⟨hwithin, fun h => hwithin.1 (thirdParty_iff.1 (h _ (.inl rfl))),
    fun hplain path hpath => ?_⟩
  exact thirdParty_iff.2 (hpath.within (hwithin.2 hplain))

/-- A project with the given directory of dependencies. -/
def withDependencies (dir : String) : Project where
  config := { Config.default with dependencyDir := dir }
  source := ⟨"/project"⟩
  compiler := .standard (.of ⟨"/project"⟩ dir)
  rules := ⟨⟨⟨"/project"⟩, []⟩, ⟨⟨"/project"⟩, []⟩⟩

/-- With `/node_modules/` the index of a scoped package is third-party code. -/
theorem packages_third_party_scoped :
    (withDependencies "/node_modules/").ThirdParty "/node_modules/@scope/lib/index.js" := by
  have hname : IsPackageName "@scope/lib" := by decide
  have hplain : SpelledByNames "/node_modules/" := by decide
  have hvalid : (withDependencies "/node_modules/").config.validateSchema = .ok () := by
    decide
  exact (packages_third_party_iff (withDependencies "/node_modules/") hvalid hname).2.2 hplain _
    (.inr (by decide))

/-- The settings may spell the directory `./node_modules`, and then no package lies below it:
the resolver finds `lib` in `/node_modules/lib`, which a smart build enters as a part of the
application. -/
theorem dotted_directory_not_third_party :
    (withDependencies "./node_modules").config.validateSchema = .ok () ∧ IsPackageName "lib" ∧
      (Resolver.of ⟨"/project"⟩ "./node_modules").packageDir "lib" = "/node_modules/lib" ∧
      within "/node_modules/lib" "./node_modules" = false ∧
      (withDependencies "./node_modules").entersApplication "/node_modules/lib" = true := by
  decide

end Project

end WebBundler
