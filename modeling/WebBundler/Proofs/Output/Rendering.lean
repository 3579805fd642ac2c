import WebBundler.Proofs.Output.Bundled
set_option autoImplicit false

/-!
# Which rendering of a module is written

A module carries its code twice, and says which rendering is its output.  Written by itself, a
script or a template is that rendering.  In bundles each of them is a part of one file
(`perm_parts`), but the part is always the wrapped rendering: so the choice is honoured exactly
where the wrapped rendering is chosen, or both are one text (`renderings_emitted`).
-/

namespace WebBundler

/-! ## Renderings -/

/-- The module is a script or a template. -/
def Module.IsCode (m : Module) : Prop := m.kind = .script ∨ m.kind = .template

instance (m : Module) : Decidable m.IsCode := inferInstanceAs (Decidable (_ ∨ _))

namespace Module

variable {m : Module} {target : String}

/-- A script or a template is written as one file, in the rendering that it chooses. -/
theorem IsCode.outputs_eq (h : m.IsCode) :
    m.outputs = [.ofText m.path.withoutScheme m.outputCode] := by
  have hstyle : m.kind ≠ .style := by
    rcases h with h | h
    · rw [h]; decide
    · rw [h]; decide
  exact if_neg hstyle

theorem IsCode.joins (h : m.IsCode) : m.Joins target := by
  rcases h with h | h
  · exact ⟨by rw [h]; decide, fun hstyle => absurd (h.symm.trans hstyle) (by decide)⟩
  · exact ⟨by rw [h]; decide, fun hstyle => absurd (h.symm.trans hstyle) (by decide)⟩

theorem wrappedCode_eq_outputCode_iff :
    m.wrappedCode = m.outputCode ↔ m.wrap = true ∨ m.wrappedCode = m.code := by
  unfold outputCode
  cases hwrap : m.wrap with
  | true => exact ⟨fun _ => .inl rfl, fun _ => rfl⟩
  | false => exact ⟨.inr, fun h => h.resolve_left Bool.false_ne_true⟩

end Module

/-! ## Parts of files -/

/-- The modules whose code a file of a build in bundles puts together. -/
def BundledWrite.parts : BundledWrite → List Module
  | .common _ parts => parts
  | .bundle _ parts => parts
  | _ => []

/-- The text of a file that puts modules together has a line for each of them, or more, in their
order. -/
theorem BundledWrite.output_of_parts {w : BundledWrite} (h : w.parts ≠ []) :
    ∃ target, w.output = .ofText target
      (Text.joinText "\n" (w.parts.map Module.wrappedCode)) := by
  cases w with
  | common target parts => exact ⟨target, rfl⟩
  | bundle root parts => exact ⟨root.withoutScheme, rfl⟩
  | verbatim m => exact absurd rfl h
  | style m => exact absurd rfl h
  | manifest text => exact absurd rfl h

namespace ModuleSet

variable {set : ModuleSet} {extra : List QueryPath} {commonBundle : String} {m : Module}

/-- The parts of all files are those of the common bundle and of the bundle of each root. -/
theorem flatMap_parts (set : ModuleSet) (merged : Merged) (commonBundle : String) :
    (set.bundledWrites merged commonBundle).flatMap BundledWrite.parts =
      set.partsFor commonBundle merged.shared ++
        merged.bundles.flatMap fun e => set.partsFor e.1.withoutScheme e.2.modules := by
  have hmanifest : [BundledWrite.manifest merged.manifest].flatMap BundledWrite.parts = [] :=
    rfl
  unfold bundledWrites
  rw [List.flatMap_append, List.flatMap_append, hmanifest, List.append_nil, List.flatMap_assoc,
    flatMap_bundleWrites (fun _ => rfl) (fun _ => rfl) rfl]
  congr 1
  exact List.flatMap_congr fun e _ => flatMap_bundleWrites (fun _ => rfl) (fun _ => rfl) rfl

theorem filter_partsFor (set : ModuleSet) (target : String) (paths : List QueryPath) :
    (set.partsFor target paths).filter (·.IsCode) =
      (paths.filterMap set.find?).filter (·.IsCode) := by
  unfold partsFor
  rw [List.filter_filter]
  refine List.filter_congr fun m _ => ?_
  by_cases hcode : m.IsCode
  · simp [hcode, hcode.joins]
  · simp [hcode]

/-- Each script and each template of a set is a part of one file. -/
theorem perm_parts (set : ModuleSet) (extra : List QueryPath) (commonBundle : String) :
    (((set.bundledWrites (set.merge extra) commonBundle).flatMap BundledWrite.parts).filter
      (·.IsCode)).Perm (set.modules.filter (·.IsCode)) := by
  have hplaced : ((set.bundledWrites (set.merge extra) commonBundle).flatMap
      BundledWrite.parts).filter (·.IsCode) =
      ((set.merge extra).modules.filterMap set.find?).filter (·.IsCode) := by
    rw [flatMap_parts, Merged.modules_eq, List.filter_append, List.filterMap_append,
      List.filter_append, List.filter_flatMap, List.filterMap_flatMap, List.filter_flatMap,
        filter_partsFor]
    congr 1
    exact List.flatMap_congr fun e _ => set.filter_partsFor e.1.withoutScheme e.2.modules
  rw [hplaced]
  exact (perm_find?_merge set extra).filter _

theorem exists_part_iff :
    (∃ w ∈ set.bundledWrites (set.merge extra) commonBundle, m ∈ w.parts ∧ m.IsCode) ↔
    m ∈ set.modules ∧ m.IsCode := by
  have hparts := (perm_parts set extra commonBundle).mem_iff (a := m)
  rw [List.mem_filter, List.mem_filter, List.mem_flatMap, decide_eq_true_iff] at hparts
  rw [← hparts]
  constructor
  · rintro ⟨w, hw, hm, hcode⟩
    exact ⟨⟨w, hw, hm⟩, hcode⟩
  · rintro ⟨⟨w, hw, hm⟩, hcode⟩
    exact ⟨w, hw, hm, hcode⟩

/-- **Only a build in modules writes the rendering that a module chooses.**  Written by
themselves, all modules of the set have their own files, and that of a script or a template is
the rendering that it chooses.  In bundles every script and every template is a part of one
file, and a file is its parts in their wrapped rendering, with line breaks between them: so the
parts are the renderings that the modules choose exactly if each of them chooses the wrapped
one, or has two equal ones. -/
theorem renderings_emitted (set : ModuleSet) (extra : List QueryPath) (commonBundle : String) :
    let merged := set.merge extra
    let files := set.bundledWrites merged commonBundle
    ((∃ order : List Module, order.Perm set.modules ∧
        set.outputs merged .modules commonBundle = order.map Module.outputs) ∧
      ∀ m : Module, m.IsCode → m.outputs = [.ofText m.path.withoutScheme m.outputCode]) ∧
      set.outputs merged .bundles commonBundle = files.map (fun w => [w.output]) ∧
      (∀ w ∈ files, w.parts ≠ [] →
        ∃ target, w.output = .ofText target
          (Text.joinText "\n" (w.parts.map Module.wrappedCode))) ∧
      ((files.flatMap BundledWrite.parts).filter (·.IsCode)).Perm
        (set.modules.filter (·.IsCode)) ∧
      ((∀ w ∈ files, ∀ m ∈ w.parts, m.IsCode → m.wrappedCode = m.outputCode) ↔
        ∀ m ∈ set.modules, m.IsCode → m.wrap = true ∨ m.wrappedCode = m.code) := by
  intro merged files
  refine ⟨⟨⟨_, perm_find?_merge set extra, rfl⟩, fun m hcode => hcode.outputs_eq⟩,
    bundledOutputs_eq set merged commonBundle, fun w _ => BundledWrite.output_of_parts,
    perm_parts set extra commonBundle, ?_⟩
  constructor
  · intro hhonoured m hm hcode
    obtain ⟨w, hw, hpart, -⟩ := exists_part_iff.2 ⟨hm, hcode⟩
    exact Module.wrappedCode_eq_outputCode_iff.1 (hhonoured w hw m hpart hcode)
  · intro hchoice w hw m hpart hcode
    obtain ⟨hm, -⟩ := exists_part_iff.1 ⟨w, hw, hpart, hcode⟩
    exact Module.wrappedCode_eq_outputCode_iff.2 (hchoice m hm hcode)

/-- The two pages and their library choose to be wrapped, and are. -/
theorem renderings_emitted_pages :
    (∀ w ∈ pages.bundledWrites (pages.merge []) "/common.js", ∀ m ∈ w.parts, m.IsCode →
      m.wrappedCode = m.outputCode) ∧
      (named "/lib.js" []).outputs = [.ofText "/lib.js" (named "/lib.js" []).outputCode] := by
  obtain ⟨⟨-, hown⟩, -, -, -, hbundled⟩ := renderings_emitted pages [] "/common.js"
  have hcode : (named "/lib.js" []).IsCode := by decide
  exact ⟨hbundled.2 (by decide), hown _ hcode⟩

/-! ## A script that is not to be wrapped -/

/-- A script that chooses its plain rendering. -/
def bare : Module :=
  { Module.empty ⟨"/app.js"⟩ .script with code := "raw", wrappedCode := "wrapped", wrap := false
    }

/-- Written by itself the script has its plain rendering, and as the only part of its bundle the
wrapped one. -/
theorem bare_script_wrapped :
    (alone bare).outputs ((alone bare).merge []) .modules "/common.js" =
      [[.ofText "/app.js" bare.outputCode]] ∧
      (alone bare).bundledWrites ((alone bare).merge []) "/common.js" =
        [.bundle ⟨"/app.js"⟩ [bare], .manifest ((alone bare).merge []).manifest] ∧
      (BundledWrite.bundle ⟨"/app.js"⟩ [bare]).output = .ofText "/app.js" "wrapped" ∧
      bare.outputCode ≠ "wrapped" := by
  have hrequires : bare.requires = [] := rfl
  rw [merge_alone hrequires]
  refine ⟨?_, rfl, rfl, ?_⟩
  · decide
  · decide

end ModuleSet

end WebBundler
