import WebBundler.Output.Modules
import WebBundler.FileType
import WebBundler.Proofs.Compiler.Standard
import WebBundler.Proofs.Output.Additions
import WebBundler.Proofs.Path.Descent
set_option autoImplicit false

/-!
# Where outputs go

An output at a canonical path goes down from the destination by the names of the path
(`location_place`), so outputs at different paths go to different places.  A group of outputs
that is written without a failure leaves each of them at its place, and every other file as it
was (`look_writeGroup_self`, `look_writeGroup_of_ne`).

The plain stylesheet of a source has a canonical path too: that of the source itself exactly if
this ends in `.css` (`cssPath_eq_self_iff`).
-/

namespace WebBundler

namespace Text

theorem encode_of_decode? {bytes : ByteArray} {s : String} (h : decode? bytes = some s) :
    encode s = bytes := by
  unfold decode? String.fromUTF8? at h
  split at h
  · cases h
    rfl
  · cases h

theorem cutFirst_append {sep : Char} {a : List Char} (h : sep ∉ a) (b : List Char) :
    cutFirst sep (a ++ sep :: b) = some (a, b) := by
  induction a with
  | nil => simp [cutFirst]
  | cons c a ih =>
    rw [List.mem_cons, not_or] at h
    rw [List.cons_append, cutFirst, if_neg (Ne.symm h.1), ih h.2]
    rfl

theorem cutLast_append {sep : Char} {b : List Char} (a : List Char) (h : sep ∉ b) :
    cutLast sep (a ++ sep :: b) = some (a, b) := by
  have hreverse : (a ++ sep :: b).reverse = b.reverse ++ sep :: a.reverse := by simp
  unfold cutLast
  rw [hreverse, cutFirst_append (by rwa [List.mem_reverse])]
  simp

theorem not_mem_of_cutLast {sep : Char} {s a b : List Char} (h : cutLast sep s = some (a, b)) :
    sep ∉ b := by
  obtain ⟨⟨after, before⟩, hcut, hsame⟩ := Option.map_eq_some_iff.1 h
  cases hsame
  rw [List.mem_reverse]
  exact (cutFirst_eq_some hcut).2

end Text

namespace HostPath

open QueryPath (IsStep pathOf)

theorem location_join_here (p : HostPath) : (p.join ⟨"."⟩).location = p.location := by
  have hslash : '/' ∉ ".".toList := by decide
  have hstep : Component.ofSegment? "." = none := rfl
  rw [join_relative p (q := ⟨"."⟩) rfl]
  by_cases hempty : p.text = ""
  · obtain ⟨text⟩ := p
    subst hempty
    decide
  have hcomponents : (HostPath.mk (p.opening ++ ".")).components = p.components := by
    unfold opening
    by_cases hopen : Text.endsWith p.text "/" = true
    · obtain ⟨a, ha⟩ := exists_of_endsWith hopen
      have hblank : '/' ∉ "".toList := by simp
      have hself : segments p.text = segments a ++ [""] := by
        rw [ha]
        simpa using segments_append_slash a hblank
      have hmore : segments (p.text ++ ".") = segments a ++ ["."] := by
        rw [ha]
        exact segments_append_slash a hslash
      rw [if_pos (.inr hopen), components_eq, components_eq, isAbsolute_append hempty, hself,
        hmore, stepsOf_append _ (segments_ne_nil a), stepsOf_append _ (segments_ne_nil a),
          ofSegment?_empty, hstep]
    · rw [if_neg (not_or.2 ⟨hempty, hopen⟩), components_eq, components_eq,
        segments_append_slash p.text hslash, stepsOf_append _ (segments_ne_nil _), hstep,
          Option.toList_none, List.append_nil, String.append_assoc,
        isAbsolute_append hempty]
  unfold location cleanComponents
  rw [hcomponents]

theorem foldl_cleanStep_relative (names : List String) (kept : List Component) :
    (names.map Component.name).foldl cleanStep kept =
      (names.map Component.name).reverse ++ kept := by
  induction names generalizing kept with
  | nil => rfl
  | cons name names ih =>
    rw [List.map_cons, List.foldl_cons, List.reverse_cons, List.append_assoc]
    exact ih _

theorem components_intercalate {names : List String} (h : ∀ name ∈ names, IsName name) :
    (HostPath.mk (String.intercalate "/" names)).components = names.map .name := by
  by_cases hne : names = []
  · subst hne
    decide
  · have hjoin := join_intercalate ⟨""⟩ h hne
    have hself : (HostPath.mk "").join ⟨String.intercalate "/" names⟩ =
        ⟨String.intercalate "/" names⟩ := by
      rw [join_relative _ (not_isAbsolute_intercalate h)]
      unfold opening
      rw [if_pos (.inl rfl), String.empty_append]
    have hnone : (HostPath.mk "").components = [] := by decide
    rw [hself] at hjoin
    rw [hjoin, components_under _ h, hnone, List.nil_append]

/-- The relative path of some names; that of none is `.`. -/
def wayOf (names : List String) : HostPath :=
  if names = [] then ⟨"."⟩ else ⟨String.intercalate "/" names⟩

theorem clean_of_names {p : HostPath} {names : List String}
    (h : p.cleanComponents = names.map .name) :
    p.clean = wayOf names := by
  unfold clean wayOf
  rw [h]
  cases names with
  | nil => rfl
  | cons name names =>
    rw [if_neg (List.cons_ne_nil _ _)]
    unfold ofComponents
    simp [Component.text, Function.comp_def]

theorem clean_intercalate {names : List String} (h : ∀ name ∈ names, IsName name) :
    (HostPath.mk (String.intercalate "/" names)).clean = wayOf names := by
  apply clean_of_names
  unfold cleanComponents
  rw [components_intercalate h, foldl_cleanStep_relative, List.append_nil, List.reverse_reverse]

theorem location_join_wayOf (p : HostPath) {names : List String}
    (h : ∀ name ∈ names, IsName name) :
    (p.join (wayOf names)).location = p.location ++ names := by
  unfold wayOf
  by_cases hne : names = []
  · rw [if_pos hne, location_join_here, hne, List.append_nil]
  · rw [if_neg hne, location_join_intercalate p h hne]

end HostPath

namespace Destination

open HostPath (IsName)
open QueryPath (IsStep pathOf)

variable {d : Destination} {t t' : FileTree} {place : List String} {bytes : ByteArray}
  {o : Output} {group : List Output}

theorem climbsOut_wayOf {names : List String} (h : ∀ name ∈ names, IsName name) :
    climbsOut (HostPath.wayOf names) = false := by
  unfold HostPath.wayOf
  cases names with
  | nil => rfl
  | cons name names =>
    unfold climbsOut
    rw [if_neg (List.cons_ne_nil _ _), HostPath.components_intercalate h]
    rfl

/-- An output whose path is cleaned to a way down by names goes down from the destination by the
names. -/
theorem place_of_clean {path : String} {names : List String} (h : ∀ name ∈ names, IsName name)
    (hclean : (HostPath.mk (Text.trimStartChar '/' (Text.replaceChar '\\' '/' path))).clean =
      HostPath.wayOf names) :
    d.place path = .ok (d.dir.join (HostPath.wayOf names)) := by
  unfold Destination.place
  dsimp only
  rw [hclean, climbsOut_wayOf h]
  rfl

theorem eq_writeFailure_of_place {path : String} {e : BuildError}
    (h : d.place path = .error e) :
    ∃ reason, e = .writeFailure path reason := by
  unfold Destination.place at h
  dsimp only at h
  split at h
  · cases h
    exact ⟨_, rfl⟩
  · cases h

/-- An output goes down from the destination by the names of its path. -/
theorem location_place_of {path : String} {names : List String}
    (h : ∀ name ∈ names, IsName name) (hpath : Text.trimStartChar
      '/' (Text.replaceChar '\\' '/' path) = String.intercalate "/" names) :
    ∃ target, d.place path = .ok target ∧ target.location = d.dir.location ++ names :=
  ⟨_, place_of_clean h (hpath ▸ HostPath.clean_intercalate h),
    HostPath.location_join_wayOf d.dir h⟩

theorem location_place (d : Destination) {names : List String}
    (h : ∀ name ∈ names, IsStep name) :
    ∃ target, d.place (pathOf names) = .ok target ∧
      target.location = d.dir.location ++ names := by
  apply location_place_of fun name hname => (h name hname).isName
  rw [QueryPath.replaceChar_pathOf h, QueryPath.trimStartChar_pathOf fun name hname =>
    (h name hname).isName]

theorem location_place_loader (d : Destination) :
    ∃ target, d.place Loader.fileName = .ok target ∧
      target.location = d.dir.location ++ [Loader.fileName] := by
  have hname : ∀ name ∈ [Loader.fileName], IsName name := by decide
  exact location_place_of hname (by decide)

/-! ## Groups of outputs -/

theorem write_eq_ok (h : d.write t o = .ok t') :
    ∃ target, d.place o.path = .ok target ∧ t.write target o.content = .ok t' := by
  unfold write at h
  split at h
  · cases h
  · next target htarget =>
    split at h
    · next written hwritten =>
      cases h
      exact ⟨target, htarget, hwritten⟩
    · cases h

theorem isOk_write (d : Destination) (t : FileTree) (path : String) (a b : ByteArray) :
    (d.write t ⟨path, a⟩).isOk = (d.write t ⟨path, b⟩).isOk := by
  unfold write
  cases d.place path with
  | error e => rfl
  | ok target =>
    have hsame := FileTree.isOk_write t target a b
    dsimp only
    cases ha : t.write target a with
    | error e =>
      rw [ha] at hsame
      cases hb : t.write target b with
      | error e' => rfl
      | ok written =>
        rw [hb] at hsame
        cases hsame
    | ok written =>
      rw [ha] at hsame
      cases hb : t.write target b with
      | error e =>
        rw [hb] at hsame
        cases hsame
      | ok written' => rfl

/-- What no write of a group takes away is there after the group. -/
theorem writeGroup_invariant {P : FileTree → Prop}
    (hkeep : ∀ o ∈ group, ∀ target t t', d.place o.path = .ok target →
      t.write target o.content = .ok t' →
      P t → P t')
    (h : d.writeGroup t group = (t', none)) (ht : P t) : P t' := by
  induction group generalizing t with
  | nil =>
    cases h
    exact ht
  | cons o group ih =>
    rw [List.forall_mem_cons] at hkeep
    rw [writeGroup_cons] at h
    split at h
    · next written hwritten =>
      obtain ⟨target, hplace, hwrite⟩ := write_eq_ok hwritten
      exact ih hkeep.2 h (hkeep.1 target t written hplace hwrite ht)
    · cases h

/-- A file at which no output of a group goes stays as it is. -/
theorem look_writeGroup_of_ne (h : d.writeGroup t group = (t', none))
    (hne : ∀ o ∈ group, ∀ target, d.place o.path = .ok target → target.location ≠ place)
    (hfile : t.look place = .ok (.file bytes)) : t'.look place = .ok (.file bytes) :=
  writeGroup_invariant (P := fun t => t.look place = .ok (.file bytes))
    (fun o ho target _ _ hplace hwrite hlook =>
      FileTree.look_write_of_ne hwrite (hne o ho target hplace) hlook)
    h hfile

/-- An output of a group is at its place, if no other goes there. -/
theorem look_writeGroup_self {target : HostPath} (h : d.writeGroup t group = (t', none))
    (ho : o ∈ group) (hplace : d.place o.path = .ok target)
    (honly : ∀ other ∈ group, ∀ target', d.place other.path = .ok target' →
      target'.location = target.location → other = o) : t'.look target.location =
      .ok (.file o.content) := by
  induction group generalizing t with
  | nil => cases ho
  | cons first group ih =>
    rw [List.forall_mem_cons] at honly
    rw [writeGroup_cons] at h
    split at h
    · next written hwritten =>
      by_cases hlater : o ∈ group
      · exact ih h hlater honly.2
      · obtain rfl := (List.mem_cons.1 ho).resolve_right hlater
        obtain ⟨target', hplace', hwrite⟩ := write_eq_ok hwritten
        cases hplace.symm.trans hplace'
        refine look_writeGroup_of_ne h (fun other hother target' htarget' hsame => ?_)
          (FileTree.look_write_self hwrite)
        exact hlater (honly.2 other hother target' htarget' hsame ▸ hother)
    · cases h

end Destination

/-! ## Plain stylesheets -/

/-- What is written for a module whose name and source have one path: its code, and its plain
stylesheet if there is one; the stylesheet alone if both go to that path. -/
theorem Module.outputs_cases {m : Module} {path : String} (hpath : m.path.withoutScheme = path)
    (hrealPath : m.realPath = path) :
    (m.kind ≠ .style ∧ m.outputs = [⟨path, Text.encode m.outputCode⟩]) ∨
      (m.kind = .style ∧ cssPath path = path ∧ m.outputs = [⟨path, Text.encode m.code⟩]) ∨
      (m.kind = .style ∧ cssPath path ≠ path ∧
        m.outputs = [⟨path, Text.encode m.outputCode⟩,
          ⟨cssPath path, Text.encode m.code⟩]) := by
  have hown : m.ownOutput = ⟨path, Text.encode m.outputCode⟩ := by
    rw [ownOutput, Output.ofText, hpath]
  have hplain : m.plainStyle = ⟨cssPath path, Text.encode m.code⟩ := by
    rw [plainStyle, Output.ofText, hrealPath]
  unfold outputs
  rw [hrealPath, hpath, hown, hplain]
  by_cases hstyle : m.kind = .style
  · by_cases hsame : cssPath path = path
    · exact .inr (.inl ⟨hstyle, hsame, by rw [if_pos hstyle, if_pos hsame, hsame]⟩)
    · exact .inr (.inr ⟨hstyle, hsame, by rw [if_pos hstyle, if_neg hsame]⟩)
  · exact .inl ⟨hstyle, if_neg hstyle⟩

namespace QueryPath

open HostPath (IsName)

theorem exists_toList_pathOf_concat (front : List String) :
    ∃ dir, ∀ name, (pathOf (front ++ [name])).toList = dir ++ '/' :: name.toList := by
  by_cases hne : front = []
  · subst hne
    refine ⟨[], fun name => ?_⟩
    rw [toList_pathOf, List.nil_append, String.intercalate_singleton]
    rfl
  · refine ⟨(pathOf front).toList, fun name => ?_⟩
    rw [pathOf_append_index hne, String.toList_append, String.toList_append, List.append_assoc]
    rfl

/-- The path of a file that has a type, cut at its last dot. -/
theorem exists_cut_of_kind {names : List String} (h : ∀ name ∈ names, IsName name)
    (hkind : (FileTypes.standard.kind? (pathOf names)).isSome = true) :
    ∃ front name stem ext, names = front ++ [name] ∧
      Text.cutLast '.' name.toList = some (stem, ext) ∧
      stem ≠ [] := by
  unfold FileTypes.kind? HostPath.extension? HostPath.fileName? at hkind
  rw [components_pathOf h] at hkind
  rcases List.eq_nil_or_concat names with rfl | ⟨front, name, rfl⟩
  · cases hkind
  · rw [List.concat_eq_append, List.map_append, List.map_singleton, ← List.cons_append,
      List.getLast?_concat] at hkind
    dsimp only at hkind
    cases hcut : Text.cutLast '.' name.toList with
    | none =>
      rw [hcut] at hkind
      cases hkind
    | some cut =>
      obtain ⟨stem, ext⟩ := cut
      refine ⟨front, name, stem, ext, List.concat_eq_append, hcut, ?_⟩
      rintro rfl
      rw [hcut] at hkind
      cases hkind

/-- The plain stylesheet of a file lies beside the file. -/
theorem cssPath_pathOf {front : List String} {name : String} {stem ext : List Char}
    (hname : IsName name) (hcut : Text.cutLast '.' name.toList = some (stem, ext))
    (hstem : stem ≠ []) :
    cssPath (pathOf (front ++ [name])) = pathOf (front ++ [String.ofList stem ++ ".css"]) := by
  obtain ⟨dir, hdir⟩ := exists_toList_pathOf_concat front
  unfold cssPath
  rw [hdir, Text.cutLast_append dir hname.no_slash]
  dsimp only
  rw [hcut]
  dsimp only
  rw [if_neg (mt List.isEmpty_iff.1 hstem)]
  apply String.toList_inj.1
  rw [hdir]
  simp

section Stylesheets

variable {names : List String} (hnames : ∀ name ∈ names, IsStep name)
  (hkind : (FileTypes.standard.kind? (pathOf names)).isSome = true)
include hnames hkind

theorem exists_cssPath_eq :
    ∃ names', (∀ name ∈ names', IsStep name) ∧ cssPath (pathOf names) = pathOf names' := by
  obtain ⟨front, name, stem, ext, rfl, hcut, hstem⟩ :=
    exists_cut_of_kind (fun name hname => (hnames name hname).isName) hkind
  have hname := hnames name (List.mem_append_right _ List.mem_cons_self)
  refine ⟨_, fun other hother => ?_, cssPath_pathOf hname.isName hcut hstem⟩
  rcases List.mem_append.1 hother with hother | hother
  · exact hnames other (List.mem_append_left _ hother)
  · have hsplit := Text.cutLast_eq_some hcut
    have hnot : ∀ {c : Char}, c ∉ name.toList → c ∉ ".css".toList →
        c ∉ (String.ofList stem ++ ".css").toList := by
      intro c hc hcss
      rw [hsplit, List.mem_append, not_or] at hc
      rw [String.toList_append, String.toList_ofList, List.mem_append, not_or]
      exact ⟨hc.1, hcss⟩
    rw [List.mem_singleton.1 hother]
    refine isStep_of_mem (hnot hname.isName.no_slash (by decide))
      (hnot hname.no_backslash (by decide)) (c := 'c') ?_ (by decide)
    rw [String.toList_append]
    exact List.mem_append_right _ (by decide)

/-- A source has the path of its plain stylesheet if it ends in `.css`. -/
theorem cssPath_eq_self_iff :
    cssPath (pathOf names) = pathOf names ↔ Text.endsWith (pathOf names) ".css" = true := by
  obtain ⟨front, name, stem, ext, rfl, hcut, hstem⟩ :=
    exists_cut_of_kind (fun name hname => (hnames name hname).isName) hkind
  have hname := hnames name (List.mem_append_right _ List.mem_cons_self)
  have hsplit := Text.cutLast_eq_some hcut
  obtain ⟨dir, hdir⟩ := exists_toList_pathOf_concat front
  rw [cssPath_pathOf hname.isName hcut hstem, ← String.toList_inj, hdir, hdir,
    List.append_right_inj, List.cons_inj_right, hsplit]
  unfold Text.endsWith
  rw [List.isSuffixOf_iff_suffix, hdir, hsplit, String.toList_append, String.toList_ofList]
  constructor
  · intro hsame
    exact ⟨dir ++ '/' :: stem, by rw [← hsame]; simp⟩
  · rintro ⟨start, hstart⟩
    have hcss : Text.cutLast '.' (start ++ ".css".toList) = some (start, "css".toList) :=
      Text.cutLast_append start (by decide)
    have hregroup : dir ++ '/' :: (stem ++ '.' :: ext) =
      (dir ++ '/' :: stem) ++ '.' :: ext := by simp
    rw [hstart, hregroup, Text.cutLast_append _ (Text.not_mem_of_cutLast hcut)] at hcss
    have hext : ext = "css".toList := congrArg Prod.snd (Option.some.inj hcss)
    rw [hext]
    rfl

end Stylesheets

end QueryPath

end WebBundler
